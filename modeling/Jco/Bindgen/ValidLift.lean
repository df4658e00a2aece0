import Mathlib
import Jco.Codec.Char

/-!
# Lifting without validation

The code that `FunctionBindgen` emits to lift a value of a WIT type, with
`valid_lifting_optimization` and without. The instructions that read the option are the ones
of `bool`, `flags`, `variant`, `option`, `result` and `enum`; each has its two branches here.

What brings the operands to an instruction (loads, flat parameters, bitcasts) is the same
code in both settings and goes into a `Source`; so do the instructions of floats, strings,
canonical lists and handles, which `plain` stands for.

1. Types, lifted values and sources.
2. The instructions and the lift of a type.
3. The encodings that are valid.
4. The two settings on a valid encoding, and the checked one on all others.
-/

namespace Jco.Bindgen.ValidLift

open Jco.Js Jco.Lib Jco.Codec

/-! ## Types and values -/

/-- A WIT type, with its aliases resolved and its names as JavaScript spells them. The
payloads of the cases go by their position among the types. -/
inductive WitType (P : Type) where
  | bool
  | char
  | int (ty : IntTy)
  | plain (instr : P)
  | record {n : Nat} (fields : Fin n → String) (tys : Fin n → WitType P)
  | tuple {n : Nat} (tys : Fin n → WitType P)
  | flags (flags : List String)
  | enum (name : String) (cases : List String)
  | variant {n k : Nat} (name : String) (cases : Fin n → String)
      (payload : Fin n → Option (Fin k)) (tys : Fin k → WitType P)
  | option (payload : WitType P)
  | result {k : Nat} (ok err : Option (Fin k)) (tys : Fin k → WitType P)
  | list (elem : WitType P)
  | map (key value : WitType P)

inductive Lifted (β : Type) where
  | undefined
  | bool (b : Bool)
  | num (n : Int)
  | str (s : String)
  | char (units : Utf16.Units)
  | obj (props : List (String × Lifted β))
  | arr (elems : List (Lifted β))
  /-- A `Map`, by its calls of `set`. -/
  | map (entries : List (Lifted β × Lifted β))
  | plain (v : β)

/-- Where the operands of the instructions come from: places, and what is found there. -/
structure Source (P L β : Type) where
  operands : WitType P → L → List Int
  /-- The place of a field, an element, or the payload of a case. -/
  part : WitType P → L → Nat → L
  /-- The place of the value that belongs to a key. -/
  value : WitType P → L → Nat → L
  length : WitType P → L → Nat
  plain : P → L → Except JsError β

/-! ## The instructions -/

section Instructions

variable {β ε α : Type} (validLiftingOptimization : Bool)

/-- `a & mask`, unlike zero -/
def anyBit (op : Int) (mask : BitVec 32) : Bool := (BitVec.ofInt 32 op &&& mask) != 0#32

def clampGuest (i min max : Int) : Except JsError (Lifted β) :=
  if i < min ∨ max < i then .error (.typeError s!"must be between {min} and {max}")
  else .ok (.num i)

/-- `U8FromI32` and its like -/
def intLift : IntTy → Int → Except JsError (Lifted β)
  | .u8, op => clampGuest op 0 255
  | .s8, op => clampGuest op (-128) 127
  | .u16, op => clampGuest op 0 65535
  | .s16, op => clampGuest op (-32768) 32767
  | .u32, op => .ok (.num (op % 2 ^ 32))
  | .u64, op => .ok (.num (op % 2 ^ 64))
  | .s32, op | .s64, op => .ok (.num op)

def charFromI32 (op : Int) : Except JsError (Lifted β) :=
  (Jco.Chars.validateGuestChar op).map .char

def boolFromI32 (op : Int) : Except JsError (Lifted β) :=
  if validLiftingOptimization then .ok (.bool (op != 0))
  else if op = 0 then .ok (.bool false)
  else if op = 1 then .ok (.bool true)
  else .error (.typeError "invalid variant discriminant for bool")

/-- The bits of the last operand that belong to no flag. -/
def extraneous (count : Nat) : BitVec 32 := 0xffffffff#32 <<< (count % 32)

def flagsLift (flags : List String) (operands : List Int) : Except JsError (Lifted β) :=
  if flags.length % 32 ≠ 0 ∧ validLiftingOptimization = false ∧
      operands.getLast?.any (anyBit · (extraneous flags.length)) then
    .error (.typeError "flags have extraneous bits set")
  else
    .ok (.obj (flags.zipIdx.map fun flag =>
      (flag.1, .bool (anyBit (operands[flag.2 / 32]?.getD 0) (1#32 <<< (flag.2 % 32))))))

/-- The `case i` of a `switch` that a number takes. -/
def caseOf (n : Nat) (op : Int) : Option (Fin n) :=
  if h : op.toNat < n then if 0 ≤ op then some ⟨op.toNat, h⟩ else none else none

/-- The end of a `switch`: without validation there is no `default`, and the variable keeps
the value that it was declared with. -/
def noCase (message : String) : Except JsError (Lifted β) :=
  if validLiftingOptimization then .ok .undefined else .error (.typeError message)

def enumLift (name : String) (cases : List String) (op : Int) : Except JsError (Lifted β) :=
  match caseOf cases.length op with
  | some i => .ok (.str (cases.get i))
  | none => noCase validLiftingOptimization s!"invalid discriminant specified for {name}"

def variantLift {n : Nat} (name : String) (cases : Fin n → String)
    (block : Fin n → Option (Except JsError (Lifted β))) (op : Int) :
    Except JsError (Lifted β) :=
  match caseOf n op with
  | some i =>
    match block i with
    | some result => result.map fun val => .obj [("tag", .str (cases i)), ("val", val)]
    | none => .ok (.obj [("tag", .str (cases i))])
  | none => noCase validLiftingOptimization s!"invalid variant discriminant for {name}"

/-- A type that `null` is a value of. -/
def maybeNull {P : Type} : WitType P → Bool
  | .option payload => !maybeNull payload
  | _ => false

def optionLift (maybeNull : Bool) (some : Except JsError (Lifted β)) (op : Int) :
    Except JsError (Lifted β) :=
  let vNone : Lifted β := if maybeNull then .obj [("tag", .str "none")] else .undefined
  let vSome (val : Lifted β) : Lifted β :=
    if maybeNull then .obj [("tag", .str "some"), ("val", val)] else val
  if validLiftingOptimization then
    if op != 0 then some.map vSome else .ok vNone
  else if op = 0 then .ok vNone
  else if op = 1 then some.map vSome
  else .error (.typeError "invalid variant discriminant for option")

def resultLift (ok err : Except JsError (Lifted β)) (op : Int) : Except JsError (Lifted β) :=
  let vOk (val : Lifted β) : Lifted β := .obj [("tag", .str "ok"), ("val", val)]
  let vErr (val : Lifted β) : Lifted β := .obj [("tag", .str "err"), ("val", val)]
  if validLiftingOptimization then
    if op != 0 then err.map vErr else ok.map vOk
  else if op = 0 then ok.map vOk
  else if op = 1 then err.map vErr
  else .error (.typeError "invalid variant discriminant for expected")

/-- What runs one after the other, up to the first that throws. -/
def each : {n : Nat} → (Fin n → Except ε α) → Except ε (List α)
  | 0, _ => .ok []
  | _ + 1, f => do
    let a ← f 0
    let rest ← each fun i => f i.succ
    return a :: rest

end Instructions

/-! ## The lift of a type -/

section Lift

variable {P L β : Type} (src : Source P L β) (validLiftingOptimization : Bool)

/-- The only operand of an instruction that has one. -/
def Source.operand (ty : WitType P) (l : L) : Int := (src.operands ty l).headD 0

/-- The block of a payload, or `undefined`. -/
def payloadOr (payload : Option (Except JsError (Lifted β))) : Except JsError (Lifted β) :=
  payload.getD (.ok .undefined)

def lift : WitType P → L → Except JsError (Lifted β)
  | .bool, l => boolFromI32 validLiftingOptimization (src.operand .bool l)
  | .char, l => charFromI32 (src.operand .char l)
  | .int ty, l => intLift ty (src.operand (.int ty) l)
  | .plain instr, l => (src.plain instr l).map .plain
  | .record fields tys, l =>
    (each fun i => lift (tys i) (src.part (.record fields tys) l i)).map fun vals =>
      .obj ((List.ofFn fields).zip vals)
  | .tuple tys, l => (each fun i => lift (tys i) (src.part (.tuple tys) l i)).map .arr
  | .flags flags, l => flagsLift validLiftingOptimization flags (src.operands (.flags flags) l)
  | .enum name cases, l =>
    enumLift validLiftingOptimization name cases (src.operand (.enum name cases) l)
  | .variant name cases payload tys, l =>
    variantLift validLiftingOptimization name cases
      (fun i => (payload i).map fun j =>
        lift (tys j) (src.part (.variant name cases payload tys) l i))
      (src.operand (.variant name cases payload tys) l)
  | .option payload, l =>
    optionLift validLiftingOptimization (maybeNull payload)
      (lift payload (src.part (.option payload) l 1)) (src.operand (.option payload) l)
  | .result ok err tys, l =>
    resultLift validLiftingOptimization
      (payloadOr (ok.map fun j => lift (tys j) (src.part (.result ok err tys) l 0)))
      (payloadOr (err.map fun j => lift (tys j) (src.part (.result ok err tys) l 1)))
      (src.operand (.result ok err tys) l)
  | .list elem, l =>
    (each fun i : Fin (src.length (.list elem) l) =>
      lift elem (src.part (.list elem) l i)).map .arr
  | .map key value, l =>
    (each fun i : Fin (src.length (.map key value) l) => do
      let k ← lift key (src.part (.map key value) l i)
      let v ← lift value (src.value (.map key value) l i)
      return (k, v)).map .map

/-! ## Valid encodings -/

/-- The numbers that an integer type may arrive as; from 32 bits on all of them. -/
def intBounds : IntTy → Option (Int × Int)
  | .u8 => some (0, 255)
  | .s8 => some (-128, 127)
  | .u16 => some (0, 65535)
  | .s16 => some (-32768, 32767)
  | _ => none

/-- A discriminant is the number of a case, a `bool` is zero or one, a `char` is a code point,
and the operand that holds the last flags holds nothing else. -/
def Valid : WitType P → L → Prop
  | .bool, l => src.operand .bool l = 0 ∨ src.operand .bool l = 1
  | .char, l => ∃ c : Char, src.operand .char l = c.toNat
  | .int ty, l =>
    ∀ bounds ∈ intBounds ty,
      bounds.1 ≤ src.operand (.int ty) l ∧ src.operand (.int ty) l ≤ bounds.2
  | .plain instr, l => ∃ v, src.plain instr l = .ok v
  | .record fields tys, l => ∀ i, Valid (tys i) (src.part (.record fields tys) l i)
  | .tuple tys, l => ∀ i, Valid (tys i) (src.part (.tuple tys) l i)
  | .flags flags, l =>
    flags.length % 32 ≠ 0 → ∀ op ∈ (src.operands (.flags flags) l).getLast?,
      ∀ j < 32, flags.length % 32 ≤ j → (BitVec.ofInt 32 op).getLsbD j = false
  | .enum name cases, l => ∃ i : Fin cases.length, src.operand (.enum name cases) l = (i : Nat)
  | .variant (n := n) name cases payload tys, l =>
    ∃ i : Fin n, src.operand (.variant name cases payload tys) l = (i : Nat) ∧
      ∀ j, payload i = some j →
        Valid (tys j) (src.part (.variant name cases payload tys) l i)
  | .option payload, l =>
    src.operand (.option payload) l = 0 ∨
      src.operand (.option payload) l = 1 ∧ Valid payload (src.part (.option payload) l 1)
  | .result ok err tys, l =>
    src.operand (.result ok err tys) l = 0 ∧
        (∀ j, ok = some j → Valid (tys j) (src.part (.result ok err tys) l 0)) ∨
      src.operand (.result ok err tys) l = 1 ∧
        ∀ j, err = some j → Valid (tys j) (src.part (.result ok err tys) l 1)
  | .list elem, l =>
    ∀ i : Fin (src.length (.list elem) l), Valid elem (src.part (.list elem) l i)
  | .map key value, l =>
    ∀ i : Fin (src.length (.map key value) l),
      Valid key (src.part (.map key value) l i) ∧ Valid value (src.value (.map key value) l i)

end Lift

/-! ## One instruction -/

section OneInstruction

variable {β ε α : Type}

variable {n : Nat}

theorem each_ok {f : Fin n → Except ε α} {v : Fin n → α} (h : ∀ i, f i = .ok (v i)) :
    each f = .ok (List.ofFn v) := by
  induction n with
  | zero => rfl
  | succ n ih =>
    have hrest := ih fun i => h i.succ
    unfold each
    rw [h 0, hrest, List.ofFn_succ]
    rfl

theorem ok_of_map {γ : Type} {x : Except ε α} {f : α → γ} {c : γ} (h : x.map f = .ok c) :
    ∃ a, x = .ok a := by
  cases x with
  | error err => cases h
  | ok a => exact ⟨a, rfl⟩

theorem ok_of_each {f : Fin n → Except ε α} {vs : List α} (h : each f = .ok vs) :
    ∀ i, ∃ v, f i = .ok v := by
  induction n generalizing vs with
  | zero => exact fun i => i.elim0
  | succ n ih =>
    unfold each at h
    cases hfirst : f 0 with
    | error err =>
      rw [hfirst] at h
      cases h
    | ok a =>
      rw [hfirst] at h
      cases hrest : each fun i : Fin n => f i.succ with
      | error err =>
        rw [show (Except.ok a >>= fun a => _) = _ from rfl, hrest] at h
        cases h
      | ok rest => exact Fin.cases ⟨a, hfirst⟩ (ih hrest)

variable {op : Int}

theorem boolFromI32_valid (h : op = 0 ∨ op = 1) :
    ∃ v : Lifted β, ∀ valid, boolFromI32 valid op = .ok v := by
  refine ⟨.bool (op != 0), fun valid => ?_⟩
  rcases h with rfl | rfl <;> cases valid <;> rfl

theorem bool_of_ok {v : Lifted β} (h : boolFromI32 false op = .ok v) :
    op = 0 ∨ op = 1 := by
  by_contra hno
  rw [not_or] at hno
  rw [boolFromI32, if_neg Bool.false_ne_true, if_neg hno.1, if_neg hno.2] at h
  cases h

/-- The check of the flags looks at the bits that belong to none. -/
theorem anyBit_extraneous {count : Nat} :
    anyBit op (extraneous count) = false ↔
      ∀ j < 32, count % 32 ≤ j → (BitVec.ofInt 32 op).getLsbD j = false := by
  have hbit : ∀ j < 32, (BitVec.ofInt 32 op &&& extraneous count).getLsbD j =
      ((BitVec.ofInt 32 op).getLsbD j && decide (count % 32 ≤ j)) := by
    intro j hj
    have hones : (0xffffffff#32 : BitVec 32) = BitVec.allOnes 32 := rfl
    rw [BitVec.getLsbD_and, extraneous, hones, BitVec.getLsbD_shiftLeft, BitVec.getLsbD_allOnes]
    have hsub : j - count % 32 < 32 := by omega
    simp only [hj, hsub, decide_true, Bool.true_and, Bool.and_true, ← not_lt, decide_not]
  rw [anyBit, bne_eq_false_iff_eq]
  constructor
  · intro hzero j hj hle
    have hj' := hbit j hj
    rw [hzero, BitVec.getLsbD_zero, decide_eq_true hle, Bool.and_true] at hj'
    exact hj'.symm
  · intro hclear
    apply BitVec.eq_of_getLsbD_eq
    intro j hj
    rw [hbit j hj, BitVec.getLsbD_zero]
    by_cases hle : count % 32 ≤ j
    · rw [hclear j hj hle, Bool.false_and]
    · rw [decide_eq_false hle, Bool.and_false]

/-- What the check refuses. -/
theorem flags_refused {flags : List String} {operands : List Int} :
    (flags.length % 32 ≠ 0 ∧ (false = false) ∧
      operands.getLast?.any (anyBit · (extraneous flags.length))) ↔
    ¬ (flags.length % 32 ≠ 0 → ∀ op ∈ operands.getLast?,
      ∀ j < 32, flags.length % 32 ≤ j → (BitVec.ofInt 32 op).getLsbD j = false) := by
  rw [Classical.not_imp]
  refine and_congr_right fun _ => ?_
  cases operands.getLast? with
  | none => simp
  | some op =>
    rw [Option.any_some, ← Bool.not_eq_false, anyBit_extraneous]
    simp

theorem flagsLift_valid {flags : List String} {operands : List Int}
    (h : flags.length % 32 ≠ 0 → ∀ op ∈ operands.getLast?,
      ∀ j < 32, flags.length % 32 ≤ j → (BitVec.ofInt 32 op).getLsbD j = false) :
    ∃ v : Lifted β, ∀ valid, flagsLift valid flags operands = .ok v := by
  refine ⟨_, fun valid => if_neg ?_⟩
  intro hrefused
  exact flags_refused.1 ⟨hrefused.1, rfl, hrefused.2.2⟩ h

theorem caseOf_cast (i : Fin n) : caseOf n (i : Nat) = some i := by
  rw [caseOf, dif_pos (by rw [Int.toNat_natCast]; exact i.isLt), if_pos (Int.natCast_nonneg _)]
  rfl

theorem eq_of_caseOf {i : Fin n} (h : caseOf n op = some i) :
    op = (i : Nat) := by
  unfold caseOf at h
  by_cases hlt : op.toNat < n
  · rw [dif_pos hlt] at h
    by_cases hpos : 0 ≤ op
    · rw [if_pos hpos] at h
      cases Option.some.inj h
      exact (Int.toNat_of_nonneg hpos).symm
    · rw [if_neg hpos] at h
      cases h
  · rw [dif_neg hlt] at h
    cases h

/-! Zero and one take the same branch of a `switch` and of an `if`. -/

theorem optionLift_zero (valid maybeNull : Bool) (block : Except JsError (Lifted β)) :
    optionLift valid maybeNull block 0 =
      .ok (if maybeNull then .obj [("tag", .str "none")] else .undefined) := by
  cases valid <;> rfl

theorem optionLift_one (valid maybeNull : Bool) (val : Lifted β) :
    optionLift valid maybeNull (.ok val) 1 =
      .ok (if maybeNull then .obj [("tag", .str "some"), ("val", val)] else val) := by
  cases valid <;> rfl

theorem resultLift_zero (valid : Bool) (val : Lifted β) (err : Except JsError (Lifted β)) :
    resultLift valid (.ok val) err 0 = .ok (.obj [("tag", .str "ok"), ("val", val)]) := by
  cases valid <;> rfl

theorem resultLift_one (valid : Bool) (ok : Except JsError (Lifted β)) (val : Lifted β) :
    resultLift valid ok (.ok val) 1 = .ok (.obj [("tag", .str "err"), ("val", val)]) := by
  cases valid <;> rfl

theorem intLift_ok_iff {ty : IntTy} :
    (∃ v : Lifted β, intLift ty op = .ok v) ↔
      ∀ bounds ∈ intBounds ty, bounds.1 ≤ op ∧ op ≤ bounds.2 := by
  have hclamp : ∀ min max : Int,
      (∃ v : Lifted β, clampGuest op min max = .ok v) ↔ min ≤ op ∧ op ≤ max := by
    intro min max
    unfold clampGuest
    by_cases hout : op < min ∨ max < op
    · rw [if_pos hout]
      exact iff_of_false (fun h => by cases h.choose_spec) (by omega)
    · rw [if_neg hout]
      exact iff_of_true ⟨_, rfl⟩ (by omega)
  cases ty <;> simp only [intBounds, intLift, hclamp, Option.mem_def, forall_eq', reduceCtorEq, false_implies, implies_true, iff_true, Option.some.injEq] <;>
    exact ⟨_, rfl⟩

theorem charFromI32_ok_iff :
    (∃ v : Lifted β, charFromI32 op = .ok v) ↔ ∃ c : Char, op = c.toNat := by
  rcases Jco.Chars.validateGuestChar_exact op with ⟨hchar, hno⟩
  constructor
  · rintro ⟨v, hv⟩
    by_contra hnone
    rcases hno fun c hc => hnone ⟨c, hc⟩ with ⟨err, herr⟩
    rw [charFromI32, herr] at hv
    cases hv
  · rintro ⟨c, hc⟩
    exact ⟨_, by rw [charFromI32, hchar c hc]; rfl⟩

end OneInstruction

/-! ## Both settings -/

section Both

variable {P L β : Type} (src : Source P L β)

/-- On a valid encoding both settings lift the same value. -/
theorem lift_valid (ty : WitType P) (l : L) (h : Valid src ty l) :
    ∃ v, lift src false ty l = .ok v ∧ lift src true ty l = .ok v := by
  suffices hsame : ∃ v, ∀ valid, lift src valid ty l = .ok v by
    rcases hsame with ⟨v, hv⟩
    exact ⟨v, hv false, hv true⟩
  induction ty generalizing l with
  | bool => exact boolFromI32_valid h
  | char =>
    rcases charFromI32_ok_iff.2 h with ⟨v, hv⟩
    exact ⟨v, fun _ => hv⟩
  | int ty =>
    rcases intLift_ok_iff.2 h with ⟨v, hv⟩
    exact ⟨v, fun _ => hv⟩
  | plain instr =>
    rcases h with ⟨v, hv⟩
    exact ⟨.plain v, fun _ => by rw [lift, hv]; rfl⟩
  | record fields tys ih =>
    choose vals hvals using fun i => ih i _ (h i)
    exact ⟨_, fun valid => by rw [lift, each_ok fun i => hvals i valid]; rfl⟩
  | tuple tys ih =>
    choose vals hvals using fun i => ih i _ (h i)
    exact ⟨_, fun valid => by rw [lift, each_ok fun i => hvals i valid]; rfl⟩
  | flags flags => exact flagsLift_valid h
  | enum name cases =>
    rcases h with ⟨i, hop⟩
    exact ⟨_, fun valid => by rw [lift, enumLift, hop, caseOf_cast]⟩
  | variant name cases payload tys ih =>
    rcases h with ⟨i, hop, hpayload⟩
    cases hj : payload i with
    | none =>
      refine ⟨.obj [("tag", .str (cases i))], fun valid => ?_⟩
      rw [lift, variantLift, hop, caseOf_cast]
      dsimp only
      rw [hj]
      rfl
    | some j =>
      rcases ih j _ (hpayload j hj) with ⟨val, hval⟩
      refine ⟨.obj [("tag", .str (cases i)), ("val", val)], fun valid => ?_⟩
      rw [lift, variantLift, hop, caseOf_cast]
      dsimp only
      rw [hj, Option.map_some, hval valid]
      rfl
  | option payload ih =>
    rcases h with hop | ⟨hop, hsome⟩
    · exact ⟨_, fun valid => by rw [lift, hop, optionLift_zero]⟩
    · rcases ih _ hsome with ⟨val, hval⟩
      exact ⟨_, fun valid => by rw [lift, hop, hval valid, optionLift_one]⟩
  | result ok err tys ih =>
    -- a case without payload lifts to `undefined`
    have hblock : ∀ (payload : Option (Fin _)) (l : L),
        (∀ j, payload = some j → Valid src (tys j) l) →
          ∃ v, ∀ valid, payloadOr (payload.map fun j => lift src valid (tys j) l) = .ok v := by
      intro payload l hvalid
      cases payload with
      | none => exact ⟨.undefined, fun _ => rfl⟩
      | some j => exact ih j l (hvalid j rfl)
    rcases h with ⟨hop, hok⟩ | ⟨hop, herr⟩
    · rcases hblock ok _ hok with ⟨val, hval⟩
      exact ⟨_, fun valid => by rw [lift, hop, hval valid, resultLift_zero]⟩
    · rcases hblock err _ herr with ⟨val, hval⟩
      exact ⟨_, fun valid => by rw [lift, hop, hval valid, resultLift_one]⟩
  | list elem ih =>
    choose vals hvals using fun i => ih _ (h i)
    exact ⟨_, fun valid => by rw [lift, each_ok fun i => hvals i valid]; rfl⟩
  | map key value ihkey ihvalue =>
    choose keys hkeys using fun i => ihkey _ (h i).1
    choose vals hvals using fun i => ihvalue _ (h i).2
    refine ⟨.map (List.ofFn fun i => (keys i, vals i)), fun valid => ?_⟩
    rw [lift, each_ok (v := fun i => (keys i, vals i)) fun i => ?_]
    · rfl
    · rw [hkeys i valid, hvals i valid]
      rfl

/-- The code with validation throws on every other encoding. -/
theorem valid_of_lift (ty : WitType P) (l : L) {v : Lifted β}
    (h : lift src false ty l = .ok v) : Valid src ty l := by
  -- On the type: what the parts were lifted from is valid by induction.
  induction ty generalizing l v with
  | bool => exact bool_of_ok h
  | char => exact charFromI32_ok_iff.1 ⟨v, h⟩
  | int ty => exact intLift_ok_iff.1 ⟨v, h⟩
  | plain instr => exact ok_of_map h
  | record fields tys ih =>
    rcases ok_of_map h with ⟨vals, hvals⟩
    intro i
    rcases ok_of_each hvals i with ⟨val, hval⟩
    exact ih i _ hval
  | tuple tys ih =>
    rcases ok_of_map h with ⟨vals, hvals⟩
    intro i
    rcases ok_of_each hvals i with ⟨val, hval⟩
    exact ih i _ hval
  | flags flags =>
    -- a bit beyond the names is refused
    by_contra hrefused
    rw [lift, flagsLift, if_pos (flags_refused.2 hrefused)] at h
    cases h
  | enum name cases =>
    rw [lift, enumLift] at h
    cases hcase : caseOf cases.length (src.operand (.enum name cases) l) with
    | some i => exact ⟨i, eq_of_caseOf hcase⟩
    | none =>
      rw [hcase] at h
      cases h
  | variant name cases payload tys ih =>
    -- the case that was found is the one of the discriminant
    rw [lift, variantLift] at h
    cases hcase : caseOf _ (src.operand (.variant name cases payload tys) l) with
    | none =>
      rw [hcase] at h
      cases h
    | some i =>
      refine ⟨i, eq_of_caseOf hcase, fun j hj => ?_⟩
      rw [hcase] at h
      dsimp only at h
      rw [hj] at h
      rcases ok_of_map h with ⟨val, hval⟩
      exact ih j _ hval
  | option payload ih =>
    -- the discriminant is zero or one, or else the code throws
    rw [lift, optionLift, if_neg Bool.false_ne_true] at h
    by_cases hzero : src.operand (.option payload) l = 0
    · exact .inl hzero
    · rw [if_neg hzero] at h
      by_cases hone : src.operand (.option payload) l = 1
      · rw [if_pos hone] at h
        rcases ok_of_map h with ⟨val, hval⟩
        exact .inr ⟨hone, ih _ hval⟩
      · rw [if_neg hone] at h
        cases h
  | result ok err tys ih =>
    have hblock : ∀ (payload : Option (Fin _)) (l : L) (v : Lifted β),
        payloadOr (payload.map fun j => lift src false (tys j) l) = .ok v →
          ∀ j, payload = some j → Valid src (tys j) l := by
      rintro payload l v hv j rfl
      exact ih j l hv
    rw [lift, resultLift, if_neg Bool.false_ne_true] at h
    by_cases hzero : src.operand (.result ok err tys) l = 0
    · rw [if_pos hzero] at h
      rcases ok_of_map h with ⟨val, hval⟩
      exact .inl ⟨hzero, hblock ok _ val hval⟩
    · rw [if_neg hzero] at h
      by_cases hone : src.operand (.result ok err tys) l = 1
      · rw [if_pos hone] at h
        rcases ok_of_map h with ⟨val, hval⟩
        exact .inr ⟨hone, hblock err _ val hval⟩
      · rw [if_neg hone] at h
        cases h
  | list elem ih =>
    rcases ok_of_map h with ⟨vals, hvals⟩
    intro i
    rcases ok_of_each hvals i with ⟨val, hval⟩
    exact ih _ hval
  | map key value ihkey ihvalue =>
    rcases ok_of_map h with ⟨vals, hvals⟩
    intro i
    rcases ok_of_each hvals i with ⟨entry, hentry⟩
    cases hkey : lift src false key (src.part (.map key value) l i) with
    | error err =>
      rw [hkey] at hentry
      cases hentry
    | ok k =>
      cases hvalue : lift src false value (src.value (.map key value) l i) with
      | error err =>
        rw [hkey, hvalue] at hentry
        cases hentry
      | ok x => exact ⟨ihkey _ hkey, ihvalue _ hvalue⟩

/-- The valid encodings are the ones that the code with validation accepts, and leaving the
validation out changes none of their values. -/
theorem valid_lifting_optimization (ty : WitType P) (l : L) :
    (Valid src ty l ↔ ∃ v, lift src false ty l = .ok v) ∧
      (Valid src ty l → lift src true ty l = lift src false ty l) := by
  constructor
  · constructor
    · intro h
      rcases lift_valid src ty l h with ⟨v, hv, -⟩
      exact ⟨v, hv⟩
    · rintro ⟨v, hv⟩
      exact valid_of_lift src ty l hv
  · intro h
    rcases lift_valid src ty l h with ⟨v, hchecked, hunchecked⟩
    rw [hchecked, hunchecked]

end Both

end Jco.Bindgen.ValidLift

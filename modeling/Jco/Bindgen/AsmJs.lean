import Mathlib
import Jco.Js.Basic
import Jco.Js.BigInt
import Jco.Js.Int32

/-! # 64-bit numbers in the convention of `asm.js`

A core function that was turned into JavaScript takes an `i64` as two numbers, the low word
before the high one. It returns the low word, and it passes the high one to `setTempRet0`.
Generated code splits the operands of a call and merges the result.

The low word of `mergeInt64` is a signed number: where its highest bit is set, the union with
the high word has ones in all the bits above.
-/

namespace Jco.Bindgen.AsmJs

open Jco.Js BitVec

/-! ## The intrinsics -/

/-- `splitInt64` -/
def splitInt64 (i : Int) : Int × Int :=
  (bitOr (Int.land i 0xFFFFFFFF) 0, bitOr (Int.land (i >>> (32 : Nat)) 0xFFFFFFFF) 0)

/-- `mergeInt64` -/
def mergeInt64 (l h : Int) : Int := Int.lor (bitOr l 0) (bitOr h 0 <<< (32 : Nat))

/-! ## `Instruction::CallWasm` -/

/-- `WasmType` -/
inductive WasmType where
  | i32 | i64 | f32 | f64 | pointer | pointerOrI64 | length
deriving DecidableEq, Repr

section

variable {F : Type}

/-- What an operand evaluates to. Floating-point numbers are passed on as they are. -/
inductive Operand (F : Type) where
  | number (n : Int)
  | bigint (n : Int)
  | float (x : F)
deriving DecidableEq, Repr

/-- `...(splitInt64(op))`. A `BigInt` is not mixed with a number. -/
def splitOperand : Operand F → Except JsError (List (Operand F))
  | .bigint n => .ok [.number (splitInt64 n).1, .number (splitInt64 n).2]
  | .number _ | .float _ => .error .engine

/-- The arguments of the call. -/
def args : List WasmType → List (Operand F) → Except JsError (List (Operand F))
  | t :: params, op :: operands => do
      let first ← if t = .i64 then splitOperand op else .ok [op]
      let rest ← args params operands
      return first ++ rest
  | _, _ => .ok []

/-- `setTempRet0`, for the values it is called with. The field is `0` before. -/
def tmpRetI64HighBits (calls : List Int) : Int := calls.foldl (fun _ x => bitOr x 0) 0

/-- What the callee returns, and what it has passed to `setTempRet0`. -/
structure Returned (F : Type) where
  ret : Operand F
  setTempRet0 : List Int

/-- `callee_invoke`, for a signature with one result. `toInt32` is what `| 0` does to a
floating-point number. -/
def calleeInvoke (toInt32 : F → Int) (result : WasmType) (r : Returned F) :
    Except JsError (Operand F) :=
  if result = .i64 then
    match r.ret with
    | .number l => .ok (.bigint (mergeInt64 l (tmpRetI64HighBits r.setTempRet0)))
    | .float x => .ok (.bigint (mergeInt64 (toInt32 x) (tmpRetI64HighBits r.setTempRet0)))
    | .bigint _ => .error .engine
  else .ok r.ret

/-! ## The convention -/

/-- A value of a core function. -/
inductive CoreVal (F : Type) where
  | i32 (v : BitVec 32)
  | i64 (v : BitVec 64)
  | float (x : F)
deriving DecidableEq, Repr

/-- An operand with the type that its instruction has given it. -/
inductive Typed (F : Type) where
  | i32 (n : Int)
  | i64 (n : Int)
  | f32 (x : F)
  | f64 (x : F)
  | pointer (n : Int)
  | pointerOrI64 (n : Int)
  | length (n : Int)
deriving DecidableEq, Repr

namespace Typed

def type : Typed F → WasmType
  | .i32 _ => .i32
  | .i64 _ => .i64
  | .f32 _ => .f32
  | .f64 _ => .f64
  | .pointer _ => .pointer
  | .pointerOrI64 _ => .pointerOrI64
  | .length _ => .length

def operand : Typed F → Operand F
  | .i32 n | .pointer n | .length n => .number n
  | .i64 n | .pointerOrI64 n => .bigint n
  | .f32 x | .f64 x => .float x

/-- What core code is meant to get. -/
def value : Typed F → CoreVal F
  | .i32 n | .pointer n | .length n => .i32 (BitVec.ofInt 32 n)
  | .i64 n | .pointerOrI64 n => .i64 (BitVec.ofInt 64 n)
  | .f32 x | .f64 x => .float x

end Typed

/-- The value of two words. -/
def ofWords (l h : Int) : BitVec 64 := BitVec.ofInt 32 h ++ BitVec.ofInt 32 l

def lowWord (v : BitVec 64) : BitVec 32 := v.setWidth 32

def highWord (v : BitVec 64) : BitVec 32 := v.extractLsb' 32 32

/-- The parameters that the arguments of a call stand for, if they are in the convention. -/
def receive : List WasmType → List (Operand F) → Option (List (CoreVal F))
  | [], [] => some []
  | .i32 :: params, .number n :: rest
  | .pointer :: params, .number n :: rest
  | .length :: params, .number n :: rest =>
    (receive params rest).map (.i32 (BitVec.ofInt 32 n) :: ·)
  | .i64 :: params, .number l :: .number h :: rest
  | .pointerOrI64 :: params, .number l :: .number h :: rest =>
    (receive params rest).map (.i64 (ofWords l h) :: ·)
  | .f32 :: params, .float x :: rest
  | .f64 :: params, .float x :: rest => (receive params rest).map (.float x :: ·)
  | _, _ => none

/-- What a callee with a result returns in the convention, after other calls of
`setTempRet0`. -/
def Typed.returned (calls : List Int) : Typed F → Returned F
  | .i64 n | .pointerOrI64 n =>
    ⟨.number (lowWord (BitVec.ofInt 64 n)).toInt,
      calls ++ [(highWord (BitVec.ofInt 64 n)).toInt]⟩
  | p => ⟨p.operand, calls⟩

/-- The result that lifting goes on with. -/
def result : WasmType → Operand F → Option (CoreVal F)
  | .i32, .number n | .pointer, .number n | .length, .number n => some (.i32 (BitVec.ofInt 32 n))
  | .i64, .bigint n | .pointerOrI64, .bigint n => some (.i64 (BitVec.ofInt 64 n))
  | .f32, .float x | .f64, .float x => some (.float x)
  | _, _ => none

/-! ## What is split and merged -/

/-- If the low word has its highest bit set, the high word is its sign extension. -/
def Extended (l h : BitVec 32) : Prop := l.msb = true → h = BitVec.allOnes 32

instance (l h : BitVec 32) : Decidable (Extended l h) := inferInstanceAs (Decidable (_ → _))

theorem bitOr_zero (x : Int) : bitOr x 0 = Int.bmod x (2 ^ 32) := by
  have hzero : BitVec.ofInt 32 0 = 0#32 := rfl
  unfold bitOr
  rw [hzero, BitVec.or_zero, BitVec.toInt_ofInt]

theorem bitOr_zero_toInt (v : BitVec 32) : bitOr v.toInt 0 = v.toInt := by
  rw [bitOr_zero, ← toInt_ofInt, ofInt_toInt]

theorem ofInt_emod (i : Int) : BitVec.ofInt 32 (i % 2 ^ 32) = BitVec.ofInt 32 i := by
  apply BitVec.eq_of_toNat_eq
  rw [BitVec.toNat_ofInt, BitVec.toNat_ofInt]
  norm_num

theorem lowWord_ofInt (i : Int) : lowWord (BitVec.ofInt 64 i) = BitVec.ofInt 32 i := by
  unfold lowWord
  apply BitVec.eq_of_toNat_eq
  rw [BitVec.toNat_setWidth, BitVec.toNat_ofInt, BitVec.toNat_ofInt]
  omega

theorem highWord_ofInt (i : Int) :
    highWord (BitVec.ofInt 64 i) = BitVec.ofInt 32 (i / 2 ^ 32) := by
  unfold highWord
  apply BitVec.eq_of_toNat_eq
  rw [BitVec.extractLsb'_toNat, BitVec.toNat_ofInt, BitVec.toNat_ofInt, Nat.shiftRight_eq_div_pow]
  omega

theorem append_words (v : BitVec 64) : highWord v ++ lowWord v = v := by
  apply eq_of_toNat_eq
  unfold highWord lowWord
  rw [toNat_append, extractLsb'_toNat, toNat_setWidth,
    ← Nat.shiftLeft_add_eq_or_of_lt (by omega), Nat.shiftLeft_eq, Nat.shiftRight_eq_div_pow]
  omega

theorem lowWord_append (h l : BitVec 32) : lowWord (h ++ l) = l := by
  unfold lowWord
  apply eq_of_toNat_eq
  have hl := l.isLt
  rw [toNat_setWidth, toNat_append, ← Nat.shiftLeft_add_eq_or_of_lt hl,
    Nat.shiftLeft_eq]
  omega

theorem highWord_append (h l : BitVec 32) : highWord (h ++ l) = h := by
  unfold highWord
  apply eq_of_toNat_eq
  have hl := l.isLt
  rw [extractLsb'_toNat, toNat_append, ← Nat.shiftLeft_add_eq_or_of_lt hl,
    Nat.shiftLeft_eq, Nat.shiftRight_eq_div_pow]
  omega

/-- The words of a number, both signed. -/
theorem splitInt64_eq (i : Int) :
    splitInt64 i =
      ((lowWord (BitVec.ofInt 64 i)).toInt, (highWord (BitVec.ofInt 64 i)).toInt) := by
  have hmask (j : Int) : bitOr (Int.land j 0xFFFFFFFF) 0 = (BitVec.ofInt 32 j).toInt := by
    have hland := land_pow_sub_one 32 j
    norm_num at hland
    rw [hland, bitOr_zero, ← BitVec.toInt_ofInt, show (4294967296 : Int) = 2 ^ 32 by norm_num,
      ofInt_emod]
  unfold splitInt64
  rw [hmask, hmask, Int.shiftRight_eq_div_pow, lowWord_ofInt, highWord_ofInt]
  norm_num

/-- A signed low word with its highest bit set fills the high word. -/
theorem mergeInt64_eq (l h : BitVec 32) :
    mergeInt64 l.toInt h.toInt =
      if l.msb = true then l.toInt else l.toInt + h.toInt * 2 ^ 32 := by
  have hlt := toInt_lt (x := l)
  have hle := le_toInt l
  unfold mergeInt64
  rw [bitOr_zero_toInt, bitOr_zero_toInt, Int.shiftLeft_eq]
  split
  · rename_i hmsb
    have hneg : l.toInt < 0 := toInt_neg_iff.2 (msb_eq_true_iff_two_mul_ge.1 hmsb)
    exact lor_of_neg 32 _ _ (by omega) hneg
  · rename_i hmsb
    have hnonneg := toInt_nonneg_of_msb_false (Bool.eq_false_of_not_eq_true hmsb)
    exact lor_of_nonneg 32 _ _ hnonneg (by omega)

theorem toInt_append (h l : BitVec 32) : (h ++ l).toInt = h.toInt * 2 ^ 32 + l.toNat := by
  rw [BitVec.toInt_append, if_neg (by decide), mul_comm]

theorem mergeInt64_eq_iff (l h : BitVec 32) :
    mergeInt64 l.toInt h.toInt = (h ++ l).toInt ↔ Extended l h := by
  have hl := toInt_eq_msb_cond l
  rw [mergeInt64_eq, toInt_append]
  unfold Extended
  by_cases hmsb : l.msb = true
  · -- the merged value is the low word alone, whose high word is `-1`
    have hone : h = allOnes 32 ↔ h.toInt = -1 := by
      rw [← toInt_inj]
      exact Iff.rfl
    rw [if_pos hmsb] at hl ⊢
    rw [hl, hone]
    constructor
    · intro heq _
      omega
    · intro heq
      rw [heq hmsb]
      omega
  · rw [if_neg hmsb] at hl ⊢
    rw [hl]
    constructor
    · intro _ hset
      exact (hmsb hset).elim
    · intro _
      exact add_comm _ _

theorem mergeInt64_inj (l h : BitVec 32) :
    BitVec.ofInt 64 (mergeInt64 l.toInt h.toInt) = h ++ l ↔ Extended l h := by
  rw [← mergeInt64_eq_iff]
  constructor
  · intro heq
    rw [← heq, BitVec.toInt_ofInt]
    have hhlt := BitVec.toInt_lt (x := h)
    have hhle := BitVec.le_toInt h
    have hl := BitVec.toInt_eq_msb_cond l
    rw [mergeInt64_eq]
    by_cases hmsb : l.msb = true
    · rw [if_pos hmsb]
      exact (Int.bmod_eq_of_le (by omega) (by omega)).symm
    · rw [if_neg hmsb] at hl ⊢
      exact (Int.bmod_eq_of_le (by omega) (by omega)).symm
  · intro heq
    rw [heq, BitVec.ofInt_toInt]

/-- A split value has both its words. -/
theorem ofWords_split (i : Int) :
    ofWords (splitInt64 i).1 (splitInt64 i).2 = BitVec.ofInt 64 i := by
  unfold ofWords
  rw [splitInt64_eq]
  simp only [BitVec.ofInt_toInt]
  exact append_words _

theorem merge_split_iff (i : BitVec 64) :
    mergeInt64 (splitInt64 i.toInt).1 (splitInt64 i.toInt).2 = i.toInt ↔
      Extended (lowWord i) (highWord i) := by
  have happend := append_words i
  rw [splitInt64_eq, ofInt_toInt, ← mergeInt64_eq_iff, happend]

theorem split_merge_iff (l h : BitVec 32) :
    splitInt64 (mergeInt64 l.toInt h.toInt) = (l.toInt, h.toInt) ↔ Extended l h := by
  rw [← mergeInt64_inj, splitInt64_eq]
  constructor
  · intro heq
    rcases Prod.mk.inj heq with ⟨hlow, hhigh⟩
    rw [← append_words (BitVec.ofInt 64 _), BitVec.toInt_inj.1 hlow, BitVec.toInt_inj.1 hhigh]
  · intro heq
    rw [heq, lowWord_append, highWord_append]

/-! ## Parameters -/

/-- The arguments of one parameter. -/
def Typed.args : Typed F → List (Operand F)
  | .i64 n => [.number (splitInt64 n).1, .number (splitInt64 n).2]
  | p => [p.operand]

theorem args_eq (ps : List (Typed F)) :
    args (ps.map Typed.type) (ps.map Typed.operand) = .ok (ps.flatMap Typed.args) := by
  induction ps with
  | nil => rfl
  | cons p ps ih =>
    rw [List.map_cons, List.map_cons, args, ih]
    cases p <;> rfl

/-- Two words are read for a parameter of core type `i64`, and one number for any other. -/
theorem receive_cons (p : Typed F) (h : p.type ≠ .pointerOrI64) (params : List WasmType)
    (rest : List (Operand F)) :
    receive (p.type :: params) (p.args ++ rest) = (receive params rest).map (p.value :: ·) := by
  cases p with
  | i64 n => exact congrArg (fun v => (receive params rest).map (.i64 v :: ·)) (ofWords_split n)
  | pointerOrI64 n => exact (h rfl).elim
  | _ => rfl

/-- A `BigInt` stands for no parameter. -/
theorem receive_pointerOrI64 (p : Typed F) (h : p.type = .pointerOrI64) (params : List WasmType)
    (rest : List (Operand F)) : receive (p.type :: params) (p.args ++ rest) = none := by
  cases p with
  | pointerOrI64 n => rfl
  | _ => cases h

/-- The core function gets the operands, unless one is of the type that is not split. -/
theorem receive_args_iff (ps : List (Typed F)) :
    receive (ps.map Typed.type) (ps.flatMap Typed.args) = some (ps.map Typed.value) ↔
      ∀ p ∈ ps, p.type ≠ .pointerOrI64 := by
  induction ps with
  | nil => exact ⟨fun _ p hp => (List.not_mem_nil hp).elim, fun _ => rfl⟩
  | cons p ps ih =>
    rw [List.map_cons, List.map_cons, List.flatMap_cons, List.forall_mem_cons, ← ih]
    by_cases h : p.type = .pointerOrI64
    · rw [receive_pointerOrI64 p h]
      constructor
      · intro heq
        cases heq
      · intro heq
        exact (heq.1 h).elim
    · rw [receive_cons p h, Option.map_eq_some_iff]
      constructor
      · rintro ⟨vs, hvs, heq⟩
        rw [hvs, (List.cons.inj heq).2]
        exact ⟨h, rfl⟩
      · intro heq
        exact ⟨_, heq.2, rfl⟩

/-! ## Results -/

/-- A result that is merged has a high word that extends the low one. -/
def Typed.Merges : Typed F → Prop
  | .i64 n => Extended (lowWord (BitVec.ofInt 64 n)) (highWord (BitVec.ofInt 64 n))
  | p => p.type ≠ .pointerOrI64

/-- The last call of `setTempRet0` is that for the result. -/
theorem tmpRetI64HighBits_append (calls : List Int) (h : BitVec 32) :
    tmpRetI64HighBits (calls ++ [h.toInt]) = h.toInt := by
  unfold tmpRetI64HighBits
  rw [List.foldl_append, List.foldl_cons, List.foldl_nil, bitOr_zero_toInt]

theorem result_calleeInvoke_iff (toInt32 : F → Int) (p : Typed F) (calls : List Int) :
    (calleeInvoke toInt32 p.type (p.returned calls)).toOption.bind (result p.type) =
      some p.value ↔ p.Merges := by
  cases p with
  | i64 n =>
    have hmerge := mergeInt64_inj (lowWord (BitVec.ofInt 64 n)) (highWord (BitVec.ofInt 64 n))
    rw [append_words] at hmerge
    have hinvoke : (calleeInvoke toInt32 .i64 ((Typed.i64 n).returned calls)).toOption.bind
        (result .i64) = some (.i64 (BitVec.ofInt 64 (mergeInt64 (lowWord (BitVec.ofInt 64 n)).toInt
          (tmpRetI64HighBits (calls ++ [(highWord (BitVec.ofInt 64 n)).toInt]))))) := rfl
    rw [tmpRetI64HighBits_append] at hinvoke
    change _ ↔ Extended (lowWord (BitVec.ofInt 64 n)) (highWord (BitVec.ofInt 64 n))
    rw [← hmerge]
    constructor
    · intro heq
      exact CoreVal.i64.inj (Option.some.inj (hinvoke.symm.trans heq))
    · intro heq
      rw [heq] at hinvoke
      exact hinvoke
  | pointerOrI64 n =>
    -- the low word stands for a number, and the value is 64-bit
    constructor
    · intro heq
      cases heq
    · intro h
      exact (h rfl).elim
  | _ =>
    constructor
    · intro _ h
      cases h
    · intro _
      rfl

/-! ## 64-bit values -/

/-- Values, pairs of words, the parameters and the result of a call survive exactly where no
low word with its highest bit set has another high word than its sign extension, and where
no parameter or result is of the type `pointerOrI64`. -/
theorem int64_survives_iff (toInt32 : F → Int) :
    (∀ i : BitVec 64, mergeInt64 (splitInt64 i.toInt).1 (splitInt64 i.toInt).2 = i.toInt ↔
      Extended (lowWord i) (highWord i)) ∧
    (∀ l h : BitVec 32, splitInt64 (mergeInt64 l.toInt h.toInt) = (l.toInt, h.toInt) ↔
      Extended l h) ∧
    (∀ ps : List (Typed F), (args (ps.map Typed.type) (ps.map Typed.operand)).toOption.bind
        (receive (ps.map Typed.type)) = some (ps.map Typed.value) ↔
      ∀ p ∈ ps, p.type ≠ .pointerOrI64) ∧
    ∀ (p : Typed F) (calls : List Int),
      (calleeInvoke toInt32 p.type (p.returned calls)).toOption.bind (result p.type) =
        some p.value ↔ p.Merges := by
  refine ⟨merge_split_iff, split_merge_iff, fun ps => ?_, result_calleeInvoke_iff toInt32⟩
  rw [args_eq]
  exact receive_args_iff ps

/-- Bit 31 of the low word is set, and the high word is `0`. -/
theorem int64_lost :
    ¬ ((∀ i : BitVec 64, mergeInt64 (splitInt64 i.toInt).1 (splitInt64 i.toInt).2 = i.toInt) ∧
      ∀ l h : BitVec 32, splitInt64 (mergeInt64 l.toInt h.toInt) = (l.toInt, h.toInt)) := by
  rintro ⟨hvalue, -⟩
  have hextended := (merge_split_iff 0x80000000#64).1 (hvalue _)
  revert hextended
  decide

end

end Jco.Bindgen.AsmJs

import Mathlib
import Jco.Codec.LiftImage
import Jco.Codec.Lower
import Jco.Lib.Utf16

/-! # Characters

The helpers between a JavaScript value and the code point of a WIT `char`. The calls
of the synchronous path go through `validateHostChar` and `validateGuestChar`, the
flat ones through `i32ToChar` in both directions.
-/

namespace Jco.Chars

open Jco.Js Jco.Lib Jco.Codec Jco.Codec.LowerM Utf16

/-! ## JavaScript values -/

/-- A number; the finite ones are rationals. -/
inductive JsNumber where
  | nan
  | negInfinity
  | infinity
  | finite (q : ℚ)

inductive JsValue where
  | string (units : Units)
  | number (n : JsNumber)
  /-- Values whose `typeof` is neither. -/
  | other

/-- An integer as a value. -/
def JsValue.int (i : Int) : JsValue := .number (.finite i)

/-- `String.fromCharCode(q)` of a number that is not negative -/
def fromCharCode (q : ℚ) : UInt16 := UInt16.ofNat ⌊q⌋.toNat

/-- `String.fromCodePoint(i)` -/
def fromCodePoint (i : Int) : Except JsError Units :=
  if i < 0 ∨ 0x10FFFF < i then .error .engine
  else if i < 0x10000 then .ok [UInt16.ofNat i.toNat]
  else .ok [UInt16.ofNat (0xD800 + (i.toNat - 0x10000) / 0x400),
    UInt16.ofNat (0xDC00 + (i.toNat - 0x10000) % 0x400)]

/-! ## The helpers -/

/-- The code point, or `undefined`. -/
def validateHostChar : JsValue → Except JsError (Option Nat)
  | .string s => .ok (firstPoint s)
  | _ => .error (.typeError "must be a string")

def validateGuestChar (i : Int) : Except JsError Units :=
  if 0x10FFFF < i ∨ (0xD800 ≤ i ∧ i ≤ 0xDFFF) then .error (.typeError "not a valid char")
  else fromCodePoint i

def i32ToChar : JsValue → Except JsError Units
  | .number .nan => .error (.error "invalid i32")
  | .number .negInfinity => .error (.error "i32 must be greater than zero")
  | .number .infinity => .error (.error "invalid i32, out of range")
  | .number (.finite q) =>
    if q = 0 then .error (.error "invalid i32")
    else if q < 0 then .error (.error "i32 must be greater than zero")
    else if 0x110000 ≤ q then .error (.error "invalid i32, out of range")
    else if 0xD800 ≤ q ∧ q ≤ 0xDFFF then .error (.error "invalid i32 out of range")
    else .ok [fromCharCode q]
  | _ => .error (.error "invalid i32")

/-! ## The calls -/

/-- `Instruction::I32FromChar`: core code receives zero for `undefined`. -/
def i32FromChar (v : JsValue) : Except JsError Nat := (validateHostChar v).map (·.getD 0)

/-- What `setUint32` makes of a string of one unit: the digit that it is, or zero. -/
def digitOf : Units → Nat
  | [u] => if 0x30 ≤ u.toNat ∧ u.toNat ≤ 0x39 then u.toNat - 0x30 else 0
  | _ => 0

/-- The number that `_lowerFlatChar` stores: of the string that `i32ToChar` makes. -/
def flatWord (v : JsValue) : Except JsError Nat := (i32ToChar v).map digitOf

def lowerFlatChar (vals : List JsValue) (p : Nat) : LowerM Nat :=
  match vals with
  | [v] => do
      let word ← ofExcept (flatWord v)
      lowerWord 4 word p
  | _ => throws (.error "unexpected number of vals")

/-- `LiftFlatChar` with direct parameters, which are i32 values. -/
def liftFlatCharDirect : List Int → Except JsError (Units × List Int)
  | [] => .error (.error "expected at least one single i32 argument")
  | i :: params => (i32ToChar (.int i)).map fun val => (val, params)

/-! ## The helpers on integers -/

theorem i32ToChar_int (i : Int) :
    i32ToChar (.int i) =
      if i = 0 then .error (.error "invalid i32")
      else if i < 0 then .error (.error "i32 must be greater than zero")
      else if 0x110000 ≤ i then .error (.error "invalid i32, out of range")
      else if 0xD800 ≤ i ∧ i ≤ 0xDFFF then .error (.error "invalid i32 out of range")
      else .ok [UInt16.ofNat i.toNat] := by
  have hzero : ((i : ℚ) = 0) = (i = 0) := propext Int.cast_eq_zero
  have hneg : ((i : ℚ) < 0) = (i < 0) := propext Int.cast_lt_zero
  have hupper : ((0x110000 : ℚ) ≤ i) = (0x110000 ≤ i) := by
    rw [← propext (Int.cast_le (R := ℚ))]
    norm_num
  have hfirst : ((0xD800 : ℚ) ≤ i) = (0xD800 ≤ i) := by
    rw [← propext (Int.cast_le (R := ℚ))]
    norm_num
  have hlast : ((i : ℚ) ≤ 0xDFFF) = (i ≤ 0xDFFF) := by
    rw [← propext (Int.cast_le (R := ℚ))]
    norm_num
  unfold JsValue.int i32ToChar fromCharCode
  simp only [hzero, hneg, hupper, hfirst, hlast, Int.floor_intCast]

theorem unitsOf_fromCharCode (n : Nat) :
    unitsOf (Codec.fromCharCode n) = some [(UInt16.ofNat n).toNat] := by
  have hunit : (UInt16.ofNat n).toNat = n % 2 ^ 16 := UInt16.toNat_ofNat'
  rw [hunit]
  unfold Codec.fromCharCode
  dsimp only
  split
  case isTrue => rfl
  case isFalse h =>
    have hlt : n % 2 ^ 16 < 0x10000 := Nat.mod_lt _ (by decide)
    have hchar := toNat_ofNat_char (n := n % 2 ^ 16) (by omega)
    show some (codeUnits (String.ofList [Char.ofNat (n % 2 ^ 16)]).toList) = _
    unfold codeUnits
    rw [String.toList_ofList, List.flatMap_singleton, hchar, if_pos hlt]

/-- In memory the code point is a natural number; this is the function that lifts it. -/
theorem i32ToChar_natCast (n : Nat) :
    (Codec.i32ToChar n).map unitsOf =
      (i32ToChar (.int n)).map fun us => some (us.map UInt16.toNat) := by
  have hzero : ((n : Int) = 0) = (n = 0) := propext Int.natCast_eq_zero
  have hneg : ¬ (n : Int) < 0 := by omega
  have hupper : ((0x110000 : Int) ≤ n) = (0x110000 ≤ n) := propext (by omega)
  have hsurrogate : ((0xD800 : Int) ≤ n ∧ (n : Int) ≤ 0xDFFF) = (0xD800 ≤ n ∧ n ≤ 0xDFFF) :=
    propext (by omega)
  rw [i32ToChar_int]
  unfold Codec.i32ToChar
  simp only [hzero, hneg, hupper, hsurrogate, if_false]
  split_ifs
  · rfl
  · rfl
  · rfl
  · show Except.ok (unitsOf (Codec.fromCharCode n)) = _
    rw [unitsOf_fromCharCode, Int.toNat_natCast]
    rfl

/-! ## Lifting -/

/-- The code points: the integers that are characters. -/
theorem exists_char_iff (i : Int) :
    (∃ c : Char, i = c.toNat) ↔ 0 ≤ i ∧ (i < 0xD800 ∨ 0xDFFF < i ∧ i < 0x110000) := by
  constructor
  · rintro ⟨c, rfl⟩
    have hrange := Utf8.point_range c
    omega
  · rintro ⟨h0, hrange⟩
    obtain ⟨n, rfl⟩ := Int.eq_ofNat_of_zero_le h0
    exact ⟨Char.ofNat n, by rw [toNat_ofNat_char (by omega)]⟩

/-- Lifting succeeds on the code points, with the string of the character. -/
structure LiftsExactly (lift : Int → Except JsError Units) (i : Int) : Prop where
  char : ∀ c : Char, i = c.toNat → lift i = .ok (encodeChar c)
  noChar : (∀ c : Char, i ≠ c.toNat) → ∃ e, lift i = .error e

theorem validateGuestChar_exact (i : Int) : LiftsExactly validateGuestChar i := by
  constructor
  case char =>
    rintro c rfl
    have hrange := Utf8.point_range c
    unfold validateGuestChar fromCodePoint encodeChar
    rw [if_neg (by omega), if_neg (by omega), Int.toNat_natCast]
    split
    · rw [if_pos (by omega)]
    · rw [if_neg (by omega)]
  case noChar =>
    intro hno
    have hout := mt (exists_char_iff i).2 fun ⟨c, hc⟩ => hno c hc
    unfold validateGuestChar
    split
    · exact ⟨_, rfl⟩
    case isFalse hin =>
      -- Only negative numbers are left.
      unfold fromCodePoint
      rw [if_pos (by omega)]
      exact ⟨_, rfl⟩

/-- The code points that take two units, and zero. -/
def LostByI32ToChar (i : Int) : Prop := i = 0 ∨ 0x10000 ≤ i ∧ i < 0x110000

instance (i : Int) : Decidable (LostByI32ToChar i) := inferInstanceAs (Decidable (_ ∨ _))

theorem i32ToChar_exact_iff (i : Int) :
    LiftsExactly (fun i => i32ToChar (.int i)) i ↔ ¬ LostByI32ToChar i := by
  unfold LostByI32ToChar
  constructor
  · rintro hexact (rfl | ⟨hlow, hup⟩)
    -- Zero is refused as if nothing were given.
    · have hnul := hexact.char (Char.ofNat 0) rfl
      rw [i32ToChar_int, if_pos rfl] at hnul
      cases hnul
    · obtain ⟨c, rfl⟩ := (exists_char_iff i).2 ⟨by omega, by omega⟩
      have hpair := hexact.char c rfl
      rw [i32ToChar_int, if_neg (by omega), if_neg (by omega), if_neg (by omega),
        if_neg (by omega), encodeChar, if_neg (by omega)] at hpair
      -- One unit against two.
      have hlen := congrArg List.length (Except.ok.inj hpair)
      simp at hlen
  · intro hok
    rw [not_or] at hok
    constructor
    case char =>
      rintro c rfl
      have hrange := Utf8.point_range c
      rw [i32ToChar_int, if_neg (by omega), if_neg (by omega), if_neg (by omega),
        if_neg (by omega), encodeChar, if_pos (by omega), Int.toNat_natCast]
    case noChar =>
      intro hno
      have hnone : ¬ ∃ c : Char, i = c.toNat := not_exists.2 hno
      have hout := mt (exists_char_iff i).2 hnone
      rw [i32ToChar_int, if_neg hok.1]
      by_cases hneg : i < 0
      · rw [if_pos hneg]
        exact ⟨_, rfl⟩
      rw [if_neg hneg]
      by_cases hlarge : 0x110000 ≤ i
      · rw [if_pos hlarge]
        exact ⟨_, rfl⟩
      rw [if_neg hlarge, if_pos (by omega)]
      exact ⟨_, rfl⟩

/-- The code units that `LiftFlatChar` answers off direct parameters. -/
def liftFlatCharUnits (m : Stream.Memory) (c : Cursor) : Except JsError (Option (List Nat)) :=
  (liftFlatChar m c).map fun r => unitsOf r.1

theorem liftFlatCharUnits_eq {m : Stream.Memory} {p w : Nat} {len : Option Int}
    (hw : HasWord m p w) (hroom : Room len 4) :
    liftFlatCharUnits m ⟨p, len⟩ =
      (i32ToChar (.int w)).map fun us => some (us.map UInt16.toNat) := by
  have hlt := hw.1
  obtain ⟨len', hbytes, -⟩ :=
    liftBytes_ok "char requires 4 bytes" hw.2 (LittleEndian.length_bytes 4 w) (by omega) hroom
  rw [← i32ToChar_natCast]
  unfold liftFlatCharUnits liftFlatChar
  rw [hbytes, ok_bind]
  dsimp only
  rw [LittleEndian.value_bytes_of_lt (by omega)]
  rcases Codec.i32ToChar w with e | v <;> rfl

/-- `LiftFlatChar` from memory answers the units of the character there. -/
structure MemoryLiftsExactly (m : Stream.Memory) (c : Cursor) (w : Nat) : Prop where
  char : ∀ ch : Char, w = ch.toNat →
    liftFlatCharUnits m c = .ok (some ((encodeChar ch).map UInt16.toNat))
  noChar : (∀ ch : Char, w ≠ ch.toNat) → ∃ e, liftFlatCharUnits m c = .error e

theorem memoryLiftsExactly_iff {m : Stream.Memory} {p w : Nat} {len : Option Int}
    (hw : HasWord m p w) (hroom : Room len 4) :
    MemoryLiftsExactly m ⟨p, len⟩ w ↔ ¬ LostByI32ToChar w := by
  have heq := liftFlatCharUnits_eq hw hroom
  -- The units are numbers here, which loses nothing.
  have hinj : Function.Injective (List.map UInt16.toNat) :=
    List.map_injective_iff.2 fun _ _ h => UInt16.toNat_inj.1 h
  rw [← i32ToChar_exact_iff]
  constructor
  · intro hexact
    constructor
    case char =>
      intro c hc
      have hunits := hexact.char c (by omega)
      rw [heq] at hunits
      obtain ⟨us, hus, hsame⟩ := map_ok hunits
      rw [← hinj (Option.some.inj hsame)]
      exact hus
    case noChar =>
      intro hno
      obtain ⟨e, he⟩ := hexact.noChar fun c hc => hno c (by omega)
      rw [heq] at he
      rcases hlift : i32ToChar (.int w) with e' | us
      · exact ⟨e', rfl⟩
      · rw [hlift] at he
        cases he
  · intro hexact
    constructor
    case char =>
      intro c hc
      rw [heq, hexact.char c (by omega)]
      rfl
    case noChar =>
      intro hno
      obtain ⟨e, he⟩ := hexact.noChar fun c hc => hno c (by omega)
      rw [heq, he]
      exact ⟨e, rfl⟩

/-! ## Lowering -/

/-- The strings of one character. -/
def OneChar (v : JsValue) : Prop := ∃ c : Char, v = .string (encodeChar c)

/-- Lowering succeeds on the strings of one character, with its code point. -/
structure LowersExactly (lower : JsValue → Except JsError Nat) (v : JsValue) : Prop where
  char : ∀ c : Char, v = .string (encodeChar c) → lower v = .ok c.toNat
  noChar : ¬ OneChar v → ∃ e, lower v = .error e

theorem i32FromChar_char (c : Char) : i32FromChar (.string (encodeChar c)) = .ok c.toNat := by
  show (Except.ok (firstPoint (encodeChar c)) : Except JsError _).map (·.getD 0) = _
  rw [firstPoint_encodeChar]
  rfl

theorem i32FromChar_exact_iff (v : JsValue) :
    LowersExactly i32FromChar v ↔ ∀ s, v = .string s → OneChar v := by
  constructor
  · rintro hexact s rfl
    by_contra hno
    obtain ⟨e, he⟩ := hexact.noChar hno
    cases he
  · intro hok
    constructor
    case char =>
      rintro c rfl
      exact i32FromChar_char c
    case noChar =>
      intro hno
      -- What is no string is refused.
      cases v with
      | string s => exact absurd (hok s rfl) hno
      | number n => exact ⟨_, rfl⟩
      | other => exact ⟨_, rfl⟩

/-- The numbers that `i32ToChar` accepts. -/
def Accepted (v : JsValue) : Prop :=
  ∃ q : ℚ, v = .number (.finite q) ∧ 0 < q ∧ q < 0x110000 ∧ ¬ (0xD800 ≤ q ∧ q ≤ 0xDFFF)

theorem flatWord_cases (v : JsValue) :
    Accepted v ∧ (∃ word < 10, flatWord v = .ok word) ∨
      ¬ Accepted v ∧ ∃ e, flatWord v = .error e := by
  have hno : ∀ {v}, (∀ q, v ≠ JsValue.number (.finite q)) → ¬ Accepted v :=
    fun h ⟨q, hq, _⟩ => h q hq
  match v with
  | .string s => exact .inr ⟨hno nofun, _, rfl⟩
  | .other => exact .inr ⟨hno nofun, _, rfl⟩
  | .number .nan => exact .inr ⟨hno nofun, _, rfl⟩
  | .number .negInfinity => exact .inr ⟨hno nofun, _, rfl⟩
  | .number .infinity => exact .inr ⟨hno nofun, _, rfl⟩
  | .number (.finite q) =>
    have haccepted : Accepted (.number (.finite q)) ↔
        0 < q ∧ q < 0x110000 ∧ ¬ (0xD800 ≤ q ∧ q ≤ 0xDFFF) := by
      constructor
      · rintro ⟨q', hq, h⟩
        cases hq
        exact h
      · intro h
        exact ⟨q, rfl, h⟩
    rw [haccepted]
    unfold flatWord i32ToChar
    dsimp only
    -- The checks in the order of the source; what passes is stored as a digit.
    by_cases hzero : q = 0
    · rw [if_pos hzero]
      exact .inr ⟨fun h => h.1.ne' hzero, _, rfl⟩
    rw [if_neg hzero]
    by_cases hneg : q < 0
    · rw [if_pos hneg]
      exact .inr ⟨fun h => absurd h.1 hneg.not_gt, _, rfl⟩
    rw [if_neg hneg]
    by_cases hlarge : 0x110000 ≤ q
    · rw [if_pos hlarge]
      exact .inr ⟨fun h => absurd h.2.1 hlarge.not_gt, _, rfl⟩
    rw [if_neg hlarge]
    by_cases hsur : 0xD800 ≤ q ∧ q ≤ 0xDFFF
    · rw [if_pos hsur]
      exact .inr ⟨fun h => h.2.2 hsur, _, rfl⟩
    rw [if_neg hsur]
    refine .inl ⟨⟨lt_of_le_of_ne (not_lt.1 hneg) (Ne.symm hzero), not_le.1 hlarge, hsur⟩, _, ?_, rfl⟩
    unfold digitOf
    dsimp only
    split <;> omega

theorem not_accepted_of_string {s : Units} : ¬ Accepted (.string s) := by
  rintro ⟨q, hq, -⟩
  cases hq

/-- `_lowerFlatChar` at a pointer with room for the character: it succeeds on the
strings of one character, with its code point in memory. -/
structure FlatLowersExactly (m : Stream.Memory) (p : Nat) (v : JsValue) : Prop where
  char : ∀ c : Char, v = .string (encodeChar c) → ∃ m',
    lowerFlatChar [v] p m = (.ok (alignTo p 4 + 4), m') ∧
      HasBytes m' (alignTo p 4) (LittleEndian.bytes 4 c.toNat)
  noChar : ¬ OneChar v → ∃ e m', lowerFlatChar [v] p m = (.error e, m')

theorem lowerFlatChar_eq (v : JsValue) (p : Nat) :
    lowerFlatChar [v] p = ofExcept (flatWord v) >>= fun word => lowerWord 4 word p := rfl

theorem lowerFlatChar_error {v : JsValue} {e : JsError} (h : flatWord v = .error e) (p : Nat)
    (m : Stream.Memory) : lowerFlatChar [v] p m = (.error (.throws e), m) := by
  rw [lowerFlatChar_eq, h]
  rfl

theorem lowerFlatChar_ok {v : JsValue} {word : Nat} (h : flatWord v = .ok word) {p : Nat}
    {m : Stream.Memory} (hroom : alignTo p 4 + 4 ≤ m.length) :
    ∃ m', lowerFlatChar [v] p m = (.ok (alignTo p 4 + 4), m') := by
  have hin : alignTo p 4 + (LittleEndian.bytes 4 (LittleEndian.word 4 word)).length ≤ m.length := by
    rwa [LittleEndian.length_bytes]
  obtain ⟨m', hset⟩ := setBytes_isSome hin
  refine ⟨m', ?_⟩
  rw [lowerFlatChar_eq, h]
  exact run_ok (store_ok hset)

theorem flatLowersExactly_iff {m : Stream.Memory} {p : Nat} (hroom : alignTo p 4 + 4 ≤ m.length)
    (v : JsValue) : FlatLowersExactly m p v ↔ ¬ OneChar v ∧ ¬ Accepted v := by
  constructor
  · intro hexact
    have hone : ¬ OneChar v := by
      rintro ⟨c, rfl⟩
      -- A string is no number.
      obtain ⟨m', hrun, -⟩ := hexact.char c rfl
      rcases flatWord_cases (.string (encodeChar c)) with ⟨haccepted, -⟩ | ⟨-, e, he⟩
      · exact not_accepted_of_string haccepted
      · rw [lowerFlatChar_error he] at hrun
        cases hrun
    refine ⟨hone, fun haccepted => ?_⟩
    rcases flatWord_cases v with ⟨-, word, -, hword⟩ | ⟨hno, -⟩
    · obtain ⟨e, m₁, herror⟩ := hexact.noChar hone
      obtain ⟨m₂, hok⟩ := lowerFlatChar_ok hword hroom
      cases herror.symm.trans hok
    · exact hno haccepted
  · rintro ⟨hone, hno⟩
    constructor
    case char =>
      intro c hc
      exact absurd ⟨c, hc⟩ hone
    case noChar =>
      intro _
      rcases flatWord_cases v with ⟨haccepted, -⟩ | ⟨-, e, he⟩
      · exact absurd haccepted hno
      · exact ⟨_, _, lowerFlatChar_error he p m⟩

/-! ## All conversions -/

/-- Both succeed with the same result or both throw. -/
def Agree {α : Type} (x y : Except JsError α) : Prop :=
  (∃ a, x = .ok a ∧ y = .ok a) ∨ (∃ e, x = .error e) ∧ ∃ e, y = .error e

/-- The uses of the helpers. -/
inductive CharCall where
  | hostLower (v : JsValue)
  | flatLower (m : Stream.Memory) (p : Nat) (v : JsValue)
  | guestLift (i : Int)
  | flatLift (i : Int)
  | memoryLift (m : Stream.Memory) (p : Nat) (len : Option Int) (w : Nat)
  | hostRoundTrip (c : Char)
  | flatRoundTrip (c : Char)
  | lowerBoth (v : JsValue)
  | liftBoth (i : Int)

/-- The call does with its argument what a conversion of characters does. -/
def CharCall.Exact : CharCall → Prop
  | hostLower v => LowersExactly i32FromChar v
  | flatLower m p v => alignTo p 4 + 4 ≤ m.length → FlatLowersExactly m p v
  | guestLift i => LiftsExactly validateGuestChar i
  | flatLift i => LiftsExactly (fun i => (liftFlatCharDirect [i]).map (·.1)) i
  | memoryLift m p len w => HasWord m p w → Room len 4 → MemoryLiftsExactly m ⟨p, len⟩ w
  | hostRoundTrip c => ((i32FromChar (.string (encodeChar c))).bind fun n => validateGuestChar n) =
      .ok (encodeChar c)
  | flatRoundTrip c => ((flatWord (.string (encodeChar c))).bind fun n => i32ToChar (.int n)) =
      .ok (encodeChar c)
  | lowerBoth v => Agree (i32FromChar v) (flatWord v)
  | liftBoth i => Agree (validateGuestChar i) (i32ToChar (.int i))

/-- When it does. -/
def CharCall.Fits : CharCall → Prop
  | hostLower v => ∀ s, v = .string s → OneChar v
  | flatLower m p v => alignTo p 4 + 4 ≤ m.length → ¬ OneChar v ∧ ¬ Accepted v
  | guestLift _ => True
  | flatLift i => ¬ LostByI32ToChar i
  | memoryLift m p len w => HasWord m p w → Room len 4 → ¬ LostByI32ToChar w
  | hostRoundTrip _ => True
  | flatRoundTrip _ => False
  | lowerBoth v => (∀ s, v ≠ .string s) ∧ ¬ Accepted v
  | liftBoth i => ¬ LostByI32ToChar i

theorem lowerBoth_iff (v : JsValue) :
    Agree (i32FromChar v) (flatWord v) ↔ (∀ s, v ≠ .string s) ∧ ¬ Accepted v := by
  constructor
  · rintro (⟨n, hhost, hflat⟩ | ⟨⟨e, hhost⟩, e', hflat⟩)
    · -- The one takes strings only, the other numbers only.
      rcases flatWord_cases v with ⟨⟨q, rfl, -⟩, -⟩ | ⟨-, e, he⟩
      · cases hhost
      · cases hflat.symm.trans he
    · constructor
      · rintro s rfl
        cases hhost
      · rcases flatWord_cases v with ⟨-, word, -, hword⟩ | ⟨hno, -⟩
        · cases hflat.symm.trans hword
        · exact hno
  · rintro ⟨hstring, hno⟩
    right
    constructor
    · cases v with
      | string s => exact absurd rfl (hstring s)
      | number n => exact ⟨_, rfl⟩
      | other => exact ⟨_, rfl⟩
    · rcases flatWord_cases v with ⟨haccepted, -⟩ | ⟨-, herror⟩
      · exact absurd haccepted hno
      · exact herror

/-- One helper is exact, so the other agrees with it where it is exact as well. -/
theorem liftBoth_iff (i : Int) :
    Agree (validateGuestChar i) (i32ToChar (.int i)) ↔ ¬ LostByI32ToChar i := by
  rw [← i32ToChar_exact_iff]
  have hguest := validateGuestChar_exact i
  constructor
  · intro hagree
    constructor
    case char =>
      intro c hc
      rcases hagree with ⟨us, hus, hflat⟩ | ⟨⟨e, he⟩, -⟩
      · rw [hguest.char c hc] at hus
        rw [hus]
        exact hflat
      · cases (hguest.char c hc).symm.trans he
    case noChar =>
      intro hno
      obtain ⟨e, he⟩ := hguest.noChar hno
      rcases hagree with ⟨us, hus, -⟩ | ⟨-, herror⟩
      · cases he.symm.trans hus
      · exact herror
  · intro hflat
    by_cases hchar : ∃ c : Char, i = c.toNat
    · obtain ⟨c, hc⟩ := hchar
      exact .inl ⟨_, hguest.char c hc, hflat.char c hc⟩
    · have hno : ∀ c : Char, i ≠ c.toNat := fun c hc => hchar ⟨c, hc⟩
      exact .inr ⟨hguest.noChar hno, hflat.noChar hno⟩

/-- Which conversions of characters are exact. -/
theorem char_exact_iff (call : CharCall) : call.Exact ↔ call.Fits := by
  cases call with
  | hostLower v => exact i32FromChar_exact_iff v
  | flatLower m p v =>
    exact forall_congr' fun hroom => flatLowersExactly_iff hroom v
  | guestLift i => exact iff_true_intro (validateGuestChar_exact i)
  | flatLift i =>
    have hlift : (fun i => (liftFlatCharDirect [i]).map (·.1)) = fun i => i32ToChar (.int i) := by
      funext i
      show ((i32ToChar (.int i)).map fun val => (val, ([] : List Int))).map (·.1) = _
      rcases i32ToChar (.int i) with e | us <;> rfl
    show LiftsExactly (fun i => (liftFlatCharDirect [i]).map (·.1)) i ↔ _
    rw [hlift]
    exact i32ToChar_exact_iff i
  | memoryLift m p len w =>
    exact forall_congr' fun hw => forall_congr' fun hroom => memoryLiftsExactly_iff hw hroom
  | hostRoundTrip c =>
    refine iff_true_intro ?_
    show (i32FromChar (.string (encodeChar c))).bind _ = _
    rw [i32FromChar_char]
    exact (validateGuestChar_exact c.toNat).char c rfl
  | flatRoundTrip c =>
    refine iff_false_intro fun h => ?_
    cases h
  | lowerBoth v => exact lowerBoth_iff v
  | liftBoth i => exact liftBoth_iff i

/-- U+1F600 is lifted as the unit that its low half is. -/
theorem char_not_exact : ¬ ∀ call : CharCall, call.Exact := by
  intro hall
  have hlost : LostByI32ToChar 0x1F600 := by decide
  exact (liftBoth_iff 0x1F600).1 (hall (.liftBoth 0x1F600)) hlost

end Jco.Chars

import Mathlib
import Jco.Lib.Utf8

/-! # UTF-16

Texts as code units, and what the decoders and encoders of the Encoding standard
make of units that no text has: a unit of a pair on its own becomes a replacement
character.
-/

namespace Jco.Utf16

open Utf8 List

abbrev Units := List UInt16

/-! ## Surrogates -/

/-- The first unit of a pair. -/
def IsHigh (u : UInt16) : Prop := 0xD800 ≤ u.toNat ∧ u.toNat ≤ 0xDBFF

instance (u : UInt16) : Decidable (IsHigh u) := inferInstanceAs (Decidable (_ ∧ _))

/-- The second unit of a pair. -/
def IsLow (u : UInt16) : Prop := 0xDC00 ≤ u.toNat ∧ u.toNat ≤ 0xDFFF

instance (u : UInt16) : Decidable (IsLow u) := inferInstanceAs (Decidable (_ ∧ _))

/-- The code point of a pair. -/
def pairPoint (hi lo : UInt16) : Nat :=
  0x10000 + (hi.toNat - 0xD800) * 0x400 + (lo.toNat - 0xDC00)

theorem pairPoint_range {hi lo : UInt16} (hhi : IsHigh hi) (hlo : IsLow lo) :
    0x10000 ≤ pairPoint hi lo ∧ pairPoint hi lo < 0x110000 := by
  unfold IsHigh at hhi
  unfold IsLow at hlo
  unfold pairPoint
  omega

theorem toNat_ofNat_unit {n : Nat} (h : n < 0x10000) : (UInt16.ofNat n).toNat = n :=
  UInt16.toNat_ofNat_of_lt' h

theorem toNat_ofNat_char {n : Nat} (h : n < 0xD800 ∨ 0xDFFF < n ∧ n < 0x110000) :
    (Char.ofNat n).toNat = n := by
  rw [Char.ofNat, dif_pos h]
  rfl

/-! ## Encoding -/

def encodeChar (c : Char) : Units :=
  if c.toNat < 0x10000 then [.ofNat c.toNat]
  else [.ofNat (0xD800 + (c.toNat - 0x10000) / 0x400), .ofNat (0xDC00 + (c.toNat - 0x10000) % 0x400)]

def encode (t : Text) : Units := t.flatMap encodeChar

@[simp] theorem encode_nil : encode [] = [] := rfl

@[simp] theorem encode_cons (c : Char) (t : Text) : encode (c :: t) = encodeChar c ++ encode t :=
  flatMap_cons

/-- A character is one unit that is no surrogate, or a pair. -/
theorem encodeChar_cases (c : Char) :
    (∃ u, encodeChar c = [u] ∧ u.toNat = c.toNat ∧ ¬ IsHigh u ∧ ¬ IsLow u) ∨
      ∃ hi lo, encodeChar c = [hi, lo] ∧ IsHigh hi ∧ IsLow lo ∧ pairPoint hi lo = c.toNat := by
  have hrange := point_range c
  unfold encodeChar
  split
  case isTrue h =>
    refine .inl ⟨_, rfl, toNat_ofNat_unit h, ?_, ?_⟩
    · unfold IsHigh
      rw [toNat_ofNat_unit h]
      omega
    · unfold IsLow
      rw [toNat_ofNat_unit h]
      omega
  case isFalse h =>
    refine .inr ⟨_, _, rfl, ?_, ?_, ?_⟩
    · unfold IsHigh
      rw [toNat_ofNat_unit (by omega)]
      omega
    · unfold IsLow
      rw [toNat_ofNat_unit (by omega)]
      omega
    · unfold pairPoint
      rw [toNat_ofNat_unit (by omega), toNat_ofNat_unit (by omega)]
      omega

theorem encodeChar_ofNat_unit {u : UInt16} (hhi : ¬ IsHigh u) (hlo : ¬ IsLow u) :
    encodeChar (Char.ofNat u.toNat) = [u] := by
  have hlt := u.toNat_lt
  unfold IsHigh at hhi
  unfold IsLow at hlo
  unfold encodeChar
  rw [toNat_ofNat_char (by omega), if_pos hlt, UInt16.ofNat_toNat]

theorem encodeChar_ofNat_pair {hi lo : UInt16} (hhi : IsHigh hi) (hlo : IsLow lo) :
    encodeChar (Char.ofNat (pairPoint hi lo)) = [hi, lo] := by
  have hrange := pairPoint_range hhi hlo
  have hchar := toNat_ofNat_char (n := pairPoint hi lo) (by omega)
  unfold IsHigh at hhi
  unfold IsLow at hlo
  have hfirst : 0xD800 + (pairPoint hi lo - 0x10000) / 0x400 = hi.toNat := by
    unfold pairPoint
    omega
  have hsecond : 0xDC00 + (pairPoint hi lo - 0x10000) % 0x400 = lo.toNat := by
    unfold pairPoint
    omega
  unfold encodeChar
  rw [hchar, if_neg (by omega), hfirst, hsecond, UInt16.ofNat_toNat, UInt16.ofNat_toNat]

theorem length_encodeChar_pos (c : Char) : 0 < (encodeChar c).length := by
  unfold encodeChar
  split <;> simp

/-! ## Code points -/

/-- The code point at the start of a string, which is a surrogate where no pair is. -/
def firstPoint : Units → Option Nat
  | [] => none
  | [u] => some u.toNat
  | u :: v :: _ => some (if IsHigh u ∧ IsLow v then pairPoint u v else u.toNat)

theorem firstPoint_encodeChar (c : Char) : firstPoint (encodeChar c) = some c.toNat := by
  rcases encodeChar_cases c with ⟨u, hc, hu, -⟩ | ⟨hi, lo, hc, hhi, hlo, hpoint⟩
  · rw [hc, firstPoint, hu]
  · rw [hc, firstPoint, if_pos ⟨hhi, hlo⟩, hpoint]

/-! ## Decoding -/

/-- The character of a unit that is not part of a pair. -/
def single (u : UInt16) : Char :=
  if IsHigh u ∨ IsLow u then replacement else Char.ofNat u.toNat

/-- The text of the units, after which half a unit may be left. A decoder reports the
end once, also when a pair is begun there. -/
def decodeUnits (half : Bool) : Units → Text
  | [] => if half then [replacement] else []
  | [u] => single u :: if half ∧ ¬ IsHigh u then [replacement] else []
  | u :: v :: us =>
    if IsHigh u ∧ IsLow v then Char.ofNat (pairPoint u v) :: decodeUnits half us
    else single u :: decodeUnits half (v :: us)

/-- The scalar values that a string is turned into. -/
def toText (us : Units) : Text := decodeUnits false us

theorem decodeUnits_unit {u : UInt16} (hhi : ¬ IsHigh u) (half : Bool) (us : Units) :
    decodeUnits half (u :: us) = single u :: decodeUnits half us := by
  cases us with
  | nil => cases half <;> simp [decodeUnits, hhi]
  | cons v us => rw [decodeUnits, if_neg fun h => hhi h.1]

theorem decodeUnits_encodeChar (half : Bool) (c : Char) (us : Units) :
    decodeUnits half (encodeChar c ++ us) = c :: decodeUnits half us := by
  rcases encodeChar_cases c with ⟨u, hc, hu, hhi, hlo⟩ | ⟨hi, lo, hc, hhi, hlo, hpoint⟩
  · have hsingle : single u = c := by
      rw [single, if_neg (not_or.2 ⟨hhi, hlo⟩), hu, Char.ofNat_toNat]
    rw [hc, singleton_append, decodeUnits_unit hhi, hsingle]
  · rw [hc, cons_append, singleton_append, decodeUnits, if_pos ⟨hhi, hlo⟩, hpoint,
      Char.ofNat_toNat]

theorem decodeUnits_encode (half : Bool) (t : Text) (us : Units) :
    decodeUnits half (encode t ++ us) = t ++ decodeUnits half us := by
  induction t with
  | nil => rfl
  | cons c t ih => rw [encode_cons, append_assoc, decodeUnits_encodeChar, ih, cons_append]

@[simp] theorem toText_encode (t : Text) : toText (encode t) = t := by
  have h := decodeUnits_encode false t []
  rw [append_nil] at h
  rw [toText, h]
  exact append_nil t

/-- The units are those of a text. -/
def WellFormed (us : Units) : Prop := encode (toText us) = us

instance (us : Units) : Decidable (WellFormed us) := inferInstanceAs (Decidable (_ = _))

theorem wellFormed_iff (us : Units) : WellFormed us ↔ ∃ t, us = encode t := by
  constructor
  · intro h
    exact ⟨toText us, h.symm⟩
  · rintro ⟨t, rfl⟩
    unfold WellFormed
    rw [toText_encode]

theorem length_encodeChar_single (u : UInt16) : (encodeChar (single u)).length = 1 := by
  unfold single
  split
  · rfl
  case isFalse h =>
    rw [encodeChar_ofNat_unit (fun hhi => h (.inl hhi)) fun hlo => h (.inr hlo)]
    rfl

/-- What is decoded is no longer than what was there. -/
theorem length_encode_decodeUnits_le (half : Bool) (us : Units) :
    (encode (decodeUnits half us)).length ≤ us.length + if half then 1 else 0 := by
  fun_induction decodeUnits half us with
  | case1 h =>
    rw [if_pos h]
    decide
  | case2 h => simp
  | case3 u =>
    have hmark : (encodeChar replacement).length = 1 := by decide
    rw [encode_cons, length_append, length_encodeChar_single, length_singleton]
    split
    case isTrue h => rw [encode_cons, length_append, hmark, if_pos h.1, encode_nil]; rfl
    case isFalse => simp
  | case4 u v us hpair ih =>
    rw [encode_cons, length_append, encodeChar_ofNat_pair hpair.1 hpair.2]
    simp only [length_cons, length_nil]
    omega
  | case5 u v us hpair ih =>
    rw [encode_cons, length_append, length_encodeChar_single]
    simp only [length_cons] at ih ⊢
    omega

/-! ## Bytes -/

/-- The units of bytes, low byte first, and whether half a unit is left. -/
def unitsOfBytes : Bytes → Units × Bool
  | [] => ([], false)
  | [_] => ([], true)
  | lo :: hi :: bs =>
    (UInt16.ofNat (lo.toNat + 256 * hi.toNat) :: (unitsOfBytes bs).1, (unitsOfBytes bs).2)

/-- What a decoder of UTF-16 answers: the text without the byte order mark. -/
def decode (bs : Bytes) : Text := stripMark (decodeUnits (unitsOfBytes bs).2 (unitsOfBytes bs).1)

theorem length_unitsOfBytes (bs : Bytes) :
    2 * (unitsOfBytes bs).1.length + (if (unitsOfBytes bs).2 then 1 else 0) = bs.length := by
  fun_induction unitsOfBytes bs with
  | case1 => rfl
  | case2 b => rfl
  | case3 lo hi bs ih =>
    simp only [length_cons]
    omega

theorem length_encode_stripMark_le (t : Text) :
    (encode (stripMark t)).length ≤ (encode t).length := by
  cases t with
  | nil => exact le_rfl
  | cons c t =>
    rw [stripMark]
    split
    · rw [encode_cons, length_append]
      omega
    · exact le_rfl

/-- Bytes hold at most half as many units. -/
theorem length_encode_decode_le (bs : Bytes) :
    2 * (encode (decode bs)).length ≤ bs.length + 1 := by
  unfold decode
  have hlen := length_unitsOfBytes bs
  generalize unitsOfBytes bs = r at hlen ⊢
  obtain ⟨us, half⟩ := r
  -- Half a unit at the end is one byte and counts as one unit.
  have hunits := length_encode_decodeUnits_le half us
  have hstrip := length_encode_stripMark_le (decodeUnits half us)
  dsimp only at hlen ⊢
  cases half with
  | false =>
    simp only [Bool.false_eq_true, if_false] at hlen hunits
    omega
  | true =>
    simp only [if_true] at hlen hunits
    omega

/-- The bytes of units, low byte first. -/
def toBytes (us : Units) : Bytes :=
  us.flatMap fun u => [UInt8.ofNat (u.toNat % 256), UInt8.ofNat (u.toNat / 256)]

@[simp] theorem toBytes_nil : toBytes [] = [] := rfl

theorem toBytes_cons (u : UInt16) (us : Units) :
    toBytes (u :: us) = UInt8.ofNat (u.toNat % 256) :: UInt8.ofNat (u.toNat / 256) :: toBytes us :=
  rfl

theorem length_toBytes (us : Units) : (toBytes us).length = 2 * us.length := by
  induction us with
  | nil => rfl
  | cons u us ih =>
    rw [toBytes_cons, length_cons, length_cons, length_cons, ih]
    omega

theorem unitsOfBytes_drop (bs : Bytes) (k : Nat) :
    (unitsOfBytes (bs.drop (2 * k))).1 = (unitsOfBytes bs).1.drop k := by
  induction k generalizing bs with
  | zero => rfl
  | succ k ih =>
    match bs with
    | [] => simp [unitsOfBytes]
    | [_] =>
      rw [drop_eq_nil_of_le (by rw [length_singleton]; omega)]
      rfl
    | lo :: hi :: bs =>
      have htwo : 2 * (k + 1) = 2 * k + 1 + 1 := by omega
      rw [htwo, drop_succ_cons, drop_succ_cons, ih, unitsOfBytes, drop_succ_cons]

/-! ## The well-formed part -/

/-- The longest text that the units begin with, and the units after it. -/
def wellPart : Units → Text × Units
  | [] => ([], [])
  | [u] => if IsHigh u ∨ IsLow u then ([], [u]) else ([Char.ofNat u.toNat], [])
  | u :: v :: us =>
    if IsHigh u ∧ IsLow v then
      (Char.ofNat (pairPoint u v) :: (wellPart us).1, (wellPart us).2)
    else if IsHigh u ∨ IsLow u then ([], u :: v :: us)
    else (Char.ofNat u.toNat :: (wellPart (v :: us)).1, (wellPart (v :: us)).2)

theorem wellPart_append (us : Units) : encode (wellPart us).1 ++ (wellPart us).2 = us := by
  fun_induction wellPart us with
  | case1 => rfl
  | case2 u h => rfl
  | case3 u h =>
    rw [not_or] at h
    rw [encode_cons, encodeChar_ofNat_unit h.1 h.2]
    rfl
  | case4 u v us h ih =>
    rw [encode_cons, encodeChar_ofNat_pair h.1 h.2, append_assoc, ih]
    rfl
  | case5 u v us hpair h => rfl
  | case6 u v us hpair h ih =>
    rw [not_or] at h
    rw [encode_cons, encodeChar_ofNat_unit h.1 h.2, append_assoc, ih]
    rfl

/-- What follows the well-formed part begins with no character. -/
theorem wellPart_rest (us : Units) (c : Char) (vs : Units) :
    (wellPart us).2 ≠ encodeChar c ++ vs := by
  have hne : encodeChar c ≠ [] := by
    intro h
    have hpos := length_encodeChar_pos c
    rw [h] at hpos
    exact absurd hpos (lt_irrefl 0)
  fun_induction wellPart us with
  | case1 => exact fun h => hne (append_eq_nil_iff.1 h.symm).1
  | case2 u hsur =>
    intro h
    rcases encodeChar_cases c with ⟨w, hc, -, hhi, hlo⟩ | ⟨hi, lo, hc, -⟩ <;> rw [hc] at h
    · obtain rfl := (List.cons.inj h).1
      exact hsur.elim hhi hlo
    · exact absurd (congrArg List.length h) (by simp)
  | case3 u h => exact fun h => hne (append_eq_nil_iff.1 h.symm).1
  | case4 u v us h ih => exact ih
  | case5 u v us hpair hsur =>
    intro h
    -- Neither a single unit nor a pair begins with a surrogate that stands alone.
    rcases encodeChar_cases c with ⟨w, hc, -, hhi, hlo⟩ | ⟨hi, lo, hc, hhi, hlo, -⟩ <;> rw [hc] at h
    · obtain rfl := (List.cons.inj h).1
      exact hsur.elim hhi hlo
    · obtain ⟨rfl, htail⟩ := List.cons.inj h
      obtain rfl := (List.cons.inj htail).1
      exact hpair ⟨hhi, hlo⟩
  | case6 u v us hpair h ih => exact ih

/-- It begins with a replacement, where there is anything. -/
theorem toText_wellPart_rest {us : Units} (h : (wellPart us).2 ≠ []) :
    ∃ t, toText (wellPart us).2 = replacement :: t := by
  fun_induction wellPart us with
  | case1 => exact absurd rfl h
  | case2 u hsur => exact ⟨[], by simp [toText, decodeUnits, single, hsur]⟩
  | case3 u _ => exact absurd rfl h
  | case4 u v us hpair ih => exact ih h
  | case5 u v us hpair hsur =>
    refine ⟨toText (v :: us), ?_⟩
    rw [toText, decodeUnits, if_neg hpair, single, if_pos hsur]
    rfl
  | case6 u v us hpair _ ih => exact ih h

theorem toText_wellPart (us : Units) :
    toText us = (wellPart us).1 ++ toText (wellPart us).2 := by
  conv_lhs => rw [← wellPart_append us]
  exact decodeUnits_encode false _ _

theorem wellFormed_iff_wellPart (us : Units) : WellFormed us ↔ (wellPart us).2 = [] := by
  constructor
  · intro h
    by_contra hne
    obtain ⟨t, ht⟩ := toText_wellPart_rest hne
    -- The units of the text would begin with those of a replacement.
    have happend := wellPart_append us
    unfold WellFormed at h
    rw [toText_wellPart, ht] at h
    have hunits : encode ((wellPart us).1 ++ replacement :: t) =
        encode (wellPart us).1 ++ (encodeChar replacement ++ encode t) := by
      simp [encode]
    rw [hunits] at h
    exact wellPart_rest us replacement (encode t)
      (append_cancel_left (h.trans happend.symm)).symm
  · intro h
    have happend := wellPart_append us
    rw [h, append_nil] at happend
    exact (wellFormed_iff us).2 ⟨_, happend.symm⟩

/-! ## From UTF-8 -/

theorem length_encodeChar_le (c : Char) : (encodeChar c).length ≤ 2 := by
  unfold encodeChar
  split <;> simp

theorem length_encodeChar_of_lt {c : Char} (h : c.toNat < 0x10000) : (encodeChar c).length = 1 := by
  rw [encodeChar, if_pos h]
  rfl

/-- A character that has begun counts for the byte it has had. -/
def begun : Option Pending → Nat
  | none => 0
  | some _ => 1

theorem length_encode_lead_le (b : Nat) :
    (encode (lead b).1).length + begun (lead b).2 ≤ 1 := by
  unfold lead
  split
  case isTrue h =>
    have hone := length_encodeChar_of_lt (c := Char.ofNat b) (by rw [toNat_ofNat_char] <;> omega)
    rw [encode_cons, encode_nil, append_nil, hone]
    exact le_rfl
  case isFalse => split_ifs <;> exact le_rfl

theorem length_encode_step_le (st : Option Pending) (b : Nat) :
    (encode (step st b).1).length + begun (step st b).2 ≤ 1 + begun st := by
  cases st with
  | none => exact length_encode_lead_le b
  | some p =>
    rw [step]
    split_ifs
    -- The character ends, it goes on, or the byte begins another one.
    · rw [encode_cons, encode_nil, append_nil]
      exact length_encodeChar_le _
    · exact Nat.le_succ 1
    · have hlead := length_encode_lead_le b
      have hmark : (encodeChar replacement).length = 1 := by decide
      have hone : begun (some p) = 1 := rfl
      rw [encode_cons, length_append, hmark, hone]
      dsimp only
      omega

theorem length_encode_decodeFrom_le (st : Option Pending) (bs : Bytes) :
    (encode (decodeFrom st bs)).length ≤ bs.length + begun st := by
  induction bs generalizing st with
  | nil => cases st <;> exact le_rfl
  | cons b bs ih =>
    have hstep := length_encode_step_le st b.toNat
    have hrest := ih (step st b.toNat).2
    have happend : encode ((step st b.toNat).1 ++ decodeFrom (step st b.toNat).2 bs) =
        encode (step st b.toNat).1 ++ encode (decodeFrom (step st b.toNat).2 bs) :=
      flatMap_append
    rw [decodeFrom_cons, happend, length_append, length_cons]
    omega

/-- Bytes of UTF-8 are at least as many as the units of their text. -/
theorem length_encode_utf8_le (bs : Bytes) : (encode (Utf8.decode bs)).length ≤ bs.length := by
  have hstrip := length_encode_stripMark_le (decodeFrom none bs)
  have hdecode := length_encode_decodeFrom_le none bs
  exact hstrip.trans hdecode

end Jco.Utf16

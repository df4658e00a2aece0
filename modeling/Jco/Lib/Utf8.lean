import Mathlib

/-! # UTF-8 with replacement

How bytes become text in a browser or in a server: UTF-8 as a text decoder reads it, where
malformed input gives replacement characters and a leading byte order mark is dropped. The
decoder is the machine of the Encoding standard and takes one byte at a time.
-/

namespace Jco.Utf8

open List

abbrev Bytes := List UInt8

abbrev Text := List Char

/-- U+FFFD, which stands for malformed input. -/
def replacement : Char := Char.ofNat 0xFFFD

/-- U+FEFF, dropped at the start of a text. -/
def byteOrderMark : Char := Char.ofNat 0xFEFF

/-! ## Encoding -/

def encodeChar (c : Char) : Bytes :=
  if c.toNat < 0x80 then [.ofNat c.toNat]
  else if c.toNat < 0x800 then [.ofNat (0xC0 + c.toNat / 0x40), .ofNat (0x80 + c.toNat % 0x40)]
  else if c.toNat < 0x10000 then
    [.ofNat (0xE0 + c.toNat / 0x1000), .ofNat (0x80 + c.toNat / 0x40 % 0x40),
      .ofNat (0x80 + c.toNat % 0x40)]
  else
    [.ofNat (0xF0 + c.toNat / 0x40000), .ofNat (0x80 + c.toNat / 0x1000 % 0x40),
      .ofNat (0x80 + c.toNat / 0x40 % 0x40), .ofNat (0x80 + c.toNat % 0x40)]

def encode (t : Text) : Bytes := t.flatMap encodeChar

/-! ## Decoding -/

/-- A character that has begun: the code point so far, how many bytes it still
needs and the range the next one must lie in. -/
structure Pending where
  point : Nat
  needed : Nat
  lower : Nat
  upper : Nat
deriving DecidableEq, Repr

/-- The first byte of a character: what it emits, and what is pending after it. -/
def lead (b : Nat) : Text × Option Pending :=
  if b < 0x80 then ([Char.ofNat b], none)
  else if 0xC2 ≤ b ∧ b ≤ 0xDF then ([], some ⟨b - 0xC0, 1, 0x80, 0xBF⟩)
  else if 0xE0 ≤ b ∧ b ≤ 0xEF then
    ([], some ⟨b - 0xE0, 2, if b = 0xE0 then 0xA0 else 0x80, if b = 0xED then 0x9F else 0xBF⟩)
  else if 0xF0 ≤ b ∧ b ≤ 0xF4 then
    ([], some ⟨b - 0xF0, 3, if b = 0xF0 then 0x90 else 0x80, if b = 0xF4 then 0x8F else 0xBF⟩)
  else ([replacement], none)

/-- One byte. A byte that cannot continue the pending character ends it as
malformed and is read again as a first byte. -/
def step (st : Option Pending) (b : Nat) : Text × Option Pending :=
  match st with
  | none => lead b
  | some p =>
    if p.lower ≤ b ∧ b ≤ p.upper then
      if p.needed = 1 then ([Char.ofNat (p.point * 0x40 + b % 0x40)], none)
      else ([], some ⟨p.point * 0x40 + b % 0x40, p.needed - 1, 0x80, 0xBF⟩)
    else (replacement :: (lead b).1, (lead b).2)

def decodeFrom : Option Pending → Bytes → Text
  | none, [] => []
  | some _, [] => [replacement]
  | st, b :: bs => (step st b.toNat).1 ++ decodeFrom (step st b.toNat).2 bs

def stripMark : Text → Text
  | [] => []
  | c :: t => if c = byteOrderMark then t else c :: t

def decode (bs : Bytes) : Text := stripMark (decodeFrom none bs)

/-! ## What is encoded is decoded -/

theorem decodeFrom_cons (st : Option Pending) (b : UInt8) (bs : Bytes) :
    decodeFrom st (b :: bs) = (step st b.toNat).1 ++ decodeFrom (step st b.toNat).2 bs := by
  cases st <;> rfl

variable {n : Nat}

theorem toNat_ofNat (h : n < 256) : (UInt8.ofNat n).toNat = n :=
  UInt8.toNat_ofNat_of_lt' h

/-- The code points of characters: no surrogates, none past the last plane. -/
theorem point_range (c : Char) :
    c.toNat < 0xD800 ∨ 0xDFFF < c.toNat ∧ c.toNat < 0x110000 :=
  c.valid

theorem decodeFrom_two (hlow : 2 ≤ n) (hup : n < 0x20) (bs : Bytes) :
    decodeFrom none (.ofNat (0xC0 + n) :: bs) = decodeFrom (some ⟨n, 1, 0x80, 0xBF⟩) bs := by
  have hlead : lead (0xC0 + n) = ([], some ⟨n, 1, 0x80, 0xBF⟩) := by
    rw [lead, if_neg (by omega), if_pos (by omega), Nat.add_sub_cancel_left]
  rw [decodeFrom_cons, toNat_ofNat (by omega), step, hlead, nil_append]

/-- The second byte of three is bounded below after `E0` (no overlong forms) and
above after `ED` (no surrogates). -/
theorem decodeFrom_three (hup : n < 0x10) (bs : Bytes) :
    decodeFrom none (.ofNat (0xE0 + n) :: bs) =
      decodeFrom (some ⟨n, 2, if n = 0 then 0xA0 else 0x80, if n = 0xD then 0x9F else 0xBF⟩)
        bs := by
  have hlead : lead (0xE0 + n) =
      ([], some ⟨n, 2, if n = 0 then 0xA0 else 0x80, if n = 0xD then 0x9F else 0xBF⟩) := by
    have hfirst : (0xE0 + n = 0xE0) = (n = 0) := by simp
    have hlast : (0xE0 + n = 0xED) = (n = 0xD) := by simp; omega
    rw [lead, if_neg (by omega), if_neg (by omega), if_pos (by omega), Nat.add_sub_cancel_left]
    simp only [hfirst, hlast]
  rw [decodeFrom_cons, toNat_ofNat (by omega), step, hlead, nil_append]

/-- The second byte of four is bounded below after `F0` and above after `F4`
(nothing past the last plane). -/
theorem decodeFrom_four (hup : n < 5) (bs : Bytes) :
    decodeFrom none (.ofNat (0xF0 + n) :: bs) =
      decodeFrom (some ⟨n, 3, if n = 0 then 0x90 else 0x80, if n = 4 then 0x8F else 0xBF⟩)
        bs := by
  have hlead : lead (0xF0 + n) =
      ([], some ⟨n, 3, if n = 0 then 0x90 else 0x80, if n = 4 then 0x8F else 0xBF⟩) := by
    have hfirst : (0xF0 + n = 0xF0) = (n = 0) := by simp
    have hlast : (0xF0 + n = 0xF4) = (n = 4) := by simp; omega
    rw [lead, if_neg (by omega), if_neg (by omega), if_neg (by omega), if_pos (by omega),
      Nat.add_sub_cancel_left]
    simp only [hfirst, hlast]
  rw [decodeFrom_cons, toNat_ofNat (by omega), step, hlead, nil_append]

theorem decodeFrom_more {p : Pending} (hn : n < 0x40) (hlow : p.lower ≤ 0x80 + n)
    (hup : 0x80 + n ≤ p.upper) (hneeded : p.needed ≠ 1) (bs : Bytes) :
    decodeFrom (some p) (.ofNat (0x80 + n) :: bs) =
      decodeFrom (some ⟨p.point * 0x40 + n, p.needed - 1, 0x80, 0xBF⟩) bs := by
  have hdigit : (0x80 + n) % 0x40 = n := by omega
  rw [decodeFrom_cons, toNat_ofNat (by omega), step, if_pos ⟨hlow, hup⟩, if_neg hneeded, hdigit,
    nil_append]

theorem decodeFrom_last {p : Pending} (hn : n < 0x40) (hlow : p.lower ≤ 0x80 + n)
    (hup : 0x80 + n ≤ p.upper) (hneeded : p.needed = 1) (bs : Bytes) :
    decodeFrom (some p) (.ofNat (0x80 + n) :: bs) =
      Char.ofNat (p.point * 0x40 + n) :: decodeFrom none bs := by
  have hdigit : (0x80 + n) % 0x40 = n := by omega
  rw [decodeFrom_cons, toNat_ofNat (by omega), step, if_pos ⟨hlow, hup⟩, if_pos hneeded, hdigit,
    singleton_append]

theorem decodeFrom_encodeChar (c : Char) (bs : Bytes) :
    decodeFrom none (encodeChar c ++ bs) = c :: decodeFrom none bs := by
  have hrange := point_range c
  have hchar : Char.ofNat c.toNat = c := Char.ofNat_toNat c
  unfold encodeChar
  split
  · next h =>
    have hlead : lead c.toNat = ([c], none) := by rw [lead, if_pos h, hchar]
    rw [singleton_append, decodeFrom_cons, toNat_ofNat (by omega), step, hlead,
      singleton_append]
  split
  · -- two bytes: the point is at least 0x80, so the first is past `C1`
    next h =>
    have hpoint : c.toNat / 0x40 * 0x40 + c.toNat % 0x40 = c.toNat := by omega
    rw [cons_append, singleton_append, decodeFrom_two (by omega) (by omega),
      decodeFrom_last (by omega) (by simp) (by simp; omega) rfl, hpoint, hchar]
  split
  · -- three bytes: at least 0x800, and not a surrogate
    next h =>
    have hpoint : (c.toNat / 0x1000 * 0x40 + c.toNat / 0x40 % 0x40) * 0x40 + c.toNat % 0x40 =
        c.toNat := by omega
    rw [cons_append, cons_append, singleton_append, decodeFrom_three (by omega),
      decodeFrom_more (by omega) (by dsimp only; split <;> omega) (by dsimp only; split <;> omega)
        (by simp), decodeFrom_last (by omega) (by simp) (by simp; omega) rfl, hpoint, hchar]
  · -- four bytes: past the first plane, within the last
    next h =>
    have hpoint : ((c.toNat / 0x40000 * 0x40 + c.toNat / 0x1000 % 0x40) * 0x40 +
        c.toNat / 0x40 % 0x40) * 0x40 + c.toNat % 0x40 = c.toNat := by omega
    rw [cons_append, cons_append, cons_append, singleton_append,
      decodeFrom_four (by omega),
      decodeFrom_more (by omega) (by dsimp only; split <;> omega) (by dsimp only; split <;> omega)
        (by simp), decodeFrom_more (by omega) (by simp) (by simp; omega) (by simp),
      decodeFrom_last (by omega) (by simp) (by simp; omega) rfl, hpoint, hchar]

theorem decodeFrom_encode (t : Text) : decodeFrom none (encode t) = t := by
  induction t with
  | nil => rfl
  | cons c t ih =>
    rw [encode, flatMap_cons, decodeFrom_encodeChar, ← encode, ih]

variable {t : Text}

theorem stripMark_of_head (h : t.head? ≠ some byteOrderMark) : stripMark t = t := by
  cases t with
  | nil => rfl
  | cons c t =>
    have hc : c ≠ byteOrderMark := fun heq => h (by rw [List.head?_cons, heq])
    rw [stripMark, if_neg hc]

theorem stripMark_eq_iff (t : Text) : stripMark t = t ↔ t.head? ≠ some byteOrderMark := by
  refine ⟨fun h hhead => ?_, stripMark_of_head⟩
  cases t with
  | nil => cases hhead
  | cons c t =>
    obtain rfl := Option.some.inj hhead
    rw [stripMark, if_pos rfl] at h
    exact absurd (congrArg List.length h) (by simp)

/-- **Round trip.** A text is read back unless it starts with a byte order mark. -/
theorem decode_encode (h : t.head? ≠ some byteOrderMark) : decode (encode t) = t := by
  rw [decode, decodeFrom_encode, stripMark_of_head h]

end Jco.Utf8

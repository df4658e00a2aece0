import Mathlib

/-! # Base64 without padding

Three bytes are four characters of six bits. The last group is of two characters for one
byte, or of three for two bytes.
-/

namespace Jco.Lib.Base64

/-- The standard alphabet. -/
def alphabet : List Char :=
  "ABCDEFGHIJKLMNOPQRSTUVWXYZabcdefghijklmnopqrstuvwxyz0123456789+/".toList

def char (v : Nat) : Char := alphabet.getD v 'A'

def value (c : Char) : Option Nat := alphabet.idxOf? c

/-- The character of six of the bits of `n`. -/
def sextet (n shift : Nat) : Char := char (n / 2 ^ shift % 64)

def encode : List UInt8 → List Char
  | a :: b :: c :: rest =>
    let n := a.toNat * 2 ^ 16 + b.toNat * 2 ^ 8 + c.toNat
    sextet n 18 :: sextet n 12 :: sextet n 6 :: sextet n 0 :: encode rest
  | [a, b] =>
    let n := a.toNat * 2 ^ 16 + b.toNat * 2 ^ 8
    [sextet n 18, sextet n 12, sextet n 6]
  | [a] =>
    let n := a.toNat * 2 ^ 16
    [sextet n 18, sextet n 12]
  | [] => []

/-- The bits of a group of characters, the first of them highest. -/
def bits (cs : List Char) : Option Nat :=
  cs.foldlM (fun n c => (value c).map (n * 64 + ·)) 0

/-- The bits that are left over in the last group are not looked at. -/
def decode : List Char → Option (List UInt8)
  | a :: b :: c :: d :: rest => do
      let n ← bits [a, b, c, d]
      let bytes ← decode rest
      return UInt8.ofNat (n / 2 ^ 16) :: UInt8.ofNat (n / 2 ^ 8) :: UInt8.ofNat n :: bytes
  | [a, b, c] => (bits [a, b, c]).map fun n => [UInt8.ofNat (n / 2 ^ 10), UInt8.ofNat (n / 2 ^ 2)]
  | [a, b] => (bits [a, b]).map fun n => [UInt8.ofNat (n / 2 ^ 4)]
  | [_] => none
  | [] => some []

theorem value_char : ∀ v < 64, value (char v) = some v := by decide +kernel

theorem value_sextet (n shift : Nat) : value (sextet n shift) = some (n / 2 ^ shift % 64) :=
  value_char _ (Nat.mod_lt _ (by norm_num))

theorem bits_cons (n : Nat) (c : Char) (v : Nat) (cs : List Char) (h : value c = some v) :
    (c :: cs).foldlM (fun n c => (value c).map (n * 64 + ·)) n =
      cs.foldlM (fun n c => (value c).map (n * 64 + ·)) (n * 64 + v) := by
  rw [List.foldlM_cons, h]
  rfl

theorem ofNat_toNat_of_mod (a : UInt8) (n : Nat) (h : n % 256 = a.toNat) : UInt8.ofNat n = a := by
  apply UInt8.toNat_inj.1
  rw [UInt8.toNat_ofNat', ← h]

/-- What was encoded is decoded. -/
theorem decode_encode (bytes : List UInt8) : decode (encode bytes) = some bytes := by
  fun_induction encode bytes with
  | case1 a b c rest n ih =>
    have ha := a.toNat_lt
    have hb := b.toNat_lt
    have hc := c.toNat_lt
    have hbits : bits [sextet n 18, sextet n 12, sextet n 6, sextet n 0] = some n := by
      unfold bits
      rw [bits_cons _ _ _ _ (value_sextet _ _), bits_cons _ _ _ _ (value_sextet _ _),
        bits_cons _ _ _ _ (value_sextet _ _), bits_cons _ _ _ _ (value_sextet _ _),
        List.foldlM_nil]
      exact congrArg some (by omega)
    rw [decode, hbits, ih]
    simp only [Option.bind_eq_bind, Option.bind_some, Option.pure_def]
    rw [ofNat_toNat_of_mod a _ (by omega), ofNat_toNat_of_mod b _ (by omega),
      ofNat_toNat_of_mod c _ (by omega)]
  | case2 a b n =>
    have ha := a.toNat_lt
    have hb := b.toNat_lt
    have hbits : bits [sextet n 18, sextet n 12, sextet n 6] = some (n / 2 ^ 6) := by
      unfold bits
      rw [bits_cons _ _ _ _ (value_sextet _ _), bits_cons _ _ _ _ (value_sextet _ _),
        bits_cons _ _ _ _ (value_sextet _ _), List.foldlM_nil]
      exact congrArg some (by omega)
    rw [decode, hbits, Option.map_some]
    rw [ofNat_toNat_of_mod a _ (by omega), ofNat_toNat_of_mod b _ (by omega)]
  | case3 a n =>
    have ha := a.toNat_lt
    have hbits : bits [sextet n 18, sextet n 12] = some (n / 2 ^ 12) := by
      unfold bits
      rw [bits_cons _ _ _ _ (value_sextet _ _), bits_cons _ _ _ _ (value_sextet _ _),
        List.foldlM_nil]
      exact congrArg some (by omega)
    rw [decode, hbits, Option.map_some, ofNat_toNat_of_mod a _ (by omega)]
  | case4 => rfl

end Jco.Lib.Base64

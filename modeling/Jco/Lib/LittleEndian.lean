import Mathlib

/-! # Little-endian words

A natural number as a word of `k` bytes, lowest first, and the integers of two's
complement on top of it.
-/

namespace Jco.Lib.LittleEndian

/-- The low `k` bytes of `n`. -/
def bytes : (k n : Nat) → List UInt8
  | 0, _ => []
  | k + 1, n => UInt8.ofNat n :: bytes k (n / 256)

/-- The number that bytes spell. -/
def value : List UInt8 → Nat
  | [] => 0
  | b :: bs => b.toNat + 256 * value bs

@[simp] theorem length_bytes (k n : Nat) : (bytes k n).length = k := by
  induction k generalizing n with
  | zero => rfl
  | succ k ih => simp [bytes, ih]

theorem value_bytes (k n : Nat) : value (bytes k n) = n % 256 ^ k := by
  induction k generalizing n with
  | zero => simp [bytes, value, Nat.mod_one]
  | succ k ih =>
    have hlow : (UInt8.ofNat n).toNat = n % 256 := by simp
    rw [bytes, value, ih, hlow, Nat.pow_succ, Nat.mul_comm (256 ^ k), Nat.mod_mul]

theorem value_bytes_of_lt {k n : Nat} (h : n < 256 ^ k) : value (bytes k n) = n := by
  rw [value_bytes, Nat.mod_eq_of_lt h]

theorem value_lt (bs : List UInt8) : value bs < 256 ^ bs.length := by
  induction bs with
  | nil => simp [value]
  | cons b bs ih =>
    have hb := b.toNat_lt
    simp only [value, List.length_cons, Nat.pow_succ]
    omega

theorem bytes_value (bs : List UInt8) : bytes bs.length (value bs) = bs := by
  induction bs with
  | nil => rfl
  | cons b bs ih =>
    have hb := b.toNat_lt
    have hlow : UInt8.ofNat (b.toNat + 256 * value bs) = b := by
      apply UInt8.toNat_inj.1
      simp
    have hhigh : (b.toNat + 256 * value bs) / 256 = value bs := by omega
    rw [value, List.length_cons, bytes, hlow, hhigh, ih]

/-! ## Two's complement -/

/-- The word of `k` bytes that stands for an integer. -/
def word (k : Nat) (n : Int) : Nat := (n % (256 ^ k : Nat)).toNat

/-- The integer that a word stands for. -/
def signed (k n : Nat) : Int := if 2 * n < 256 ^ k then n else n - (256 ^ k : Nat)

theorem signed_low {k n : Nat} (h : 2 * n < 256 ^ k) : signed k n = n := if_pos h

theorem signed_neg {k n : Nat} (h : 256 ^ k ≤ 2 * n) (hn : n < 256 ^ k) : signed k n < 0 := by
  unfold signed
  rw [if_neg (by omega)]
  omega

theorem word_lt (k : Nat) (n : Int) : word k n < 256 ^ k := by
  have hpos : (0 : Int) < (256 ^ k : Nat) := by positivity
  have hlt := Int.emod_lt_of_pos n hpos
  have hnonneg := Int.emod_nonneg n hpos.ne'
  unfold word
  omega

theorem word_natCast (k n : Nat) : word k n = n % 256 ^ k := by
  unfold word
  rw [← Int.natCast_emod, Int.toNat_natCast]

theorem word_of_lt {k n : Nat} (h : n < 256 ^ k) : word k n = n := by
  rw [word_natCast, Nat.mod_eq_of_lt h]

theorem word_signed {k n : Nat} (h : n < 256 ^ k) : word k (signed k n) = n := by
  unfold word signed
  generalize 256 ^ k = size at *
  split
  case isTrue =>
    rw [Int.emod_eq_of_lt (by omega) (by omega), Int.toNat_natCast]
  case isFalse =>
    rw [← Int.add_emod_right, Int.emod_eq_of_lt (by omega) (by omega)]
    omega

theorem signed_word {k : Nat} {n : Int} (hlow : -(256 ^ k : Nat) ≤ 2 * n)
    (hhigh : 2 * n < (256 ^ k : Nat)) : signed k (word k n) = n := by
  unfold signed word
  generalize 256 ^ k = size at *
  rcases lt_or_ge n 0 with hneg | hpos
  · rw [← Int.add_emod_right, Int.emod_eq_of_lt (by omega) (by omega), if_neg (by omega)]
    omega
  · rw [Int.emod_eq_of_lt hpos (by omega), if_pos (by omega), Int.toNat_of_nonneg hpos]

/-- The bytes of a shorter word are the first ones. -/
theorem bytes_take {j k : Nat} (h : j ≤ k) (n : Nat) : (bytes k n).take j = bytes j n := by
  induction k generalizing j n with
  | zero => rw [Nat.le_zero.1 h]; rfl
  | succ k ih =>
    cases j with
    | zero => rfl
    | succ j => rw [bytes, bytes, List.take_succ_cons, ih (Nat.le_of_succ_le_succ h)]

end Jco.Lib.LittleEndian

import Mathlib

/-! # JavaScript `BigInt` values

A `BigInt` is an integer of any size. Its bitwise operators work on the two's complement
form without an end, which `Int.land` and `Int.lor` do; `>>` and `<<` are the shifts of `Int`.

The lemmas turn a mask of ones and the union with a multiple of a power of two into arithmetic.
-/

namespace Jco.Js

open Int

/-- A mask of `n` ones is one bit after `n - 1` of them. -/
theorem pow_sub_one_eq_bit (n : ℕ) : (2 : ℤ) ^ (n + 1) - 1 = Int.bit true (2 ^ n - 1) := by
  rw [bit_val]
  simp only [cond_true, pow_succ]
  ring

theorem bit_bodd_eq (i : ℤ) : 2 * (i / 2) + cond i.bodd 1 0 = i := by
  have h := bodd_add_div2 i
  rw [div2_val] at h
  omega

/-- A mask of `n` ones keeps the remainder. -/
theorem land_pow_sub_one (n : ℕ) : ∀ i : ℤ, Int.land i (2 ^ n - 1) = i % 2 ^ n := by
  induction n with
  | zero =>
    intro i
    rw [pow_zero, emod_one]
    cases i with
    | ofNat m => simp [Int.land]
    | negSucc m => simp [Int.land, Nat.ldiff]
  | succ n ih =>
    intro i
    -- the lowest bit is kept, and the induction hypothesis is about the others
    have hland : Int.land i (2 ^ (n + 1) - 1) = Int.bit i.bodd (i.div2 % 2 ^ n) := by
      rw [pow_sub_one_eq_bit, ← ih i.div2]
      nth_rewrite 1 [← bit_decomp i]
      rw [land_bit, Bool.and_true]
    have hi := bit_bodd_eq i
    rw [hland, bit_val, div2_val, pow_succ, mul_comm ((2 : ℤ) ^ n),
      emod_def i, ← ediv_ediv_of_nonneg (by norm_num), emod_def]
    linarith

/-- Below a multiple of `2 ^ (n + 1)` the lowest bit is that of `l`. -/
theorem lor_mul_pow_succ (n : ℕ) (l h : ℤ) :
    Int.lor l (h * 2 ^ (n + 1)) = Int.bit l.bodd (Int.lor l.div2 (h * 2 ^ n)) := by
  have hmul : h * 2 ^ (n + 1) = Int.bit false (h * 2 ^ n) := by
    rw [bit_val, pow_succ]
    simp only [cond_false]
    ring
  rw [hmul]
  nth_rewrite 1 [← bit_decomp l]
  rw [lor_bit, Bool.or_false]

/-- A number of `n` bits is added to a multiple of `2 ^ n`. -/
theorem lor_of_nonneg (n : ℕ) :
    ∀ l h : ℤ, 0 ≤ l → l < 2 ^ n → Int.lor l (h * 2 ^ n) = l + h * 2 ^ n := by
  induction n with
  | zero =>
    intro l h hl hlt
    have hzero : l = 0 := by
      rw [pow_zero] at hlt
      omega
    rw [hzero]
    cases h with
    | ofNat m => simp [Int.lor]
    | negSucc m => simp [Int.lor, Nat.ldiff]
  | succ n ih =>
    intro l h hl hlt
    have hbit := bit_bodd_eq l
    rw [pow_succ] at hlt
    rw [lor_mul_pow_succ, bit_val, div2_val, ih (l / 2) h (by omega) (by omega), pow_succ]
    linarith

/-- A negative number of `n` bits has ones above them, which hide a multiple of `2 ^ n`. -/
theorem lor_of_neg (n : ℕ) : ∀ l h : ℤ, -2 ^ n ≤ l → l < 0 → Int.lor l (h * 2 ^ n) = l := by
  induction n with
  | zero =>
    intro l h hl hneg
    have hones : l = Int.negSucc 0 := by
      rw [pow_zero] at hl
      change l = -1
      omega
    rw [hones, pow_zero, mul_one]
    cases h with
    | ofNat m => exact congrArg Int.negSucc (Nat.bitwise_zero_left m)
    | negSucc m => exact congrArg Int.negSucc (Nat.zero_and _)
  | succ n ih =>
    intro l h hl hneg
    have hbit := bit_bodd_eq l
    rw [pow_succ] at hl
    rw [lor_mul_pow_succ, bit_val, div2_val, ih (l / 2) h (by omega) (by omega)]
    linarith

end Jco.Js

import Mathlib.Tactic.Common
import Jco.Lib.Ieee

/-! # Integral JavaScript numbers

Lengths and counts are numbers. An integer is a number up to 2^53, and from there on it is rounded
to 53 bits, a tie to even. `NaN` is what arithmetic on `undefined` gives.
-/

namespace Jco.Js

open Jco.Ieee Nat

/-- An integral number, or `NaN`. -/
abbrev Integral := Option Int

/-- The number nearest to a natural number. -/
def roundNat (n : Nat) : Nat :=
  let k := n.log2 - 52
  Format.roundEven n k * 2 ^ k

/-- `Number(n)` of a bigint. -/
def number (n : Int) : Int := if n < 0 then -(roundNat n.natAbs) else roundNat n.natAbs

namespace Integral

/-- `Math.min` -/
def min : Integral → Integral → Integral
  | some a, some b => some (Min.min a b)
  | _, _ => none

def sub : Integral → Integral → Integral
  | some a, some b => some (number (a - b))
  | _, _ => none

@[simp] theorem min_some (a b : Int) : min (some a) (some b) = some (Min.min a b) := rfl

@[simp] theorem min_nan_left (b : Integral) : min none b = none := rfl

@[simp] theorem min_nan_right (a : Integral) : min a none = none := by
  cases a <;> rfl

@[simp] theorem sub_some (a b : Int) : sub (some a) (some b) = some (number (a - b)) := rfl

end Integral

theorem roundNat_of_le {n : Nat} (h : n ≤ 2 ^ 53) : roundNat n = n := by
  unfold roundNat
  rcases lt_or_eq_of_le h with hlt | rfl
  · have hlog : n.log2 - 52 = 0 := by
      rcases Nat.eq_zero_or_pos n with rfl | hpos
      · rfl
      · have := (log2_lt (pos_iff_ne_zero.1 hpos)).2 hlt
        omega
    rw [hlog]
    simp [Format.roundEven, mod_one]
  · decide

/-- Rounding keeps what is beyond the safe integers there. -/
theorem le_roundNat {n : Nat} (h : 2 ^ 53 ≤ n) : 2 ^ 53 ≤ roundNat n := by
  have hne : n ≠ 0 := by
    rintro rfl
    exact absurd h (by decide)
  have hlog : 53 ≤ n.log2 := (le_log2 hne).2 h
  have hself : 2 ^ n.log2 ≤ n := log2_self_le hne
  have hsplit : 2 ^ n.log2 = 2 ^ 52 * 2 ^ (n.log2 - 52) := by
    rw [← pow_add]
    congr 1
    omega
  have hquot : 2 ^ 52 ≤ n / 2 ^ (n.log2 - 52) := by
    rw [Nat.le_div_iff_mul_le (Nat.two_pow_pos _), ← hsplit]
    exact hself
  have hround : 2 ^ 52 ≤ Format.roundEven n (n.log2 - 52) := by
    unfold Format.roundEven
    dsimp only
    split
    · exact hquot
    · exact le_succ_of_le hquot
  have hpow : 2 ≤ 2 ^ (n.log2 - 52) := by
    calc 2 = 2 ^ 1 := rfl
      _ ≤ 2 ^ (n.log2 - 52) := Nat.pow_le_pow_right (by decide) (by omega)
  exact Nat.mul_le_mul hround hpow

theorem number_natCast (n : Nat) : number n = roundNat n := by
  rw [number, if_neg (by omega), Int.natAbs_natCast]

theorem number_of_natAbs_le {n : Int} (h : n.natAbs ≤ 2 ^ 53) : number n = n := by
  rw [number, roundNat_of_le h]
  split <;> omega

theorem number_pos {n : Nat} (h : 0 < n) : 0 < number n := by
  rw [number_natCast]
  rcases le_total n (2 ^ 53) with hle | hge
  · rw [roundNat_of_le hle]
    omega
  · have := le_roundNat hge
    omega

theorem number_neg {i : Int} (h : i < 0) : number i < 0 := by
  have hpos := number_pos (Int.natAbs_pos.2 (Int.ne_of_lt h))
  rw [number_natCast] at hpos
  rw [number, if_pos h]
  omega

/-- A number that is a safe integer is what it was made of. -/
theorem eq_of_number_lt {n : Nat} (h : number n < 2 ^ 53) : number n = n := by
  rw [number_natCast] at h ⊢
  rcases lt_or_ge n (2 ^ 53) with hlt | hge
  · rw [roundNat_of_le (le_of_lt hlt)]
  · have := le_roundNat hge
    omega

end Jco.Js

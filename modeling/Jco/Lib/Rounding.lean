import Mathlib.Data.Int.Log
import Mathlib.Data.Rat.Floor
import Mathlib.Tactic.Linarith
import Mathlib.Tactic.NormNum
import Mathlib.Tactic.Positivity
import Mathlib.Tactic.Ring

/-! # The rounding of doubles

A rational number that is not negative, rounded to 53 binary digits, to nearest with ties to
even. A chain of operations is followed by the share that its result is off: each rounding
adds about `2 ^ -53`.
-/

namespace Jco.Lib.Rounding

/-- To the nearest integer, a half to even. -/
def roundEven (q : ℚ) : ℤ :=
  if Int.fract q < 1 / 2 ∨ Int.fract q = 1 / 2 ∧ ⌊q⌋ % 2 = 0 then ⌊q⌋ else ⌊q⌋ + 1

/-- What the last of 53 digits counts. -/
def lastPlace (q : ℚ) : ℚ := 2 ^ (Int.log 2 q - 52)

/-- The double that is nearest. -/
def toDouble (q : ℚ) : ℚ := roundEven (q / lastPlace q) * lastPlace q

/-- The share that one rounding is off at most. -/
def unit : ℚ := 1 / 2 ^ 53

/-- `x` is off `q` by a share of `ε` at most. -/
def Off (ε x q : ℚ) : Prop := |x - q| ≤ ε * q

variable {ε δ x y p q : ℚ}

theorem roundEven_intCast (n : ℤ) : roundEven n = n := by
  unfold roundEven
  rw [if_pos (Or.inl _), Int.floor_intCast]
  rw [Int.fract_intCast]
  norm_num

theorem abs_roundEven_sub_le (q : ℚ) : |(roundEven q : ℚ) - q| ≤ 1 / 2 := by
  have hsplit := Int.floor_add_fract q
  have hlow := Int.fract_nonneg q
  have hhigh := Int.fract_lt_one q
  unfold roundEven
  rw [abs_le]
  split
  case isTrue hdown =>
    have hhalf : Int.fract q ≤ 1 / 2 := hdown.elim le_of_lt fun h => le_of_eq h.1
    constructor <;> linarith
  case isFalse hup =>
    have hhalf : 1 / 2 ≤ Int.fract q := le_of_not_gt fun h => hup (Or.inl h)
    push_cast
    constructor <;> linarith

theorem lastPlace_pos (q : ℚ) : 0 < lastPlace q := zpow_pos two_pos _

theorem lastPlace_le (hq : 0 < q) : lastPlace q ≤ 2 * unit * q := by
  have hlog : (2 : ℚ) ^ Int.log 2 q ≤ q := Int.zpow_log_le_self one_lt_two hq
  calc lastPlace q = 2 ^ Int.log 2 q * (2 * unit) := by
        unfold lastPlace unit
        rw [zpow_sub₀ two_ne_zero]
        norm_num
        ring
    _ ≤ q * (2 * unit) := by
        gcongr
        unfold unit
        norm_num
    _ = 2 * unit * q := mul_comm ..

theorem toDouble_zero : toDouble 0 = 0 := by
  have h := roundEven_intCast 0
  unfold toDouble
  rw [zero_div]
  rw [Int.cast_zero] at h
  rw [h, Int.cast_zero, zero_mul]

theorem Off.mono (h : Off ε x q) (hle : ε ≤ δ) (hq : 0 ≤ q) : Off δ x q :=
  le_trans h (mul_le_mul_of_nonneg_right hle hq)

theorem Off.nonneg (h : Off ε x q) (hε : ε ≤ 1) (hq : 0 ≤ q) : 0 ≤ x := by
  have hlow := (abs_le.1 h).1
  nlinarith

theorem Off.add (hx : Off ε x p) (hy : Off ε y q) : Off ε (x + y) (p + q) := by
  have hx' := abs_le.1 hx
  have hy' := abs_le.1 hy
  refine abs_le.2 ⟨?_, ?_⟩ <;> linarith

theorem toDouble_off (hq : 0 ≤ q) : Off unit (toDouble q) q := by
  rcases hq.eq_or_lt with rfl | hpos
  · rw [toDouble_zero, Off, sub_self, abs_zero, mul_zero]
  have hplace := lastPlace_pos q
  have hscale : toDouble q - q =
      (roundEven (q / lastPlace q) - q / lastPlace q) * lastPlace q := by
    unfold toDouble
    rw [sub_mul, div_mul_cancel₀ _ (ne_of_gt hplace)]
  unfold Off
  calc |toDouble q - q| = |(roundEven (q / lastPlace q) : ℚ) - q / lastPlace q| * lastPlace q := by
        rw [hscale, abs_mul, abs_of_pos hplace]
    _ ≤ 1 / 2 * lastPlace q := by
        gcongr
        exact abs_roundEven_sub_le _
    _ ≤ unit * q := by linarith [lastPlace_le hpos]

/-- One more rounding. -/
theorem Off.toDouble (h : Off ε x q) (hε : ε ≤ 1) (hq : 0 ≤ q) :
    Off (ε + (1 + ε) * unit) (toDouble x) q := by
  have hround := abs_le.1 (toDouble_off (h.nonneg hε hq))
  have hoff := abs_le.1 h
  have hshare : unit * x ≤ unit * ((1 + ε) * q) := by
    refine mul_le_mul_of_nonneg_left ?_ ?_
    · linarith
    · unfold unit
      norm_num
  refine abs_le.2 ⟨?_, ?_⟩ <;> linarith

end Jco.Lib.Rounding

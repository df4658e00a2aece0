import Mathlib

/-! # Binary floating point

The interchange formats of IEEE 754: the number that a pattern of bits stands for, and
the pattern that a number is rounded to, to nearest with ties to even. A finite number
is a sign, a mantissa and an exponent of two, with a zero of either sign.
-/

namespace Jco.Ieee

open Nat

inductive Number where
  | nan
  | infinity (negative : Bool)
  | finite (negative : Bool) (mantissa : Nat) (exponent : Int)
deriving DecidableEq, Repr

/-! ## Integers below and above -/

namespace Number

/-- The integer part of `m * 2 ^ e`. -/
def down (m : Nat) (e : Int) : Nat := if 0 ≤ e then m * 2 ^ e.toNat else m / 2 ^ (-e).toNat

/-- The least integer that is not below `m * 2 ^ e`. -/
def up (m : Nat) (e : Int) : Nat :=
  if 0 ≤ e then m * 2 ^ e.toNat else (m + (2 ^ (-e).toNat - 1)) / 2 ^ (-e).toNat

def ofInt (n : Int) : Number := finite (n < 0) n.natAbs 0

/-- Rounded towards zero; what is no finite number gives zero. -/
def truncate : Number → Int
  | finite false m e => down m e
  | finite true m e => -down m e
  | nan | infinity _ => 0

/-- `lo ≤ x && x <= hi` -/
def within (lo hi : Int) : Number → Bool
  | finite false m e => lo ≤ down m e ∧ up m e ≤ hi
  | finite true m e => lo ≤ -up m e ∧ -down m e ≤ hi
  | nan | infinity _ => false

theorem down_zero (m : Nat) : down m 0 = m := by
  rw [down, if_pos le_rfl, Int.toNat_zero, pow_zero, mul_one]

theorem up_zero (m : Nat) : up m 0 = m := by
  rw [up, if_pos le_rfl, Int.toNat_zero, pow_zero, mul_one]

@[simp] theorem truncate_ofInt (n : Int) : truncate (ofInt n) = n := by
  unfold ofInt
  by_cases hneg : n < 0
  · rw [decide_eq_true hneg, truncate, down_zero]
    omega
  · rw [decide_eq_false hneg, truncate, down_zero]
    omega

@[simp] theorem within_ofInt (lo hi n : Int) : within lo hi (ofInt n) ↔ lo ≤ n ∧ n ≤ hi := by
  unfold ofInt
  by_cases hneg : n < 0
  · rw [decide_eq_true hneg, within, down_zero, up_zero, decide_eq_true_eq]
    omega
  · rw [decide_eq_false hneg, within, down_zero, up_zero, decide_eq_true_eq]
    omega

end Number

/-! ## Formats -/

structure Format where
  /-- Bits of the fraction. -/
  fraction : Nat
  /-- Bits of the exponent. -/
  width : Nat
deriving DecidableEq, Repr

namespace Format

def binary32 : Format := ⟨23, 8⟩

def binary64 : Format := ⟨52, 11⟩

variable (fmt : Format)

/-- The exponent field of infinities and NaNs. -/
def top : Nat := 2 ^ fmt.width - 1

/-- The exponent of the last place of the least numbers. -/
def least : Int := 2 - 2 ^ (fmt.width - 1) - fmt.fraction

/-- The bit of the sign. -/
def sign (negative : Bool) : Nat := if negative then 2 ^ (fmt.fraction + fmt.width) else 0

def decode (bits : Nat) : Number :=
  let negative : Bool := bits / 2 ^ (fmt.fraction + fmt.width) % 2 = 1
  let field := bits / 2 ^ fmt.fraction % 2 ^ fmt.width
  let frac := bits % 2 ^ fmt.fraction
  if field = fmt.top then
    if frac = 0 then .infinity negative else .nan
  else if field = 0 then
    .finite negative frac fmt.least
  else
    .finite negative (2 ^ fmt.fraction + frac) (fmt.least + (field - 1 : Nat))

/-- `m / 2 ^ k` to nearest, a half to even. -/
def roundEven (m k : Nat) : Nat :=
  let q := m / 2 ^ k
  let r := m % 2 ^ k
  if 2 * r < 2 ^ k ∨ 2 * r = 2 ^ k ∧ q % 2 = 0 then q else q + 1

/-- The exponent of the last place that `m * 2 ^ e` is rounded to. -/
def place (m : Nat) (e : Int) : Int :=
  if m = 0 then fmt.least else max fmt.least (e + m.log2 - fmt.fraction)

/-- The pattern of a number. A mantissa that is rounded up to the next power of two
carries into the exponent, and beyond the largest number is infinity. -/
def encode : Number → Nat
  | .nan => fmt.top * 2 ^ fmt.fraction + 2 ^ (fmt.fraction - 1)
  | .infinity negative => fmt.sign negative + fmt.top * 2 ^ fmt.fraction
  | .finite negative m e =>
    let place := fmt.place m e
    let units := if place ≤ e then m * 2 ^ (e - place).toNat else roundEven m (place - e).toNat
    let magnitude := (place - fmt.least).toNat * 2 ^ fmt.fraction + units
    fmt.sign negative + min magnitude (fmt.top * 2 ^ fmt.fraction)

variable {fmt}

/-- A number whose last place is its own is not rounded. -/
theorem encode_finite {negative : Bool} {m : Nat} {e : Int} (hplace : fmt.place m e = e)
    (hfits : (e - fmt.least).toNat * 2 ^ fmt.fraction + m ≤ fmt.top * 2 ^ fmt.fraction) :
    fmt.encode (.finite negative m e) =
      fmt.sign negative + ((e - fmt.least).toNat * 2 ^ fmt.fraction + m) := by
  rw [encode, hplace, if_pos le_rfl, Int.sub_self, Int.toNat_zero, pow_zero, mul_one,
    min_eq_left hfits]

theorem place_small {m : Nat} (h : m < 2 ^ fmt.fraction) : fmt.place m fmt.least = fmt.least := by
  unfold place
  split
  case isTrue => rfl
  case isFalse hne =>
    have hlog := (log2_lt hne).2 h
    omega

theorem place_normal {frac : Nat} (h : frac < 2 ^ fmt.fraction) (k : Nat) :
    fmt.place (2 ^ fmt.fraction + frac) (fmt.least + k) = fmt.least + k := by
  -- The hidden bit is the highest one of the mantissa.
  have hlog : (2 ^ fmt.fraction + frac).log2 = fmt.fraction := by
    rw [log2_eq_iff (by omega), pow_succ]
    omega
  rw [place, if_neg (by omega), hlog]
  omega

/-- The parts of a pattern. -/
theorem parts {bits : Nat} (h : bits < 2 ^ (fmt.fraction + fmt.width + 1)) :
    fmt.sign (bits / 2 ^ (fmt.fraction + fmt.width) % 2 = 1) +
      (bits / 2 ^ fmt.fraction % 2 ^ fmt.width * 2 ^ fmt.fraction + bits % 2 ^ fmt.fraction) =
        bits := by
  have hhigh := div_add_mod bits (2 ^ (fmt.fraction + fmt.width))
  have hmid : bits % 2 ^ (fmt.fraction + fmt.width) =
      bits / 2 ^ fmt.fraction % 2 ^ fmt.width * 2 ^ fmt.fraction + bits % 2 ^ fmt.fraction := by
    rw [pow_add, mod_mul, mul_comm, add_comm]
  have htwo : bits / 2 ^ (fmt.fraction + fmt.width) < 2 := by
    refine Nat.div_lt_of_lt_mul ?_
    rwa [← Nat.pow_succ]
  rw [← hmid]
  unfold sign
  -- The sign is the one bit above the field and the fraction.
  rcases lt_or_ge (bits / 2 ^ (fmt.fraction + fmt.width)) 1 with hzero | hone
  · have hz : bits / 2 ^ (fmt.fraction + fmt.width) = 0 := lt_one_iff.1 hzero
    rw [hz] at hhigh ⊢
    simpa using hhigh
  · have ho : bits / 2 ^ (fmt.fraction + fmt.width) = 1 :=
      Nat.le_antisymm (Nat.lt_succ_iff.1 htwo) hone
    rw [ho] at hhigh ⊢
    simpa using hhigh

/-- A pattern is the pattern of its number, NaNs apart. -/
theorem encode_decode {bits : Nat} (h : bits < 2 ^ (fmt.fraction + fmt.width + 1))
    (hnan : fmt.decode bits ≠ .nan) : fmt.encode (fmt.decode bits) = bits := by
  have hparts := parts h
  have hfrac : bits % 2 ^ fmt.fraction < 2 ^ fmt.fraction := Nat.mod_lt _ (Nat.two_pow_pos _)
  have hfield : bits / 2 ^ fmt.fraction % 2 ^ fmt.width < 2 ^ fmt.width :=
    Nat.mod_lt _ (Nat.two_pow_pos _)
  unfold decode at hnan ⊢
  dsimp only at hnan ⊢
  -- From here on the pattern is its three parts.
  generalize bits / 2 ^ fmt.fraction % 2 ^ fmt.width = field at *
  generalize bits % 2 ^ fmt.fraction = frac at *
  generalize decide (bits / 2 ^ (fmt.fraction + fmt.width) % 2 = 1) = negative at *
  by_cases htop : field = fmt.top
  · rw [if_pos htop] at hnan ⊢
    by_cases hzero : frac = 0
    · rw [if_pos hzero, encode, ← htop]
      omega
    · rw [if_neg hzero] at hnan
      exact absurd rfl hnan
  rw [if_neg htop]
  have hbelow : field + 1 ≤ fmt.top := by
    unfold top at htop ⊢
    omega
  have hroom : (field + 1) * 2 ^ fmt.fraction ≤ fmt.top * 2 ^ fmt.fraction :=
    mul_le_mul_right _ hbelow
  rw [add_mul, one_mul] at hroom
  -- A subnormal number has no hidden bit and the least exponent.
  by_cases hzero : field = 0
  · subst hzero
    rw [if_pos rfl, encode_finite (place_small hfrac)]
    · rw [Int.sub_self, Int.toNat_zero]
      exact hparts
    · rw [Int.sub_self, Int.toNat_zero]
      omega
  · rw [if_neg hzero]
    obtain ⟨k, rfl⟩ : ∃ k, field = k + 1 := ⟨field - 1, by omega⟩
    have hk : (fmt.least + (k + 1 - 1 : Nat) - fmt.least).toNat = k := by omega
    rw [add_mul, one_mul] at hroom hparts
    rw [encode_finite (place_normal hfrac _), hk]
    · omega
    · rw [hk]
      omega

end Format

end Jco.Ieee

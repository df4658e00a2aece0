import Mathlib

/-! # JavaScript bitwise operators on integral numbers

The bitwise operators of JavaScript coerce both operands with `ToInt32`, work
on 32 bits and answer a signed number. Integral JavaScript numbers are `Int`
here; the coercion of `undefined` to `0` is left to the callers.

The lemmas turn the operators into arithmetic for the one mask the tables use,
a single flag at bit `30`, so that later side conditions are left to `omega`.
-/

namespace Jco.Js

open BitVec

/-- `x & y` -/
def bitAnd (x y : Int) : Int := (BitVec.ofInt 32 x &&& BitVec.ofInt 32 y).toInt

/-- `x | y` -/
def bitOr (x y : Int) : Int := (BitVec.ofInt 32 x ||| BitVec.ofInt 32 y).toInt

/-- `~x` -/
def bitNot (x : Int) : Int := (~~~ BitVec.ofInt 32 x).toInt

/-- `x << n` -/
def shl (x : Int) (n : Nat) : Int := (BitVec.ofInt 32 x <<< n).toInt

/-- `x >> n` -/
def shr (x : Int) (n : Nat) : Int := ((BitVec.ofInt 32 x).sshiftRight n).toInt

/-! ## The flag at bit 30 -/

/-- Bit `30` of the two's complement form of `x`. -/
def bit30 (x : Int) : Int := x / 2 ^ 30 % 2

theorem ofInt_pow30 : BitVec.ofInt 32 (2 ^ 30) = BitVec.twoPow 32 30 := by decide

theorem getLsbD_ofInt_30 (x : Int) :
    (BitVec.ofInt 32 x).getLsbD 30 = decide (bit30 x = 1) := by
  have hu : (BitVec.ofInt 32 x).toNat = (x % 2 ^ 32).toNat := by
    simp [BitVec.toNat_ofInt]
  rw [BitVec.getLsbD, Nat.testBit_eq_decide_div_mod_eq, hu, decide_eq_decide]
  simp only [bit30]
  omega

/-- Testing the flag. -/
theorem bitAnd_pow30 (x : Int) : bitAnd x (2 ^ 30) = bit30 x * 2 ^ 30 := by
  unfold bitAnd
  rw [ofInt_pow30, and_twoPow, getLsbD_ofInt_30]
  have hb : bit30 x = 0 ∨ bit30 x = 1 := by
    simp only [bit30]; omega
  rcases hb with hb | hb <;> rw [hb] <;> decide

/-- A mask splits a word in two parts without carries. -/
theorem and_add_and_not (x y : BitVec 32) : (x &&& y) + (x &&& ~~~y) = x := by
  rw [add_eq_or_of_and_eq_zero]
  · ext i hi
    simp only [getElem_or, getElem_and, getElem_not]
    cases x[i] <;> cases y[i] <;> rfl
  · ext i hi
    simp only [getElem_and, getElem_not, getElem_zero]
    cases x[i] <;> cases y[i] <;> rfl

/-- Clearing the flag. -/
theorem bitAnd_not_pow30 (x : Int) :
    bitAnd x (bitNot (2 ^ 30)) = Int.bmod (x - bit30 x * 2 ^ 30) (2 ^ 32) := by
  have hsplit := and_add_and_not (BitVec.ofInt 32 x) (BitVec.ofInt 32 (2 ^ 30))
  have hand := bitAnd_pow30 x
  unfold bitAnd at hand
  have hval : BitVec.ofInt 32 x &&& ~~~ BitVec.ofInt 32 (2 ^ 30) =
      BitVec.ofInt 32 (x - bit30 x * 2 ^ 30) := by
    rw [← hand, Int.sub_eq_add_neg, BitVec.ofInt_add, BitVec.ofInt_neg, BitVec.ofInt_toInt,
      ← sub_eq_add_neg, eq_sub_iff_add_eq, add_comm]
    exact hsplit
  unfold bitAnd bitNot
  rw [BitVec.ofInt_toInt, hval, BitVec.toInt_ofInt]

/-- Setting the flag. -/
theorem bitOr_pow30 (x : Int) :
    bitOr x (2 ^ 30) = Int.bmod (x + (1 - bit30 x) * 2 ^ 30) (2 ^ 32) := by
  have hclear : BitVec.ofInt 32 x &&& ~~~ BitVec.ofInt 32 (2 ^ 30) =
      BitVec.ofInt 32 (x - bit30 x * 2 ^ 30) := by
    have h := bitAnd_not_pow30 x
    unfold bitAnd bitNot at h
    rw [BitVec.ofInt_toInt, ← BitVec.toInt_ofInt] at h
    exact BitVec.eq_of_toInt_eq h
  have hor : BitVec.ofInt 32 x ||| BitVec.ofInt 32 (2 ^ 30) =
      (BitVec.ofInt 32 x &&& ~~~ BitVec.ofInt 32 (2 ^ 30)) + BitVec.ofInt 32 (2 ^ 30) := by
    rw [BitVec.add_eq_or_of_and_eq_zero]
    · ext i hi
      simp only [BitVec.getElem_or, BitVec.getElem_and, BitVec.getElem_not]
      cases (BitVec.ofInt 32 x)[i] <;> cases (BitVec.ofInt 32 (2 ^ 30))[i] <;> rfl
    · ext i hi
      simp only [BitVec.getElem_and, BitVec.getElem_not, BitVec.getElem_zero]
      cases (BitVec.ofInt 32 x)[i] <;> cases (BitVec.ofInt 32 (2 ^ 30))[i] <;> rfl
  unfold bitOr
  rw [hor, hclear, ← BitVec.ofInt_add, BitVec.toInt_ofInt]
  congr 1
  ring

/-! ## Words -/

/-- A number of four bits fits under a shift by four without carries. -/
theorem bitOr_shl_four_eq (n : Int) {r : Nat} (hr : r < 2 ^ 4) :
    bitOr (shl n 4) r = Int.bmod (16 * n + r) (2 ^ 32) := by
  have hshl : BitVec.ofInt 32 n <<< 4 = BitVec.ofInt 32 (16 * n) := by
    rw [BitVec.shiftLeft_eq_mul_twoPow, mul_comm, BitVec.ofInt_mul]
    rfl
  have hr' : (BitVec.ofInt 32 (r : Int)).toNat = r := by
    rw [BitVec.toNat_ofInt]
    omega
  have hdisjoint : BitVec.ofInt 32 n <<< 4 &&& BitVec.ofInt 32 (r : Int) = 0#32 := by
    ext i hi
    rw [BitVec.getElem_and, BitVec.getElem_shiftLeft, BitVec.getElem_zero]
    rcases Nat.lt_or_ge i 4 with hlow | hhigh
    · simp [hlow]
    · have hbit : (BitVec.ofInt 32 (r : Int))[i] = false := by
        rw [← BitVec.getLsbD_eq_getElem, BitVec.getLsbD, hr']
        exact Nat.testBit_eq_false_of_lt (hr.trans_le (Nat.pow_le_pow_right (by omega) hhigh))
      rw [hbit, Bool.and_false]
  unfold bitOr shl
  rw [BitVec.ofInt_toInt, ← BitVec.add_eq_or_of_and_eq_zero _ _ hdisjoint, hshl,
    ← BitVec.ofInt_add, BitVec.toInt_ofInt]

/-- `(n << 4) | r` packs a four-bit result under a number of `28` bits. -/
theorem bitOr_shl_four {n r : Nat} (hn : n < 2 ^ 28) (hr : r < 2 ^ 4) :
    bitOr (shl n 4) r % 2 ^ 32 = (16 * n + r : Nat) := by
  have hmod : bitOr (shl n 4) r % 2 ^ 32 = (16 * n + r) % 2 ^ 32 := by
    rw [bitOr_shl_four_eq _ hr]
    exact Int.bmod_emod
  rw [hmod]
  omega

/-- `x & 0xF` -/
theorem bitAnd_fifteen (x : Int) : bitAnd x 15 = x % 16 := by
  have hu : (BitVec.ofInt 32 x).toNat = (x % 2 ^ 32).toNat := by
    simp [BitVec.toNat_ofInt]
  have hand : (BitVec.ofInt 32 x &&& BitVec.ofInt 32 15).toNat = (x % 2 ^ 32).toNat % 16 := by
    rw [BitVec.toNat_and, hu]
    exact Nat.and_two_pow_sub_one_eq_mod _ 4
  unfold bitAnd
  rw [BitVec.toInt_eq_toNat_cond, hand, if_pos (by omega)]
  omega

/-! ## Shifts -/

theorem shl_one (x : Int) : shl x 1 = Int.bmod (2 * x) (2 ^ 32) := by
  unfold shl
  have h : BitVec.ofInt 32 x <<< 1 = BitVec.ofInt 32 (2 * x) := by
    rw [BitVec.shiftLeft_eq_mul_twoPow, mul_comm, BitVec.ofInt_mul]
    rfl
  rw [h, BitVec.toInt_ofInt]

theorem shr_one (x : Int) (h : -2 ^ 31 ≤ x) (h' : x < 2 ^ 31) : shr x 1 = x / 2 := by
  unfold shr
  rw [toInt_sshiftRight, toInt_ofInt_eq_self (by decide) (by simpa using h) (by simpa using h')]
  simp [Int.shiftRight_eq_div_pow]

theorem shr_four {x : Int} (h : -2 ^ 31 ≤ x) (h' : x < 2 ^ 31) : shr x 4 = x / 16 := by
  unfold shr
  rw [toInt_sshiftRight, toInt_ofInt_eq_self (by decide) (by simpa using h)
    (by simpa using h')]
  simp [Int.shiftRight_eq_div_pow]

end Jco.Js

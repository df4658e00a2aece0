import Mathlib.Data.BitVec
import Jco.Js.Int32

/-! # Linear memory under typed arrays

What a call stores in a memory is the byte it last wrote at each address. A
typed array writes an element at its index times its width and drops one that
lies outside; its constructor throws where the view does not fit. A pointer is
32 bits, which JavaScript receives as a signed number.
-/

namespace Jco.Js

structure Memory where
  size : Nat
  byte : Nat → UInt8
  size_le : size ≤ 2 ^ 32

/-- The byte last written at each address, if any. -/
abbrev Writes := Nat → Option UInt8

/-- Byte `i` of a number in two's complement, the lowest first. -/
def byteOf (v : Int) (i : Nat) : UInt8 := UInt8.ofNat ((v / 256 ^ i) % 256).toNat

namespace Writes

def nothing : Writes := fun _ => none

/-- `width` bytes of `v` at an address. -/
def store (ws : Writes) (addr width : Nat) (v : Int) : Writes :=
  fun a => if addr ≤ a ∧ a < addr + width then some (byteOf v (a - addr)) else ws a

/-- `typedArray[index] = v` over a buffer of `size` bytes. -/
def setElement (ws : Writes) (size width : Nat) (index v : Int) : Writes :=
  if 0 ≤ index ∧ width * (index + 1) ≤ size then
    ws.store (width * index).toNat width v
  else
    ws

/-- Words stored one after the other. -/
def storeWords (ws : Writes) (addr : Nat) : List Nat → Writes
  | [] => ws
  | v :: vs => (ws.store addr 4 v).storeWords (addr + 4) vs

theorem store_at (ws : Writes) {addr width a : Nat} (v : Int) (h : addr ≤ a)
    (h' : a < addr + width) : ws.store addr width v a = some (byteOf v (a - addr)) :=
  if_pos ⟨h, h'⟩

theorem store_of_not (ws : Writes) {addr width a : Nat} (v : Int)
    (h : ¬ (addr ≤ a ∧ a < addr + width)) : ws.store addr width v a = ws a :=
  if_neg h

/-- An element leaves the bytes outside it as they are, stored or dropped. -/
theorem setElement_of_not (ws : Writes) {size width a : Nat} {index : Int} (v : Int)
    (h : ¬ (width * index ≤ a ∧ a < width * index + width)) :
    ws.setElement size width index v a = ws a := by
  unfold setElement
  split
  case isTrue hfits =>
    have hnonneg : 0 ≤ width * index := Int.mul_nonneg (Int.natCast_nonneg _) hfits.1
    refine store_of_not ws v fun hin => h ?_
    omega
  case isFalse => rfl

end Writes

/-- The little-endian word at an address. -/
def Memory.word (m : Memory) (addr : Nat) : Nat :=
  (m.byte addr).toNat + 256 * (m.byte (addr + 1)).toNat +
    65536 * (m.byte (addr + 2)).toNat + 16777216 * (m.byte (addr + 3)).toNat

/-- `n` words from an address on. -/
def Memory.words (m : Memory) (addr n : Nat) : List Nat :=
  (List.range n).map fun i => m.word (addr + 4 * i)

/-- `new Uint32Array(buffer, ptr, length)` does not throw. -/
def ViewFits (size : Nat) (ptr length : Int) : Prop :=
  0 ≤ ptr ∧ ptr % 4 = 0 ∧ 0 ≤ length ∧ ptr + 4 * length ≤ size

instance (size : Nat) (ptr length : Int) : Decidable (ViewFits size ptr length) :=
  inferInstanceAs (Decidable (_ ∧ _))

/-! ## Pointers -/

/-- A pointer that JavaScript receives as it is meant. -/
def Low (ptr : BitVec 32) : Prop := ptr.toNat < 2 ^ 31

instance (ptr : BitVec 32) : Decidable (Low ptr) := inferInstanceAs (Decidable (_ < _))

theorem toInt_eq_ite (ptr : BitVec 32) :
    ptr.toInt = if ptr.toNat < 2 ^ 31 then (ptr.toNat : Int) else ptr.toNat - 2 ^ 32 := by
  rw [BitVec.toInt_eq_toNat_cond]
  split <;> split <;> omega

theorem toInt_of_low {ptr : BitVec 32} (h : Low ptr) : ptr.toInt = ptr.toNat := by
  unfold Low at h
  rw [toInt_eq_ite, if_pos h]

theorem toInt_neg_of_high {ptr : BitVec 32} (h : ¬ Low ptr) : ptr.toInt < 0 := by
  unfold Low at h
  have hlt := ptr.isLt
  rw [toInt_eq_ite, if_neg h]
  omega

theorem low_of_nonneg {ptr : BitVec 32} (h : ¬ ptr.toInt < 0) : Low ptr :=
  by_contra fun hhigh => h (toInt_neg_of_high hhigh)

theorem toInt_mod_four (ptr : BitVec 32) : ptr.toInt % 4 = (ptr.toNat % 4 : Nat) := by
  rw [toInt_eq_ite]
  split <;> omega

theorem shr_two (ptr : BitVec 32) : shr ptr.toInt 2 = ptr.toInt / 4 := by
  rw [shr, BitVec.ofInt_toInt, BitVec.toInt_sshiftRight, Int.shiftRight_eq_div_pow]
  norm_num

/-- A view fits exactly where the words do and no pointer is in the upper half. -/
theorem viewFits_iff (size : Nat) (ptr : BitVec 32) (n : Nat) :
    ViewFits size ptr.toInt n ↔
      (ptr.toNat % 4 = 0 ∧ ptr.toNat + 4 * n ≤ size) ∧ Low ptr := by
  unfold ViewFits
  by_cases hlow : Low ptr
  · simp only [toInt_of_low hlow, hlow, and_true]
    omega
  · have hneg := toInt_neg_of_high hlow
    constructor
    · intro h
      omega
    · intro h
      exact absurd h.2 hlow

end Jco.Js

import Mathlib
import Jco.Js.Basic

/-! # JavaScript byte arrays

A `Uint8Array` is the list of its bytes: its length is fixed, an element
written out of bounds is dropped, and `set` out of bounds throws. Positions
are integral JavaScript numbers.
-/

namespace Jco.Js

open List

abbrev Bytes := List UInt8

/-- `ToUint32` -/
def toUint32 (x : Int) : Nat := (x % 2 ^ 32).toNat

/-- `new Uint8Array(length)` -/
def newUint8Array (length : Int) : Except JsError Bytes :=
  if length < 0 then .error .engine else .ok (List.replicate length.toNat 0)

/-- A relative position as `subarray` reads it: from the end when negative. -/
def clampIndex (length : Nat) (i : Int) : Nat :=
  if i < 0 then (length + i).toNat else min i.toNat length

/-- `bytes.subarray(first, last)` -/
def subarray (bytes : Bytes) (first last : Int) : Bytes :=
  (bytes.take (clampIndex bytes.length last)).drop (clampIndex bytes.length first)

/-- `bytes.set(source, offset)` -/
def setBytes (bytes source : Bytes) (offset : Int) : Except JsError Bytes :=
  if offset < 0 ∨ bytes.length < offset + source.length then
    .error .engine
  else
    .ok (bytes.take offset.toNat ++ (source ++ bytes.drop (offset.toNat + source.length)))

/-- `bytes[i] = b` -/
def storeByte (bytes : Bytes) (i : Int) (b : UInt8) : Bytes :=
  if i < 0 then bytes else bytes.set i.toNat b

theorem toUint32_natCast (n : Nat) : toUint32 n = n % 2 ^ 32 := by
  unfold toUint32
  omega

theorem subarray_natCast (bytes : Bytes) (first last : Nat) :
    subarray bytes first last = (bytes.take last).drop first := by
  have hclamp : ∀ i : Nat, clampIndex bytes.length i = min i bytes.length := fun i => by
    rw [clampIndex, if_neg (by omega), Int.toNat_natCast]
  have htake : bytes.take (min last bytes.length) = bytes.take last := by
    rw [← take_take, take_length]
  rw [subarray, hclamp, hclamp, htake]
  by_cases h : first ≤ bytes.length
  · rw [Nat.min_eq_left h]
  · rw [drop_eq_nil_of_le, drop_eq_nil_of_le] <;> rw [length_take] <;> omega

/-- What stands at a position that has been written up to, and the zeros after. -/
theorem setBytes_append (done source : Bytes) {room : Nat} (h : source.length ≤ room) :
    setBytes (done ++ List.replicate room 0) source done.length =
      .ok ((done ++ source) ++ List.replicate (room - source.length) 0) := by
  have hlen : (done ++ List.replicate room (0 : UInt8)).length = done.length + room := by
    rw [length_append, length_replicate]
  have hdrop : (done ++ List.replicate room (0 : UInt8)).drop (done.length + source.length) =
      List.replicate (room - source.length) 0 := by
    rw [drop_append, drop_eq_nil_of_le (by omega), nil_append,
      drop_replicate, Nat.add_sub_cancel_left]
  rw [setBytes, if_neg (by omega), Int.toNat_natCast, hdrop, take_left, append_assoc]

theorem storeByte_append (done : Bytes) (b : UInt8) {room : Nat} (h : 0 < room) :
    storeByte (done ++ List.replicate room 0) done.length b =
      (done ++ [b]) ++ List.replicate (room - 1) 0 := by
  obtain ⟨room, rfl⟩ := Nat.exists_eq_succ_of_ne_zero (Nat.ne_of_gt h)
  rw [storeByte, if_neg (by omega), Int.toNat_natCast, set_append_right _ _ (Nat.le_refl _),
    Nat.sub_self, replicate_succ, set_cons_zero, append_assoc,
    singleton_append, Nat.succ_sub_one]

end Jco.Js

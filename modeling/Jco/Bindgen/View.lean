import Mathlib
import Jco.Codec.Memory
import Jco.Js.Memory

/-! # Views at pointers

Generated code makes a typed array over the memory at a pointer that core code passes as
an i32, which JavaScript receives as a signed number.
-/

namespace Jco.Bindgen

open Jco.Js (JsError Low toInt_of_low toInt_neg_of_high)
open Jco.Codec

/-- `new Uint8Array(to.buffer, ptr, bytes.length).set(bytes)` -/
def writeBytes (m : Stream.Memory) (ptr : Int) (bytes : List UInt8) :
    Except JsError Stream.Memory :=
  match m.setBytes ptr bytes with
  | none => .error .engine
  | some m' => .ok m'

section

variable {m : Stream.Memory} {p n : BitVec 32}

/-- The bytes that a pointer and a length mean. -/
def bytesAt (m : Stream.Memory) (p n : Nat) : List UInt8 := (m.drop p).take n

theorem length_bytesAt {p n : Nat} (h : p + n ≤ m.length) : (bytesAt m p n).length = n := by
  rw [bytesAt, List.length_take, List.length_drop]
  omega

theorem bytesAt_drop (m : Stream.Memory) (p n k : Nat) :
    bytesAt m (p + k) (n - k) = (bytesAt m p n).drop k := by
  unfold bytesAt
  rw [List.drop_take, List.drop_drop]

theorem bytesView_low (hp : Low p) {n : Nat} (h : p.toNat + n ≤ m.length) :
    bytesView m p.toInt n = .ok (bytesAt m p.toNat n) := by
  rw [toInt_of_low hp, bytesView_natCast, getBytes, view_natCast, if_pos h]
  rfl

theorem bytesView_high {ptr len : Int} (h : ptr < 0 ∨ len < 0) :
    bytesView m ptr len = .error .engine := by
  unfold bytesView
  split
  case isTrue => rfl
  case isFalse hlen =>
    have hptr : ¬ (0 ≤ ptr ∧ ptr.toNat + len.toNat ≤ m.length) := by omega
    unfold Stream.Memory.view
    rw [if_neg hptr]

theorem writeBytes_low (hp : Low p) {bytes : List UInt8} (h : p.toNat + bytes.length ≤ m.length) :
    ∃ m', writeBytes m p.toInt bytes = .ok m' ∧ m.setBytes p.toNat bytes = some m' := by
  obtain ⟨m', hset⟩ := setBytes_isSome h
  refine ⟨m', ?_, hset⟩
  unfold writeBytes
  rw [toInt_of_low hp, hset]

theorem writeBytes_high (hp : ¬ Low p) (bytes : List UInt8) :
    writeBytes m p.toInt bytes = .error .engine := by
  have hneg := toInt_neg_of_high hp
  unfold writeBytes Stream.Memory.setBytes
  rw [if_neg (by omega)]

end

end Jco.Bindgen

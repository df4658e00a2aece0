import Mathlib
import Jco.Codec.Layout
import Jco.Stream.Buffer

/-! # Memories of the codec

Reads and writes of a `DataView` and of views of bytes, what a memory holds at an
address, and what the codec calls outside of itself.
-/

namespace Jco.Codec

open Jco.Js (JsError)
open Jco.Stream

/-- What a codec function works with besides the memory. -/
structure Env where
  /-- `ctx.stringEncoding` -/
  stringEncoding : StringEncoding
  /-- `ctx.realloc(0, 0, align, size)`: the guest's allocator, which answers an i32
  or traps; it is missing where the guest named none. -/
  realloc : Option (Memory → Nat → Nat → Memory × Option Int)
  /-- The value that the tables of the component have for a handle. -/
  liftHandle : HandleTy → Nat → Except JsError Val
  /-- The handle that a value gets in the tables of the component. -/
  lowerHandle : HandleTy → Val → Except JsError Nat

theorem ok_bind {α β : Type} (a : α) (f : α → Except JsError β) : (Except.ok a >>= f) = f a := rfl

variable {m m' : Memory} {p a : Nat} {bs : List UInt8}

/-- The bytes of a view or of a `DataView` getter. -/
def getBytes (m : Memory) (p count : Nat) : Except JsError (List UInt8) :=
  match m.view p count with
  | none => .error .engine
  | some bs => .ok bs

/-- The bytes of `new Uint8Array(memory.buffer, offset, len)`, or of a `DataView`. -/
def bytesView (m : Memory) (offset len : Int) : Except JsError (List UInt8) :=
  if len < 0 then .error .engine
  else
    match m.view offset len.toNat with
    | none => .error .engine
    | some bs => .ok bs

/-- The memory holds `bs` at `p`. -/
def HasBytes (m : Memory) (p : Nat) (bs : List UInt8) : Prop :=
  ∀ i, i < bs.length → m[p + i]? = bs[i]?

theorem HasBytes.congr (h : HasBytes m p bs)
    (hag : ∀ a, p ≤ a → a < p + bs.length → m'[a]? = m[a]?) : HasBytes m' p bs := by
  intro i hi
  rw [hag (p + i) (by omega) (by omega), h i hi]

theorem HasBytes.inside (h : HasBytes m p bs) (hne : 0 < bs.length) : p + bs.length ≤ m.length := by
  obtain ⟨b, hb⟩ : ∃ b, bs[bs.length - 1]? = some b :=
    ⟨bs[bs.length - 1], List.getElem?_eq_getElem _⟩
  have hlast := h (bs.length - 1) (by omega)
  rw [hb] at hlast
  have hlt := (List.getElem?_eq_some_iff.1 hlast).1
  omega

theorem view_natCast (m : Memory) (p count : Nat) :
    m.view p count = if p + count ≤ m.length then some ((m.drop p).take count) else none := by
  simp [Memory.view]

theorem getBytes_of_hasBytes (h : HasBytes m p bs) (hin : p + bs.length ≤ m.length) :
    getBytes m p bs.length = .ok bs := by
  unfold getBytes
  rw [view_natCast, if_pos hin]
  refine congrArg Except.ok (List.ext_getElem? fun i => ?_)
  rw [List.getElem?_take, List.getElem?_drop]
  split
  case isTrue hi => exact h i hi
  case isFalse hi => exact (List.getElem?_eq_none (Nat.not_lt.1 hi)).symm

theorem bytesView_natCast (m : Memory) (p count : Nat) :
    bytesView m p count = getBytes m p count := by
  unfold bytesView getBytes
  rw [if_neg (by omega), Int.toNat_natCast]

theorem bytesView_ok {count : Nat} (h : HasBytes m p bs) (hin : p + bs.length ≤ m.length)
    (hcount : count ≤ bs.length) : bytesView m p count = .ok (bs.take count) := by
  have hlen : (bs.take count).length = count := by
    rw [List.length_take]
    omega
  have htake : HasBytes m p (bs.take count) := by
    intro i hi
    rw [hlen] at hi
    rw [h i (by omega), List.getElem?_take, if_pos hi]
  have hget := getBytes_of_hasBytes htake (by omega)
  rw [hlen] at hget
  rw [bytesView_natCast, hget]

/-- A view that has bytes at all lies inside of the memory. -/
theorem HasBytes.get (h : HasBytes m p bs) {count : Nat} (hlen : bs.length = count)
    (hpos : 0 < count) : getBytes m p count = .ok bs := by
  subst hlen
  exact getBytes_of_hasBytes h (h.inside hpos)

theorem setBytes_natCast (m : Memory) (p : Nat) (bs : List UInt8) :
    m.setBytes p bs = if p + bs.length ≤ m.length then
      some (m.take p ++ bs ++ m.drop (p + bs.length)) else none := by
  simp [Memory.setBytes]

theorem setBytes_isSome (h : p + bs.length ≤ m.length) : ∃ m', m.setBytes p bs = some m' := by
  rw [setBytes_natCast, if_pos h]
  exact ⟨_, rfl⟩

theorem length_setBytes (h : m.setBytes p bs = some m') : m'.length = m.length := by
  rw [setBytes_natCast] at h
  rcases Option.ite_none_right_eq_some.1 h with ⟨hin, h⟩
  cases h
  rw [List.length_append, List.length_append, List.length_take, List.length_drop]
  omega

theorem getElem?_setBytes (h : m.setBytes p bs = some m') (a : Nat) :
    m'[a]? = if p ≤ a ∧ a < p + bs.length then bs[a - p]? else m[a]? := by
  rw [setBytes_natCast] at h
  rcases Option.ite_none_right_eq_some.1 h with ⟨hin, h⟩
  cases h
  have htake : (m.take p).length = p := by rw [List.length_take]; omega
  rw [List.append_assoc]
  rcases Nat.lt_or_ge a p with hlow | hlow
  · rw [if_neg (by omega), List.getElem?_append_left (by omega), List.getElem?_take, if_pos hlow]
  · rw [List.getElem?_append_right (by omega), htake]
    rcases Nat.lt_or_ge (a - p) bs.length with hup | hup
    · rw [if_pos (by omega), List.getElem?_append_left hup]
    · rw [if_neg (by omega), List.getElem?_append_right hup, List.getElem?_drop]
      exact congrArg (m[·]?) (by omega)

theorem hasBytes_setBytes (h : m.setBytes p bs = some m') : HasBytes m' p bs := by
  intro i hi
  rw [getElem?_setBytes h, if_pos (by omega), Nat.add_sub_cancel_left]

theorem setBytes_frame (h : m.setBytes p bs = some m') (ha : ¬ (p ≤ a ∧ a < p + bs.length)) :
    m'[a]? = m[a]? := by
  rw [getElem?_setBytes h, if_neg ha]

end Jco.Codec

import Mathlib.Data.List.Basic
import Mathlib.Tactic.Ring
import Jco.Js.Basic

/-! # Managed buffers

A `ManagedBuffer` is the memory area that a guest gave to `stream.read` or
`stream.write`, or an array that the host holds. `read` takes elements out of
it and `write` puts elements into it, both from where the last one stopped.

The element codec is a parameter: `liftFn` and `lowerFn` work on a memory and
answer the pointer they stopped at.
-/

namespace Jco.Stream

open Jco.Js List

/-! ## Memories and elements -/

/-- The bytes of a `WebAssembly.Memory`. -/
abbrev Memory := List UInt8

/-- `Array.from(new Uint8Array(memory.buffer, ptr, count))`; a view that is not
inside of the memory is a `RangeError`. -/
def Memory.view (m : Memory) (ptr : Int) (count : Nat) : Option (List UInt8) :=
  if 0 ≤ ptr ∧ ptr.toNat + count ≤ m.length then some ((m.drop ptr.toNat).take count) else none

/-- `new Uint8Array(memory.buffer, ptr, bytes.length).set(bytes)` -/
def Memory.setBytes (m : Memory) (ptr : Int) (bytes : List UInt8) : Option Memory :=
  if 0 ≤ ptr ∧ ptr.toNat + bytes.length ≤ m.length then
    some (m.take ptr.toNat ++ bytes ++ m.drop (ptr.toNat + bytes.length))
  else none

/-- The JavaScript values that elements are exchanged as. -/
class StreamValue (α : Type) where
  undefined : α
  /-- The element of a unit stream. -/
  null : α
  /-- An element of a `Uint8Array`, as a number. -/
  ofByte : UInt8 → α
  /-- The coercion of a `Uint8Array` element. -/
  toByte : α → UInt8

/-- Bytes as elements, `null` apart. -/
instance : StreamValue (Option UInt8) where
  undefined := none
  null := none
  ofByte := some
  toByte := (·.getD 0)

inductive StringEncoding where
  | utf8
  | utf16
  | compactUtf16
deriving DecidableEq, Repr

def StringEncoding.literal : StringEncoding → String
  | utf8 => "utf8"
  | utf16 => "utf16"
  | compactUtf16 => "compact-utf16"

/-- `elemMeta`: what a stream knows about its elements. `liftFn` throws with
`none`; `lowerFn` leaves what it wrote behind when it throws. -/
structure ElemMeta (α : Type) where
  payloadTypeName : Option String
  isNone : Bool
  isNumeric : Bool
  isBorrowed : Bool
  /-- Lowered unit streams have `null` here. -/
  align32 : Option Nat
  stringEncoding : Option StringEncoding
  liftFn : StringEncoding → Memory → Int → Option (α × Int)
  lowerFn : StringEncoding → Memory → Int → α → Memory × Option Int

variable {α : Type}

/-- The two metas differ in their string encoding only, which the first copies
of a stream fill in. -/
def ElemMeta.Like (e e' : ElemMeta α) : Prop :=
  { e with stringEncoding := none } = { e' with stringEncoding := none }

/-- Lifting or lowering an element moves the pointer by `size`. -/
def ElemMeta.AdvancesBy (e : ElemMeta α) (size : Nat) : Prop :=
  if e.isNone then size = 0
  else if e.payloadTypeName = some "U8" then size = 1
  else ∀ enc m p v p',
    (e.liftFn enc m p = some (v, p') → p' = p + size) ∧
    ∀ m', e.lowerFn enc m p v = (m', some p') → p' = p + size

/-! ## Buffers -/

structure ManagedBuffer (α : Type) where
  componentIdx : Int
  /-- The memory that holds the elements; none for host-owned buffers. -/
  memory : Option Nat
  elemMeta : ElemMeta α
  ptr : Int
  capacity : Nat
  processed : Nat
  hostOnlyData : List α

/-- `ManagedBuffer.MAX_LENGTH` -/
def MAX_LENGTH : Nat := 2 ^ 28 - 1

namespace ManagedBuffer

/-- The constructor, as `createBuffer` calls it. -/
def new (componentIdx : Int) (memory : Option Nat) (elemMeta : ElemMeta α) (start : Int)
    (capacity : Nat) (data : List α) : Except JsError (ManagedBuffer α) :=
  if MAX_LENGTH < capacity then
    .error (.error s!"buffer size [{capacity}] greater than max length")
  else
    match elemMeta.align32 with
    | none => .error (.typeError "missing/invalid element metadata")
    | some align32 =>
      if ¬elemMeta.isNone ∧ 0 < capacity ∧ start ≠ 0 ∧ memory.isSome ∧
          Int.tmod start align32 ≠ 0 then
        .error (.error s!"invalid alignment: type with 32bit alignment [{align32}] at starting pointer [{start}]")
      else .ok ⟨componentIdx, memory, elemMeta, start, capacity, 0, data⟩

theorem new_eq {componentIdx : Int} {memory : Option Nat} {e : ElemMeta α} {start : Int}
    {capacity : Nat} {data : List α} {b : ManagedBuffer α}
    (h : new componentIdx memory e start capacity data = .ok b) :
    capacity ≤ MAX_LENGTH ∧ b = ⟨componentIdx, memory, e, start, capacity, 0, data⟩ := by
  unfold new at h
  split at h
  case isTrue => cases h
  case isFalse hmax =>
    split at h
    case h_1 => cases h
    split at h
    case isTrue => cases h
    exact ⟨Nat.not_lt.1 hmax, (Except.ok.inj h).symm⟩

def remaining (b : ManagedBuffer α) : Nat := b.capacity - b.processed

/-- The loop of `read` over `liftFn`: the elements, each with the pointer it was
lifted from, and the pointer after the last. -/
def liftEach (liftFn : Int → Option (α × Int)) : Nat → Int → Option (List (Int × α) × Int)
  | 0, ptr => some ([], ptr)
  | count + 1, ptr =>
    match liftFn ptr with
    | none => none
    | some (value, ptr') =>
      match liftEach liftFn count ptr' with
      | none => none
      | some (values, ptr'') => some ((ptr, value) :: values, ptr'')

/-- The loop of `write` over `lowerFn`: the memory afterwards, and unless the
loop threw the pointers written to and the pointer after the last. -/
def lowerEach (lowerFn : Memory → Int → α → Memory × Option Int) :
    List α → Memory → Int → Memory × Option (List Int × Int)
  | [], m, ptr => (m, some ([], ptr))
  | value :: values, m, ptr =>
    match lowerFn m ptr value with
    | (m', none) => (m', none)
    | (m', some ptr') =>
      match lowerEach lowerFn values m' ptr' with
      | (m'', none) => (m'', none)
      | (m'', some (ptrs, ptr'')) => (m'', some (ptr :: ptrs, ptr''))

/-! ## Where the elements are -/

/-- The pointers of `count` elements of `size` bytes from `ptr` on. -/
def strided (ptr : Int) (size count : Nat) : List Int :=
  (List.range count).map fun i => ptr + (i * size : Nat)

@[simp] theorem strided_zero (ptr : Int) (size : Nat) : strided ptr size 0 = [] := rfl

@[simp] theorem length_strided (ptr : Int) (size count : Nat) :
    (strided ptr size count).length = count := by
  simp [strided]

theorem strided_succ (ptr : Int) (size count : Nat) :
    strided ptr size (count + 1) = ptr :: strided (ptr + size) size count := by
  unfold strided
  rw [range_succ_eq_map, map_cons, map_map]
  refine congrArg₂ _ (by simp) (map_congr_left fun i _ => ?_)
  simp only [Function.comp, Nat.succ_mul]
  push_cast
  ring

variable {values : List (Int × α)}

theorem liftEach_length {liftFn : Int → Option (α × Int)} {count : Nat} {ptr ptr' : Int}
    (h : liftEach liftFn count ptr = some (values, ptr')) :
    values.length = count := by
  induction count generalizing ptr values ptr' with
  | zero =>
    cases h
    rfl
  | succ count ih =>
    unfold liftEach at h
    split at h
    · cases h
    split at h
    · cases h
    · rename_i hrest
      cases h
      rw [length_cons, ih hrest]

theorem liftEach_strided {liftFn : Int → Option (α × Int)} {size : Nat}
    (hadv : ∀ p v p', liftFn p = some (v, p') → p' = p + size) {count : Nat} {ptr : Int}
    {ptr' : Int} (h : liftEach liftFn count ptr = some (values, ptr')) :
    values.map (·.1) = strided ptr size count ∧ ptr' = ptr + (count * size : Nat) := by
  induction count generalizing ptr values ptr' with
  | zero =>
    cases h
    exact ⟨rfl, by simp⟩
  | succ count ih =>
    unfold liftEach at h
    split at h
    case h_1 => cases h
    case h_2 v p₁ hlift =>
      split at h
      case h_1 => cases h
      case h_2 vs p₂ hrest =>
        cases h
        obtain rfl := hadv _ _ _ hlift
        obtain ⟨hptrs, rfl⟩ := ih hrest
        refine ⟨by rw [map_cons, hptrs, strided_succ], ?_⟩
        rw [Nat.succ_mul]
        push_cast
        ring

variable {m : Memory} {ptrs : List Int}

theorem lowerEach_strided {lowerFn : Memory → Int → α → Memory × Option Int} {size : Nat}
    (hadv : ∀ m p v m' p', lowerFn m p v = (m', some p') → p' = p + size) {values : List α}
    {ptr : Int} {m' : Memory} {ptr' : Int}
    (h : lowerEach lowerFn values m ptr = (m', some (ptrs, ptr'))) :
    ptrs = strided ptr size values.length ∧ ptr' = ptr + (values.length * size : Nat) := by
  induction values generalizing m ptr ptrs ptr' with
  | nil =>
    cases (Prod.mk.inj h).2
    exact ⟨rfl, by simp⟩
  | cons value values ih =>
    unfold lowerEach at h
    split at h
    case h_1 => cases h
    case h_2 m₁ p₁ hlower =>
      split at h
      case h_1 => cases h
      case h_2 m₂ ps p₂ hrest =>
        obtain ⟨hm, hsome⟩ := Prod.mk.inj h
        cases hsome
        obtain rfl := hadv _ _ _ _ _ hlower
        obtain ⟨rfl, rfl⟩ := ih (hm ▸ hrest)
        refine ⟨by rw [length_cons, strided_succ], ?_⟩
        rw [length_cons, Nat.succ_mul]
        push_cast
        ring

/-! ## Reading and writing -/

variable [StreamValue α]

/-- The values that `read(count)` collects, each with the pointer it comes from,
and the buffer with its pointer moved on. -/
def lifted (b : ManagedBuffer α) (m : Memory) (count : Nat) :
    Except JsError (List (Int × α) × ManagedBuffer α) :=
  if b.elemMeta.isNone then
    .ok (List.replicate count (b.ptr, StreamValue.null), b)
  else if b.memory.isNone then
    .ok ((b.hostOnlyData.take count).map (b.ptr, ·),
      { b with hostOnlyData := b.hostOnlyData.drop count })
  else if b.elemMeta.payloadTypeName = some "U8" then
    match m.view b.ptr count with
    | none => .error .engine
    | some bytes =>
      .ok (bytes.mapIdx fun i byte => (b.ptr + i, StreamValue.ofByte byte),
        { b with ptr := b.ptr + count })
  else
    match b.elemMeta.stringEncoding with
    | none => .error (.error "string encoding unknown during read")
    | some enc =>
      match liftEach (b.elemMeta.liftFn enc m) count b.ptr with
      | none => .error .engine
      | some (values, ptr) => .ok (values, { b with ptr })

/-- `write(values)` on the buffer and its memory: the memory afterwards, and
unless it throws the pointers written to and the buffer. -/
def lowered [DecidableEq α] (b : ManagedBuffer α) (m : Memory) (values : List α) :
    Memory × Except JsError (List Int × ManagedBuffer α) :=
  if b.elemMeta.isNone then
    if values.all (· = StreamValue.null) then (m, .ok (values.map fun _ => b.ptr, b))
    else (m, .error (.error "non-null values in write() to unit managed buffer"))
  else if b.memory.isNone then
    (m, .ok (values.map fun _ => b.ptr, { b with hostOnlyData := b.hostOnlyData ++ values }))
  else if b.elemMeta.payloadTypeName = some "U8" then
    match m.setBytes b.ptr (values.map StreamValue.toByte) with
    | none => (m, .error .engine)
    | some m' =>
      (m', .ok (values.mapIdx fun i _ => b.ptr + i, { b with ptr := b.ptr + values.length }))
  else
    match b.elemMeta.stringEncoding with
    | none => (m, .error (.error "string encoding unknown during write"))
    | some enc =>
      match lowerEach (b.elemMeta.lowerFn enc) values m b.ptr with
      | (m', none) => (m', .error .engine)
      | (m', some (ptrs, ptr)) => (m', .ok (ptrs, { b with ptr }))

omit [StreamValue α] in
theorem mapIdx_strided {β : Type} (values : List β) (ptr : Int) :
    values.mapIdx (fun i _ => ptr + (i : Int)) = strided ptr 1 values.length := by
  apply ext_getElem
  · simp
  · intro i _ _
    simp [strided]

theorem length_view {ptr : Int} {count : Nat} {bytes : List UInt8}
    (h : m.view ptr count = some bytes) : bytes.length = count := by
  rcases Option.ite_none_right_eq_some.1 h with ⟨hin, h⟩
  cases h
  rw [length_take, length_drop]
  omega

variable {b b' : ManagedBuffer α}

/-- What `read` takes from a guest's buffer comes from consecutive elements. -/
theorem lifted_guest {count size : Nat}
    (hadv : b.elemMeta.AdvancesBy size) (hmem : b.memory.isSome)
    (h : b.lifted m count = .ok (values, b')) :
    values.map (·.1) = strided b.ptr size count ∧
      b' = { b with ptr := b.ptr + (count * size : Nat) } := by
  unfold ElemMeta.AdvancesBy at hadv
  unfold lifted at h
  split at h
  case isTrue hnone =>
    rw [if_pos hnone] at hadv
    cases h
    subst hadv
    refine ⟨?_, by simp⟩
    rw [map_replicate]
    exact (eq_replicate_iff.2 ⟨by simp, by simp [strided]⟩).symm
  case isFalse hnone =>
    rw [if_neg hnone] at hadv
    rw [if_neg (by simp [Option.isSome_iff_ne_none.1 hmem])] at h
    split at h
    case isTrue hu8 =>
      rw [if_pos hu8] at hadv
      subst hadv
      split at h
      case h_1 => cases h
      case h_2 bytes hview =>
        cases h
        have hlen := length_view hview
        refine ⟨?_, by simp⟩
        rw [← hlen, ← mapIdx_strided]
        exact ext_getElem (by simp) fun i _ _ => by simp
    case isFalse hu8 =>
      rw [if_neg hu8] at hadv
      split at h
      case h_1 => cases h
      case h_2 enc _ =>
        split at h
        case h_1 => cases h
        case h_2 vs p hlift =>
          cases h
          obtain ⟨hptrs, rfl⟩ := liftEach_strided (fun p v p' => (hadv enc m p v p').1) hlift
          exact ⟨hptrs, rfl⟩

/-- What `write` puts into a guest's buffer goes to consecutive elements. -/
theorem lowered_guest [DecidableEq α] {m m' : Memory} {size : Nat}
    {values : List α} (hadv : b.elemMeta.AdvancesBy size)
    (hmem : b.memory.isSome) (h : b.lowered m values = (m', .ok (ptrs, b'))) :
    ptrs = strided b.ptr size values.length ∧
      b' = { b with ptr := b.ptr + (values.length * size : Nat) } := by
  unfold ElemMeta.AdvancesBy at hadv
  unfold lowered at h
  split at h
  case isTrue hnone =>
    rw [if_pos hnone] at hadv
    subst hadv
    split at h
    case isFalse => cases h
    case isTrue =>
      obtain ⟨-, h⟩ := Prod.mk.inj h
      cases h
      refine ⟨?_, by simp⟩
      rw [map_const']
      exact (eq_replicate_iff.2 ⟨by simp, by simp [strided]⟩).symm
  case isFalse hnone =>
    rw [if_neg hnone] at hadv
    rw [if_neg (by simp [Option.isSome_iff_ne_none.1 hmem])] at h
    split at h
    case isTrue hu8 =>
      rw [if_pos hu8] at hadv
      subst hadv
      split at h
      case h_1 => cases h
      case h_2 =>
        obtain ⟨-, h⟩ := Prod.mk.inj h
        cases h
        exact ⟨mapIdx_strided values b.ptr, by simp⟩
    case isFalse hu8 =>
      rw [if_neg hu8] at hadv
      split at h
      case h_1 => cases h
      case h_2 enc _ =>
        split at h
        case h_1 => cases h
        case h_2 m₁ ps p hlower =>
          obtain ⟨-, h⟩ := Prod.mk.inj h
          cases h
          obtain ⟨rfl, rfl⟩ :=
            lowerEach_strided (fun m p v m' p' => (hadv enc m p v p').2 m') hlower
          exact ⟨rfl, rfl⟩

/-- A successful `write` changes the pointer or the data of its buffer. -/
theorem lowered_ok [DecidableEq α]
    {values : List α} (h : (b.lowered m values).2 = .ok (ptrs, b')) :
    ptrs.length = values.length ∧
      b' = { b with ptr := b'.ptr, hostOnlyData := b'.hostOnlyData } := by
  have hlower : ∀ (lowerFn : Memory → Int → α → Memory × Option Int) (values : List α) (m : Memory)
      (ptr : Int) (m' : Memory) (ptrs : List Int) (ptr' : Int),
      lowerEach lowerFn values m ptr = (m', some (ptrs, ptr')) → ptrs.length = values.length := by
    intro lowerFn values
    induction values with
    | nil =>
      intro m ptr m' ptrs ptr' h
      cases h
      rfl
    | cons value values ih =>
      intro m ptr m' ptrs ptr' h
      unfold lowerEach at h
      split at h
      case h_1 => cases h
      case h_2 =>
        split at h
        case h_1 => cases h
        case h_2 hrest =>
          cases h
          rw [length_cons, length_cons, ih _ _ _ _ _ hrest]
  unfold ManagedBuffer.lowered at h
  split at h
  case isTrue =>
    split at h
    case isFalse => cases h
    case isTrue =>
      cases h
      exact ⟨length_map _, rfl⟩
  split at h
  case isTrue =>
    cases h
    exact ⟨length_map _, rfl⟩
  split at h
  case isTrue =>
    split at h
    case h_1 => cases h
    case h_2 =>
      cases h
      exact ⟨length_mapIdx, rfl⟩
  split at h
  case h_1 => cases h
  case h_2 =>
    split at h
    case h_1 => cases h
    case h_2 heach =>
      cases h
      exact ⟨hlower _ _ _ _ _ _ _ heach, rfl⟩

end ManagedBuffer

end Jco.Stream

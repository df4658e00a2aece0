import Jco.Lib.Run
import Jco.Stream.End

/-! # Streams between two guests

The runs of one internal stream whose ends are both held by guests: copies,
event delivery and drops in any order, while the guests change their memories.
Each end has a view of the stream, which is what its guest can tell from the
answers it gets. The elements that moved lie between what the views call
settled and what they call offered.
-/

namespace Jco.Stream

open Jco.Js Jco.Lib

variable {α : Type} [StreamValue α] [DecidableEq α]

/-! ## Calls -/

/-- The canonical options that a `stream.read` or `stream.write` is bound to,
and whether its component may leave. `CURRENT_TASK_MAY_BLOCK` is a
`WebAssembly.Global`, so that the test for it never fails. -/
structure StreamCtx where
  componentIdx : Int
  memory : Nat
  stringEncoding : StringEncoding
  isAsync : Bool
  mayLeave : Bool

/-- `Math.min(count >>> 0, MAX_LENGTH)` -/
def clampCount (count : Int) : Nat := min (count % 2 ^ 32).toNat MAX_LENGTH

def StreamCtx.copyArgs (ctx : StreamCtx) (buffer : Nat) (ptr count : Int) : CopyArgs α :=
  { buffer, isAsync := ctx.isAsync, memory := some ctx.memory, componentIdx := ctx.componentIdx,
    ptr, count := clampCount count, stringEncoding := some ctx.stringEncoding,
    rejectLength := none, data := [] }

namespace StreamState

/-- `stream.read` and `stream.write` -/
def streamCopy (side : Side) (ctx : StreamCtx) (ptr count : Int) : StreamM α CopyAnswer := fun s =>
  let args := ctx.copyArgs s.copies ptr count
  let s := { s with copies := s.copies + 1 }
  if ¬ctx.mayLeave then .error (.error "component instance is not marked as may leave") s
  else if ¬(s.ends side).inTable then .error (.error "missing stream end") s
  else copy side args s

/-- `stream.drop-readable` and `stream.drop-writable`: the end leaves the tables
before it is dropped. -/
def streamDrop (side : Side) : StreamM α Unit := fun s =>
  if ¬(s.ends side).inTable then
    .error (.error "missing stream end in component handles while deleting stream") s
  else drop side (s.setEnd side { s.ends side with inTable := false })

end StreamState

/-- What happens to a stream. An event is delivered by the waitable set of its
end, or to the synchronous copy that waits for it. -/
inductive StreamCall where
  | copy (side : Side) (ctx : StreamCtx) (ptr count : Int)
  | deliver (side : Side)
  | drop (side : Side)
  | run (memories : Nat → Memory)

inductive StreamAnswer where
  | copy (answer : CopyAnswer)
  | event (event : Option Event)
  | done
  | throws (err : JsError)

def answered {β : Type} (f : β → StreamAnswer) :
    EStateM.Result JsError (StreamState α) β → StreamAnswer × StreamState α
  | .ok x s => (f x, s)
  | .error err s => (.throws err, s)

/-- A call, with the state that its exception leaves behind if it throws. -/
def StreamState.call (s : StreamState α) : StreamCall → StreamAnswer × StreamState α
  | .copy side ctx ptr count => answered .copy (streamCopy side ctx ptr count s)
  | .deliver side => answered .event (s.getPendingEvent side)
  | .drop side => answered (fun _ => .done) (streamDrop side s)
  | .run memories => (.done, { s with memories })

/-- A stream between guests right after `stream.new`. -/
def StreamState.init (e : ElemMeta α) (waitableIdx : Side → Nat) : StreamState α where
  elemMeta := e
  dropped := false
  pendingBufferMeta := none
  ends := fun side => ⟨.idle, none, waitableIdx side, true⟩
  buffers := fun _ => ⟨-1, none, e, 0, 0, 0, []⟩
  copies := 0
  memories := fun _ => []
  taken := []
  placed := []

/-! ## Views -/

/-- An element of a copy: the number of the call, which of its elements it is,
and its address. -/
structure Slot where
  call : Nat
  index : Nat
  ptr : Int
deriving DecidableEq

/-- The first `n` elements of a copy. -/
def slots (call : Nat) (ptr : Int) (size n : Nat) : List Slot :=
  (List.range n).map fun i => ⟨call, i, ptr + (i * size : Nat)⟩

def Entry.slot (e : Entry α) : Slot := ⟨e.buffer, e.index, e.ptr⟩

/-- The progress in a packed result. -/
def progress (payload : Int) : Nat := (payload % 2 ^ 32).toNat / 16

/-- A copy whose result is outstanding. -/
structure OpenCopy where
  call : Nat
  ptr : Int
  count : Nat

/-- What the guest of an end knows. A copy offers all of its elements until its
result is there; then those beyond the reported progress are withdrawn. -/
structure View where
  /-- The elements reported as moved. -/
  settled : List Slot
  opened : Option OpenCopy
  /-- The sum of all reported progress. -/
  reported : Nat

/-- The settled elements, then those of the outstanding copy. -/
def View.offered (v : View) (size : Nat) : List Slot :=
  v.settled ++ v.opened.elim [] fun o => slots o.call o.ptr size o.count

/-- A result for the copy `o`. -/
def View.settle (v : View) (size : Nat) (o : OpenCopy) (n : Nat) : View :=
  { v with settled := v.settled ++ slots o.call o.ptr size n, reported := v.reported + n }

/-- The views of both ends, and the number of copies called. -/
structure Views where
  calls : Nat
  view : Side → View

namespace Views

def init : Views := ⟨0, fun _ => ⟨[], none, 0⟩⟩

def setView (vs : Views) (side : Side) (v : View) : Views :=
  { vs with view := Function.update vs.view side v }

/-- What a call and its answer tell the guests. -/
def observe (size : Nat) (l : StreamCall × StreamAnswer) (vs : Views) : Views :=
  match l with
  | (.copy side _ ptr count, answer) =>
    let v := vs.view side
    let o : OpenCopy := ⟨vs.calls, ptr, clampCount count⟩
    let vs := { vs with calls := vs.calls + 1 }
    match answer with
    | .copy (.packed payload) => vs.setView side (v.settle size o (progress payload))
    | .copy .blocked | .copy .suspended => vs.setView side { v with opened := some o }
    | _ => vs
  | (.deliver side, .event (some event)) =>
    let v := vs.view side
    match v.opened with
    | none => vs.setView side { v with reported := v.reported + progress event.payload1 }
    | some o =>
      vs.setView side { v.settle size o (progress event.payload1) with opened := none }
  | _ => vs

/-- The views after the labels of a run. -/
def after (size : Nat) (ls : List (StreamCall × StreamAnswer)) : Views :=
  ls.foldl (fun vs l => vs.observe size l) .init

end Views

/-- The elements that moved through the buffers of an end. -/
def StreamState.moved (s : StreamState α) : Side → List (Entry α)
  | .read => s.placed
  | .write => s.taken

/-! ## The condition -/

/-- The elements that a copy would move: the buffer they come from, the one they
go to, and how many. -/
def StreamState.moving (s : StreamState α) (side : Side) (ctx : StreamCtx) (ptr count : Int) :
    Option (ManagedBuffer α × ManagedBuffer α × Nat) :=
  s.pendingBufferMeta.map fun p =>
    let e := { s.elemMeta with
      stringEncoding := s.elemMeta.stringEncoding.or (some ctx.stringEncoding) }
    let b : ManagedBuffer α :=
      ⟨ctx.componentIdx, some ctx.memory, e, ptr, clampCount count, 0, []⟩
    let q := s.buffers p.buffer
    match side with
    | .read => (q, b, min q.remaining b.remaining)
    | .write => (b, q, min b.remaining q.remaining)

/-- No result reports a progress of `MAX_LENGTH`, and the elements that a copy
moves are lowered without an exception half way. -/
def Fits (l : StreamCall × StreamAnswer) (s : StreamState α) : Prop :=
  match l.1 with
  | .copy side ctx ptr count =>
    ∀ source target n, s.moving side ctx ptr count = some (source, target, n) →
      n ≠ MAX_LENGTH ∧
      ∀ values source', source.lifted (s.memoryOf source) n = .ok (values, source') →
        ∃ r, (target.lowered (s.memoryOf target) (values.map (·.2))).2 = .ok r
  | .deliver side =>
    ∀ buffer result reclaim rejectedLength,
      (s.ends side).pendingEventFn = some (.processFn buffer result reclaim rejectedLength) →
        (s.buffers buffer).processed ≠ MAX_LENGTH
  | _ => True

end Jco.Stream

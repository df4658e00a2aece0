import Mathlib.Logic.Function.Basic
import Jco.Js.Int32
import Jco.Stream.Buffer

/-! # Stream ends

The two ends of an internal stream share a dropped flag and one pending buffer.
A copy that finds no partner leaves its buffer pending; a later copy on the
other end meets it there. Progress is reported by events, which are closures
that read the buffer when they are delivered.

Methods answer a value or throw, and what they changed before throwing stays.
`taken` and `placed` are history: they list the elements that went through
`ManagedBuffer.read` and `ManagedBuffer.write`, and no method reads them.
-/

namespace Jco.Stream

open Jco.Js

inductive Side where
  | read
  | write
deriving DecidableEq, Repr

namespace Side

def other : Side → Side
  | read => write
  | write => read

/-- `STREAM_READ` and `STREAM_WRITE` -/
def eventCode : Side → Nat
  | read => 2
  | write => 3

theorem other_ne (side : Side) : side.other ≠ side := by
  cases side <;> decide

theorem eq_other {side side' : Side} (h : side' ≠ side) : side' = side.other := by
  cases side <;> cases side' <;> simp_all [other]

end Side

inductive CopyResult where
  | completed
  | dropped
  | cancelled
deriving DecidableEq, Repr

def CopyResult.code : CopyResult → Nat
  | completed => 0
  | dropped => 1
  | cancelled => 2

inductive CopyState where
  | idle
  | syncCopying
  | asyncCopying
  | cancellingCopy
  | done
deriving DecidableEq, Repr

/-- What the closures `onCopyFn` and `onCopyDoneFn` of a copy capture. -/
structure Callback where
  streamEnd : Side
  buffer : Nat
deriving DecidableEq, Repr

/-- The event closures that a waitable holds: a call of `processFn`, or one
that throws the error of a rejected host write. -/
inductive EventFn where
  | processFn (buffer : Nat) (result : CopyResult) (reclaim : Bool) (rejectedLength : Option Nat)
  | throwFn (err : JsError)
deriving DecidableEq

/-- A delivered event. -/
structure Event where
  code : Nat
  payload0 : Nat
  payload1 : Int
  rejectedLength : Option Nat
deriving DecidableEq, Repr

structure StreamEnd where
  copyState : CopyState
  pendingEventFn : Option EventFn
  waitableIdx : Nat
  /-- The end is still in the handle table of its component. -/
  inTable : Bool

def StreamEnd.isCopying (e : StreamEnd) : Bool :=
  match e.copyState with
  | .idle | .done => false
  | .syncCopying | .asyncCopying | .cancellingCopy => true

/-- `#pendingBufferMeta`, while it holds a buffer. -/
structure PendingBufferMeta where
  componentIdx : Int
  buffer : Nat
  onCopyFn : Callback
  onCopyDoneFn : Option Callback
  rejectLength : Option Nat
deriving DecidableEq

/-- An element that went through a buffer: the buffer, which of its elements it
is, where it lies and its value. -/
structure Entry (α : Type) where
  buffer : Nat
  index : Nat
  ptr : Int
  value : α

structure StreamState (α : Type) where
  elemMeta : ElemMeta α
  dropped : Bool
  pendingBufferMeta : Option PendingBufferMeta
  ends : Side → StreamEnd
  buffers : Nat → ManagedBuffer α
  /-- Calls of `copy` so far; each may add the buffer with its own number. -/
  copies : Nat
  memories : Nat → Memory
  taken : List (Entry α)
  placed : List (Entry α)

/-- What a copy answers: a packed result, or that it waits for its event. -/
inductive CopyAnswer where
  | packed (payload : Int)
  | blocked
  | suspended
deriving DecidableEq, Repr

/-- What `copy` is called with: the index in `buffers` for the buffer, and `data`
when the host fills it; a guest gives a memory and a pointer. -/
structure CopyArgs (α : Type) where
  buffer : Nat
  isAsync : Bool
  memory : Option Nat
  componentIdx : Int
  ptr : Int
  count : Nat
  stringEncoding : Option StringEncoding
  rejectLength : Option Nat
  data : List α

variable {α : Type}

/-- A method of a stream end. -/
abbrev StreamM (α β : Type) := StreamState α → EStateM.Result JsError (StreamState α) β

namespace StreamState

/-! ## Events and the pending buffer -/

def setEnd (s : StreamState α) (side : Side) (e : StreamEnd) : StreamState α :=
  { s with ends := Function.update s.ends side e }

def setCopyState (s : StreamState α) (side : Side) (copyState : CopyState) : StreamState α :=
  s.setEnd side { s.ends side with copyState }

def setPendingEvent (s : StreamState α) (side : Side) (fn : EventFn) : StreamState α :=
  s.setEnd side { s.ends side with pendingEventFn := some fn }

@[simp] theorem setPendingEvent_self (s : StreamState α) (side : Side) (fn : EventFn) :
    ((s.setPendingEvent side fn).ends side).pendingEventFn = some fn := by
  simp [setPendingEvent, setEnd]

theorem setPendingEvent_ne (s : StreamState α) {side side' : Side} (fn : EventFn)
    (h : side' ≠ side) : (s.setPendingEvent side fn).ends side' = s.ends side' := by
  simp [setPendingEvent, setEnd, h]

@[simp] theorem setPendingEvent_copyState (s : StreamState α) (side side' : Side) (fn : EventFn) :
    ((s.setPendingEvent side fn).ends side').copyState = (s.ends side').copyState := by
  by_cases h : side' = side
  · subst h
    simp [setPendingEvent, setEnd]
  · rw [setPendingEvent_ne s fn h]

def hasPendingEvent (s : StreamState α) (side : Side) : Bool :=
  (s.ends side).pendingEventFn.isSome

def setPendingBufferMeta (s : StreamState α) (p : PendingBufferMeta) : StreamState α :=
  { s with pendingBufferMeta := some p }

def resetPendingBufferMeta (s : StreamState α) : StreamState α :=
  { s with pendingBufferMeta := none }

/-- `onCopyFn(() => this.resetPendingBufferMeta())` -/
def onCopyFn (s : StreamState α) (c : Callback) : StreamState α :=
  s.setPendingEvent c.streamEnd (.processFn c.buffer .completed true none)

def onCopyDoneFn (s : StreamState α) (c : Callback) (result : CopyResult)
    (rejectedLength : Option Nat) : StreamState α :=
  s.setPendingEvent c.streamEnd (.processFn c.buffer result false rejectedLength)

def resetAndNotifyPending (s : StreamState α) (result : CopyResult) : StreamState α :=
  match s.pendingBufferMeta.bind (·.onCopyDoneFn) with
  | none => s.resetPendingBufferMeta
  | some f => s.resetPendingBufferMeta.onCopyDoneFn f result none

/-- `(Number(processed) << 4) | result` -/
def packResult (processed : Nat) (result : CopyResult) : Int :=
  bitOr (shl processed 4) result.code

/-- `processFn` of the copy of `side` into `buffer`. The test on the progress
refers to a variable that does not exist, so that it throws a `ReferenceError`. -/
def processFn (s : StreamState α) (side : Side) (buffer : Nat) (result : CopyResult)
    (reclaim : Bool) (rejectedLength : Option Nat) :
    EStateM.Result JsError (StreamState α) Event :=
  let s := if reclaim then s.resetPendingBufferMeta else s
  let s := s.setCopyState side (if result = .dropped then .done else .idle)
  let processed := (s.buffers buffer).processed
  if MAX_LENGTH ≤ processed then .error .engine s
  else .ok ⟨side.eventCode, (s.ends side).waitableIdx, packResult processed result,
    rejectedLength⟩ s

/-- `getPendingEvent`: `null` without a pending event. -/
def getPendingEvent (s : StreamState α) (side : Side) :
    EStateM.Result JsError (StreamState α) (Option Event) :=
  let cleared := s.setEnd side { s.ends side with pendingEventFn := none }
  match (s.ends side).pendingEventFn with
  | none => .ok none s
  | some (.throwFn err) => .error err cleared
  | some (.processFn buffer result reclaim rejectedLength) =>
    match cleared.processFn side buffer result reclaim rejectedLength with
    | .ok event s => .ok (some event) s
    | .error err s => .error err s

/-! ## Moving elements -/

section

variable [StreamValue α] [DecidableEq α]

def memoryOf (s : StreamState α) (b : ManagedBuffer α) : Memory :=
  b.memory.elim [] s.memories

def entries (buffer : Nat) (processed : Nat) (values : List (Int × α)) : List (Entry α) :=
  values.mapIdx fun i v => ⟨buffer, processed + i, v.1, v.2⟩

/-- `ManagedBuffer.read` -/
def bufferRead (buffer count : Nat) : StreamM α (List α) := fun s =>
  let b := s.buffers buffer
  if count = 0 then .error (.typeError s!"missing/invalid count [{count}]") s
  else if b.capacity < count then
    .error (.error s!"cannot read [{count}] elements from buffer with capacity [{b.capacity}]") s
  else
    match b.lifted (s.memoryOf b) count with
    | .error err => .error err s
    | .ok (values, b') =>
      .ok (values.map (·.2)) { s with
        buffers := Function.update s.buffers buffer
          { b' with processed := b.processed + count }
        taken := s.taken ++ entries buffer b.processed values }

/-- `ManagedBuffer.write` -/
def bufferWrite (buffer : Nat) (values : List α) : StreamM α Unit := fun s =>
  let b := s.buffers buffer
  if b.remaining < values.length then
    .error (.error s!"cannot write [{values.length}] elements to managed buffer with remaining capacity [{b.remaining}]") s
  else
    match b.lowered (s.memoryOf b) values with
    | (m, res) =>
      let s := { s with
        memories := b.memory.elim s.memories (Function.update s.memories · m) }
      match res with
      | .error err => .error err s
      | .ok (ptrs, b') =>
        .ok () { s with
          buffers := Function.update s.buffers buffer
            { b' with processed := b.processed + values.length }
          placed := s.placed ++ entries buffer b.processed (ptrs.zip values) }

/-- `target.write(source.read(count))` -/
def transfer (source target count : Nat) : StreamM α Unit := fun s =>
  match bufferRead source count s with
  | .error err s => .error err s
  | .ok values s => bufferWrite target values s

/-! ## Copies -/

/-- Elements of other than unit or numeric types do not go back into the
component they come from. -/
def sameComponent (p : PendingBufferMeta) (pending buffer : ManagedBuffer α) : Bool :=
  p.componentIdx = buffer.componentIdx ∧ buffer.componentIdx ≠ -1 ∧
    ¬(pending.elemMeta.isNone ∨ pending.elemMeta.isNumeric)

def exceeds (length : Nat) (rejectLength : Option Nat) : Bool :=
  rejectLength.any (· < length)

/-- `StreamWritableEnd._write` of the copy with the closures `own`. -/
def _write (own : Callback) (componentIdx : Int) : StreamM α Unit := fun s =>
  let buffer := s.buffers own.buffer
  let self : PendingBufferMeta := ⟨componentIdx, own.buffer, own, some own, none⟩
  if s.dropped then .ok () (s.onCopyDoneFn own .dropped none)
  else
    match s.pendingBufferMeta with
    | none => .ok () (s.setPendingBufferMeta self)
    | some p =>
      let pending := s.buffers p.buffer
      if pending.elemMeta.payloadTypeName ≠ buffer.elemMeta.payloadTypeName then
        .error (.error "trap: stream end type does not match internal buffer") s
      else if sameComponent p pending buffer then
        .error (.error s!"trap: cannot stream non-numeric types within the same component (component [{buffer.componentIdx}], send)") s
      -- Unit streams are written to without any work.
      else if buffer.capacity = 0 ∧ pending.capacity = 0 then
        .ok () (s.onCopyDoneFn own .completed none)
      else if pending.remaining = 0 then
        .ok () ((s.resetAndNotifyPending .completed).setPendingBufferMeta self)
      else if 0 < buffer.remaining then
        if exceeds buffer.remaining p.rejectLength then
          let s := match p.onCopyDoneFn with
            | none => s.resetPendingBufferMeta
            | some f => s.resetPendingBufferMeta.onCopyDoneFn f .dropped buffer.remaining
          .ok () (s.onCopyDoneFn own .dropped none)
        else
          let numElements := min buffer.remaining pending.remaining
          match transfer own.buffer p.buffer numElements s with
          | .error err s => .error err s
          | .ok () s => .ok () ((s.onCopyFn p.onCopyFn).onCopyDoneFn own .completed none)
      else .ok () (s.onCopyDoneFn own .completed none)

/-- The reader and the writer agree on a string encoding at the first read. -/
def shareEncoding (s : StreamState α) (buffer pending : Nat) :
    EStateM.Result JsError (StreamState α) Unit :=
  let new := (s.buffers buffer).elemMeta.stringEncoding
  let old := (s.buffers pending).elemMeta.stringEncoding
  if new.isSome ∧ old.isSome then .ok () s
  else
    match old.or new with
    | none => .error (.error "both writer & reader missing string encoding") s
    | some enc =>
      let set (b : ManagedBuffer α) : ManagedBuffer α :=
        { b with elemMeta := { b.elemMeta with stringEncoding := some enc } }
      let buffers := Function.update s.buffers buffer (set (s.buffers buffer))
      .ok () { s with buffers := Function.update buffers pending (set (buffers pending)) }

/-- `StreamReadableEnd._read` of the copy with the closures `own`. -/
def _read (own : Callback) (componentIdx : Int) (rejectLength : Option Nat) :
    StreamM α Unit := fun s =>
  let self : PendingBufferMeta := ⟨componentIdx, own.buffer, own, some own, rejectLength⟩
  if s.dropped then .ok () (s.onCopyDoneFn own .dropped none)
  else
    match s.pendingBufferMeta with
    | none => .ok () (s.setPendingBufferMeta self)
    | some p =>
      if (s.buffers p.buffer).elemMeta.payloadTypeName ≠
          (s.buffers own.buffer).elemMeta.payloadTypeName then
        .error (.error "trap: stream end type does not match internal buffer") s
      else
        match s.shareEncoding own.buffer p.buffer with
        | .error err s => .error err s
        | .ok () s =>
          let buffer := s.buffers own.buffer
          let pending := s.buffers p.buffer
          if sameComponent p pending buffer then
            .error (.error s!"trap: cannot stream non-numeric types within the same component (component [{buffer.componentIdx}] read)") s
          else if 0 < pending.remaining then
            if exceeds pending.remaining rejectLength then
              .ok () ((s.resetAndNotifyPending .dropped).onCopyDoneFn own .dropped
                pending.remaining)
            else if 0 < buffer.remaining then
              let count := min pending.remaining buffer.remaining
              match transfer p.buffer own.buffer count s with
              | .error err s => .error err s
              | .ok () s => .ok () ((s.onCopyFn p.onCopyFn).onCopyDoneFn own .completed none)
            else .ok () (s.onCopyDoneFn own .completed none)
          else .ok () ((s.resetAndNotifyPending .completed).setPendingBufferMeta self)

/-- `setupCopy`: the closures of the copy, over a buffer of its own. -/
def setupCopy (side : Side) (args : CopyArgs α) : StreamM α Callback := fun s =>
  if (s.ends side).isCopying then
    .error (.error "stream is currently undergoing a separate copy") s
  else if (s.ends side).copyState ≠ .idle then .error (.error "stream copy state is not idle") s
  else if s.elemMeta.isBorrowed then
    .error (.error "borrowed types cannot be sent over streams") s
  else
    match ManagedBuffer.new args.componentIdx args.memory s.elemMeta args.ptr args.count
        args.data with
    | .error err => .error err s
    | .ok buffer =>
      .ok ⟨side, args.buffer⟩ { s with buffers := Function.update s.buffers args.buffer buffer }

/-- A copy that finds the stream dropped tells the one that is still pending. -/
def notifyDropped (s : StreamState α) : StreamState α :=
  match s.pendingBufferMeta with
  | none => s
  | some p =>
    match p.onCopyDoneFn with
    | none => s
    | some f =>
      (s.setPendingBufferMeta { p with onCopyDoneFn := none }).onCopyDoneFn f .dropped none

omit [StreamValue α] [DecidableEq α] in
theorem notifyDropped_of_none {s : StreamState α} (h : s.pendingBufferMeta = none) :
    s.notifyDropped = s := by
  unfold notifyDropped
  rw [h]

/-- The string encodings of an end and of a copy on it do not match. -/
def inconsistentEncoding (previous now : Option StringEncoding) : JsError :=
  let literal (enc : Option StringEncoding) := enc.elim "undefined" (·.literal)
  .error s!"inconsistent string encoding (previously [{literal previous}], now [{literal now}])"

/-- After its read or write a copy has no answer yet. -/
def started : EStateM.Result JsError (StreamState α) Unit →
    EStateM.Result JsError (StreamState α) (Option CopyAnswer)
  | .error err s => .error err s
  | .ok () s => .ok none s

/-- The first part of `copy`: everything up to the read or write itself. A
dropped stream answers at once. -/
def copyStart (side : Side) (args : CopyArgs α) : StreamM α (Option CopyAnswer) := fun s =>
  let stringEncoding := s.elemMeta.stringEncoding.or args.stringEncoding
  let s := { s with elemMeta := { s.elemMeta with stringEncoding } }
  if args.stringEncoding.isSome ∧ stringEncoding ≠ args.stringEncoding then
    .error (inconsistentEncoding stringEncoding args.stringEncoding) s
  else if s.dropped then
    .ok (some (.packed CopyResult.dropped.code)) (s.notifyDropped.setCopyState side .done)
  else
    match setupCopy side args s with
    | .error err s => .error err s
    | .ok own s =>
      started <| match side with
        | .write => _write own args.componentIdx s
        | .read => _read own args.componentIdx args.rejectLength s

/-- The last part of `copy`: it consumes its event, which came at once or which
a synchronous copy waited for. -/
def copyEvent (side : Side) : StreamM α CopyAnswer := fun s =>
  match s.getPendingEvent side with
  | .error err s => .error err s
  | .ok none s => .error (.error "unexpectedly missing pending event") s
  | .ok (some event) s =>
    if event.code ≠ side.eventCode ∨ event.payload0 ≠ (s.ends side).waitableIdx then
      .error (.error "invalid event code/event during stream operation") s
    else .ok (.packed event.payload1) s

/-- The rest of `copy` after the read or write. -/
def copyFinish (side : Side) (isAsync : Bool) : StreamM α CopyAnswer := fun s =>
  if s.hasPendingEvent side then copyEvent side s
  else if isAsync then .ok .blocked (s.setCopyState side .asyncCopying)
  else .ok .suspended (s.setCopyState side .syncCopying)

/-- `copy` without a host to inject writes. -/
def copy (side : Side) (args : CopyArgs α) : StreamM α CopyAnswer := fun s =>
  match copyStart side args s with
  | .error err s => .error err s
  | .ok (some answer) s => .ok answer s
  | .ok none s => copyFinish side args.isAsync s

end

/-! ## Dropping -/

/-- `drop` of an end: its waitable refuses while it holds an event. -/
def drop (side : Side) : StreamM α Unit := fun s =>
  if s.dropped then .ok () s
  else if s.hasPendingEvent side then
    .error (.error "waitables with pending events cannot be dropped") s
  else
    let processed := (s.pendingBufferMeta.map fun p => (s.buffers p.buffer).processed).getD 0
    let result := if 0 < processed then CopyResult.completed else .dropped
    .ok () ({ s with dropped := true }.resetAndNotifyPending result)

end StreamState

end Jco.Stream

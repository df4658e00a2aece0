import Jco.Lib.Run
import Jco.Lib.Script
import Jco.Stream.Buffer

/-! # The two ends of a future

A future hands one element from its writable end to its readable end. The end that
comes first leaves its buffer in the `pendingBufferMeta` that both share, and the
other end copies. The element metadata is one object for both ends and all buffers.

The two ends are private to themselves otherwise: `setDroppedFn` and `isDroppedFn`,
which the constructor of the future passes to them, are not looked at. Cancellation
is left out, as `futureCancelRead` and `futureCancelWrite` throw on their first line.
-/

namespace Jco.Future

open Jco.Js Jco.Lib Jco.Stream

variable {α τ : Type}

/-! ## Elements -/

/-- The memories, and what else lifting and lowering work on. -/
structure World (τ : Type) where
  memories : Nat → Stream.Memory
  tables : τ

structure LiftCtx where
  storagePtr : Option Int
  memory : Nat
  componentIdx : Int
  stringEncoding : StringEncoding

structure LowerCtx where
  storagePtr : Option Int
  memory : Nat
  componentIdx : Int
  stringEncoding : StringEncoding
  getReallocFn : Option Nat

/-- `elemMeta`. A `reallocFn` is known by a number. -/
structure ElemMeta (α τ : Type) where
  payloadTypeName : Option String
  isNone : Bool
  isBorrowed : Bool
  align32 : Option Nat
  stringEncoding : Option StringEncoding
  getReallocFn : Option Nat
  liftFn : LiftCtx → Script JsError (World τ) α
  lowerFn : LowerCtx → α → Script JsError (World τ) Unit

/-- The metadata of a `future<u8>`. -/
def futureU8 : ElemMeta (Option UInt8) Unit where
  payloadTypeName := some "U8"
  isNone := false
  isBorrowed := false
  align32 := some 1
  stringEncoding := none
  getReallocFn := none
  liftFn _ := .throw .engine
  lowerFn _ _ := .throw .engine

/-- No metadata has the member `isNoneOrNumberType`, which the ends ask for: it is
`undefined`. -/
def ElemMeta.isNoneOrNumberType (_ : ElemMeta α τ) : Bool := false

/-- The arguments of `guestRead` and `guestWrite`, those of the host with `data`. -/
structure Args (α : Type) where
  componentIdx : Int
  isAsync : Bool
  stringEncoding : Option StringEncoding
  getReallocFn : Option Nat
  memory : Option Nat
  ptr : Option Int
  data : Option (List α)

/-- What the operation adds to the metadata. -/
def ElemMeta.fill (e : ElemMeta α τ) (a : Args α) : ElemMeta α τ :=
  { e with
    stringEncoding := e.stringEncoding <|> a.stringEncoding
    getReallocFn := e.getReallocFn <|> a.getReallocFn }

/-! ## Buffers -/

/-- A `ManagedBuffer` for one element. -/
structure Buffer (α : Type) where
  componentIdx : Int
  memory : Option Nat
  ptr : Option Int
  processed : Nat
  hostOnlyData : Option (List α)

/-- The capacity is one. -/
def Buffer.remaining (b : Buffer α) : Nat := 1 - b.processed

def ElemMeta.misaligned (e : ElemMeta α τ) (align32 : Nat) (start : Int) : Bool :=
  !e.isNone && start ≠ 0 && Int.tmod start align32 ≠ 0

/-- `createBuffer` with a count of one. -/
def ElemMeta.createBuffer (e : ElemMeta α τ) (a : Args α) : Except JsError (Buffer α) :=
  match e.align32 with
  | none => .error (.typeError "missing/invalid element metadata")
  | some align32 =>
    match a.ptr with
    | some start =>
      if e.misaligned align32 start then
        .error (.error s!"invalid alignment: type with 32bit alignment [{align32}] at starting pointer [{start}]")
      else .ok ⟨a.componentIdx, a.memory, a.ptr, 0, a.data⟩
    | none => .ok ⟨a.componentIdx, a.memory, a.ptr, 0, a.data⟩

section

variable [StreamValue α]

/-- A view of the memory at a pointer that is `undefined` begins at its start. -/
def readByte (memory : Nat) (ptr : Option Int) : Script JsError (World τ) (List α) := do
  let w ← Script.get
  match (w.memories memory).view (ptr.getD 0) 1 with
  | some bytes => pure (bytes.map StreamValue.ofByte)
  | none => Script.throw .engine

def writeBytes (memory : Nat) (ptr : Option Int) (values : List α) :
    Script JsError (World τ) Unit := do
  let w ← Script.get
  match (w.memories memory).setBytes (ptr.getD 0) (values.map StreamValue.toByte) with
  | some m => Script.modify fun w => { w with memories := Function.update w.memories memory m }
  | none => Script.throw .engine

/-- `read(1)` of a buffer: the values, and the buffer afterwards. -/
def Buffer.read (b : Buffer α) (e : ElemMeta α τ) :
    Script JsError (World τ) (List α × Buffer α) :=
  let processed := b.processed + 1
  if e.isNone then pure ([StreamValue.null], { b with processed })
  else
    match b.memory with
    | none =>
      match b.hostOnlyData with
      | none => Script.throw .engine
      | some data =>
        pure (data.take 1, { b with processed, hostOnlyData := some (data.drop 1) })
    | some memory =>
      if e.payloadTypeName = some "U8" then do
        let values ← readByte memory b.ptr
        pure (values, { b with processed, ptr := b.ptr.map (· + 1) })
      else
        match e.stringEncoding with
        | none => Script.throw (.error "string encoding unknown during read")
        | some stringEncoding => do
            let value ← e.liftFn ⟨b.ptr, memory, b.componentIdx, stringEncoding⟩
            pure ([value], { b with processed })

/-- `for (const v of values)` with `lowerFn` -/
def lowerEach (e : ElemMeta α τ) (ctx : LowerCtx) : List α → Script JsError (World τ) Unit
  | [] => pure ()
  | v :: values => do
      e.lowerFn ctx v
      lowerEach e ctx values

/-- `write` of a buffer. The values come out of a buffer with the same metadata, so
that those of a unit future are `null`. -/
def Buffer.write (b : Buffer α) (e : ElemMeta α τ) (values : List α) :
    Script JsError (World τ) (Buffer α) :=
  let processed := b.processed + values.length
  if b.remaining < values.length then
    Script.throw (.error s!"cannot write [{values.length}] elements to managed buffer with remaining capacity [{b.remaining}]")
  else if e.isNone then pure { b with processed }
  else
    match b.memory with
    | none =>
      match b.hostOnlyData with
      | none => Script.throw .engine
      | some data => pure { b with processed, hostOnlyData := some (data ++ values) }
    | some memory =>
      if e.payloadTypeName = some "U8" then do
        writeBytes memory b.ptr values
        pure { b with processed, ptr := b.ptr.map (· + values.length) }
      else
        match e.stringEncoding with
        | none => Script.throw (.error "string encoding unknown during write")
        | some stringEncoding => do
            lowerEach e ⟨b.ptr, memory, b.componentIdx, stringEncoding, e.getReallocFn⟩ values
            pure { b with processed }

/-- `dst.write(src.read(1))` -/
def transfer (e : ElemMeta α τ) (src dst : Buffer α) :
    Script JsError (World τ) (Buffer α × Buffer α) := do
  let (values, src) ← src.read e
  let dst ← dst.write e values
  pure (src, dst)

end

/-! ## Ends -/

/-- `FutureEnd.CopyResult` -/
inductive CopyResult where
  | completed
  | dropped
  | cancelled
deriving DecidableEq, Repr

/-- `FutureEnd.CopyState` -/
inductive CopyState where
  | idle
  | syncCopying
  | asyncCopying
  | cancellingCopy
  | done
deriving DecidableEq, Repr

inductive Side where
  | read
  | write
deriving DecidableEq, Repr

/-- A pending event: its result, and what remains in the buffer it is about. -/
structure Event where
  result : CopyResult
  remaining : Nat
deriving DecidableEq, Repr

/-- `pendingBufferMeta` with a buffer, and the end that has left it. -/
structure PendingBufferMeta (α : Type) where
  componentIdx : Option Int
  buffer : Buffer α
  side : Side

/-- An end is `inFlight` between the copy that a call has begun and the rest of the
call, and `removed` when a drop has taken it from the tables. History: the results
that were reported to its owner. -/
structure FutureEnd where
  copyState : CopyState
  dropped : Bool
  pendingEvent : Option Event
  inFlight : Bool
  removed : Bool
  reported : List CopyResult

structure State (α τ : Type) where
  elemMeta : ElemMeta α τ
  world : World τ
  pendingBufferMeta : Option (PendingBufferMeta α)
  futureEnd : Side → FutureEnd

abbrev Js (α τ : Type) := Script JsError (State α τ)

namespace State

def init (elemMeta : ElemMeta α τ) (world : World τ) : State α τ where
  elemMeta := elemMeta
  world := world
  pendingBufferMeta := none
  futureEnd _ := ⟨.idle, false, none, false, false, []⟩

def modifyEnd (s : State α τ) (side : Side) (f : FutureEnd → FutureEnd) : State α τ :=
  { s with futureEnd := Function.update s.futureEnd side (f (s.futureEnd side)) }

end State

def modifyEnd (side : Side) (f : FutureEnd → FutureEnd) : Js α τ Unit :=
  .modify fun s => s.modifyEnd side f

def onWorld {β : Type} (x : Script JsError (World τ) β) : Js α τ β := ⟨fun s =>
  ((x.run s.world).1, { s with world := (x.run s.world).2 })⟩

/-- `onCopyDoneFn` of the end, which has closed over its buffer. -/
def onCopyDoneFn (side : Side) (buffer : Buffer α) (res : CopyResult) : Js α τ Unit := do
  Script.throwIf (res = .dropped && side = .read) (.error "cannot read from a dropped future")
  modifyEnd side fun e => { e with pendingEvent := some ⟨res, buffer.remaining⟩ }

/-- `resetAndNotifyPending`, where the pending buffer is as the copy has left it. -/
def resetAndNotifyPending (side : Side) (buffer : Buffer α) (result : CopyResult) :
    Js α τ Unit := do
  Script.modify fun s => { s with pendingBufferMeta := none }
  onCopyDoneFn side buffer result

section

variable [StreamValue α]

def _read (buffer : Buffer α) (componentIdx : Int) : Js α τ Unit := do
  let s ← Script.get
  Script.throwIf (s.futureEnd .read).dropped (.error "cannot read from dropped future")
  Script.throwIf (buffer.remaining ≠ 1)
    (.error s!"invalid remaining values in buffer (expecetd one, received [{buffer.remaining}]")
  match s.pendingBufferMeta with
  | none =>
    Script.modify fun s => { s with pendingBufferMeta := some ⟨some componentIdx, buffer, .read⟩ }
  | some pending => do
      Script.throwIf
        (some componentIdx = pending.componentIdx && componentIdx ≠ -1 &&
          !s.elemMeta.isNoneOrNumberType)
        (.error "same-component future reads not allowed for non-numeric types")
      let (src, dst) ← onWorld (transfer s.elemMeta pending.buffer buffer)
      resetAndNotifyPending pending.side src .completed
      onCopyDoneFn .read dst .completed

/-- `_write`, which does not leave its `componentIdx`. -/
def _write (buffer : Buffer α) (componentIdx : Int) : Js α τ Unit := do
  let s ← Script.get
  Script.throwIf (buffer.remaining ≠ 1)
    (.error "invalid remaining capacity for pending buffer")
  if (s.futureEnd .write).dropped then onCopyDoneFn .write buffer .dropped
  else
    match s.pendingBufferMeta with
    | none =>
      Script.modify fun s => { s with pendingBufferMeta := some ⟨none, buffer, .write⟩ }
    | some pending => do
        Script.throwIf
          (some componentIdx = pending.componentIdx && componentIdx ≠ -1 &&
            !s.elemMeta.isNoneOrNumberType)
          (.error "same-component future writes not allowed for non-numeric types")
        let (src, dst) ← onWorld (transfer s.elemMeta buffer pending.buffer)
        resetAndNotifyPending pending.side dst .completed
        onCopyDoneFn .write src .completed

def copy (side : Side) (buffer : Buffer α) (componentIdx : Int) : Js α τ Unit :=
  match side with
  | .read => _read buffer componentIdx
  | .write => _write buffer componentIdx

/-- `guestRead` and `guestWrite`, which differ in the copy only. -/
def guestCopy (side : Side) (a : Args α) : Js α τ Unit := do
  Script.modify fun s => { s with elemMeta := s.elemMeta.fill a }
  let s ← Script.get
  Script.throwIf s.elemMeta.isBorrowed (.error "cannot call future.read on a borrow")
  match s.elemMeta.createBuffer a with
  | .error err => Script.throw err
  | .ok buffer => copy side buffer a.componentIdx

def Side.operation : Side → String
  | read => "futureRead"
  | write => "futureWrite"

/-- `futureRead` and `futureWrite` up to their `await`. -/
def beginCopy (side : Side) (a : Args α) : Js α τ Unit := do
  let s ← Script.get
  Script.throwIf ((s.futureEnd side).copyState ≠ .idle)
    (.error s!"future state must be idle before {side.operation}")
  guestCopy side a
  modifyEnd side fun e => { e with inFlight := true }

end

/-- The function of a pending event. -/
def futureEvent (side : Side) (event : Event) : Js α τ Unit := do
  Script.throwIf (event.remaining = 0 && event.result ≠ .completed)
    (.error "invalid buffer state, expected zero remaining post-completion")
  Script.throwIf (event.remaining ≠ 0 && event.result = .completed)
    (.error "invalid buffer state, expected 1 remaining post-completion")
  modifyEnd side fun e =>
    { e with
      copyState := if event.result = .cancelled then .idle else .done
      reported := e.reported ++ [event.result] }

/-- `getPendingEvent` -/
def getPendingEvent (side : Side) : Js α τ Unit := do
  let s ← Script.get
  match (s.futureEnd side).pendingEvent with
  | none => pure ()
  | some event => do
      modifyEnd side fun e => { e with pendingEvent := none }
      futureEvent side event

/-- `futureRead` and `futureWrite` from their `await` on: the call is blocked, or it
takes the event. -/
def endCopy (side : Side) (isAsync : Bool) : Js α τ Unit := do
  modifyEnd side fun e => { e with inFlight := false }
  let s ← Script.get
  if (s.futureEnd side).pendingEvent.isSome then getPendingEvent side
  else
    modifyEnd side fun e =>
      { e with copyState := if isAsync then .asyncCopying else .syncCopying }

/-- `drop`. A pending buffer is looked for in a variable that does not exist. -/
def drop (side : Side) : Js α τ Unit := do
  let s ← Script.get
  Script.throwIf (side = .write && (s.futureEnd side).copyState ≠ .done)
    (.error "trap: futures must not be dropped before being completed")
  Script.throwIf (s.futureEnd side).dropped (.error "future already dropped")
  Script.throwIf s.pendingBufferMeta.isSome .engine
  modifyEnd side fun e => { e with dropped := true }

/-- `futureDropReadable` and `futureDropWritable` -/
def futureDrop (side : Side) : Js α τ Unit := do
  modifyEnd side fun e => { e with removed := true }
  drop side

end Jco.Future

import Jco.Stream.Cancel
import Jco.Stream.Packing

/-! # Reads of the host

The host reads a stream that a guest writes with `read()` of the read end, and may call
it again before it has an answer. Each call waits for the one before it, which it finds
in `#result`.

A step goes up to the next `await`. `jobs` are the reads that the microtask queue goes on
with, first in first out; a promise that settles puts those there that await it, and the
read that settles it awaits it last. The interval that looks for an event is a step of its
own. `answered` and `clashed` are history.
-/

namespace Jco.Stream.HostReads

open Jco.Js Jco.Lib StreamState

variable {α : Type}

/-! ## State -/

/-- What the promise of `read()` resolves with. A value by itself is a list of one. -/
structure ReadResult (α : Type) where
  value : Option (List α)
  done : Bool
  rejectedLength : Option Nat

/-- What a call of `read()` awaits. -/
inductive Phase (α : Type) where
  /-- The promise of an earlier read. -/
  | waits (previous : Nat)
  /-- That promise has settled. -/
  | starting
  /-- `this.copy()`, which has answered or thrown. -/
  | copied (packedResult : Except JsError Int)
  /-- The event of its copy, which the interval looks for. -/
  | blocked
  /-- The interval has found an event. -/
  | woken
  /-- Its own promise, which has settled. -/
  | settled (value : Except JsError (Option (List α)))
  | answered (result : Except JsError (ReadResult α))

/-- A call of `read()`. It has `clashed` when another copy was in progress as it started
its own. -/
structure Read (α : Type) where
  count : Nat
  rejectLength : Option Nat
  buffer : Nat
  clashed : Bool
  phase : Phase α

def Read.awaits (read : Read α) (previous : Nat) : Bool :=
  match read.phase with
  | .waits k => k = previous
  | _ => false

/-- The read end as the host holds it. -/
structure Reader (α : Type) where
  stream : StreamState α
  /-- `#result`: the read that it belongs to. -/
  result : Option Nat
  endOfStream : Bool
  rejectedLength : Option Nat
  reads : Nat → Read α
  calls : Nat
  jobs : List Nat
  answered : List Nat

/-- A stream whose write end went to a guest. -/
def Reader.init (e : ElemMeta α) (waitableIdx : Side → Nat) : Reader α where
  stream := .init e waitableIdx
  result := none
  endOfStream := false
  rejectedLength := none
  reads := fun _ => ⟨0, none, 0, false, .starting⟩
  calls := 0
  jobs := []
  answered := []

namespace Reader

def setRead (r : Reader α) (k : Nat) (read : Read α) : Reader α :=
  { r with reads := Function.update r.reads k read }

def setPhase (r : Reader α) (k : Nat) (phase : Phase α) : Reader α :=
  r.setRead k { r.reads k with phase }

/-- The promise of a read settles. -/
def settle (r : Reader α) (k : Nat) (value : Except JsError (Option (List α))) : Reader α :=
  let waiting := (List.range r.calls).filter fun j => (r.reads j).awaits k
  let reads : Nat → Read α := fun j =>
    if (r.reads j).awaits k then { r.reads j with phase := .starting } else r.reads j
  { r with reads, jobs := r.jobs ++ waiting ++ [k] }.setPhase k (.settled value)

/-! ## Reading -/

/-- `#readOpts`, for integers; everything else is refused as well. -/
def readOpts (count : Int) (rejectLength : Option Int) : Except JsError (Nat × Option Nat) :=
  if count < (if rejectLength.isSome then 0 else 1) then
    .error (.typeError s!"invalid stream read count [{count}]")
  else
    match rejectLength with
    | none => .ok (count.toNat, none)
    | some rejectLength =>
      if rejectLength < 0 then
        .error (.typeError s!"invalid stream read reject length [{rejectLength}]")
      else .ok (count.toNat, some rejectLength.toNat)

section

variable [StreamValue α] [DecidableEq α]

/-- What a copy throws when the end is copying. -/
def copyInProgress (s : StreamState α) (side : Side) : Bool :=
  ¬s.dropped ∧ (s.ends side).isCopying

/-- `copy` of the read end, with the `rejectedLength` of the event that it consumes. -/
def hostCopy (args : CopyArgs α) : StreamM α (CopyAnswer × Option Nat) := fun s =>
  match copyStart .read args s with
  | .error err s => .error err s
  | .ok (some answer) s => .ok (answer, none) s
  | .ok none s =>
    let rejectedLength :=
      match (s.ends .read).pendingEventFn with
      | some (.processFn _ _ _ rejectedLength) => rejectedLength
      | _ => none
    match copyFinish .read args.isAsync s with
    | .error err s => .error err s
    | .ok answer s => .ok (answer, rejectedLength) s

/-- The call of `copy` for a read, over a new buffer. -/
def copyArgs (read : Read α) (buffer : Nat) : CopyArgs α :=
  ⟨buffer, true, none, -1, 0, read.count, none, read.rejectLength, []⟩

/-- `read()` behind the wait for the read before it: everything up to `await this.copy()`. -/
def startCopy (r : Reader α) (k : Nat) : Reader α :=
  let s := r.stream
  let read := { r.reads k with count := min (r.reads k).count MAX_LENGTH }
  match ManagedBuffer.new (-1) none s.elemMeta 0 read.count [] with
  | .error err => (r.setRead k read).settle k (.error err)
  | .ok _ =>
    let read := { read with buffer := s.copies, clashed := copyInProgress s .read }
    let r := r.setRead k read
    match hostCopy (copyArgs read s.copies) { s with copies := s.copies + 1 } with
    | .error err s =>
      { r with stream := s, jobs := r.jobs ++ [k] }.setPhase k (.copied (.error err))
    | .ok (.packed packedResult, rejectedLength) s =>
      { r with
        stream := s
        rejectedLength := rejectedLength.or r.rejectedLength
        jobs := r.jobs ++ [k] }.setPhase k (.copied (.ok packedResult))
    | .ok (_, _) s => { r with stream := s }.setPhase k .blocked

/-- `read()` behind its copy. Its buffer is not used again, so that only the values that it
reads from there matter. -/
def finish (r : Reader α) (k : Nat) (packedResult : Int) : Reader α :=
  let (transferred, resultKind) := hostUnpack packedResult
  let r := if resultKind = CopyResult.dropped.code then { r with endOfStream := true } else r
  if 0 < transferred then
    match bufferRead (r.reads k).buffer transferred.toNat r.stream with
    | .error err _ => r.settle k (.error err)
    | .ok values _ => { r with result := none }.settle k (.ok (some values))
  else { r with result := none }.settle k (.ok none)

/-- `read()` behind the wait for the event of its copy. A packed result is an i32, so that
none is the constant for a blocked copy. -/
def takeEvent (r : Reader α) (k : Nat) : Reader α :=
  match r.stream.getPendingEvent .read with
  | .error err s => { r with stream := s }.settle k (.error err)
  | .ok none s =>
    { r with stream := s }.settle k
      (.error (.error "missing pending event after blocked stream read"))
  | .ok (some event) s =>
    let r := { r with stream := s }
    if event.code ≠ Side.read.eventCode then
      r.settle k (.error (.error s!"mismatched event code [{event.code}] for host stream read"))
    else if event.payload0 ≠ (s.ends .read).waitableIdx then
      r.settle k (.error (.error "invalid stream end index"))
    else
      { r with rejectedLength := event.rejectedLength.or r.rejectedLength }.finish k
        event.payload1

/-- `read()` behind the wait for its own promise. -/
def answer (r : Reader α) (k : Nat) (value : Except JsError (Option (List α))) : Reader α :=
  let answered := r.answered ++ [k]
  match value with
  | .error err => { r with answered }.setPhase k (.answered (.error err))
  | .ok value =>
    let done := value.isNone ∨ (r.reads k).count = 1 ∧ value = some [StreamValue.undefined]
    { r with answered, rejectedLength := none }.setPhase k
      (.answered (.ok ⟨value, done, r.rejectedLength⟩))

/-- A read goes on. -/
def resume (r : Reader α) (k : Nat) : Reader α :=
  match (r.reads k).phase with
  | .starting => r.startCopy k
  | .copied (.ok packedResult) => r.finish k packedResult
  | .copied (.error err) => r.settle k (.error err)
  | .woken => r.takeEvent k
  | .settled value => r.answer k value
  | _ => r

/-- A settled promise does not make a read wait longer than for its turn. -/
def hasSettled (r : Reader α) (k : Nat) : Bool :=
  match (r.reads k).phase with
  | .settled _ | .answered _ => true
  | _ => false

/-- `read()` up to its first `await`. Invalid options throw. -/
def read (r : Reader α) (count : Int) (rejectLength : Option Int) : Reader α :=
  let k := r.calls
  if r.endOfStream then
    { r with calls := k + 1, answered := r.answered ++ [k] }.setRead k
      ⟨0, none, 0, false, .answered (.ok ⟨none, true, none⟩)⟩
  else
    match readOpts count rejectLength with
    | .error _ => r
    | .ok (count, rejectLength) =>
      let started (phase : Phase α) : Reader α :=
        { r with calls := k + 1, result := some k }.setRead k
          ⟨count, rejectLength, 0, false, phase⟩
      match r.result with
      | none => (started .starting).startCopy k
      | some previous =>
        if r.hasSettled previous then
          { started .starting with jobs := r.jobs ++ [k] }
        else started (.waits previous)

end

end Reader

/-! ## Steps -/

/-- What happens to the stream: the calls of the host and of the guest that writes, and
what goes on by itself. -/
inductive Call where
  | read (count : Int) (rejectLength : Option Int)
  | job
  | poll (k : Nat)
  | dropRead
  | write (ctx : StreamCtx) (ptr count : Int)
  | cancelWrite (ctx : StreamCtx)
  | cancelEvent
  | deliver
  | dropWrite
  | run (memories : Nat → Memory)

section

variable [StreamValue α] [DecidableEq α]

def Reader.withStream {β : Type} (r : Reader α) (res : EStateM.Result JsError (StreamState α) β) :
    Reader α :=
  { r with stream := resultState res }

/-- A call, where it is possible. -/
def Reader.perform (r : Reader α) : Call → Option (Reader α)
  | .read count rejectLength => some (r.read count rejectLength)
  | .job =>
    match r.jobs with
    | [] => none
    | k :: jobs => some ({ r with jobs }.resume k)
  | .poll k =>
    match (r.reads k).phase with
    | .blocked =>
      if k < r.calls ∧ r.stream.hasPendingEvent .read then
        some ({ r with jobs := r.jobs ++ [k] }.setPhase k .woken)
      else none
    | _ => none
  | .dropRead => some (r.withStream (drop .read r.stream))
  | .write ctx ptr count => some (r.withStream (streamCopy .write ctx ptr count r.stream))
  | .cancelWrite ctx => some (r.withStream (streamCancel .write ctx r.stream))
  | .cancelEvent => some (r.withStream (StreamState.cancelEvent .write r.stream))
  | .deliver => some (r.withStream (r.stream.getPendingEvent .write))
  | .dropWrite => some (r.withStream (streamDrop .write r.stream))
  | .run memories => some { r with stream := { r.stream with memories } }

def next : Action Call (Reader α) := computed Reader.perform

/-! ## The property -/

/-- The values that a read was answered with. -/
def Read.portion (read : Read α) : List α :=
  match read.phase with
  | .answered (.ok result) => result.value.getD []
  | _ => []

/-- The reads are answered in the order of their calls, with what comes next of the
elements that were written, and none of them finds another one copying. -/
structure Serialised (r : Reader α) : Prop where
  inOrder : r.answered = List.range r.answered.length
  consecutive : r.answered.flatMap (fun k => (r.reads k).portion) <+: r.stream.taken.map (·.value)
  /-- The elements are taken from one write after the other, each from its first on. -/
  written : r.stream.taken.Pairwise (·.buffer ≤ ·.buffer) ∧
    ∀ b, (r.stream.takenOf b).map (·.index) = List.range (r.stream.takenOf b).length
  noClash : ∀ k < r.calls, (r.reads k).clashed = false

/-! ## The condition -/

/-- A copy of the read end for `count` elements that starts now moves fewer than 2^27. -/
def Reader.Fits (r : Reader α) (count : Nat) : Prop :=
  ∀ p, r.stream.pendingBufferMeta = some p →
    min count (r.stream.buffers p.buffer).remaining < 2 ^ 27

/-- The event of the read end reports fewer than 2^27 elements. -/
def Reader.Reports (r : Reader α) : Prop :=
  ∀ b result reclaim rejectedLength,
    (r.stream.ends .read).pendingEventFn = some (.processFn b result reclaim rejectedLength) →
      (r.stream.buffers b).processed < 2 ^ 27

/-- The copy of a read has answered. -/
def Read.hasCopied (read : Read α) : Bool :=
  match read.phase with
  | .copied _ | .settled _ | .answered _ => true
  | _ => false

def Read.isAnswered (read : Read α) : Bool :=
  match read.phase with
  | .answered _ => true
  | _ => false

/-- No read is called while an earlier one has no answer yet but is not found in
`#result`, and no copy moves 2^27 elements. -/
def Safe (call : Call) (r : Reader α) : Prop :=
  match call with
  | .read count rejectLength =>
    if r.endOfStream then ∀ k < r.calls, (r.reads k).isAnswered = true
    else
      ∀ n m, Reader.readOpts count rejectLength = .ok (n, m) → r.result = none →
        (∀ k < r.calls, (r.reads k).hasCopied = true) ∧ r.Fits n
  | .job =>
    ∀ k, r.jobs.head? = some k →
      match (r.reads k).phase with
      | .starting => r.Fits (r.reads k).count
      | .woken => r.Reports
      | _ => True
  | _ => True

end

end Jco.Stream.HostReads

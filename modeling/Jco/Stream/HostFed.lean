import Jco.Stream.Queue
import Jco.Stream.Rendezvous

/-! # Streams that the host feeds

The guest holds the read end of such a stream. Each read starts an injection:
an asynchronous function that takes values out of the source and writes them to
the stream's other end, just in time for the read that waits there. Injections
share one queue of values and one promise of the source, and they outlive the
read that started them.

A step goes up to the next `await`. `fromSource` and `reports` are history: the
elements that the source gave and the results that the guest got.
-/

namespace Jco.Stream

open Jco.Js Jco.Lib

variable {α : Type}

/-! ## State -/

/-- What the promise of the source's `next()` resolves with. -/
structure SourceResult (α : Type) where
  value : SourceValue α
  done : Bool

/-- What an injection awaits, or how it ended. -/
inductive Await where
  /-- `readSource()`, in the branch for a count of zero or in the loop, and the
  answer as soon as it is there. -/
  | source (zero : Bool) (appended : Option Nat)
  /-- `writePromise`, and the error that it is rejected with. -/
  | write (err : Option JsError)
  /-- The injection returned `resetWriteEndToIdleFn` or `doNothingFn`. -/
  | returned (resets : Bool)
  | failed (err : JsError)
deriving DecidableEq

/-- What the `stream.read` that started an injection does in the meantime. -/
inductive Caller where
  /-- It answered; its promise chain takes the outcome of the injection. -/
  | detached
  /-- It waits in `suspendUntil` for its event. -/
  | suspended
  /-- It awaits the injection. -/
  | awaiting
  | finished
deriving DecidableEq

/-- A call of `generatedStreamHostInject`. `values` are those it has taken out of
the queue and not written. -/
structure Injection (α : Type) where
  caller : Caller
  await : Await
  count : Nat
  values : List α

/-- A result that the guest got for a read into `buffer`. -/
structure Report (α : Type) where
  buffer : Nat
  count : Nat
  progress : Nat
  /-- The values that lie in the buffer, as far as the progress says. -/
  values : List α

structure HostFed (α : Type) where
  stream : StreamState α
  queue : PendingValueQueue α
  done : Bool
  /-- `#sourceReadPromise`; its answer is there before it is reset. -/
  sourceReadPromise : Option (Option Nat)
  injections : Nat → Injection α
  injected : Nat
  /-- `setHostCancelFn` has been called. -/
  hasHostCancelFn : Bool
  /-- The timeouts of `completeCancel`. -/
  timers : Nat
  /-- The calls of `stream.cancel-read` that wait for an event. -/
  cancels : Nat
  fromSource : List α
  reports : List (Report α)

/-- The elements of a result: an `undefined` without the end of the source is an
element where elements may be `undefined`. -/
def SourceResult.elements [StreamValue α] (e : ElemMeta α) (r : SourceResult α) : List α :=
  match r.value with
  | .undefined => if r.done ∨ e.isNumeric then [] else [StreamValue.undefined]
  | .value v => [v]
  | .array v elements | .arrayBuffer v elements => if e.isNumeric then elements else [v]

/-- What a value becomes as an element: units do not differ. -/
def ElemMeta.asElement [StreamValue α] (e : ElemMeta α) (v : α) : α :=
  if e.isNone then StreamValue.null else v

/-- The values that lie in a buffer of the guest. -/
def StreamState.valuesIn (s : StreamState α) (buffer : Nat) : List α :=
  (s.placed.filter (·.buffer = buffer)).map Entry.value

/-! ## The write end -/

/-- `StreamWritableEnd.writeMany` on an end that the host owns: everything up to
its first `await`, and what its promise is going to be. `createBuffer` comes
before `copy`. -/
def StreamState.writeMany [StreamValue α] [DecidableEq α] (values : List α) : StreamM α Unit := fun s =>
  let args : CopyArgs α := ⟨s.copies, true, none, -1, 0, values.length, none, none, values⟩
  let s := { s with copies := s.copies + 1 }
  match ManagedBuffer.new (-1) none s.elemMeta 0 values.length values with
  | .error err => .error err s
  | .ok _ =>
    match copy .write args s with
    | .ok _ s => .ok () s
    | .error err s => if s.hasPendingEvent .write then .ok () s else .error err s

/-- `resetWriteEndToIdleFn` -/
def StreamState.resetWriteEndToIdle : StreamM α Unit := fun s =>
  if s.hasPendingEvent .write then
    match s.getPendingEvent .write with
    | .error err s => .error err s
    | .ok _ s => .ok () s
  else .ok () s

namespace HostFed

/-! ## Injections -/

def setInjection (s : HostFed α) (k : Nat) (inj : Injection α) : HostFed α :=
  { s with injections := Function.update s.injections k inj }

/-- The injection goes to its next `await` without values, or ends. -/
def leave (s : HostFed α) (k : Nat) (await : Await) : HostFed α :=
  s.setInjection k { s.injections k with await, values := [] }

/-- The injection ends with what a synchronous call gave. -/
def leaveWith (s : HostFed α) (k : Nat) : EStateM.Result JsError (StreamState α) Unit → HostFed α
  | .ok () stream => { s with stream }.leave k (.returned false)
  | .error err stream => { s with stream }.leave k (.failed err)

def hasPendingReadBuffer (s : HostFed α) : Bool := s.stream.pendingBufferMeta.isSome

/-- `await pendingValues.readSource()` -/
def readSource (s : HostFed α) (k : Nat) (zero : Bool) : HostFed α :=
  { s with sourceReadPromise := s.sourceReadPromise.or (some none) }.setInjection k
    { s.injections k with await := .source zero none }

def drainPendingValues (s : HostFed α) (k : Nat) : HostFed α :=
  let inj := s.injections k
  let (taken, queue) := s.queue.drainInto inj.count
  { s with queue }.setInjection k
    { inj with values := inj.values ++ taken, count := inj.count - taken.length }

def bail (s : HostFed α) (k : Nat) : HostFed α :=
  { s with queue := s.queue.prepend (s.injections k).values }.leave k (.returned false)

/-- The source is exhausted. -/
def endStream (s : HostFed α) (k : Nat) : HostFed α :=
  s.leaveWith k <| match s.stream.getPendingEvent .write with
    | .error err stream => .error err stream
    | .ok _ stream => stream.drop .write

section

variable [StreamValue α] [DecidableEq α]

/-- `await writeValues(values)` -/
def writeValues (s : HostFed α) (k : Nat) (values : List α) : HostFed α :=
  let (err, stream) := match s.stream.writeMany values with
    | .ok () stream => (none, stream)
    | .error err stream => (some err, stream)
  let s := { s with stream }
  if stream.hasPendingEvent .write then s.leaveWith k stream.resetWriteEndToIdle
  else s.leave k (.write err)

/-- The part of an injection behind its loop. -/
def finishInjection (s : HostFed α) (k : Nat) : HostFed α :=
  let s := if s.done ∧ (s.injections k).values = [] ∧ 0 < s.queue.length ∧ s.hasPendingReadBuffer
    then s.drainPendingValues k else s
  if s.done ∧ (s.injections k).values = [] then s.endStream k
  else if ¬s.hasPendingReadBuffer then s.bail k
  else s.writeValues k (s.injections k).values

/-- The test of the loop, and the loop up to its `await`. -/
def loop (s : HostFed α) (k : Nat) : HostFed α :=
  if 0 < (s.injections k).count ∧ ¬s.done then s.readSource k false else s.finishInjection k

/-- The rest of the loop. -/
def resumeLoop (s : HostFed α) (k appended : Nat) : HostFed α :=
  if s.stream.hasPendingEvent .read then s.bail k
  else if ¬s.hasPendingReadBuffer then s.bail k
  else
    let s := s.drainPendingValues k
    if 0 < (s.injections k).values.length then s.finishInjection k
    else
      let inj := s.injections k
      let s := if appended = 0 ∧ ¬s.done then s.setInjection k { inj with count := inj.count - 1 }
        else s
      if s.done then s.finishInjection k else s.loop k

/-- A read of zero elements completes when there is a value. -/
def injectReady (s : HostFed α) (k : Nat) : HostFed α :=
  if 0 < s.queue.length then
    let (readyValues, queue) := s.queue.drainInto 1
    { s with queue }.writeValues k readyValues
  else if s.done then s.endStream k
  else s.leave k (.returned false)

def resumeZero (s : HostFed α) (k : Nat) : HostFed α :=
  if s.stream.hasPendingEvent .read ∨ ¬s.hasPendingReadBuffer then s.leave k (.returned false)
  else s.injectReady k

/-- `generatedStreamHostInject` up to its first `await`. -/
def inject (s : HostFed α) (k : Nat) : HostFed α :=
  if s.stream.hasPendingEvent .read then s.leave k (.returned true)
  else if (s.stream.ends .write).copyState = .done then s.leave k (.returned false)
  else
    let s := { s with hasHostCancelFn := true }
    if ¬s.hasPendingReadBuffer then s.leave k (.returned false)
    else if (s.injections k).count = 0 then
      if s.queue.length = 0 ∧ ¬s.done then s.readSource k true else s.injectReady k
    else (s.drainPendingValues k).loop k

/-- An injection goes on, when what it awaits is there. -/
def resume (s : HostFed α) (k : Nat) : Option (HostFed α) :=
  if s.injected ≤ k then none
  else
    match (s.injections k).await with
    | .source zero (some appended) => some (if zero then s.resumeZero k else s.resumeLoop k appended)
    | .write (some err) => some (s.leave k (.failed err))
    | .write none => some (s.leaveWith k s.stream.resetWriteEndToIdle)
    | _ => none

end

/-! ## The source -/

/-- The promise of `next()` resolves. -/
def resolve [StreamValue α] (s : HostFed α) (r : SourceResult α) : Option (HostFed α) :=
  if s.sourceReadPromise ≠ some none then none
  else
    let e := s.stream.elemMeta
    let (appended, queue) := s.queue.appendReadValue e r.value
    some { s with
      queue
      done := r.done
      sourceReadPromise := some (some appended)
      fromSource := s.fromSource ++ (r.elements e).map e.asElement }

/-- `#sourceReadPromise` is reset, and then everyone who awaits it goes on. -/
def settle (s : HostFed α) : Option (HostFed α) :=
  match s.sourceReadPromise with
  | some (some appended) =>
    some { s with
      sourceReadPromise := none
      injections := fun k =>
        match (s.injections k).await with
        | .source zero none => { s.injections k with await := .source zero (some appended) }
        | _ => s.injections k }
  | _ => none

/-! ## Reads -/

/-- The result that the event of the read end reports with `payload`. -/
def report (s : HostFed α) (payload : Int) : List (Report α) :=
  match (s.stream.ends .read).pendingEventFn with
  | some (.processFn buffer _ _ _) =>
    [⟨buffer, (s.stream.buffers buffer).capacity, progress payload,
      (s.stream.valuesIn buffer).take (progress payload)⟩]
  | _ => []

/-- `stream.read`, up to its first `await`. -/
def read [StreamValue α] [DecidableEq α] (s : HostFed α) (ctx : StreamCtx) (ptr count : Int) : StreamAnswer × HostFed α :=
  let args : CopyArgs α := ctx.copyArgs s.stream.copies ptr count
  let s := { s with stream := { s.stream with copies := s.stream.copies + 1 } }
  if ¬ctx.mayLeave then (.throws (.error "component instance is not marked as may leave"), s)
  else if ¬(s.stream.ends .read).inTable then (.throws (.error "missing stream end"), s)
  else
    match StreamState.copyStart .read args s.stream with
    | .error err stream => (.throws err, { s with stream })
    | .ok (some answer) stream => (.copy answer, { s with stream })
    | .ok none stream =>
      let k := s.injected
      let s : HostFed α := { s with stream, injected := k + 1 }.setInjection k
        ⟨.awaiting, .returned false, args.count, []⟩
      let s := s.inject k
      if s.stream.hasPendingEvent .read then (.copy .suspended, s)
      else
        let caller : Caller := if ctx.isAsync then .detached else .suspended
        let copyState : CopyState := if ctx.isAsync then .asyncCopying else .syncCopying
        (.copy (if ctx.isAsync then .blocked else .suspended),
          { s with stream := s.stream.setCopyState .read copyState }.setInjection k
            { s.injections k with caller })

/-- What a call answers, with the state that its exception leaves behind. -/
def answers {β : Type} (s : HostFed α) (f : β → StreamAnswer) :
    EStateM.Result JsError (StreamState α) β → StreamAnswer × HostFed α
  | .ok x stream => (f x, { s with stream })
  | .error err stream => (.throws err, { s with stream })

/-- A call that consumes the event of the read end; a result is reported. -/
def consumes (s : HostFed α) :
    EStateM.Result JsError (StreamState α) CopyAnswer → StreamAnswer × HostFed α
  | .ok (.packed payload) stream =>
    (.copy (.packed payload), { s with stream, reports := s.reports ++ s.report payload })
  | res => s.answers .copy res

/-- The promise chain of a read that was answered takes the outcome of its
injection. -/
def takeOutcome (s : HostFed α) (k : Nat) : Option (StreamAnswer × HostFed α) :=
  let inj := s.injections k
  let s := s.setInjection k { inj with caller := .finished }
  if s.injected ≤ k ∨ inj.caller ≠ .detached then none
  else
    match inj.await with
    | .returned true => some (s.answers (fun _ => .done) s.stream.resetWriteEndToIdle)
    | .returned false => some (.done, s)
    | .failed err => some (.done, { s with stream := s.stream.setPendingEvent .read (.throwFn err) })
    | _ => none

/-- `suspendUntil` of a synchronous read ends. -/
def wake (s : HostFed α) (k : Nat) : Option (StreamAnswer × HostFed α) :=
  if s.injected ≤ k ∨ (s.injections k).caller ≠ .suspended ∨ ¬s.stream.hasPendingEvent .read then none
  else some (.done, s.setInjection k { s.injections k with caller := .awaiting })

/-- `stream.read` behind `await injectedWritePromise`. -/
def finishRead [StreamValue α] [DecidableEq α] (s : HostFed α) (k : Nat) : Option (StreamAnswer × HostFed α) :=
  let inj := s.injections k
  let s := s.setInjection k { inj with caller := .finished }
  if s.injected ≤ k ∨ inj.caller ≠ .awaiting then none
  else
    match inj.await with
    | .returned resets =>
      match if resets then s.stream.resetWriteEndToIdle else .ok () s.stream with
      | .error err stream => some (.throws err, { s with stream })
      | .ok () stream => some ({ s with stream }.consumes (StreamState.copyEvent .read stream))
    | .failed err => some (.throws err, s)
    | _ => none

/-- The waitable set of the read end delivers its event. -/
def deliver (s : HostFed α) : StreamAnswer × HostFed α :=
  match s.stream.getPendingEvent .read with
  | .ok (some event) stream =>
    (.event (some event), { s with stream, reports := s.reports ++ s.report event.payload1 })
  | res => s.answers .event res

/-! ## Cancellation -/

/-- `hostCancelFn`: whether the values that are there complete the read. -/
def hostCancel [StreamValue α] [DecidableEq α] (s : HostFed α) :
    EStateM.Result JsError (HostFed α) Bool :=
  match s.stream.pendingBufferMeta with
  | none => .ok false s
  | some p =>
    if s.queue.length = 0 then .ok false s
    else
      let (cancelValues, queue) := s.queue.drainInto (s.stream.buffers p.buffer).remaining
      let s := { s with queue }
      if cancelValues.length = 0 then .ok false s
      else
        let stream := match s.stream.writeMany cancelValues with
          | .ok () stream | .error _ stream => stream
        if ¬stream.hasPendingEvent .write then
          .ok false { s with stream, queue := s.queue.prepend cancelValues }
        else
          match stream.resetWriteEndToIdle with
          | .error err stream => .error err { s with stream }
          | .ok () stream => .ok true { s with stream }

/-- `completeCancel` -/
def completeCancel [StreamValue α] [DecidableEq α] (s : HostFed α) : StreamAnswer × HostFed α :=
  if s.stream.dropped then (.done, s)
  else
    match if s.hasHostCancelFn then s.hostCancel else .ok false s with
    | .error err s => (.throws err, s)
    | .ok true s => (.done, s)
    | .ok false s =>
      let processed := (s.stream.pendingBufferMeta.map fun p =>
        (s.stream.buffers p.buffer).processed).getD 0
      let result := if 0 < processed then CopyResult.completed else .cancelled
      (.done, { s with stream := s.stream.resetAndNotifyPending result })

/-- The last part of `stream.cancel-read`. -/
def cancelEvent (s : HostFed α) : StreamAnswer × HostFed α :=
  s.consumes <| match s.stream.getPendingEvent .read with
    | .error err stream => .error err stream
    | .ok none stream => .error .engine stream
    | .ok (some event) stream =>
      let e := stream.ends .read
      if e.isCopying then
        .error (.error s!"stream end (idx [{e.waitableIdx}]) is still in copying state") stream
      else if event.code ≠ Side.read.eventCode then
        .error (.error s!"unexpected event code [{event.code}], expected [{Side.read.eventCode}]") stream
      else if event.payload0 ≠ e.waitableIdx then
        .error (.error "event index does not match stream end") stream
      else .ok (.packed event.payload1) stream

/-- `stream.cancel-read`, up to its first `await`. -/
def cancelRead (s : HostFed α) (ctx : StreamCtx) : StreamAnswer × HostFed α :=
  let e := s.stream.ends .read
  if ¬ctx.mayLeave then (.throws (.error "component instance is not marked as may leave"), s)
  else if ¬e.inTable then
    (.throws (.error s!"missing stream end with idx [{e.waitableIdx}]"), s)
  else if ¬e.isCopying then
    (.throws (.error "stream end is not copying, cannot cancel"), s)
  else
    let s := { s with stream := s.stream.setCopyState .read .cancellingCopy }
    if s.stream.hasPendingEvent .read then s.cancelEvent
    else
      -- with an injection function, `completeCancel` comes after a timeout
      let s := { s with timers := s.timers + 1 }
      if ctx.isAsync then (.copy .blocked, s)
      else (.copy .suspended, { s with cancels := s.cancels + 1 })

end HostFed

/-! ## Runs -/

/-- What happens to a stream that the host feeds. -/
inductive HostCall (α : Type) where
  | read (ctx : StreamCtx) (ptr count : Int)
  | cancelRead (ctx : StreamCtx)
  /-- A suspended `stream.cancel-read` has an event. -/
  | cancelEvent
  | deliver
  | resolve (result : SourceResult α)
  | settle
  | resume (k : Nat)
  | takeOutcome (k : Nat)
  | wake (k : Nat)
  | finishRead (k : Nat)
  | timeout
  | run (memories : Nat → Memory)

/-- A call, unless it is not its turn. -/
def HostFed.call [StreamValue α] [DecidableEq α] (s : HostFed α) :
    HostCall α → Option (StreamAnswer × HostFed α)
  | .read ctx ptr count => some (s.read ctx ptr count)
  | .cancelRead ctx => some (s.cancelRead ctx)
  | .cancelEvent =>
    if s.cancels = 0 ∨ ¬s.stream.hasPendingEvent .read then none
    else some { s with cancels := s.cancels - 1 }.cancelEvent
  | .deliver => some s.deliver
  | .resolve r => (s.resolve r).map (.done, ·)
  | .settle => s.settle.map (.done, ·)
  | .resume k => (s.resume k).map (.done, ·)
  | .takeOutcome k => s.takeOutcome k
  | .wake k => s.wake k
  | .finishRead k => s.finishRead k
  | .timeout =>
    if s.timers = 0 then none else some { s with timers := s.timers - 1 }.completeCancel
  | .run memories => some (.done, { s with stream := { s.stream with memories } })

/-- The action of a stream that the host feeds. -/
def hostNext [StreamValue α] [DecidableEq α] : Action (HostCall α × StreamAnswer) (HostFed α) :=
  fun l s s' => s.call l.1 = some (l.2, s')

/-- A host-fed stream when the guest gets it. -/
def HostFed.init (e : ElemMeta α) (waitableIdx : Side → Nat) : HostFed α where
  stream := .init e waitableIdx
  queue := .empty
  done := false
  sourceReadPromise := none
  injections := fun _ => ⟨.finished, .returned false, 0, []⟩
  injected := 0
  hasHostCancelFn := false
  timers := 0
  cancels := 0
  fromSource := []
  reports := []

/-! ## The condition -/

/-- What a buffer of the host still holds. -/
def ManagedBuffer.rest [StreamValue α] (b : ManagedBuffer α) : List α :=
  if b.elemMeta.isNone then List.replicate b.remaining StreamValue.null else b.hostOnlyData

/-- What the host has written and no read has met yet. -/
def StreamState.hostHeld [StreamValue α] (s : StreamState α) : List α :=
  match s.pendingBufferMeta with
  | none => []
  | some p => if p.onCopyFn.streamEnd = .write then (s.buffers p.buffer).rest else []

/-- The values go into the buffer, or its read of zero elements leaves them to
the next one. -/
def ManagedBuffer.Accepts [StreamValue α] [DecidableEq α] (b : ManagedBuffer α) (m : Memory)
    (values : List α) : Prop :=
  values ≠ [] → values.length ≠ MAX_LENGTH ∧
    (b.remaining = 0 ∨ values.length ≤ b.remaining ∧
      ∃ r, (b.lowered m (values.map b.elemMeta.asElement)).2 = .ok r)

/-- What an injection has when it goes on: what it held, and what it drains. -/
def HostFed.taking (s : HostFed α) (k : Nat) (zero : Bool) : List α :=
  (s.injections k).values ++ s.queue.contents.take (if zero then 1 else (s.injections k).count)

/-- No injection but `k` holds values. -/
def HostFed.OnlyHolder (s : HostFed α) (k : Nat) : Prop :=
  ∀ j, j ≠ k → (s.injections j).values = []

/-- The steps that lose, repeat or reorder nothing:

* an item is not `undefined` where elements may be;
* a read starts while no other `stream.read` is on its way, and it takes all of
  what the host has written, or nothing of it;
* an injection that takes values or ends the stream is the only one that holds
  any, and it finds the buffer of a read that has room for all of them;
* a cancellation finds no values to add to the read. -/
def Safe [StreamValue α] [DecidableEq α] (l : HostCall α × StreamAnswer) (s : HostFed α) : Prop :=
  match l.1 with
  | .resolve r => r.value = .undefined → r.done ∨ s.stream.elemMeta.isNumeric
  | .read ctx ptr count =>
    (∀ k < s.injected,
      (s.injections k).caller ≠ .suspended ∧ (s.injections k).caller ≠ .awaiting) ∧
    Fits (.copy .read ctx ptr count, .done) s.stream ∧
    (s.stream.hostHeld.length ≤ clampCount count ∨ clampCount count = 0) ∧
    (s.stream.pendingBufferMeta = none → 0 < s.queue.length ∨ s.done →
      s.OnlyHolder s.injected ∧
      let e := { s.stream.elemMeta with
        stringEncoding := s.stream.elemMeta.stringEncoding.or (some ctx.stringEncoding) }
      let b : ManagedBuffer α :=
        ⟨ctx.componentIdx, some ctx.memory, e, ptr, clampCount count, 0, []⟩
      b.Accepts (s.stream.memories ctx.memory) (s.queue.contents.take (clampCount count)))
  | .resume k => ∀ zero appended, (s.injections k).await = .source zero (some appended) →
      s.stream.hasPendingEvent .read = false → s.hasPendingReadBuffer →
        (s.taking k zero ≠ [] ∨ s.done → s.OnlyHolder k) ∧
        (s.taking k zero ≠ [] ∨ s.done ∨ zero = false ∧ appended = 0 ∧ (s.injections k).count = 1 →
          ∃ p, s.stream.pendingBufferMeta = some p ∧ p.onCopyFn.streamEnd = .read ∧
            let b := s.stream.buffers p.buffer
            b.Accepts (s.stream.memoryOf b) (s.taking k zero))
  | .timeout =>
    s.stream.hostHeld = [] ∧
    (s.hasHostCancelFn → ∀ p, s.stream.pendingBufferMeta = some p →
      s.queue.length = 0 ∨ (s.stream.buffers p.buffer).remaining = 0)
  | _ => True

/-! ## The property -/

/-- The values that the guest got, in the order of its results. -/
def HostFed.delivered (s : HostFed α) : List α := s.reports.flatMap (·.values)

structure Delivers [StreamValue α] (s : HostFed α) : Prop where
  inOrder : s.delivered <+: s.fromSource
  bounded : ∀ r ∈ s.reports, r.values.length = r.progress ∧ r.progress ≤ r.count
  /-- Values without a result lie in the buffer of a read that has none. -/
  unreported : ∃ buffer, (∀ r ∈ s.reports, r.buffer ≠ buffer) ∧
    s.stream.placed.map Entry.value = s.delivered ++ s.stream.valuesIn buffer
  /-- All other values wait, in their order, for the next reads. -/
  kept : ∃ k, s.OnlyHolder k ∧ s.stream.placed.map Entry.value ++ s.stream.hostHeld ++
    ((s.injections k).values ++ s.queue.contents).map s.stream.elemMeta.asElement = s.fromSource
  ended : s.stream.dropped = true → s.stream.placed.map Entry.value = s.fromSource

end Jco.Stream

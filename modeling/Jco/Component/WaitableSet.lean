import Jco.Component.Suspended

/-! # Waits on a waitable set

A task that waits on a set of waitables suspends until the component's tick finds
an event pending on one of them. The tick only resolves the promise of the task;
the event is taken afterwards, when the task goes on.

An event is known by the order in which it was set. The waitables outside of the
set are there too, as they may join it with an event pending.
-/

namespace Jco.Component.WaitableSet

open Jco.Js Jco.Lib

/-- Where a call of `waitUntil` is. A coin may let it go on without suspension. -/
inductive Phase where
  | awaits (promise : Nat)
  | goesOn
  | received (event : Nat)
  | taskCancelled
  | failed (err : JsError)
deriving DecidableEq, Repr

/-- A call of `waitUntil`. -/
structure Wait where
  taskID : Nat
  phase : Phase
deriving DecidableEq, Repr

/-- The set, its component, and the tasks' flags. History: the number of events
that have been set, those that a wait has received, and those that were replaced
by a later one or taken in another way. -/
structure State where
  cstate : SuspendedTasks
  waitables : List Nat
  pendingEvent : Nat → Option Nat
  waiting : Int
  waits : List Wait
  rejected : Nat → Bool
  cancelled : Nat → Bool
  events : Nat
  delivered : List (Nat × Nat)
  others : List Nat

namespace State

def init (componentIdx : Int) : State where
  cstate := .init componentIdx
  waitables := []
  pendingEvent _ := none
  waiting := 0
  waits := []
  rejected _ := false
  cancelled _ := false
  events := 0
  delivered := []
  others := []

/-! ## The waitables -/

/-- `hasPendingEvent` of a waitable -/
def isPending (s : State) (waitable : Nat) : Bool := (s.pendingEvent waitable).isSome

/-- `hasPendingEvent` of the set -/
def hasPendingEvent (s : State) : Bool := s.waitables.any s.isPending

/-- The members with an event. -/
def numPending (s : State) : Nat := s.waitables.countP s.isPending

/-- The waitable has no event any more: the event was taken or replaced. -/
def clearEvent (s : State) (waitable : Nat) : State :=
  { s with pendingEvent := Function.update s.pendingEvent waitable none }

def setPendingEvent (s : State) (waitable : Nat) : State :=
  { s with
    pendingEvent := Function.update s.pendingEvent waitable (some s.events)
    events := s.events + 1
    others := s.others ++ (s.pendingEvent waitable).toList }

/-- `removeWaitable` -/
def removeWaitable (s : State) (waitable : Nat) : State :=
  { s with waitables := s.waitables.filter (· ≠ waitable) }

/-- `addWaitable` -/
def addWaitable (s : State) (waitable : Nat) : State :=
  { s with waitables := s.waitables.filter (· ≠ waitable) ++ [waitable] }

/-- `getPendingEvent` of a waitable, by something else than a wait. -/
def takeEvent (s : State) (waitable : Nat) : State :=
  { s.clearEvent waitable with others := s.others ++ (s.pendingEvent waitable).toList }

/-- `waitableSetPoll`, as far as it concerns the set. -/
def poll (s : State) : State :=
  match s.waitables.find? s.isPending with
  | some waitable => s.takeEvent waitable
  | none => s

/-! ## Waiting -/

/-- The promise of a wait resolves with `true` before its task goes on. -/
def resumes (s : State) (w : Wait) : Bool :=
  match w.phase with
  | .awaits promise => s.cstate.promises[promise]? = some (some true)
  | .goesOn => true
  | _ => false

def isWaiting (w : Wait) : Bool :=
  match w.phase with
  | .awaits _ => true
  | .goesOn => true
  | _ => false

/-- The waits that are about to take an event. -/
def numResumed (s : State) : Nat := s.waits.countP s.resumes

/-- A wait on the set has suspended the task. -/
def isWaiter (s : State) (taskID : Nat) : Bool :=
  match s.cstate.getSuspendedTaskMeta taskID with
  | some m => s.waits.any fun w => w.phase = .awaits m.promise
  | none => false

/-- The ready function of `waitUntil`, around the one it was given. -/
def waitReady (s : State) : Ready → Ready
  | .returns ready => .returns (ready && s.hasPendingEvent)
  | .throws err => .throws err

/-- What a tick asks of the tasks, where `readyFn` tells what the ready functions
of the callers do. -/
def tasks (s : State) (readyFn : Nat → Ready) : Tasks where
  isRejected := s.rejected
  isCancelled := s.cancelled
  readyFn t := if s.isWaiter t then s.waitReady (readyFn t) else readyFn t

/-- `waitUntil` up to its `await`. What throws here skips the end of it, and with
it `decrementNumWaiting`. -/
def waitUntil (s : State) (taskID : Nat) (componentIdx : Int) (readyFn : Ready) (coinFlip : Bool) :
    State :=
  let s := { s with waiting := s.waiting + 1 }
  match s.waitReady readyFn with
  | .throws err => { s with waits := s.waits ++ [⟨taskID, .failed err⟩] }
  | .returns ready =>
    if ready && coinFlip then { s with waits := s.waits ++ [⟨taskID, .goesOn⟩] }
    else
      match s.cstate.suspendTask taskID componentIdx true with
      | (.error err, cstate) =>
        { s with cstate, waits := s.waits ++ [⟨taskID, .failed err⟩] }
      | (.ok promise, cstate) =>
        { s with cstate, waits := s.waits ++ [⟨taskID, .awaits promise⟩] }

def setPhase (s : State) (i : Nat) (phase : Phase) : State :=
  { s with waits := s.waits.modify i fun w => { w with phase } }

/-- `waitUntil` after its `await`, with `true`: `getPendingEvent` of the set, whose
event function may throw, and `decrementNumWaiting`. -/
def receive (s : State) (i : Nat) (eventFn : Except JsError Unit) : State :=
  match s.waitables.find? s.isPending with
  | none => s.setPhase i (.failed (.error "no waitables had a pending event"))
  | some waitable =>
    match s.pendingEvent waitable, eventFn with
    | none, _ => s
    | some event, .error err =>
      { (s.clearEvent waitable).setPhase i (.failed err) with others := s.others ++ [event] }
    | some event, .ok () =>
      { (s.clearEvent waitable).setPhase i (.received event) with
        waiting := s.waiting - 1
        delivered := s.delivered ++ [(event, i)] }

/-- `waitUntil` after its `await`, with `false`. -/
def receiveCancelled (s : State) (i : Nat) : State :=
  { s.setPhase i .taskCancelled with waiting := s.waiting - 1 }

/-- The task of a wait goes on, when its promise has been resolved. -/
def goOn (s : State) (i : Nat) (eventFn : Except JsError Unit) : Option State :=
  match s.waits[i]? with
  | none => none
  | some w =>
    match w.phase with
    | .goesOn => some (s.receive i eventFn)
    | .awaits promise =>
      match s.cstate.promises[promise]? with
      | some (some true) => some (s.receive i eventFn)
      | some (some false) => some (s.receiveCancelled i)
      | _ => none
    | _ => none

end State

/-! ## Steps -/

/-- What happens to a set and its component. Besides the waits, other tasks of the
component suspend, and others may take events. -/
inductive Call where
  | setPendingEvent (waitable : Nat)
  | addWaitable (waitable : Nat)
  | removeWaitable (waitable : Nat)
  | takeEvent (waitable : Nat)
  | poll
  | cancelTask (taskID : Nat)
  | rejectTask (taskID : Nat)
  | suspendTask (taskID : Nat) (componentIdx : Int)
  | waitUntil (taskID : Nat) (componentIdx : Int) (readyFn : Ready) (coinFlip : Bool)
  | loopTick (readyFn : Nat → Ready)
  | goOn (i : Nat) (eventFn : Except JsError Unit)

def next : Action Call State := fun call s s' =>
  match call with
  | .setPendingEvent waitable => s' = s.setPendingEvent waitable
  | .addWaitable waitable => s' = s.addWaitable waitable
  | .removeWaitable waitable => s' = s.removeWaitable waitable
  | .takeEvent waitable => s' = s.takeEvent waitable
  | .poll => s' = s.poll
  | .cancelTask taskID => s' = { s with cancelled := Function.update s.cancelled taskID true }
  | .rejectTask taskID =>
    -- a rejection cancels the task before it does anything else
    s' = { s with
      rejected := Function.update s.rejected taskID true
      cancelled := Function.update s.cancelled taskID true }
  | .suspendTask taskID componentIdx =>
    s' = { s with cstate := (s.cstate.suspendTask taskID componentIdx true).2 }
  | .waitUntil taskID componentIdx readyFn coinFlip =>
    s' = s.waitUntil taskID componentIdx readyFn coinFlip
  | .loopTick readyFn =>
    0 < s.cstate.timers ∧ s' = { s with cstate := s.cstate.loopTick (s.tasks readyFn) }
  | .goOn i eventFn => s.goOn i eventFn = some s'

/-! ## What is expected -/

/-- The count of the set is that of the tasks that wait, no wait has found its
event taken, and every event is pending, or has been received by one wait, unless
something else took it. -/
structure Delivers (s : State) : Prop where
  waiting : s.waiting = s.waits.countP State.isWaiting
  found : ∀ w ∈ s.waits, w.phase ≠ .failed (.error "no waitables had a pending event")
  received : ∀ i w event, s.waits[i]? = some w →
    (w.phase = .received event ↔ (event, i) ∈ s.delivered)
  once : (s.delivered.map Prod.fst).Nodup
  pending : ∀ waitable event, s.pendingEvent waitable = some event →
    event ∉ s.delivered.map Prod.fst ∧ event ∉ s.others
  kept : ∀ event < s.events, (∃ waitable, s.pendingEvent waitable = some event) ∨
    event ∈ s.delivered.map Prod.fst ∨ event ∈ s.others

/-- The tick finds the task of the wait ready, and not cancelled. -/
def foundReady (s : State) (tasks : Tasks) (w : Wait) : Bool :=
  match w.phase with
  | .awaits promise =>
    (s.cstate.live.takeWhile tasks.goesPast).any fun t =>
      (s.cstate.getSuspendedTaskMeta t).any (·.promise = promise) &&
        tasks.readyFn t = .returns true && !tasks.isCancelled t
  | _ => false

/-- The events that are left for others than the waits that are resumed. -/
def spare (s : State) : Int := s.numPending - s.numResumed

/-- There is an event for every wait that is resumed, and no wait fails in another
way: a tick finds no more waits ready than there are events to spare, a wait that
goes on at once finds one to spare, and nothing else takes an event that is not
to spare. -/
def Safe : Call → State → Prop
  | .loopTick readyFn, s => (s.waits.countP (foundReady s (s.tasks readyFn)) : Int) ≤ spare s
  | .waitUntil taskID componentIdx readyFn coinFlip, s =>
    ∃ ready, readyFn = .returns ready ∧
      if (ready && s.hasPendingEvent && coinFlip) = true then 0 < spare s
      else componentIdx = s.cstate.componentIdx ∧ s.cstate.getSuspendedTaskMeta taskID = none
  | .removeWaitable waitable, s =>
    waitable ∈ s.waitables → s.isPending waitable = true → 0 < spare s
  | .takeEvent waitable, s =>
    waitable ∈ s.waitables → s.isPending waitable = true → 0 < spare s
  | .poll, s => s.hasPendingEvent = true → 0 < spare s
  | .goOn i eventFn, s =>
    (∃ w ∈ s.waits[i]?, s.resumes w = true) → eventFn = .ok ()
  | _, _ => True

end Jco.Component.WaitableSet

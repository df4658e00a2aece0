import Jco.Js.Basic
import Jco.Lib.Run
import Mathlib.Logic.Function.Basic

/-! # Execution of the tasks of a component

The way of a task from the call of an export to its exit: `AsyncTask.enter` with
its wait for a slot and for the exclusive lock, `enterSync`, the guest code, the
driver loop of a callback task, and `exit`. A step is what runs between two
`await`s, so that the steps of different tasks come in any order.

All tasks here need the exclusive lock. The handlers of `onNextExclusiveRelease`
are left out, as nothing registers one.
-/

namespace Jco.Component.Execution

open Jco.Js Jco.Lib

/-! ## Tasks -/

/-- A task that was lifted synchronously, or asynchronously with a callback. -/
inductive Kind where
  | sync (isManualAsync : Bool)
  | callback
deriving DecidableEq, Repr

def Kind.isAsync : Kind → Bool
  | .sync _ => false
  | .callback => true

def Kind.isManualAsync : Kind → Bool
  | .sync isManualAsync => isManualAsync
  | .callback => false

def Kind.hasCallback : Kind → Bool
  | .sync _ => false
  | .callback => true

def Kind.needsExclusiveLock (k : Kind) : Bool := !k.isAsync || k.hasCallback

theorem needsExclusiveLock_eq (k : Kind) : k.needsExclusiveLock = true := by
  cases k <;> rfl

/-- What a callback task hands to the driver loop. A result that cannot be
unpacked is `invalid`, and `poll` is a code that the loop does not know. -/
inductive CallbackCode where
  | exit
  | yield
  | wait (isWaitableSet : Bool)
  | poll
  | invalid
deriving DecidableEq, Repr

/-- Where a task is. `inLoop` is false until the driver loop has called the
callback. A task has `left` when its flow is over without an exit. -/
inductive Phase where
  | created
  | queued (awaits : Option Nat)
  | granted
  | blocked
  | unblocked
  | ready (inLoop : Bool)
  | guest (inLoop : Bool)
  | returned (inLoop : Bool) (code : CallbackCode)
  | waiting
  | woken
  | left
  | exited
deriving DecidableEq, Repr

/-- `resolved` is the task state `RESOLVED`; `completion` is what the completion
promise is settled with, `some false` for a rejection. -/
structure Task where
  phase : Phase
  enteredSync : Bool
  resolved : Bool
  rejected : Bool
  errored : Bool
  completion : Option Bool

/-- A place in `#nextTaskQueue`. -/
structure Placeholder where
  task : Nat
  completed : Bool
deriving DecidableEq, Repr

/-- `nextTaskPromise` is the promise of a placeholder, or a resolved one. History:
the tasks that have taken the lock and not given it back. -/
structure State where
  kinds : Nat → Kind
  tasks : Nat → Task
  locked : Bool
  backpressure : Bool
  nextTaskQueue : List Placeholder
  nextTaskPromise : Option Nat
  holders : List Nat

namespace State

def init (kinds : Nat → Kind) : State where
  kinds := kinds
  tasks _ := ⟨.created, false, false, false, false, none⟩
  locked := false
  backpressure := false
  nextTaskQueue := []
  nextTaskPromise := none
  holders := []

def phase (s : State) (t : Nat) : Phase := (s.tasks t).phase

def modifyTask (s : State) (t : Nat) (f : Task → Task) : State :=
  { s with tasks := Function.update s.tasks t (f (s.tasks t)) }

def setPhase (s : State) (t : Nat) (phase : Phase) : State :=
  s.modifyTask t fun x => { x with phase }

/-! ## The lock -/

/-- `exclusiveLock`, called by the task. -/
def exclusiveLock (s : State) (t : Nat) : State :=
  { s with locked := true, holders := t :: s.holders }

/-- `exclusiveRelease`, called by the task. -/
def exclusiveRelease (s : State) (t : Nat) : State :=
  { s with locked := false, holders := s.holders.filter (· ≠ t) }

/-! ## Resolution and exit -/

/-- `resolve`, which the guest calls through `task.return`. -/
def resolve (s : State) (t : Nat) : State :=
  s.modifyTask t fun x =>
    { x with
      resolved := true
      completion := if (s.kinds t).isAsync then some !x.errored else x.completion }

/-- `reject`: the task is cancelled, which resolves it. -/
def reject (s : State) (t : Nat) : State :=
  if (s.tasks t).resolved || (s.tasks t).rejected then s
  else
    s.modifyTask t fun x =>
      { x with
        rejected := true
        resolved := true
        completion := if (s.kinds t).isAsync then some false else x.completion }

/-- `setErrored` and `reject`, as every `catch` does it. -/
def fail (s : State) (t : Nat) : State :=
  (s.modifyTask t fun x => { x with errored := true }).reject t

/-- `exit`. Its handlers resolve the exit promise. -/
def exit (s : State) (t : Nat) (skipExclusiveLockCheck : Bool) : Except JsError State :=
  if s.phase t = .exited then .error (.error "task has already exited")
  else if !(s.tasks t).resolved then .error (.error s!"task [{t}] exited without resolution")
  else if !skipExclusiveLockCheck && (s.kinds t).needsExclusiveLock && !s.locked then
    .error (.error s!"task [{t}] exit: component should have been exclusively locked")
  else .ok ((s.exclusiveRelease t).setPhase t .exited)

/-- The caller's `task.exit()`, whose exception ends the call. -/
def exitOrLeave (s : State) (t : Nat) : State :=
  match s.exit t false with
  | .ok s' => s'
  | .error _ => s.setPhase t .left

/-! ## Entering -/

/-- The promise of a slot's owner, or one that is resolved. -/
def slotIsOver (s : State) : Option Nat → Bool
  | none => true
  | some u => s.nextTaskQueue.all fun p => p.task ≠ u || p.completed

/-- `enter` up to the first `await` of `nextTaskExecutionSlot`. -/
def enter (s : State) (t : Nat) : State :=
  { s.setPhase t (.queued s.nextTaskPromise) with
    nextTaskQueue := s.nextTaskQueue ++ [⟨t, false⟩] }

/-- The loop of `nextTaskExecutionSlot`, after an `await`. -/
def nextTaskExecutionSlot (s : State) (t : Nat) : State :=
  match s.nextTaskQueue.find? fun p => !p.completed with
  | none => s.setPhase t .left
  | some next =>
    if next.task = t then
      { s.setPhase t .granted with
        nextTaskPromise := some t
        nextTaskQueue :=
          if s.nextTaskQueue.length > 1000 then s.nextTaskQueue.filter fun p => !p.completed
          else s.nextTaskQueue }
    else s.setPhase t (.queued s.nextTaskPromise)

/-- The exit promise of the task has been resolved. -/
def complete (s : State) (t : Nat) : State :=
  { s with
    nextTaskQueue := s.nextTaskQueue.map fun p => if p.task = t then ⟨t, true⟩ else p }

/-- `enter` after the slot: a synchronous task enters at once, and takes the lock
when it is manually asynchronous. -/
def proceed (s : State) (t : Nat) : State :=
  if !(s.kinds t).isAsync then
    if (s.kinds t).isManualAsync && (s.kinds t).needsExclusiveLock then
      (s.exclusiveLock t).setPhase t (.ready false)
    else s.setPhase t (.ready false)
  else if s.backpressure || (s.kinds t).needsExclusiveLock && s.locked then s.setPhase t .blocked
  else (s.exclusiveLock t).setPhase t (.ready false)

/-! ## The driver loop -/

/-- The loop gives up: its `catch`, and no exit. -/
def abandonLoop (s : State) (t : Nat) : State := (s.fail t).setPhase t .left

/-- The driver loop takes the code of a callback result. A first result that
cannot be unpacked is thrown before the `try`. -/
def driverLoop (s : State) (t : Nat) (inLoop : Bool) : CallbackCode → State
  | .invalid => if inLoop then s.abandonLoop t else s.setPhase t .left
  | .exit =>
    match s.exit t true with
    | .ok s' => s'
    | .error _ => s.abandonLoop t
  | .yield => (s.exclusiveRelease t).setPhase t .waiting
  | .wait true => (s.exclusiveRelease t).setPhase t .waiting
  | .wait false => (s.exclusiveRelease t).abandonLoop t
  | .poll => (s.exclusiveRelease t).abandonLoop t

/-- The driver loop after its wait: it takes the lock again, and leaves early when
the task has been rejected. -/
def relock (s : State) (t : Nat) (hasEvent : Bool) : State :=
  let s := s.exclusiveLock t
  if (s.tasks t).rejected then s.setPhase t .left
  else if hasEvent then s.setPhase t (.ready true)
  else s.abandonLoop t

end State

/-! ## Steps -/

/-- What a task does next, or what is done to it. `wake` and `unblock` are a tick
that finds the task ready or rejected; `abandon` is a caller that does not exit the
task; an exception ends a wait in `failWait`. -/
inductive Call where
  | enter (t : Nat)
  | slot (t : Nat)
  | complete (t : Nat)
  | proceed (t : Nat)
  | unblock (t : Nat)
  | lock (t : Nat)
  | enterSync (t : Nat)
  | run (t : Nat)
  | resolve (t : Nat)
  | reject (t : Nat)
  | returns (t : Nat) (code : CallbackCode)
  | traps (t : Nat)
  | abandon (t : Nat)
  | loop (t : Nat)
  | failWait (t : Nat)
  | wake (t : Nat)
  | relock (t : Nat) (hasEvent : Bool)
  | setBackpressure (b : Bool)

/-- `readyFn` of the wait in `enter`. -/
def State.mayUnblock (s : State) (t : Nat) : Bool :=
  !(s.backpressure || (s.kinds t).needsExclusiveLock && s.locked) || (s.tasks t).rejected

/-- `readyFn` of the waits in the driver loop. -/
def State.mayWake (s : State) (t : Nat) : Bool := !s.locked || (s.tasks t).rejected

def State.call (s : State) : Call → Option State
  | .enter t =>
    match s.phase t with
    | .created => some (s.enter t)
    | _ => none
  | .slot t =>
    match s.phase t with
    | .queued awaits => if s.slotIsOver awaits then some (s.nextTaskExecutionSlot t) else none
    | _ => none
  | .complete t =>
    match s.phase t with
    | .exited => some (s.complete t)
    | _ => none
  | .proceed t =>
    match s.phase t with
    | .granted => some (s.proceed t)
    | _ => none
  | .unblock t =>
    match s.phase t with
    | .blocked => if s.mayUnblock t then some (s.setPhase t .unblocked) else none
    | _ => none
  | .lock t =>
    -- a cancelled wait is not told from a granted one, and the lock is never refused
    match s.phase t with
    | .unblocked => some ((s.exclusiveLock t).setPhase t (.ready false))
    | _ => none
  | .enterSync t =>
    match s.phase t, s.kinds t with
    | .created, .sync _ =>
      some ((s.exclusiveLock t).modifyTask t fun x =>
        { x with phase := .ready false, enteredSync := true })
    | _, _ => none
  | .run t =>
    match s.phase t with
    | .ready inLoop => some (s.setPhase t (.guest inLoop))
    | _ => none
  | .resolve t =>
    -- a second `task.return` throws into the guest
    match s.phase t with
    | .guest _ => if (s.tasks t).resolved then some s else some (s.resolve t)
    | _ => none
  | .reject t => some (s.reject t)
  | .returns t code =>
    match s.phase t, s.kinds t with
    | .guest inLoop, .callback => some (s.setPhase t (.returned inLoop code))
    | .guest _, .sync _ =>
      if (s.tasks t).resolved then some (s.setPhase t .left)
      else some ((s.resolve t).exitOrLeave t)
    | _, _ => none
  | .traps t =>
    match s.phase t with
    | .guest false => some ((s.fail t).exitOrLeave t)
    | .guest true => some (s.abandonLoop t)
    | _ => none
  | .abandon t =>
    match s.phase t with
    | .guest false => some (s.setPhase t .left)
    | _ => none
  | .loop t =>
    match s.phase t with
    | .returned inLoop code => some (s.driverLoop t inLoop code)
    | _ => none
  | .failWait t =>
    match s.phase t with
    | .blocked => some (s.setPhase t .left)
    | .waiting => some (s.abandonLoop t)
    | _ => none
  | .wake t =>
    match s.phase t with
    | .waiting => if s.mayWake t then some (s.setPhase t .woken) else none
    | _ => none
  | .relock t hasEvent =>
    match s.phase t with
    | .woken => some (s.relock t hasEvent)
    | _ => none
  | .setBackpressure b => some { s with backpressure := b }

def next : Action Call State := fun call s s' => s.call call = some s'

/-! ## What is expected -/

/-- One task holds the lock at most, and guest code runs under it. -/
structure Exclusive (s : State) : Prop where
  single : ∀ t ∈ s.holders, ∀ u ∈ s.holders, t = u
  locked : s.locked = true ↔ ∃ t, t ∈ s.holders
  guest : ∀ t inLoop, s.phase t = .ready inLoop ∨ s.phase t = .guest inLoop → t ∈ s.holders

/-- A task that entered by `enterSync` has not given the lock back. -/
def InsideSync (s : State) : Prop := ∃ t ∈ s.holders, (s.tasks t).enteredSync = true

/-- `enterSync` is not called while the component is locked, no task takes the lock
after a wait while a task is inside that came by `enterSync`, and no synchronous
task comes by `enter` unless it is manually asynchronous. -/
def Safe : Call → State → Prop
  | .enterSync _, s => s.locked = false
  | .proceed t, s =>
    (s.kinds t).isAsync = false → (s.kinds t).isManualAsync = true ∧ ¬ InsideSync s
  | .lock _, s => ¬ InsideSync s
  | .relock _ _, s => ¬ InsideSync s
  | _, _ => True

/-- The exit of the task, or its driver loop. -/
def Call.isOwnRelease (t : Nat) : Call → Prop
  | .returns u _ => u = t
  | .traps u => u = t
  | .loop u => u = t
  | _ => False

end Jco.Component.Execution

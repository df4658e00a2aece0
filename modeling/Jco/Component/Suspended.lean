import Jco.Js.Basic
import Jco.Lib.Run
import Mathlib.Data.List.AList

/-! # Suspended tasks of a component

The part of a component's async state that `suspendTask`, `resumeTaskByID` and
`tick` work on: the list of the ids of the suspended tasks, in which a resumed
task leaves `null`, the map from the ids to what is kept of the tasks, and the
tick loop, an async callback that a timeout starts and that sleeps between its
ticks.

The tasks themselves are known by what they answer: whether they are rejected or
cancelled, and what their ready functions do.
-/

namespace Jco.Component

open Jco.Js Jco.Lib

/-- What a ready function does when it is called. -/
inductive Ready where
  | returns (ready : Bool)
  | throws (err : JsError)
deriving DecidableEq, Repr

/-- What the tasks answer. -/
structure Tasks where
  isRejected : Nat → Bool
  isCancelled : Nat → Bool
  readyFn : Nat → Ready

/-- A tick comes past the task, ready or not. -/
def Tasks.goesPast (tasks : Tasks) (taskID : Nat) : Bool :=
  !tasks.isRejected taskID &&
    match tasks.readyFn taskID with
    | .returns _ => true
    | .throws _ => false

/-- What is kept of a suspended task: whether a ready function came with it, and
the promise that its `resume` resolves. -/
structure SuspendedTaskMeta where
  taskID : Nat
  readyFn : Bool
  promise : Nat
deriving DecidableEq, Repr

/-- `tickLoop` is the flag of the loop, and `timers` counts the timeouts at which
a loop goes on. `promises` holds what the promises of `suspendTask` have been
resolved with. History: the promises whose `resume` was called, and those whose
ready function returned true. -/
structure SuspendedTasks where
  componentIdx : Int
  suspendedTasksByTaskID : AList fun _ : Nat => SuspendedTaskMeta
  suspendedTaskIDs : List (Option Nat)
  tickLoop : Bool
  timers : Nat
  promises : List (Option Bool)
  resumed : List Nat
  readied : List Nat

namespace SuspendedTasks

def init (componentIdx : Int) : SuspendedTasks where
  componentIdx := componentIdx
  suspendedTasksByTaskID := ∅
  suspendedTaskIDs := []
  tickLoop := false
  timers := 0
  promises := []
  resumed := []
  readied := []

/-- The ids that are not `null`. -/
def live (s : SuspendedTasks) : List Nat := s.suspendedTaskIDs.filterMap id

/-! ## The two tables -/

/-- `#getSuspendedTaskMeta` -/
def getSuspendedTaskMeta (s : SuspendedTasks) (taskID : Nat) : Option SuspendedTaskMeta :=
  s.suspendedTasksByTaskID.lookup taskID

/-- `#removeSuspendedTaskMeta`. The id of no entry is sought at `-1`, where the
write does not reach the list. -/
def removeSuspendedTaskMeta (s : SuspendedTasks) (taskID : Nat) :
    Option SuspendedTaskMeta × SuspendedTasks :=
  let idx := s.suspendedTaskIDs.findIdx (· == some taskID)
  (s.suspendedTasksByTaskID.lookup taskID,
    { s with
      suspendedTaskIDs := s.suspendedTaskIDs.set idx none
      suspendedTasksByTaskID := s.suspendedTasksByTaskID.erase taskID })

/-- `#addSuspendedTaskMeta`: more than ten holes are squeezed out. -/
def addSuspendedTaskMeta (s : SuspendedTasks) (m : SuspendedTaskMeta) : SuspendedTasks :=
  let byTaskID := s.suspendedTasksByTaskID.insert m.taskID m
  let ids := s.suspendedTaskIDs ++ [some m.taskID]
  { s with
    suspendedTasksByTaskID := byTaskID
    suspendedTaskIDs :=
      if (byTaskID.entries.length : Int) < ids.length - 10 then ids.filter Option.isSome else ids }

/-! ## Suspension -/

/-- `runTickLoop` -/
def runTickLoop (s : SuspendedTasks) : SuspendedTasks :=
  if s.tickLoop then s else { s with tickLoop := true, timers := s.timers + 1 }

/-- `suspendTask`, with the promise it returns. -/
def suspendTask (s : SuspendedTasks) (taskID : Nat) (componentIdx : Int) (readyFn : Bool) :
    Except JsError Nat × SuspendedTasks :=
  if componentIdx ≠ s.componentIdx then
    (.error (.error "assert: task component idx should match async state"), s)
  else if (s.getSuspendedTaskMeta taskID).isSome then
    (.error (.error s!"task [{taskID}] already suspended"), s)
  else
    let promise := s.promises.length
    let s := { s with promises := s.promises ++ [none] }
    (.ok promise, (s.addSuspendedTaskMeta ⟨taskID, readyFn, promise⟩).runTickLoop)

/-- `meta.resume()`. A promise keeps what it was first resolved with. -/
def resume (s : SuspendedTasks) (tasks : Tasks) (m : SuspendedTaskMeta) : SuspendedTasks :=
  let settle := fun v : Option Bool => some (v.getD (!tasks.isCancelled m.taskID))
  { s with
    promises := s.promises.modify m.promise settle
    resumed := s.resumed ++ [m.promise] }

/-- `resumeTaskByID` -/
def resumeTaskByID (s : SuspendedTasks) (tasks : Tasks) (taskID : Nat) :
    Except JsError Unit × SuspendedTasks :=
  match s.removeSuspendedTaskMeta taskID with
  | (none, s) => (.ok (), s)
  | (some m, s) =>
    if m.taskID ≠ taskID then (.error (.error "task ID does not match"), s)
    else (.ok (), s.resume tasks m)

/-! ## Ticks -/

/-- The loop of `tick` over the ids it has picked out. A tick that leaves early
returns `undefined`. -/
def tickOver (tasks : Tasks) : List Nat → SuspendedTasks →
    Except JsError (Option Bool) × SuspendedTasks
  | [], s => (.ok (some s.live.isEmpty), s)
  | taskID :: resumableTasks, s =>
    match s.getSuspendedTaskMeta taskID with
    | none =>
      (.error (.error s!"missing/invalid task despite ID [{taskID}] being present"), s)
    | some m =>
      if !m.readyFn then
        (.error (.error s!"missing/invalid task despite ID [{taskID}] being present"), s)
      else if tasks.isRejected taskID then
        match s.resumeTaskByID tasks taskID with
        | (.error err, s) => (.error err, s)
        | (.ok (), s) => (.ok none, s)
      else
        match tasks.readyFn taskID with
        | .throws err => (.error err, s)
        | .returns false => tickOver tasks resumableTasks s
        | .returns true =>
          match ({ s with readied := s.readied ++ [m.promise] }).resumeTaskByID tasks taskID with
          | (.error err, s) => (.error err, s)
          | (.ok (), s) => tickOver tasks resumableTasks s

/-- `tick` -/
def tick (s : SuspendedTasks) (tasks : Tasks) : Except JsError (Option Bool) × SuspendedTasks :=
  tickOver tasks s.live s

/-- A timeout of the tick loop runs out, and the loop goes on with a tick. What
the tick throws ends the callback with the flag up. -/
def loopTick (s : SuspendedTasks) (tasks : Tasks) : SuspendedTasks :=
  match s.tick tasks with
  | (.error _, s) => { s with timers := s.timers - 1 }
  | (.ok done, s) =>
    if done = some true then { s with tickLoop := false, timers := s.timers - 1 } else s

/-! ## Steps -/

/-- A call of the bookkeeping, or a timeout of its loop, with what the tasks
answer in it. -/
inductive Call where
  | suspendTask (taskID : Nat) (componentIdx : Int) (readyFn : Bool)
  | resumeTaskByID (tasks : Tasks) (taskID : Nat)
  | tick (tasks : Tasks)
  | loopTick (tasks : Tasks)

def next : Action Call SuspendedTasks := fun call s s' =>
  match call with
  | .suspendTask taskID componentIdx readyFn => s' = (s.suspendTask taskID componentIdx readyFn).2
  | .resumeTaskByID tasks taskID => s' = (s.resumeTaskByID tasks taskID).2
  | .tick tasks => s' = (s.tick tasks).2
  | .loopTick tasks => 0 < s.timers ∧ s' = s.loopTick tasks

/-! ## What is expected -/

/-- The promise is that of a suspended task. -/
def Waiting (s : SuspendedTasks) (promise : Nat) : Prop :=
  ∃ taskID m, s.getSuspendedTaskMeta taskID = some m ∧ m.promise = promise

/-- The bookkeeping is in order: the list and the map hold the same ids, every
task whose ready function returned true has been resumed once, every other one
is waiting or has been resumed once, and a loop is scheduled when a task waits. -/
structure Kept (s : SuspendedTasks) : Prop where
  sameIds : ∀ taskID, some taskID ∈ s.suspendedTaskIDs ↔ taskID ∈ s.suspendedTasksByTaskID
  readied : ∀ promise ∈ s.readied, s.resumed.count promise = 1
  resumed : ∀ promise < s.promises.length,
    s.resumed.count promise = 1 ∧ ¬ s.Waiting promise ∨
      s.resumed.count promise = 0 ∧ s.Waiting promise
  scheduled : ∀ taskID, taskID ∈ s.suspendedTasksByTaskID → 0 < s.timers

/-- The tick calls a ready function that throws, or finds none: the function of
a task in the list before which no task is rejected. -/
def Throws (s : SuspendedTasks) (tasks : Tasks) : Prop :=
  ∃ before taskID after m, s.live = before ++ taskID :: after ∧
    s.getSuspendedTaskMeta taskID = some m ∧ (∀ t ∈ before, tasks.isRejected t = false) ∧
    (m.readyFn = false ∨
      tasks.isRejected taskID = false ∧ ∃ err, tasks.readyFn taskID = .throws err)

/-- No ready function throws in a tick of the loop. -/
def Safe : Call → SuspendedTasks → Prop
  | .loopTick tasks, s => ¬ s.Throws tasks
  | _, _ => True

end SuspendedTasks

end Jco.Component

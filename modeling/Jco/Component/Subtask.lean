import Jco.Js.Basic
import Jco.Lib.Run
import Jco.Lib.Script

/-! # Subtasks

The call of an import as the caller sees it: the `AsyncSubtask`, the `AsyncTask` of
the callee whose handlers drive it, and what is stored in the caller's memory. The
call came through `lowerImport`, or through `prepareCall` and `asyncStartCall`.

Left out are `startFn`, which lowers the parameters for the callee, and the caller's
tables, from which a synchronous subtask is removed in a `try`.
-/

namespace Jco.Component.Subtask

open Jco.Js Jco.Lib

variable {α : Type}

/-- `AsyncSubtask.State` -/
inductive Status where
  | starting
  | started
  | returned
  | cancelledBeforeStarted
  | cancelledBeforeReturned
deriving DecidableEq, Repr

/-- `getStateNumber` -/
def Status.number : Status → Nat
  | starting => 0
  | started => 1
  | returned => 2
  | cancelledBeforeStarted => 3
  | cancelledBeforeReturned => 4

/-- `AsyncTask.State`. The `PENDING_CANCEL` that `reject` assigns is not a member of
it, and reads as `undefined`. -/
inductive TaskState where
  | initial
  | undefined
  | cancelDelivered
  | resolved
deriving DecidableEq, Repr

def TaskState.toString : TaskState → String
  | initial => "initial"
  | undefined => "undefined"
  | cancelDelivered => "cancel-delivered"
  | resolved => "resolved"

/-- What a resolve handler is called with. -/
inductive Value (α : Type) where
  | undefined
  | null
  | result (a : α)
  | error (err : JsError)

/-- What has been stored for the caller, by the function of the fused adapter or
by a lower function. -/
inductive Store (α : Type) where
  | returnFn (params : List (Value α)) (resultPtr : Nat)
  | lower (value : Value α) (storagePtr : Nat)

/-- A `resultPtr` of zero is one that is not there. -/
structure CallMetadata where
  returnFn : Bool
  returnFnCalled : Bool
  resultPtr : Nat
  memory : Bool
  realloc : Bool
  lowers : Bool

/-- Which of the functions that are called return; the others throw. -/
structure Outcome where
  handlers : Bool
  returnFn : Bool
  postReturn : Bool
  lowers : Bool

/-- `callerMemory` tells that the parent task or its component has a memory, and
`startCall` that `asyncStartCall` has registered its handler. `lenders` is false
when the resolution has been delivered. History: what has been stored, that the
callee has given results, and the states that the caller has seen. -/
structure State (α : Type) where
  componentIdx : Int
  taskID : Nat
  isAsync : Bool
  startCall : Bool
  callerMemory : Bool
  callMetadata : CallMetadata
  taskState : TaskState
  rejected : Bool
  cancelled : Bool
  status : Status
  cancelRequested : Bool
  resolved : Bool
  result : Option (Value α)
  lenders : Bool
  onProgressFn : Bool
  pendingEvent : Bool
  onStartCalled : Bool
  stores : List (Store α)
  answered : Bool
  seen : List Status

/-- Code that works on a subtask and its callee. -/
abbrev Js (α : Type) := Script JsError (State α)

/-! ## The subtask -/

/-- `onProgressFn`, once it is set. -/
def State.progress (s : State α) : State α :=
  { s with pendingEvent := s.onProgressFn || s.pendingEvent }

def onStart : Js α Unit := .modify fun s => { s.progress with status := .started }

/-- `isResolved` -/
def Status.isResolved : Status → Bool
  | starting => false
  | started => false
  | returned => true
  | cancelledBeforeStarted => true
  | cancelledBeforeReturned => true

def deliverResolve : Js α Unit := do
  let s ← Script.get
  Script.throwIf (!s.lenders && !s.status.isResolved)
    (.error "invalid subtask state, lenders missing and subtask has not been resolved")
  Script.throwIf (!s.lenders || !s.status.isResolved)
    (.error "subtask cannot deliver resolution twice, and the subtask must be resolved")
  Script.modify fun s => { s with lenders := false }

/-- A call of the function of the fused adapter. -/
def returnFn (o : Outcome) (params : List (Value α)) : Js α Unit :=
  if o.returnFn then
    .modify fun s =>
      { s with stores := s.stores ++ [.returnFn params s.callMetadata.resultPtr] }
  else .throw .engine

def lowerResult (o : Outcome) (value : Value α) : Js α Unit :=
  if o.lowers then
    .modify fun s => { s with stores := s.stores ++ [.lower value s.callMetadata.resultPtr] }
  else .throw .engine

/-- The handler that `asyncStartCall` registers. -/
def asyncStartCallHandler (o : Outcome) (res : Value α) : Js α Unit := do
  let s ← Script.get
  Script.throwIf (s.callMetadata.memory || s.callMetadata.realloc)
    (.error "call metadata unexpectedly contains memory/realloc for guest->guest call")
  if s.callMetadata.returnFn then
    if s.callMetadata.returnFnCalled then pure () else returnFn o []
  else if s.callMetadata.resultPtr = 0 then pure ()
  else lowerResult o res

def Value.isNull : Value α → Bool
  | null => true
  | _ => false

/-- The state that `onResolve` gives to the subtask. -/
def resolveStatus (value : Value α) : Js α Unit := do
  let s ← Script.get
  if value.isNull && s.cancelRequested then
    if s.status = .starting then
      Script.modify fun s => { s with status := .cancelledBeforeStarted }
    else
      Script.throwIf (s.status ≠ .started)
        (.error "resolved subtask must have been started before cancellation")
      Script.modify fun s => { s with status := .cancelledBeforeReturned }
  else
    Script.throwIf (s.status ≠ .started)
      (.error "resolved subtask must have been started before completion")
    Script.modify fun s => { s with status := .returned }

def setResult (value : Value α) : Js α Unit := do
  let s ← Script.get
  Script.throwIf s.result.isSome (.error "subtask result has already been set")
  Script.modify fun s => { s with result := some value }

/-- `onResolve` from the result on. -/
def storeResult (o : Outcome) (value : Value α) : Js α Unit := do
  setResult value
  let s ← Script.get
  Script.when s.startCall (asyncStartCallHandler o value)
  let s ← Script.get
  Script.when
    (!s.callMetadata.returnFn && s.isAsync && s.callMetadata.resultPtr ≠ 0 &&
      (s.callMetadata.memory || s.callerMemory) && s.callMetadata.lowers)
    (lowerResult o value)
  Script.modify fun s => { s with resolved := true }
  Script.when (!s.isAsync) deliverResolve

/-- `onResolve` of the subtask -/
def subtaskOnResolve (o : Outcome) (value : Value α) : Js α Unit := do
  let s ← Script.get
  Script.throwIf s.resolved (.error "subtask has already been resolved")
  Script.modify State.progress
  resolveStatus value
  storeResult o value

/-! ## The callee -/

/-- There is a function of the fused adapter, and it has not been called. -/
def State.returnFnPending (s : State α) : Bool :=
  s.callMetadata.returnFn && !s.callMetadata.returnFnCalled

def callReturnFn (o : Outcome) (params : List (Value α)) : Js α Unit := do
  returnFn o params
  Script.modify fun s =>
    { s with callMetadata := { s.callMetadata with returnFnCalled := true } }

/-- `onResolve` of the task. The handlers of the task are taken first. -/
def onResolve (o : Outcome) (value : Value α) : Js α Unit := do
  Script.throwIf (!o.handlers) .engine
  let s ← Script.get
  Script.when s.returnFnPending (callReturnFn o [value])
  Script.throwIf (!o.postReturn) .engine
  subtaskOnResolve o value

def cancel (o : Outcome) (err : JsError) : Js α Unit := do
  let s ← Script.get
  Script.throwIf (s.taskState ≠ .cancelDelivered)
    (.error s!"(component [{s.componentIdx}]) task [{s.taskID}] invalid task state [{s.taskState.toString}] for cancellation")
  Script.modify fun s => { s with cancelled := true }
  onResolve o (.error err)
  Script.modify fun s => { s with taskState := .resolved }

/-- `reject`. The cancellation is found pending, as `undefined` equals itself. -/
def reject (o : Outcome) (taskErr : JsError) : Js α Unit := do
  let s ← Script.get
  if s.taskState = .resolved || s.rejected then pure ()
  else
    Script.modify fun s => { s with rejected := true, taskState := .undefined }
    Script.modify fun s => { s with taskState := .cancelDelivered }
    cancel o taskErr

def resolve (o : Outcome) (results : List α) : Js α Unit := do
  let s ← Script.get
  Script.throwIf (s.taskState = .resolved)
    (.error s!"(component [{s.componentIdx}]) task [{s.taskID}]  is already resolved (did you forget to wait for an import?)")
  Script.modify fun s => { s with taskState := .resolved }
  match results with
  | [] => onResolve o .undefined
  | [value] => onResolve o (.result value)
  | _ => Script.throw (.error "unexpected number of results")

/-- `taskReturn`. Without the function of an adapter the results are lifted, which
may fail. -/
def taskReturn (o : Outcome) (params : List α) (lifted : Option (List α)) : Js α Unit := do
  let s ← Script.get
  if s.returnFnPending then
    callReturnFn o (params.map .result)
    resolve o []
  else
    match lifted with
    | none => Script.throw .engine
    | some results => resolve o results

/-! ## Steps -/

/-- What the callee does, what is done to it, and what the caller sees. -/
inductive Call (α : Type) where
  | start
  | taskReturn (o : Outcome) (params : List α) (lifted : Option (List α))
  | resolve (o : Outcome) (results : List α)
  | reject (o : Outcome) (err : JsError)
  | cancel (o : Outcome)
  | observe
  | event

namespace State

/-- A call that has been prepared, by `asyncStartCall` when `startCall` is set. -/
def init (componentIdx : Int) (taskID : Nat) (isAsync startCall callerMemory : Bool)
    (callMetadata : CallMetadata) : State α where
  componentIdx := componentIdx
  taskID := taskID
  isAsync := isAsync
  startCall := startCall
  callerMemory := callerMemory
  callMetadata := callMetadata
  taskState := .initial
  rejected := false
  cancelled := false
  status := .starting
  cancelRequested := false
  resolved := false
  result := none
  lenders := true
  onProgressFn := startCall
  pendingEvent := false
  onStartCalled := false
  stores := []
  answered := false
  seen := []

def observe (s : State α) : State α := { s with seen := s.seen ++ [s.status] }

/-- The lowering code starts the subtask once, and `lowerImport` sets `onProgressFn`
afterwards. -/
def start (s : State α) : State α :=
  { (onStart : Js α Unit).leaves s with onStartCalled := true, onProgressFn := true }

/-- The caller is given the pending event, whose function may throw. -/
def event (s : State α) : State α :=
  let s := { s with pendingEvent := false }
  if s.status.isResolved then
    if (deliverResolve : Js α Unit).threw s then (deliverResolve : Js α Unit).leaves s
    else ((deliverResolve : Js α Unit).leaves s).observe
  else s.observe

def answer (s : State α) : State α := { s with answered := true }

def call (s : State α) : Call α → Option (State α)
  | .start => if s.onStartCalled then none else some s.start
  | .taskReturn o params lifted => some ((taskReturn o params lifted).leaves s.answer)
  | .resolve o results => some ((resolve o results).leaves s.answer)
  | .reject o err => some ((reject o err).leaves s)
  | .cancel o => some ((Subtask.cancel o (.error "task cancelled")).leaves s)
  | .observe => some s.observe
  | .event => if s.pendingEvent then some s.event else none

end State

def next : Action (Call α) (State α) := fun call s s' => s.call call = some s'

/-! ## What is expected -/

/-- The ways of a subtask. -/
inductive Move : Status → Status → Prop
  | start : Move .starting .started
  | returns : Move .started .returned
  | cancelBeforeStarted : Move .starting .cancelledBeforeStarted
  | cancelBeforeReturned : Move .started .cancelledBeforeReturned

/-- The subtask has returned, or something has been stored for the caller. -/
def State.Delivered (s : State α) : Prop := s.status = .returned ∨ s.stores ≠ []

/-- A delivery comes from results, of a callee that was neither rejected nor
cancelled. -/
structure Faithful (s : State α) : Prop where
  answered : s.Delivered → s.answered = true
  rejected : s.Delivered → s.rejected = false
  cancelled : s.Delivered → s.cancelled = false

/-- The resolve handlers of the task would deliver something now. -/
def State.Delivers (o : Outcome) (s : State α) : Prop :=
  o.handlers = true ∧
    (if s.returnFnPending then o.returnFn = true
    else o.postReturn = true ∧ s.resolved = false ∧ s.status = .started)

/-- `task.return` would deliver something now. -/
def State.Returns (o : Outcome) (lifted : Option (List α)) (s : State α) : Prop :=
  if s.returnFnPending then o.returnFn = true
  else s.taskState ≠ .resolved ∧ ∃ results ∈ lifted, results.length ≤ 1 ∧ s.Delivers o

/-- Nothing is delivered by a rejection or a cancellation, nor after one. -/
def Safe : Call α → State α → Prop
  | .reject o _, s => s.taskState = .resolved ∨ s.rejected = true ∨ ¬ s.Delivers o
  | .cancel o, s => s.taskState = .cancelDelivered → ¬ s.Delivers o
  | .resolve o results, s =>
    s.rejected = true → s.taskState = .resolved ∨ 1 < results.length ∨ ¬ s.Delivers o
  | .taskReturn o _ lifted, s => s.rejected = true → ¬ s.Returns o lifted
  | _, _ => True

end Jco.Component.Subtask

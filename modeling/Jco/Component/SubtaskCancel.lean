import Jco.Component.RepTable
import Jco.Component.Subtask
import Jco.Component.TaskContext

/-! # Cancelling a subtask

`subtask.cancel` as its trampoline binds it: `subtaskCancel` is given the component
and the `async` option, and has no parameter for the handle that the guest passes.
It works on the current task of the component, as `task.cancel` should.

The tasks are those of `Jco.Component.TaskContext`, with the flags that cancellation
reads. Left out are the checks of `task.sync`, of `borrowedHandles.length` and of
`returnCalls`, two properties that are not there and a number that stays zero.
-/

namespace Jco.Component.SubtaskCancel

open Jco.Js Jco.Lib Option
open Jco.Component.Subtask (Status)

/-- What cancellation has left on an `AsyncTask`. -/
structure Flags where
  rejected : Bool
  cancelRequested : Bool
  cancelled : Bool
deriving DecidableEq, Repr

/-- `delivered` tells that the lenders have been given back. -/
structure AsyncSubtask where
  parentTask : Nat
  childTask : Option Nat
  status : Status
  cancelRequested : Bool
  delivered : Bool
deriving DecidableEq, Repr

/-- What a handle stands for: a subtask, or the end of a stream or a future. -/
inductive Handle where
  | subtask (id : Nat)
  | other
deriving DecidableEq, Repr

/-- `count` is `AsyncSubtask._ID`. -/
structure State where
  context : TaskContext.State
  flags : Nat → Flags
  mayLeave : Int → Bool
  handles : Int → RepTable Handle
  subtasks : Nat → Option AsyncSubtask
  count : Nat

namespace AsyncSubtask

def onStart (x : AsyncSubtask) : AsyncSubtask := { x with status := .started }

/-- The state that `onResolve` gives to the subtask; where it throws, the old one. -/
def onResolve (x : AsyncSubtask) (null : Bool) : AsyncSubtask :=
  if null && x.cancelRequested then
    if x.status = .starting then { x with status := .cancelledBeforeStarted }
    else if x.status = .started then { x with status := .cancelledBeforeReturned }
    else x
  else if x.status = .started then { x with status := .returned }
  else x

def deliverResolve (x : AsyncSubtask) : AsyncSubtask :=
  { x with delivered := x.delivered || x.status.isResolved }

end AsyncSubtask

namespace State

def init : State where
  context := .init
  flags _ := ⟨false, false, false⟩
  mayLeave _ := true
  handles _ := .empty
  subtasks _ := none
  count := 0

def setFlags (s : State) (t : Nat) (flags : Flags) : State :=
  { s with flags := Function.update s.flags t flags }

def setHandles (s : State) (componentIdx : Int) (handles : RepTable Handle) : State :=
  { s with handles := Function.update s.handles componentIdx handles }

def setSubtask (s : State) (id : Nat) (x : AsyncSubtask) : State :=
  { s with subtasks := Function.update s.subtasks id (some x) }

def componentOf (s : State) (t : Nat) : Option Int := s.context.componentOf t

/-- `reject`, with an error that has a message. What is between the flags only
throws, or is seen in the state of the task and in its subtask. -/
def reject (s : State) (t : Nat) : State :=
  if (s.context.stack.tasks t).any (·.resolved) || (s.flags t).rejected then s
  else s.setFlags t ⟨true, true, true⟩

/-- `createSubtask`, if there is room for a handle. -/
def createSubtask (s : State) (t : Nat) (componentIdx : Int) (childTask : Option Nat) :
    Option State :=
  ((s.handles componentIdx).insert (.subtask (s.count + 1))).map fun (_, handles) =>
    { (s.setHandles componentIdx handles).setSubtask (s.count + 1)
        ⟨t, childTask, .starting, false, false⟩ with
      count := s.count + 1 }

/-- `subtaskDrop`. The handle is removed before the checks of the drop, and whatever
it stands for. -/
def subtaskDrop (s : State) (componentIdx rep : Int) : State × Option JsError :=
  if !s.mayLeave componentIdx then
    (s, some (.error "component is not marked as may leave, cannot be cancelled"))
  else
    match (s.handles componentIdx).remove rep with
    | none =>
      (s, some (.error "missing/invalid subtask specified for drop in component instance"))
    | some handles =>
      match (s.handles componentIdx).lookup rep with
      | some (.subtask id) =>
        if (s.subtasks id).any (·.delivered) then (s.setHandles componentIdx handles, none)
        else (s.setHandles componentIdx handles,
          some (.error "cannot drop subtask before resolve is delivered"))
      | _ => (s.setHandles componentIdx handles, none)

/-- `subtaskCancel` -/
def subtaskCancel (s : State) (componentIdx : Int) (_isAsync : Bool) : Except JsError State :=
  if !s.mayLeave componentIdx then
    .error (.error "component instance is not marked as may leave, cannot be cancelled")
  else
    match s.context.currentTaskMeta componentIdx with
    | none => .error .engine
    | some taskID =>
      match s.context.stack.getCurrentTask componentIdx (some taskID) with
      | none => .error (.error "invalid/missing async task meta")
      | some task =>
        if !(s.flags task).cancelRequested then
          .error (.error "task cancellation has not been requested")
        else if (s.flags task).cancelled then
          .error (.error "cannot cancel task that has already been cancelled")
        else .ok (s.setFlags task { s.flags task with cancelled := true })

end State

/-! ## Steps -/

/-- What happens to tasks and subtasks. `insert` and `remove` are of handles that
come and go with what they stand for; the subtask of a synchronous call is removed
so. -/
inductive Call where
  | context (call : TaskContext.Call)
  | reject (t : Nat)
  | mayLeave (componentIdx : Int) (mayLeave : Bool)
  | createSubtask (t : Nat) (childTask : Option Nat)
  | onStart (id : Nat)
  | onResolve (id : Nat) (null : Bool)
  | deliverResolve (id : Nat)
  | insert (componentIdx : Int)
  | remove (componentIdx rep : Int)
  | subtaskDrop (t : Nat) (rep : Int)
  | subtaskCancel (t : Nat) (isAsync : Bool) (rep : Int)

def State.call (s : State) : Call → Option (State × Option JsError)
  | .context call => (s.context.call call).map fun (context, _) => ({ s with context }, none)
  | .reject t => (s.componentOf t).map fun _ => (s.reject t, none)
  | .mayLeave componentIdx mayLeave =>
    some ({ s with mayLeave := Function.update s.mayLeave componentIdx mayLeave }, none)
  | .createSubtask t childTask =>
    (s.componentOf t).bind fun c => (s.createSubtask t c childTask).map fun s' => (s', none)
  | .onStart id => (s.subtasks id).map fun x => (s.setSubtask id x.onStart, none)
  | .onResolve id null => (s.subtasks id).map fun x => (s.setSubtask id (x.onResolve null), none)
  | .deliverResolve id => (s.subtasks id).map fun x => (s.setSubtask id x.deliverResolve, none)
  | .insert componentIdx =>
    ((s.handles componentIdx).insert .other).map fun (_, handles) =>
      (s.setHandles componentIdx handles, none)
  | .remove componentIdx rep =>
    ((s.handles componentIdx).remove rep).map fun handles =>
      (s.setHandles componentIdx handles, none)
  | .subtaskDrop t rep => (s.componentOf t).map fun c => s.subtaskDrop c rep
  | .subtaskCancel t isAsync _ =>
    (s.componentOf t).map fun c =>
      match s.subtaskCancel c isAsync with
      | .ok s' => (s', none)
      | .error e => (s, some e)

/-- The label tells what a call throws to the guest. -/
def next : Action (Call × Option JsError) State := fun l s s' => s.call l.1 = some (s', l.2)

/-! ## What is expected -/

/-- The handle names a live subtask of the task that is not resolved. -/
def State.Names (s : State) (t : Nat) (rep : Int) (id : Nat) : Prop :=
  ∃ c x, s.componentOf t = some c ∧ (s.handles c).lookup rep = some (.subtask id) ∧
    s.subtasks id = some x ∧ x.parentTask = t ∧ x.status.isResolved = false

/-- Cancellation of the subtask, and of no other, is requested by the task. -/
structure Requests (t id : Nat) (s s' : State) : Prop where
  requested : ∃ x, s'.subtasks id = some x ∧ x.cancelRequested = true
  subtasks : ∀ id', id' ≠ id → s'.subtasks id' = s.subtasks id'
  tasks : ∀ u, (∀ x ∈ s.subtasks id, x.childTask ≠ some u) → s'.flags u = s.flags u
  caller : (s'.flags t).cancelled = (s.flags t).cancelled

/-- What is expected of `subtask.cancel` by the task `t`. -/
structure Right (t : Nat) (rep : Int) (err : Option JsError) (s s' : State) : Prop where
  named : ∀ id, s.Names t rep id → err = none ∧ Requests t id s s'
  unnamed : (∀ id, ¬ s.Names t rep id) → err ≠ none ∧ s' = s

/-! ## The invariant -/

/-- A task is cancelled together with the request, and no subtask is asked. -/
structure Inv (s : State) : Prop where
  flags : ∀ t, (s.flags t).cancelRequested = true → (s.flags t).cancelled = true
  subtasks : ∀ id, ∀ x ∈ s.subtasks id, x.cancelRequested = false

theorem init_inv : Inv .init where
  flags t h := by cases h
  subtasks id x hx := by cases hx

namespace Inv

variable {s s' : State}

theorem setFlags (h : Inv s) (t : Nat) {flags : Flags}
    (hflags : flags.cancelRequested = true → flags.cancelled = true) : Inv (s.setFlags t flags) where
  flags u := by
    change (Function.update s.flags t flags u).cancelRequested = true →
      (Function.update s.flags t flags u).cancelled = true
    by_cases hu : u = t
    · rw [hu, Function.update_self]
      exact hflags
    · rw [Function.update_of_ne hu]
      exact h.flags u
  subtasks := h.subtasks

theorem setSubtask (h : Inv s) (id : Nat) {x : AsyncSubtask} (hx : x.cancelRequested = false) :
    Inv (s.setSubtask id x) where
  flags := h.flags
  subtasks id' y hy := by
    change y ∈ Function.update s.subtasks id (some x) id' at hy
    by_cases hid : id' = id
    · rw [hid, Function.update_self] at hy
      cases hy
      exact hx
    · rw [Function.update_of_ne hid] at hy
      exact h.subtasks id' y hy

/-- The rest of the state does not matter. -/
theorem congr (h : Inv s) (hflags : s'.flags = s.flags) (hsubtasks : s'.subtasks = s.subtasks) :
    Inv s' where
  flags := by
    rw [hflags]
    exact h.flags
  subtasks := by
    rw [hsubtasks]
    exact h.subtasks

theorem reject (h : Inv s) (t : Nat) : Inv (s.reject t) := by
  unfold State.reject
  split
  · exact h
  · exact h.setFlags t fun _ => rfl

theorem onResolve {x : AsyncSubtask} (hx : x.cancelRequested = false) (null : Bool) :
    (x.onResolve null).cancelRequested = false := by
  have hnot : ¬ (null && x.cancelRequested) = true := by
    rw [hx, Bool.and_false]
    exact Bool.false_ne_true
  unfold AsyncSubtask.onResolve
  rw [if_neg hnot]
  split
  · exact hx
  · exact hx

theorem subtaskDrop (h : Inv s) (componentIdx rep : Int) :
    Inv (s.subtaskDrop componentIdx rep).1 := by
  unfold State.subtaskDrop
  split
  · exact h
  split
  · exact h
  split
  · split
    · exact h.congr rfl rfl
    · exact h.congr rfl rfl
  · exact h.congr rfl rfl

/-- The task has been cancelled if its cancellation has been requested. -/
theorem subtaskCancel_error (h : Inv s) (componentIdx : Int) (isAsync : Bool) :
    ∃ e, s.subtaskCancel componentIdx isAsync = .error e := by
  unfold State.subtaskCancel
  split
  · exact ⟨_, rfl⟩
  split
  · exact ⟨_, rfl⟩
  split
  · exact ⟨_, rfl⟩
  case _ task _ =>
    by_cases hrequested : (s.flags task).cancelRequested = true
    · rw [if_neg (by rw [hrequested]; exact Bool.false_ne_true), if_pos (h.flags task hrequested)]
      exact ⟨_, rfl⟩
    · rw [if_pos (by simpa using hrequested)]
      exact ⟨_, rfl⟩

/-- `subtask.cancel` throws and changes nothing. -/
theorem subtaskCancel_next (h : Inv s) {t : Nat} {isAsync : Bool} {rep : Int} {err : Option JsError}
    (hnext : next (.subtaskCancel t isAsync rep, err) s s') : err ≠ none ∧ s' = s := by
  rcases map_eq_some_iff.1 hnext with ⟨c, -, hcall⟩
  rcases h.subtaskCancel_error c isAsync with ⟨e, herror⟩
  rw [herror] at hcall
  rcases Prod.mk.inj hcall with ⟨rfl, rfl⟩
  exact ⟨some_ne_none e, rfl⟩

/-- What happens to one subtask. -/
theorem mapSubtask (h : Inv s) {id : Nat} (f : AsyncSubtask → AsyncSubtask)
    (hf : ∀ x : AsyncSubtask, x.cancelRequested = false → (f x).cancelRequested = false)
    {err : Option JsError}
    (hcall : (s.subtasks id).map (fun x => (s.setSubtask id (f x), none)) = some (s', err)) :
    Inv s' := by
  rcases map_eq_some_iff.1 hcall with ⟨x, hx, hset⟩
  cases hset
  exact h.setSubtask id (hf x (h.subtasks id x hx))

theorem next (h : Inv s) {l : Call × Option JsError} (hnext : next l s s') : Inv s' := by
  rcases l with ⟨call, err⟩
  cases call with
  | context call =>
    rcases map_eq_some_iff.1 hnext with ⟨⟨context, _⟩, -, hcall⟩
    cases hcall
    exact h.congr rfl rfl
  | reject t =>
    rcases map_eq_some_iff.1 hnext with ⟨c, -, hcall⟩
    cases hcall
    exact h.reject t
  | mayLeave componentIdx mayLeave =>
    cases hnext
    exact h.congr rfl rfl
  | createSubtask t childTask =>
    rcases bind_eq_some_iff.1 hnext with ⟨c, -, hcreate⟩
    rcases map_eq_some_iff.1 hcreate with ⟨_, hinsert, hcall⟩
    cases hcall
    rcases map_eq_some_iff.1 hinsert with ⟨⟨_, handles⟩, -, hset⟩
    cases hset
    -- a new subtask has not been asked
    have hhandles : Inv (s.setHandles c handles) := h.congr rfl rfl
    have hnew : (⟨t, childTask, .starting, false, false⟩ : AsyncSubtask).cancelRequested = false :=
      rfl
    exact (hhandles.setSubtask (s.count + 1) hnew).congr rfl rfl
  | onStart id => exact h.mapSubtask AsyncSubtask.onStart (fun _ hx => hx) hnext
  | onResolve id null => exact h.mapSubtask (·.onResolve null) (fun _ hx => onResolve hx null) hnext
  | deliverResolve id => exact h.mapSubtask AsyncSubtask.deliverResolve (fun _ hx => hx) hnext
  | insert componentIdx =>
    rcases map_eq_some_iff.1 hnext with ⟨⟨_, handles⟩, -, hcall⟩
    cases hcall
    exact h.congr rfl rfl
  | remove componentIdx rep =>
    rcases map_eq_some_iff.1 hnext with ⟨handles, -, hcall⟩
    cases hcall
    exact h.congr rfl rfl
  | subtaskDrop t rep =>
    rcases map_eq_some_iff.1 hnext with ⟨c, -, hcall⟩
    have hdrop := h.subtaskDrop c rep
    rw [hcall] at hdrop
    exact hdrop
  | subtaskCancel t isAsync rep =>
    rw [(h.subtaskCancel_next hnext).2]
    exact h

end Inv

/-! ## Runs -/

theorem run_inv {calls : List (Call × Option JsError)} {s : State}
    (hrun : Run next .init calls s) : Inv s :=
  hrun.invariant (fun _ _ _ hnext h => h.next hnext) init_inv

/-- **`subtask.cancel` never reaches a subtask.** It throws and changes nothing,
which is right exactly when the handle names no live subtask of the caller that is
not resolved. -/
theorem subtaskCancel_right_iff : ∀ calls s, Run next .init calls s →
    ∀ t isAsync rep err s', next (.subtaskCancel t isAsync rep, err) s s' →
      (Right t rep err s s' ↔ ∀ id, ¬ s.Names t rep id) := by
  intro calls s hrun t isAsync rep err s' hnext
  have h := run_inv hrun
  rcases h.subtaskCancel_next hnext with ⟨herr, rfl⟩
  constructor
  · intro hright id hnames
    exact herr (hright.named id hnames).1
  · intro hnot
    exact ⟨fun id hnames => (hnot id hnames).elim, fun _ => ⟨herr, rfl⟩⟩

/-- A task in the component 0 that has called one import. -/
def oneSubtask : List (Call × Option JsError) :=
  [(.context (.stack (.create 0 true true)), none), (.context (.withMeta 1), none),
    (.createSubtask 1 none, none), (.onStart 1, none)]

/-- The state after it. -/
def afterSubtask : State where
  context := (TaskContext.State.init.stackCall (.create 0 true true)
    (CurrentTask.State.init.createNewCurrentTask 0 true true)).withMeta 0 1
  flags _ := ⟨false, false, false⟩
  mayLeave _ := true
  handles := Function.update (fun _ => RepTable.empty) 0
    ((RepTable.empty.insert (.subtask 1)).get rfl).2
  subtasks := Function.update (Function.update (fun _ => none) 1
    (some ⟨1, none, .starting, false, false⟩)) 1 (some ⟨1, none, .started, false, false⟩)
  count := 1

theorem run_oneSubtask : Run next .init oneSubtask afterSubtask :=
  .cons rfl <| .cons rfl <| .cons rfl <| .cons rfl <| .nil _

/-- A handle that names nothing is refused. -/
theorem subtaskCancel_right_iff_unknown :
    Right 1 2 (some (.error "task cancellation has not been requested")) afterSubtask
      afterSubtask := by
  refine (subtaskCancel_right_iff _ _ run_oneSubtask 1 true 2 _ _ rfl).2 ?_
  rintro id ⟨c, x, hc, hlookup, -⟩
  cases hc
  cases hlookup

/-- The only subtask of a task cannot be cancelled. -/
theorem started_subtask_not_cancelled :
    ¬ ∀ calls s, Run next .init calls s →
      ∀ t isAsync rep err s', next (.subtaskCancel t isAsync rep, err) s s' →
        Right t rep err s s' := by
  intro h
  have hright := h _ _ run_oneSubtask 1 true 1
    (some (.error "task cancellation has not been requested")) _ rfl
  have hnames : afterSubtask.Names 1 1 1 := ⟨0, ⟨1, none, .started, false, false⟩, rfl, rfl, rfl, rfl, rfl⟩
  cases (hright.named 1 hnames).1

end Jco.Component.SubtaskCancel

import Jco.Js.Basic
import Jco.Lib.Run
import Mathlib.Data.List.Nodup
import Mathlib.Logic.Function.Basic

/-! # The stack of current tasks

`createNewCurrentTask` pushes a task on the stack of its component in
`GLOBAL_ASYNC_CURRENT_TASK_MAP`, and `AsyncTask.exit` ends in a call of
`clearCurrentTask`, which takes a task off only when it is the top. A task is
named by its ID here, and the stack lists IDs with the top at the end.
-/

namespace Jco.Component.CurrentTask

open Jco.Js Jco.Lib List

/-- `resolved` is the state `RESOLVED`. The comparisons `borrowedHandles > 0`
are left out: they are false of an object. -/
structure AsyncTask where
  componentIdx : Int
  isAsync : Bool
  hasCallback : Bool
  resolved : Bool
  exited : Bool
deriving DecidableEq, Repr

def AsyncTask.needsExclusiveLock (task : AsyncTask) : Bool := !task.isAsync || task.hasCallback

/-- `count` is `AsyncTask._ID`; `locked` the exclusive lock of each component. -/
structure State where
  tasks : Nat → Option AsyncTask
  count : Nat
  taskMap : Int → Option (List Nat)
  currentTaskIDs : List Nat
  currentComponentIdxs : List Int
  locked : Int → Bool

namespace State

def init : State where
  tasks _ := none
  count := 0
  taskMap _ := none
  currentTaskIDs := []
  currentComponentIdxs := []
  locked _ := false

/-- The stack of a component. -/
def metas (s : State) (componentIdx : Int) : List Nat := (s.taskMap componentIdx).getD []

def setMetas (s : State) (componentIdx : Int) (metas : List Nat) : State :=
  { s with taskMap := Function.update s.taskMap componentIdx (some metas) }

def setTask (s : State) (t : Nat) (task : AsyncTask) : State :=
  { s with tasks := Function.update s.tasks t (some task) }

def setLocked (s : State) (componentIdx : Int) (locked : Bool) : State :=
  { s with locked := Function.update s.locked componentIdx locked }

/-- `createNewCurrentTask` -/
def createNewCurrentTask (s : State) (componentIdx : Int) (isAsync hasCallback : Bool) : State :=
  let newTaskID := s.count + 1
  let s := s.setTask newTaskID ⟨componentIdx, isAsync, hasCallback, false, false⟩
  let s := { s with
    count := newTaskID
    currentTaskIDs := s.currentTaskIDs ++ [newTaskID]
    currentComponentIdxs := s.currentComponentIdxs ++ [componentIdx] }
  s.setMetas componentIdx (s.metas componentIdx ++ [newTaskID])

/-- `getCurrentTask`. A task ID of `0` counts as missing. -/
def getCurrentTask (s : State) (componentIdx : Int) (taskID : Option Nat) : Option Nat :=
  match taskID.filter (· ≠ 0) with
  | some id => (s.metas componentIdx).find? (· = id)
  | none => (s.metas componentIdx).getLast?

/-- `clearCurrentTask`, with the task it answers. -/
def clearCurrentTask (s : State) (componentIdx : Int) (taskID : Option Nat) :
    Except JsError (Option Nat × State) :=
  match s.taskMap componentIdx with
  | none => .error (.error "missing/invalid tasks for component instance while ending task")
  | some tasks =>
    match tasks.getLast? with
    | none =>
      .error (.error
        s!"no current tasks for component instance [{componentIdx}] while ending task")
    | some last =>
      if taskID.any (· ≠ last) then .ok (none, s)
      else
        let s := { s with
          currentTaskIDs := s.currentTaskIDs.dropLast
          currentComponentIdxs := s.currentComponentIdxs.dropLast }
        .ok (some last, s.setMetas componentIdx tasks.dropLast)

/-- The checks of `exit`. -/
def exitError (s : State) (t : Nat) (task : AsyncTask) (skipExclusiveLockCheck : Bool) :
    Option JsError :=
  if task.exited then some (.error "task has already exited")
  else if !task.resolved then
    some (.error s!"(component [{task.componentIdx}]) task [{t}] exited without resolution")
  else if task.componentIdx ≠ -1 && !skipExclusiveLockCheck && task.needsExclusiveLock &&
      !s.locked task.componentIdx then
    some (.error
      s!"task [{t}] exit: component [{task.componentIdx}] should have been exclusively locked")
  else none

/-- `AsyncTask.exit`, with what it throws; `handler` is the exception of the
first handler that throws. What the handlers do to the stack are calls of their
own, which come before. -/
def exit (s : State) (t : Nat) (task : AsyncTask) (skipExclusiveLockCheck : Bool)
    (handler : Option JsError) : State × Option JsError :=
  match s.exitError t task skipExclusiveLockCheck with
  | some err => (s, some err)
  | none =>
    let s := s.setLocked task.componentIdx false
    match handler with
    | some err => (s, some err)
    | none =>
      let s := s.setTask t { task with exited := true }
      match s.clearCurrentTask task.componentIdx (some t) with
      | .ok (_, s) => (s, none)
      | .error err => (s, some err)

end State

/-! ## Calls -/

/-- The calls on the stack, and the two events that the checks of `exit` read. -/
inductive Call where
  | create (componentIdx : Int) (isAsync hasCallback : Bool)
  | resolve (t : Nat)
  | lock (componentIdx : Int)
  | exit (t : Nat) (skipExclusiveLockCheck : Bool) (handler : Option JsError)
  | clear (componentIdx : Int) (taskID : Option Nat)
deriving DecidableEq, Repr

/-- Performing a call; one on a task that does not exist is none. -/
def State.call (s : State) : Call → Option State
  | .create componentIdx isAsync hasCallback =>
    some (s.createNewCurrentTask componentIdx isAsync hasCallback)
  | .resolve t => (s.tasks t).map fun task => s.setTask t { task with resolved := true }
  | .lock componentIdx => some (s.setLocked componentIdx true)
  | .exit t skipExclusiveLockCheck handler =>
    (s.tasks t).map fun task => (s.exit t task skipExclusiveLockCheck handler).1
  | .clear componentIdx taskID =>
    match s.clearCurrentTask componentIdx taskID with
    | .ok (_, s') => some s'
    | .error _ => some s

def next : Action Call State := fun call s s' => s.call call = some s'

/-! ## What is promised -/

/-- The task exists and has not exited. -/
def State.Live (s : State) (t : Nat) : Prop := (s.tasks t).any (!·.exited)

instance (s : State) (t : Nat) : Decidable (s.Live t) := inferInstanceAs (Decidable (_ = true))

/-- `getCurrentTask` answers only live tasks. -/
def State.AnswersLive (s : State) : Prop :=
  ∀ componentIdx taskID t, s.getCurrentTask componentIdx taskID = some t → s.Live t

/-- The promise of one step: afterwards `getCurrentTask` answers only live tasks,
and an exit has left every other live task on its stack. -/
structure Kept (call : Call) (s s' : State) : Prop where
  live : s'.AnswersLive
  others : ∀ t skip handler, call = .exit t skip handler →
    ∀ componentIdx, ∀ u ∈ s.metas componentIdx, u ≠ t → s.Live u → u ∈ s'.metas componentIdx

/-- `exit` runs to its end. -/
def State.Exits (s : State) (t : Nat) (skipExclusiveLockCheck : Bool) (handler : Option JsError) :
    Prop :=
  ∃ task ∈ s.tasks t, s.exitError t task skipExclusiveLockCheck = none ∧ handler = none

instance (s : State) (t : Nat) (skip : Bool) (handler : Option JsError) :
    Decidable (s.Exits t skip handler) :=
  inferInstanceAs (Decidable (∃ task ∈ s.tasks t, _))

/-- The task is the top of its stack, or not on it. -/
def State.OnTop (s : State) (t : Nat) : Prop :=
  ∀ task ∈ s.tasks t, t ∈ s.metas task.componentIdx →
    (s.metas task.componentIdx).getLast? = some t

/-- A step keeps the promise when the task that exits is on top. -/
def Safe (call : Call) (s : State) : Prop :=
  match call with
  | .exit t skip handler => s.Exits t skip handler → s.OnTop t
  | _ => True

/-! ## The invariant -/

namespace State

@[simp] theorem metas_setMetas (s : State) (c c' : Int) (metas : List Nat) :
    (s.setMetas c metas).metas c' = if c' = c then metas else s.metas c' := by
  simp only [State.metas, setMetas, Function.update_apply]
  split <;> rfl

@[simp] theorem metas_setTask (s : State) (t : Nat) (task : AsyncTask) (c : Int) :
    (s.setTask t task).metas c = s.metas c := rfl

@[simp] theorem metas_setLocked (s : State) (c c' : Int) (locked : Bool) :
    (s.setLocked c locked).metas c' = s.metas c' := rfl

theorem tasks_setTask (s : State) (t u : Nat) (task : AsyncTask) :
    (s.setTask t task).tasks u = if u = t then some task else s.tasks u :=
  Function.update_apply ..

/-- A task that `getCurrentTask` answers is on the stack. -/
theorem getCurrentTask_mem {s : State} {c : Int} {taskID : Option Nat} {t : Nat}
    (h : s.getCurrentTask c taskID = some t) : t ∈ s.metas c := by
  unfold getCurrentTask at h
  split at h
  case h_1 => exact mem_of_find?_eq_some h
  case h_2 => exact mem_of_getLast? h

/-- Every task on the stack is answered for its ID. -/
theorem getCurrentTask_of_mem {s : State} {c : Int} {t : Nat} (hpos : t ≠ 0)
    (h : t ∈ s.metas c) : s.getCurrentTask c (some t) = some t := by
  unfold getCurrentTask
  rw [Option.filter_some, if_pos (by simpa using hpos)]
  show (s.metas c).find? (· = t) = some t
  rcases hfind : (s.metas c).find? (· = t) with _ | u
  · have hnone := List.find?_eq_none.1 hfind t h
    simp at hnone
  · have hu := List.find?_some hfind
    simp only [decide_eq_true_eq] at hu
    rw [hu]

/-- `clearCurrentTask` takes nothing off a stack but the top of the one it names,
and that only when the ID allows it. -/
theorem clearCurrentTask_cases {s s' : State} {c : Int} {taskID answer : Option Nat}
    (h : s.clearCurrentTask c taskID = .ok (answer, s')) :
    s' = s ∧ (∃ last, (s.metas c).getLast? = some last ∧ taskID ≠ some last) ∨
      s'.tasks = s.tasks ∧ s'.count = s.count ∧
        (∀ c', s'.metas c' = if c' = c then (s.metas c).dropLast else s.metas c') ∧
        ∃ last, (s.metas c).getLast? = some last ∧ ∀ id ∈ taskID, id = last := by
  unfold clearCurrentTask at h
  split at h
  case h_1 => cases h
  case h_2 tasks htasks =>
    have hmetas : s.metas c = tasks := by
      unfold State.metas
      rw [htasks]
      rfl
    split at h
    case h_1 => cases h
    case h_2 last hlast =>
      rw [hmetas]
      split at h
      case isTrue hany =>
        cases h
        left
        refine ⟨rfl, last, hlast, ?_⟩
        rintro rfl
        simp at hany
      case isFalse hany =>
        cases h
        right
        refine ⟨rfl, rfl, fun c' => metas_setMetas _ c c' _, last, hlast, ?_⟩
        intro id hid
        cases hid
        simpa using hany

end State

/-- Stacks hold each task once, on the stack of its component, and no task that
has exited. -/
structure Inv (s : State) : Prop where
  nodup : ∀ c, (s.metas c).Nodup
  home : ∀ c, ∀ t ∈ s.metas c, ∃ task, s.tasks t = some task ∧ task.componentIdx = c
  ids : ∀ t task, s.tasks t = some task → t ≠ 0 ∧ t ≤ s.count
  live : ∀ c, ∀ t ∈ s.metas c, s.Live t

/-! ### What the steps do -/

namespace State

variable {s s' : State} {t : Nat} {task : AsyncTask}

/-- An exit that throws before the task is marked leaves tasks and stacks alone. -/
theorem exit_stops {skip : Bool} {handler : Option JsError} (h : s.tasks t = some task)
    (hnot : ¬ s.Exits t skip handler) :
    (s.exit t task skip handler).1.tasks = s.tasks ∧
      (s.exit t task skip handler).1.count = s.count ∧
      ∀ c, (s.exit t task skip handler).1.metas c = s.metas c := by
  unfold exit
  rcases herr : s.exitError t task skip with _ | err
  · rcases handler with _ | err
    · exact absurd ⟨task, h, herr, rfl⟩ hnot
    · exact ⟨rfl, rfl, fun c => rfl⟩
  · exact ⟨rfl, rfl, fun c => rfl⟩

/-- An exit that runs marks the task and takes it off its stack if it is on top. -/
theorem exit_runs {skip : Bool} {handler : Option JsError} (h : s.tasks t = some task)
    (hexits : s.Exits t skip handler) :
    (s.exit t task skip handler).1.tasks = (s.setTask t { task with exited := true }).tasks ∧
      (s.exit t task skip handler).1.count = s.count ∧
      ∀ c, (s.exit t task skip handler).1.metas c =
        if c = task.componentIdx ∧ (s.metas c).getLast? = some t then (s.metas c).dropLast
        else s.metas c := by
  rcases hexits with ⟨task', htask', herr, rfl⟩
  obtain rfl : task' = task := Option.some.inj (htask'.symm.trans h)
  unfold exit
  rw [herr]
  dsimp only
  generalize hmarked : (s.setLocked task'.componentIdx false).setTask t
    { task' with exited := true } = marked
  have htasks : marked.tasks = (s.setTask t { task' with exited := true }).tasks := by
    rw [← hmarked]
    rfl
  have hcount : marked.count = s.count := by
    rw [← hmarked]
    rfl
  have hmetas : ∀ c, marked.metas c = s.metas c := by
    intro c
    rw [← hmarked]
    rfl
  rcases hclear : marked.clearCurrentTask task'.componentIdx (some t) with err | ⟨answer, s'⟩
  · refine ⟨htasks, hcount, ?_⟩
    -- it throws only on an empty stack
    intro c
    rw [if_neg]
    · exact hmetas c
    · rintro ⟨rfl, hlast⟩
      rw [← hmetas] at hlast
      unfold clearCurrentTask at hclear
      unfold State.metas at hlast
      rcases hmap : marked.taskMap task'.componentIdx with _ | tasks
      · rw [hmap] at hlast
        cases hlast
      · rw [hmap] at hlast hclear
        replace hlast : tasks.getLast? = some t := hlast
        simp only [hlast] at hclear
        split at hclear <;> cases hclear
  · rcases clearCurrentTask_cases hclear with ⟨rfl, last, hlast, hne⟩ | ⟨ht, hc, hm, last, hlast, hid⟩
    · refine ⟨htasks, hcount, ?_⟩
      intro c
      rw [if_neg]
      · exact hmetas c
      · rintro ⟨rfl, htop⟩
        rw [hmetas, htop] at hlast
        exact hne hlast
    · refine ⟨ht.trans htasks, hc.trans hcount, ?_⟩
      intro c
      have hlast' : (s.metas task'.componentIdx).getLast? = some t := by
        rw [hmetas] at hlast
        rw [hlast, hid t rfl]
      rw [hm, hmetas, hmetas]
      by_cases hcc : c = task'.componentIdx
      · subst hcc
        rw [if_pos rfl, if_pos ⟨rfl, hlast'⟩]
      · rw [if_neg hcc, if_neg fun hboth => hcc hboth.1]

/-- A member of a list other than the last one is not the one dropped. -/
theorem mem_dropLast_of_ne {l : List Nat} {t u : Nat} (hlast : l.getLast? = some t)
    (hu : u ∈ l) (hne : u ≠ t) : u ∈ l.dropLast := by
  rw [← dropLast_append_getLast? t hlast, mem_append, mem_singleton] at hu
  exact hu.resolve_right hne

/-- IDs are given out once. -/
def Numbered (s : State) : Prop := ∀ u, s.count < u → s.tasks u = none

def componentOf (s : State) (u : Nat) : Option Int := (s.tasks u).map (·.componentIdx)

/-- No call changes the component of a task that exists. -/
theorem componentOf_next {call : Call} (h : s.Numbered) (hnext : next call s s') :
    s'.Numbered ∧ s.count ≤ s'.count ∧
      ∀ u, u ≤ s.count → s'.componentOf u = s.componentOf u := by
  -- a call that replaces the record of an existing task keeps its component
  have hset : ∀ {s' : State} {t : Nat} {task : AsyncTask} (task' : AsyncTask), s.tasks t = some task →
      task'.componentIdx = task.componentIdx → s'.tasks = (s.setTask t task').tasks →
      s'.count = s.count → s'.Numbered ∧ s.count ≤ s'.count ∧
        ∀ u, u ≤ s.count → s'.componentOf u = s.componentOf u := by
    intro s' t task task' ht hcomponent htasks hcount
    refine ⟨?_, Nat.le_of_eq hcount.symm, ?_⟩
    · intro u hu
      rw [hcount] at hu
      rw [htasks, tasks_setTask, if_neg]
      · exact h u hu
      · rintro rfl
        rw [h u hu] at ht
        cases ht
    · intro u _
      unfold componentOf
      rw [htasks, tasks_setTask]
      split
      case isTrue hut =>
        rw [hut, ht]
        exact congrArg some hcomponent
      case isFalse => rfl
  have hsame : ∀ {s' : State}, s'.tasks = s.tasks → s'.count = s.count →
      s'.Numbered ∧ s.count ≤ s'.count ∧
        ∀ u, u ≤ s.count → s'.componentOf u = s.componentOf u := by
    intro s' htasks hcount
    refine ⟨?_, Nat.le_of_eq hcount.symm, ?_⟩
    · intro u hu
      rw [htasks]
      exact h u (hcount ▸ hu)
    · intro u _
      unfold componentOf
      rw [htasks]
  cases call with
  | create c isAsync hasCallback =>
    cases hnext
    have htasks : ∀ u, (s.createNewCurrentTask c isAsync hasCallback).tasks u =
        if u = s.count + 1 then some ⟨c, isAsync, hasCallback, false, false⟩ else s.tasks u :=
      fun u => tasks_setTask s _ u _
    refine ⟨?_, Nat.le_succ _, ?_⟩
    · intro u hu
      replace hu : s.count + 1 < u := hu
      rw [htasks, if_neg (by omega)]
      exact h u (by omega)
    · intro u hu
      unfold componentOf
      rw [htasks, if_neg (by omega)]
  | resolve t =>
    rcases Option.map_eq_some_iff.1 hnext with ⟨task, ht, rfl⟩
    exact hset { task with resolved := true } ht rfl rfl rfl
  | lock c =>
    cases hnext
    exact hsame rfl rfl
  | exit t skip handler =>
    rcases Option.map_eq_some_iff.1 hnext with ⟨task, ht, rfl⟩
    by_cases hexits : s.Exits t skip handler
    · rcases exit_runs ht hexits with ⟨htasks, hcount, -⟩
      exact hset { task with exited := true } ht rfl htasks hcount
    · rcases exit_stops ht hexits with ⟨htasks, hcount, -⟩
      exact hsame htasks hcount
  | clear c taskID =>
    unfold CurrentTask.next State.call at hnext
    dsimp only at hnext
    rcases hclear : s.clearCurrentTask c taskID with err | ⟨answer, s₁⟩
    · rw [hclear] at hnext
      cases hnext
      exact hsame rfl rfl
    · rw [hclear] at hnext
      cases hnext
      rcases clearCurrentTask_cases hclear with ⟨rfl, -⟩ | ⟨htasks, hcount, -⟩
      · exact hsame rfl rfl
      · exact hsame htasks hcount

/-- An exit leaves every other task on its stack, wherever it stands. -/
theorem exit_others {skip : Bool} {handler : Option JsError}
    (hnext : next (.exit t skip handler) s s') (c : Int) :
    ∀ u ∈ s.metas c, u ≠ t → u ∈ s'.metas c := by
  intro u hu hne
  rcases Option.map_eq_some_iff.1 hnext with ⟨task, ht, rfl⟩
  by_cases hexits : s.Exits t skip handler
  · rw [(exit_runs ht hexits).2.2 c]
    split
    case isTrue hlast => exact mem_dropLast_of_ne hlast.2 hu hne
    case isFalse => exact hu
  · rw [(exit_stops ht hexits).2.2 c]
    exact hu

end State

namespace Inv

variable {s s' : State}

theorem init : Inv .init := by
  constructor
  case nodup => exact fun c => nodup_nil
  case home => exact fun c t ht => nomatch ht
  case ids => exact fun t task h => nomatch h
  case live => exact fun c t ht => nomatch ht

/-- Between live tasks and stacks: what `getCurrentTask` answers. -/
theorem answersLive (h : Inv s) : s.AnswersLive :=
  fun c _ _ ht => h.live c _ (State.getCurrentTask_mem ht)

/-- A step that leaves the tasks alone and only shrinks stacks. -/
theorem shrink (h : Inv s) (htasks : s'.tasks = s.tasks) (hcount : s'.count = s.count)
    (hmetas : ∀ c, (s'.metas c).Sublist (s.metas c)) : Inv s' := by
  constructor
  case nodup => exact fun c => (h.nodup c).sublist (hmetas c)
  case home =>
    intro c t ht
    rw [htasks]
    exact h.home c t ((hmetas c).subset ht)
  case ids =>
    rw [htasks, hcount]
    exact h.ids
  case live =>
    intro c t ht
    unfold State.Live
    rw [htasks]
    exact h.live c t ((hmetas c).subset ht)

theorem create (h : Inv s) (c : Int) (isAsync hasCallback : Bool) :
    Inv (s.createNewCurrentTask c isAsync hasCallback) := by
  have hmetas : ∀ c', (s.createNewCurrentTask c isAsync hasCallback).metas c' =
      if c' = c then s.metas c ++ [s.count + 1] else s.metas c' :=
    fun c' => State.metas_setMetas _ c c' _
  have htasks : ∀ u, (s.createNewCurrentTask c isAsync hasCallback).tasks u =
      if u = s.count + 1 then some ⟨c, isAsync, hasCallback, false, false⟩ else s.tasks u :=
    fun u => State.tasks_setTask s _ u _
  -- the new ID is on no stack yet
  have hfresh : ∀ c', ∀ u ∈ s.metas c', u ≠ s.count + 1 := by
    intro c' u hu
    rcases h.home c' u hu with ⟨task, htask, -⟩
    have hle := (h.ids u task htask).2
    omega
  constructor
  case nodup =>
    intro c'
    rw [hmetas]
    split
    · rw [nodup_append]
      refine ⟨h.nodup c, nodup_singleton _, ?_⟩
      intro u hu v hv
      rw [mem_singleton.1 hv]
      exact hfresh c u hu
    · exact h.nodup c'
  case home =>
    intro c' u hu
    rw [hmetas] at hu
    rw [htasks]
    by_cases hnew : u = s.count + 1
    · split at hu
      case isTrue hc => exact ⟨_, if_pos hnew, hc.symm⟩
      case isFalse => exact absurd hnew (hfresh c' u hu)
    · rw [if_neg hnew]
      split at hu
      case isTrue hc =>
        rw [mem_append, mem_singleton] at hu
        rw [hc]
        exact h.home c u (hu.resolve_right hnew)
      case isFalse => exact h.home c' u hu
  case ids =>
    intro u task hu
    rw [htasks] at hu
    show u ≠ 0 ∧ u ≤ s.count + 1
    split at hu
    case isTrue hnew => omega
    case isFalse =>
      have hids := h.ids u task hu
      omega
  case live =>
    intro c' u hu
    rw [hmetas] at hu
    unfold State.Live
    rw [htasks]
    by_cases hnew : u = s.count + 1
    · rw [if_pos hnew]
      rfl
    · rw [if_neg hnew]
      split at hu
      case isTrue =>
        rw [mem_append, mem_singleton] at hu
        exact h.live c u (hu.resolve_right hnew)
      case isFalse => exact h.live c' u hu

theorem resolve (h : Inv s) {t : Nat} {task : AsyncTask} (ht : s.tasks t = some task) :
    Inv (s.setTask t { task with resolved := true }) := by
  constructor
  case nodup => exact h.nodup
  case home =>
    intro c u hu
    rcases h.home c u hu with ⟨task', htask', hc⟩
    rw [State.tasks_setTask]
    split
    case isTrue hut =>
      subst hut
      rw [ht] at htask'
      cases htask'
      exact ⟨_, rfl, hc⟩
    case isFalse => exact ⟨task', htask', hc⟩
  case ids =>
    intro u task' hu
    rw [State.tasks_setTask] at hu
    split at hu
    case isTrue hut =>
      subst hut
      exact h.ids u task ht
    case isFalse => exact h.ids u task' hu
  case live =>
    intro c u hu
    have hlive := h.live c u hu
    unfold State.Live at hlive ⊢
    rw [State.tasks_setTask]
    split
    case isTrue hut =>
      subst hut
      rw [ht] at hlive
      exact hlive
    case isFalse => exact hlive

/-- An exit of the task on top, or of one that is on no stack any more. -/
theorem exit (h : Inv s) {t : Nat} {task : AsyncTask} (ht : s.tasks t = some task) {skip : Bool}
    {handler : Option JsError} (hexits : s.Exits t skip handler) (htop : s.OnTop t) :
    Inv (s.exit t task skip handler).1 := by
  rcases State.exit_runs ht hexits with ⟨htasks, hcount, hmetas⟩
  generalize (s.exit t task skip handler).1 = s' at htasks hcount hmetas
  have hsub : ∀ c, (s'.metas c).Sublist (s.metas c) := by
    intro c
    rw [hmetas]
    split
    · exact dropLast_sublist _
    · exact List.Sublist.refl _
  -- the task itself is gone from every stack
  have hgone : ∀ c, t ∉ s'.metas c := by
    intro c hmem
    have hold := (hsub c).subset hmem
    rcases h.home c t hold with ⟨task', htask', rfl⟩
    rw [ht] at htask'
    cases htask'
    have hlast := htop task ht hold
    rw [hmetas, if_pos ⟨rfl, hlast⟩] at hmem
    have hnodup := h.nodup task.componentIdx
    rw [← dropLast_append_getLast? t hlast, nodup_append] at hnodup
    exact hnodup.2.2 t hmem t (mem_singleton.2 rfl) rfl
  constructor
  case nodup => exact fun c => (h.nodup c).sublist (hsub c)
  case home =>
    intro c u hu
    have hut : u ≠ t := by
      rintro rfl
      exact hgone c hu
    rw [htasks, State.tasks_setTask, if_neg hut]
    exact h.home c u ((hsub c).subset hu)
  case ids =>
    intro u task' hu
    rw [hcount]
    rw [htasks, State.tasks_setTask] at hu
    split at hu
    case isTrue hut =>
      subst hut
      exact h.ids u task ht
    case isFalse => exact h.ids u task' hu
  case live =>
    intro c u hu
    have hut : u ≠ t := by
      rintro rfl
      exact hgone c hu
    unfold State.Live
    rw [htasks, State.tasks_setTask, if_neg hut]
    exact h.live c u ((hsub c).subset hu)

/-- The step lemma. -/
theorem next (h : Inv s) {call : Call} (hsafe : Safe call s) (hnext : next call s s') : Inv s' := by
  cases call with
  | create c isAsync hasCallback =>
    cases hnext
    exact h.create c isAsync hasCallback
  | resolve t =>
    rcases Option.map_eq_some_iff.1 hnext with ⟨task, ht, rfl⟩
    exact h.resolve ht
  | lock c =>
    cases hnext
    exact h.shrink rfl rfl fun c => List.Sublist.refl _
  | exit t skip handler =>
    rcases Option.map_eq_some_iff.1 hnext with ⟨task, ht, rfl⟩
    by_cases hexits : s.Exits t skip handler
    · exact h.exit ht hexits (hsafe hexits)
    · rcases State.exit_stops ht hexits with ⟨htasks, hcount, hmetas⟩
      exact h.shrink htasks hcount fun c => by rw [hmetas c]
  | clear c taskID =>
    unfold CurrentTask.next State.call at hnext
    dsimp only at hnext
    rcases hclear : s.clearCurrentTask c taskID with err | ⟨answer, s₁⟩
    · rw [hclear] at hnext
      cases hnext
      exact h
    · rw [hclear] at hnext
      cases hnext
      rcases State.clearCurrentTask_cases hclear with ⟨rfl, -⟩ | ⟨htasks, hcount, hmetas, -⟩
      · exact h
      · refine h.shrink htasks hcount ?_
        intro c'
        rw [hmetas]
        split
        case isTrue hc =>
          rw [hc]
          exact dropLast_sublist _
        case isFalse => exact List.Sublist.refl _

/-- An exit of a task below the top leaves it on its stack, and
`getCurrentTask` answers it for its ID. -/
theorem onTop (h : Inv s) {t : Nat} {skip : Bool} {handler : Option JsError}
    (hnext : CurrentTask.next (.exit t skip handler) s s') (hlive : s'.AnswersLive)
    (hexits : s.Exits t skip handler) : s.OnTop t := by
  intro task ht hmem
  by_contra hlast
  rcases Option.map_eq_some_iff.1 hnext with ⟨task', ht', rfl⟩
  obtain rfl : task' = task := Option.some.inj (ht'.symm.trans ht)
  rcases State.exit_runs ht hexits with ⟨htasks, -, hmetas⟩
  generalize (s.exit t task' skip handler).1 = s' at htasks hmetas hlive
  have hleft : t ∈ s'.metas task'.componentIdx := by
    rw [hmetas, if_neg fun hboth => hlast hboth.2]
    exact hmem
  have hget := State.getCurrentTask_of_mem (h.ids t task' ht).1 hleft
  have hexited := hlive _ _ _ hget
  unfold State.Live at hexited
  rw [htasks, State.tasks_setTask, if_pos rfl] at hexited
  cases hexited

end Inv

/-! ## The current-task stack -/

/-- The runs in which `getCurrentTask` never answers a task that has exited and
no exit takes another live task off its stack are exactly those in which each
task that exits is on top of its stack. -/
theorem current_task_iff {tr : List Call} {s : State} :
    Run (fun call s s' => next call s s' ∧ Kept call s s') .init tr s ↔
      Run (guarded Safe next) .init tr s := by
  refine (Run.iff_of_invariant ?_ ?_ Inv.init).symm
  · intro call s s' hinv
    constructor
    · rintro ⟨hsafe, hnext⟩
      refine ⟨hnext, (hinv.next hsafe hnext).answersLive, ?_⟩
      rintro t skip handler rfl c u hu hne -
      exact State.exit_others hnext c u hu hne
    · rintro ⟨hnext, hkept⟩
      refine ⟨?_, hnext⟩
      cases call with
      | exit t skip handler => exact hinv.onTop hnext hkept.live
      | create c isAsync hasCallback => exact trivial
      | resolve t => exact trivial
      | lock c => exact trivial
      | clear c taskID => exact trivial
  · rintro call s s' ⟨hsafe, hnext⟩ hinv
    exact hinv.next hsafe hnext

/-- Two tasks of one component, of which the first exits first. -/
def firstInFirstOut : List Call :=
  [.create 0 true false, .create 0 true false, .resolve 1, .exit 1 false none, .resolve 2,
    .exit 2 false none]

/-- Afterwards the first task is the current one. -/
theorem exited_task_is_current :
    ¬ ∀ (tr : List Call) (s : State), Run next .init tr s → s.AnswersLive := by
  intro hall
  have hrun : Run next .init firstInFirstOut _ :=
    .cons rfl <| .cons rfl <| .cons rfl <| .cons rfl <| .cons rfl <| .cons rfl <| .nil _
  have hlive := hall _ _ hrun 0 none 1 (by decide)
  revert hlive
  decide

end Jco.Component.CurrentTask

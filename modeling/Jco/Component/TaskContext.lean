import Jco.Component.CurrentTask

/-! # Task-local context

`context.get` and `context.set` find the running task through the global
`CURRENT_TASK_META`, an object with one entry for each component instance. The
entry is set when a call into the component starts and put to `null` when it
ends. A call of a task is open from the start to the end, suspended or not, and
calls may be open in any number and end in any order.
-/

namespace Jco.Component.TaskContext

open Jco.Js Jco.Lib Function Option

/-- An open call: the entry that its start replaced, and whether a wrapper
around the callee has been entered (a prepared call waits for it). -/
structure Frame where
  before : Option Nat
  entered : Bool
deriving DecidableEq, Repr

/-- `currentTaskMeta` is the task ID of an entry, if there is one. History: the
open call of each task, and the value each task stored last in each slot. -/
structure State where
  stack : CurrentTask.State
  storage : Nat → Nat → Int
  currentTaskMeta : Int → Option Nat
  frames : Nat → Option Frame
  lastSet : Nat → Nat → Option Int

namespace State

def init : State where
  stack := .init
  storage _ _ := 0
  currentTaskMeta _ := none
  frames _ := none
  lastSet _ _ := none

def componentOf (s : State) (t : Nat) : Option Int := s.stack.componentOf t

def setEntry (s : State) (componentIdx : Int) (entry : Option Nat) : State :=
  { s with currentTaskMeta := Function.update s.currentTaskMeta componentIdx entry }

def setFrame (s : State) (t : Nat) (frame : Option Frame) : State :=
  { s with frames := Function.update s.frames t frame }

/-- The start of `_withGlobalCurrentTaskMeta` and of its async variant. -/
def withMeta (s : State) (componentIdx : Int) (t : Nat) : State :=
  let before := ((s.frames t).map (·.before)).getD (s.currentTaskMeta componentIdx)
  (s.setEntry componentIdx (some t)).setFrame t (some ⟨before, true⟩)

/-- The `finally` block of both wrappers. -/
def withEnd (s : State) (componentIdx : Int) (t : Nat) : State :=
  (s.setEntry componentIdx none).setFrame t none

/-- `_setGlobalCurrentTaskMeta`, with which a call is prepared or entered
without a wrapper. -/
def setMeta (s : State) (componentIdx : Int) (t : Nat) : State :=
  let frame := (s.frames t).getD ⟨s.currentTaskMeta componentIdx, false⟩
  (s.setEntry componentIdx (some t)).setFrame t (some frame)

/-- `_clearCurrentTask`, whose exception is that of a promise nobody awaits. -/
def clearMeta (s : State) (componentIdx : Int) (t : Nat) : Except JsError State :=
  match s.currentTaskMeta componentIdx with
  | none => .error (.error s!"missing current task meta for component idx [{componentIdx}]")
  | some taskID =>
    if taskID ≠ t then .error (.error s!"task ID [{taskID}] != requested ID [{t}]")
    else .ok ((s.setEntry componentIdx none).setFrame t none)

/-- The task that both context functions work on. -/
def contextTask (s : State) (componentIdx : Int) : Except JsError Nat :=
  match s.currentTaskMeta componentIdx with
  | none =>
    .error (.error
      s!"missing/incomplete global current task meta for component idx [{componentIdx}] during context set")
  | some taskID =>
    match s.stack.getCurrentTask componentIdx (some taskID) with
    | none => .error (.error "failed to retrieve current task")
    | some task => .ok task

/-- `_typeCheckValidI32` -/
def validI32 (value : Int) : Bool := -2147483648 ≤ value && value ≤ 2147483647

/-- `task.storage.length` -/
def storageLength : Nat := 2

/-- `task.storage[slot] = value` -/
def store (s : State) (task slot : Nat) (value : Int) : State :=
  let slots := Function.update (s.storage task) slot value
  { s with storage := Function.update s.storage task slots }

def contextSet (s : State) (componentIdx : Int) (slot : Nat) (value : Int) :
    Except JsError State :=
  if !validI32 value then
    .error (.error "invalid value for context set (not valid i32)")
  else
    match s.contextTask componentIdx with
    | .error e => .error e
    | .ok task =>
      if storageLength ≤ slot then .error (.error "invalid slot for current task")
      else .ok (s.store task slot value)

def contextGet (s : State) (componentIdx : Int) (slot : Nat) : Except JsError Int :=
  match s.contextTask componentIdx with
  | .error e => .error e
  | .ok task =>
    if storageLength ≤ slot then .error (.error "invalid slot for current task")
    else .ok (s.storage task slot)

/-- The task `t` has stored the value. -/
def recordSet (s : State) (t slot : Nat) (value : Int) : State :=
  let slots := Function.update (s.lastSet t) slot (some value)
  { s with lastSet := Function.update s.lastSet t slots }

/-- A new task starts with `storage = [0, 0]`. -/
def stackCall (s : State) (call : CurrentTask.Call) (stack : CurrentTask.State) : State :=
  match call with
  | .create _ _ _ =>
    { s with stack, storage := Function.update s.storage stack.count (fun _ => 0) }
  | _ => { s with stack }

end State

/-! ## Runs -/

/-- The events. `contextSet` and `contextGet` are executed by the code of a task
in its own component; nothing but the task's own ID is known of the others. -/
inductive Call where
  | stack (call : CurrentTask.Call)
  | withMeta (t : Nat)
  | withEnd (t : Nat)
  | setMeta (t : Nat)
  | clearMeta (t : Nat)
  | contextSet (t slot : Nat) (value : Int)
  | contextGet (t slot : Nat)
deriving DecidableEq, Repr

inductive Answer where
  | nothing
  | value (v : Int)
  | threw (e : JsError)
deriving DecidableEq, Repr

/-- An event of the task `t`, whose component is `componentIdx`. -/
def State.taskCall (s : State) (componentIdx : Int) (t : Nat) : Call → State × Answer
  | .withMeta _ => (s.withMeta componentIdx t, .nothing)
  | .withEnd _ => (s.withEnd componentIdx t, .nothing)
  | .setMeta _ => (s.setMeta componentIdx t, .nothing)
  | .clearMeta _ =>
    match s.clearMeta componentIdx t with
    | .ok s' => (s', .nothing)
    | .error e => (s, .threw e)
  | .contextSet _ slot value =>
    match s.contextSet componentIdx slot value with
    | .ok s' => (s'.recordSet t slot value, .nothing)
    | .error e => (s, .threw e)
  | .contextGet _ slot =>
    match s.contextGet componentIdx slot with
    | .ok v => (s, .value v)
    | .error e => (s, .threw e)
  | .stack _ => (s, .nothing)

/-- The task of an event. -/
def Call.task : Call → Nat
  | .stack _ => 0
  | .withMeta t | .withEnd t | .setMeta t | .clearMeta t => t
  | .contextSet t _ _ | .contextGet t _ => t

def State.call (s : State) : Call → Option (State × Answer)
  | .stack call => (s.stack.call call).map fun stack => (s.stackCall call stack, .nothing)
  | call => (s.componentOf call.task).map fun c => s.taskCall c call.task call

def next : Action (Call × Answer) State := fun l s s' => s.call l.1 = some (s', l.2)

/-! ## What is promised -/

/-- While a call of a task is open, the entry of its component names the task. -/
def State.Current (s : State) : Prop :=
  ∀ t f c, s.frames t = some f → s.componentOf t = some c → s.currentTaskMeta c = some t

/-- The end of a call puts back the entry that its start replaced, and touches
no other. -/
def State.Restores (s : State) (t : Nat) (s' : State) : Prop :=
  ∀ f c, s.frames t = some f → s.componentOf t = some c →
    s'.currentTaskMeta c = f.before ∧
      ∀ c', c' ≠ c → s'.currentTaskMeta c' = s.currentTaskMeta c'

/-- The promise of one step, for slots and values that the component can have. -/
def Kept (l : Call × Answer) (s s' : State) : Prop :=
  match l.1 with
  | .contextGet t slot =>
    slot < State.storageLength → l.2 = .value ((s.lastSet t slot).getD 0)
  | .contextSet _ slot value =>
    slot < State.storageLength → State.validI32 value = true → l.2 = .nothing
  | .withEnd t => s.Restores t s'
  | .clearMeta t => s.Restores t s'
  | _ => True

/-- No other task of the component has an open call. -/
def State.Alone (s : State) (t : Nat) : Prop :=
  ∀ u < s.stack.count + 1, u ≠ t → s.componentOf u = s.componentOf t → s.frames u = none

instance (s : State) (t : Nat) : Decidable (s.Alone t) :=
  inferInstanceAs (Decidable (∀ u < s.stack.count + 1, _))

/-- The task has an open call. -/
def State.Open (s : State) (t : Nat) : Prop := s.frames t ≠ none

instance (s : State) (t : Nat) : Decidable (s.Open t) := inferInstanceAs (Decidable (_ ≠ _))

/-- The task can be found on the stack of its component. -/
def State.Found (s : State) (t : Nat) : Prop :=
  ∀ c ∈ s.componentOf t, s.stack.getCurrentTask c (some t) = some t

instance (s : State) (t : Nat) : Decidable (s.Found t) :=
  inferInstanceAs (Decidable (∀ c ∈ s.componentOf t, _))

/-- A step keeps the promise when calls into one component do not overlap, and
the context functions run inside a call of a task that has not left the stack. -/
def Safe (l : Call × Answer) (s : State) : Prop :=
  match l.1 with
  | .stack _ => True
  | .withMeta t => s.Alone t ∧ ∀ f ∈ s.frames t, f.entered = false
  | .setMeta t => s.Alone t
  | .withEnd t => s.Open t
  | .clearMeta t => s.Open t
  | .contextSet t _ _ => s.Open t ∧ s.Found t
  | .contextGet t _ => s.Open t ∧ s.Found t

instance (l : Call × Answer) (s : State) : Decidable (Safe l s) :=
  match l with
  | (.stack _, _) => inferInstanceAs (Decidable True)
  | (.withMeta t, _) =>
    inferInstanceAs (Decidable (s.Alone t ∧ ∀ f ∈ s.frames t, f.entered = false))
  | (.setMeta t, _) => inferInstanceAs (Decidable (s.Alone t))
  | (.withEnd t, _) => inferInstanceAs (Decidable (s.Open t))
  | (.clearMeta t, _) => inferInstanceAs (Decidable (s.Open t))
  | (.contextSet t _ _, _) => inferInstanceAs (Decidable (s.Open t ∧ s.Found t))
  | (.contextGet t _, _) => inferInstanceAs (Decidable (s.Open t ∧ s.Found t))

/-! ## The invariant -/

/-- An entry is set exactly while a call into its component is open, every open
call found an empty entry, and each task's storage holds what it stored. -/
structure Inv (s : State) : Prop where
  numbered : s.stack.Numbered
  current : s.Current
  before : ∀ t f, s.frames t = some f → f.before = none
  closed : ∀ c, (∀ t, s.frames t ≠ none → s.componentOf t ≠ some c) →
    s.currentTaskMeta c = none
  existing : ∀ t, s.frames t ≠ none → t ≤ s.stack.count
  stored : ∀ t slot, s.storage t slot = (s.lastSet t slot).getD 0
  fresh : ∀ t, s.stack.count < t → ∀ slot, s.lastSet t slot = none

namespace Inv

variable {s : State}

theorem init : Inv .init := by
  constructor
  case numbered => exact fun _ _ => rfl
  case current => exact fun t f c h => nomatch h
  case before => exact fun t f h => nomatch h
  case closed => exact fun _ _ => rfl
  case existing => exact fun t h => absurd rfl h
  case stored => exact fun _ _ => rfl
  case fresh => exact fun _ _ _ => rfl

variable {c : Int} {t : Nat}

theorem componentOf_le (h : Inv s) (hc : s.componentOf t = some c) :
    t ≤ s.stack.count := by
  by_contra hlt
  have hnone := h.numbered t (by omega)
  unfold State.componentOf CurrentTask.State.componentOf at hc
  rw [hnone] at hc
  cases hc

/-- A component has at most one open call. -/
theorem unique (h : Inv s) {t u : Nat} (ht : s.frames t ≠ none) (hu : s.frames u ≠ none)
    (hct : s.componentOf t = some c) (hcu : s.componentOf u = some c) : t = u := by
  rcases hft : s.frames t with _ | f
  · exact absurd hft ht
  · rcases hfu : s.frames u with _ | g
    · exact absurd hfu hu
    · have hentry := h.current t f c hft hct
      rw [h.current u g c hfu hcu] at hentry
      exact (Option.some.inj hentry).symm

/-- With no open call in the component the entry is empty. -/
theorem entry_none (h : Inv s) (hc : s.componentOf t = some c)
    (halone : s.Alone t) (ht : s.frames t = none) : s.currentTaskMeta c = none := by
  apply h.closed
  intro u hu hcu
  have hle := h.existing u hu
  by_cases hut : u = t
  · exact hu (hut ▸ ht)
  · exact hu (halone u (by omega) hut (hcu.trans hc.symm))

/-! ### The calls -/

/-- Opening a call in a component without one, or preparing it once more. -/
theorem opened (h : Inv s) (hc : s.componentOf t = some c)
    (halone : s.Alone t) {f : Frame} (hf : f.before = none) :
    Inv ((s.setEntry c (some t)).setFrame t (some f)) := by
  have hframes : ∀ u, ((s.setEntry c (some t)).setFrame t (some f)).frames u =
      if u = t then some f else s.frames u := fun u => update_apply ..
  have hmeta : ∀ c', ((s.setEntry c (some t)).setFrame t (some f)).currentTaskMeta c' =
      if c' = c then some t else s.currentTaskMeta c' := fun c' => update_apply ..
  constructor
  case numbered => exact h.numbered
  -- no other task of the component has a frame
  case current =>
    intro u g c' hu hcu
    replace hcu : s.componentOf u = some c' := hcu
    rw [hframes] at hu
    rw [hmeta]
    by_cases hut : u = t
    · rw [hut, hc] at hcu
      cases hcu
      rw [if_pos rfl, hut]
    · rw [if_neg hut] at hu
      have hsome : s.frames u ≠ none := by rw [hu]; exact some_ne_none g
      have hle := h.existing u hsome
      rw [if_neg, h.current u g c' hu hcu]
      rintro rfl
      exact hsome (halone u (by omega) hut (hcu.trans hc.symm))
  case before =>
    intro u g hu
    rw [hframes] at hu
    split at hu
    · cases hu
      exact hf
    · exact h.before u g hu
  case closed =>
    intro c' hclosed
    have hother : c' ≠ c := by
      rintro rfl
      exact hclosed t (by rw [hframes, if_pos rfl]; exact some_ne_none f) hc
    rw [hmeta, if_neg hother]
    apply h.closed
    intro u hu hcu
    by_cases hut : u = t
    · rw [hut, hc] at hcu
      cases hcu
      exact hother rfl
    · exact hclosed u (by rw [hframes, if_neg hut]; exact hu) hcu
  case existing =>
    intro u hu
    by_cases hut : u = t
    · rw [hut]
      exact h.componentOf_le hc
    · rw [hframes, if_neg hut] at hu
      exact h.existing u hu
  case stored => exact h.stored
  case fresh => exact h.fresh

/-- Ending the open call of a component. -/
theorem ended (h : Inv s) (hc : s.componentOf t = some c)
    (hopen : s.Open t) : Inv ((s.setEntry c none).setFrame t none) := by
  have hframes : ∀ u, ((s.setEntry c none).setFrame t none).frames u =
      if u = t then none else s.frames u := fun u => update_apply ..
  have hmeta : ∀ c', ((s.setEntry c none).setFrame t none).currentTaskMeta c' =
      if c' = c then none else s.currentTaskMeta c' := fun c' => update_apply ..
  have hframe : ∀ u, u ≠ t → ((s.setEntry c none).setFrame t none).frames u = s.frames u := by
    intro u hut
    rw [hframes, if_neg hut]
  constructor
  case numbered => exact h.numbered
  case current =>
    intro u g c' hu hcu
    replace hcu : s.componentOf u = some c' := hcu
    have hut : u ≠ t := by
      rintro rfl
      rw [hframes, if_pos rfl] at hu
      cases hu
    rw [hframe u hut] at hu
    have hsome : s.frames u ≠ none := by rw [hu]; exact some_ne_none g
    rw [hmeta, if_neg, h.current u g c' hu hcu]
    rintro rfl
    exact hut (h.unique hsome hopen hcu hc)
  case before =>
    intro u g hu
    rw [hframes] at hu
    split at hu
    · cases hu
    · exact h.before u g hu
  case closed =>
    intro c' hclosed
    rw [hmeta]
    split
    case isTrue => rfl
    case isFalse hother =>
      apply h.closed
      intro u hu hcu
      by_cases hut : u = t
      · rw [hut, hc] at hcu
        cases hcu
        exact hother rfl
      · exact hclosed u (by rw [hframe u hut]; exact hu) hcu
  case existing =>
    intro u hu
    rw [hframes] at hu
    split at hu
    · exact absurd rfl hu
    · exact h.existing u hu
  case stored => exact h.stored
  case fresh => exact h.fresh

/-- Tasks come and go without a trace in entries, calls and storages. -/
theorem stackCall (h : Inv s) {call : CurrentTask.Call} {stack : CurrentTask.State}
    (hcall : s.stack.call call = some stack) : Inv (s.stackCall call stack) := by
  rcases CurrentTask.State.componentOf_next h.numbered hcall with ⟨hnumbered, hcount, hcomp⟩
  have hstack : (s.stackCall call stack).stack = stack := by
    unfold State.stackCall
    split <;> rfl
  have hmeta : (s.stackCall call stack).currentTaskMeta = s.currentTaskMeta := by
    unfold State.stackCall
    split <;> rfl
  have hframes : (s.stackCall call stack).frames = s.frames := by
    unfold State.stackCall
    split <;> rfl
  have hlast : (s.stackCall call stack).lastSet = s.lastSet := by
    unfold State.stackCall
    split <;> rfl
  have hcomponent : ∀ u, s.frames u ≠ none →
      (s.stackCall call stack).componentOf u = s.componentOf u := by
    intro u hu
    unfold State.componentOf
    rw [hstack]
    exact hcomp u (h.existing u hu)
  constructor
  case numbered =>
    rw [hstack]
    exact hnumbered
  case current =>
    intro u g c hu hcu
    rw [hframes] at hu
    rw [hcomponent u (by rw [hu]; exact some_ne_none g)] at hcu
    rw [hmeta]
    exact h.current u g c hu hcu
  case before =>
    rw [hframes]
    exact h.before
  case closed =>
    intro c hclosed
    rw [hmeta]
    apply h.closed
    intro u hu hcu
    rw [hframes] at hclosed
    exact hclosed u hu ((hcomponent u hu).trans hcu)
  case existing =>
    intro u hu
    rw [hframes] at hu
    rw [hstack]
    exact Nat.le_trans (h.existing u hu) hcount
  case stored =>
    intro u slot
    rw [hlast, ← h.stored]
    cases call with
    | create c isAsync hasCallback =>
      cases hcall
      show update s.storage (s.stack.count + 1) (fun _ => 0) u slot = s.storage u slot
      rw [update_apply]
      split
      case isTrue hnew =>
        -- the new task has stored nothing yet
        rw [h.stored, h.fresh u (by omega)]
        rfl
      case isFalse => rfl
    | resolve t => rfl
    | lock c => rfl
    | exit t skip handler => rfl
    | clear c taskID => rfl
  case fresh =>
    intro u hu slot
    rw [hstack] at hu
    rw [hlast]
    exact h.fresh u (Nat.lt_of_le_of_lt hcount hu) slot

/-- Inside an open call the context functions work on the task itself. -/
theorem contextTask (h : Inv s) (hc : s.componentOf t = some c)
    (hopen : s.Open t) (hfound : s.Found t) : s.contextTask c = .ok t := by
  rcases hf : s.frames t with _ | f
  · exact absurd hf hopen
  · unfold State.contextTask
    rw [h.current t f c hf hc]
    dsimp only
    rw [hfound c hc]

/-- Storing a value, in the storage and in the history. -/
theorem store (h : Inv s) (hc : s.componentOf t = some c) (slot : Nat)
    (value : Int) : Inv ((s.store t slot value).recordSet t slot value) := by
  have hstorage : ∀ u i, ((s.store t slot value).recordSet t slot value).storage u i =
      if u = t then (if i = slot then value else s.storage t i) else s.storage u i := by
    intro u i
    show update s.storage t (update (s.storage t) slot value) u i = _
    rw [update_apply]
    split
    · rw [update_apply]
    · rfl
  have hlast : ∀ u i, ((s.store t slot value).recordSet t slot value).lastSet u i =
      if u = t then (if i = slot then some value else s.lastSet t i) else s.lastSet u i := by
    intro u i
    show update s.lastSet t (update (s.lastSet t) slot (some value)) u i = _
    rw [update_apply]
    split
    · rw [update_apply]
    · rfl
  constructor
  case numbered => exact h.numbered
  case current => exact h.current
  case before => exact h.before
  case closed => exact h.closed
  case existing => exact h.existing
  case stored =>
    intro u i
    rw [hstorage, hlast]
    split
    · split
      · rfl
      · exact h.stored t i
    · exact h.stored u i
  case fresh =>
    intro u hu i
    have hle := h.componentOf_le hc
    have hlt : s.stack.count < u := hu
    rw [hlast, if_neg (by omega)]
    exact h.fresh u hlt i

/-- The entry that a call finds when it starts, or found when it was prepared. -/
theorem before_none (h : Inv s) (hc : s.componentOf t = some c)
    (halone : s.Alone t) :
    ((s.frames t).map (·.before)).getD (s.currentTaskMeta c) = none := by
  rcases hf : s.frames t with _ | f
  · exact h.entry_none hc halone hf
  · exact h.before t f hf

/-- `Restores` of a call whose end empties the entry. -/
theorem restores (h : Inv s) (hc : s.componentOf t = some c) :
    s.Restores t ((s.setEntry c none).setFrame t none) := by
  intro f c' hf hc'
  rw [hc] at hc'
  cases hc'
  rw [h.before t f hf]
  refine ⟨update_self .., ?_⟩
  intro c' hne
  exact update_of_ne hne ..

/-- An event of a task. -/
theorem taskCall (h : Inv s) {call : Call} (hc : s.componentOf call.task = some c)
    (hsafe : Safe (call, (s.taskCall c call.task call).2) s) :
    Inv (s.taskCall c call.task call).1 ∧
      Kept (call, (s.taskCall c call.task call).2) s (s.taskCall c call.task call).1 := by
  cases call with
  | stack call => exact ⟨h, trivial⟩
  | withMeta t => exact ⟨h.opened hc hsafe.1 (h.before_none hc hsafe.1), trivial⟩
  | setMeta t =>
    refine ⟨h.opened hc hsafe ?_, trivial⟩
    show ((s.frames t).getD _).before = none
    rcases hf : s.frames t with _ | f
    · exact h.entry_none hc hsafe hf
    · exact h.before t f hf
  | withEnd t => exact ⟨h.ended hc hsafe, h.restores hc⟩
  -- what was there before the call comes back
  | clearMeta t =>
    have hclear : s.clearMeta c t = .ok ((s.setEntry c none).setFrame t none) := by
      rcases hf : s.frames t with _ | f
      · exact absurd hf hsafe
      · unfold State.clearMeta
        rw [h.current t f c hf hc]
        simp
    have hcall : (s.taskCall c t (.clearMeta t)).1 =
        (s.setEntry c none).setFrame t none := by
      simp only [State.taskCall, hclear]
    show Inv (s.taskCall c t (.clearMeta t)).1 ∧ s.Restores t (s.taskCall c t (.clearMeta t)).1
    rw [hcall]
    exact ⟨h.ended hc hsafe, h.restores hc⟩
  | contextSet t slot value =>
    -- the three checks in the order of the code: value, task and slot
    have htask : s.contextTask c = .ok t := h.contextTask hc hsafe.1 hsafe.2
    by_cases hvalid : State.validI32 value = true
    · by_cases hslot : slot < State.storageLength
      · have hset : s.contextSet c slot value = .ok (s.store t slot value) := by
          simp [State.contextSet, hvalid, htask, Nat.not_le_of_lt hslot]
        have hcall : s.taskCall c t (.contextSet t slot value) =
            ((s.store t slot value).recordSet t slot value, .nothing) := by
          simp only [State.taskCall, hset]
        show Inv (s.taskCall c t (.contextSet t slot value)).1 ∧ Kept (.contextSet t slot value,
          (s.taskCall c t (.contextSet t slot value)).2) s _
        rw [hcall]
        exact ⟨h.store hc slot value, fun _ _ => rfl⟩
      · have hset : s.contextSet c slot value = .error (.error "invalid slot for current task") := by
          simp [State.contextSet, hvalid, htask, Nat.le_of_not_lt hslot]
        have hcall : (s.taskCall c t (.contextSet t slot value)).1 = s := by
          simp only [State.taskCall, hset]
        show Inv (s.taskCall c t (.contextSet t slot value)).1 ∧ _
        rw [hcall]
        exact ⟨h, fun hlt => absurd hlt hslot⟩
    · have hset : s.contextSet c slot value =
          .error (.error "invalid value for context set (not valid i32)") := by
        simp [State.contextSet, hvalid]
      have hcall : (s.taskCall c t (.contextSet t slot value)).1 = s := by
        simp only [State.taskCall, hset]
      show Inv (s.taskCall c t (.contextSet t slot value)).1 ∧ _
      rw [hcall]
      exact ⟨h, fun _ hi32 => absurd hi32 hvalid⟩
  | contextGet t slot =>
    have htask : s.contextTask c = .ok t := h.contextTask hc hsafe.1 hsafe.2
    by_cases hslot : slot < State.storageLength
    · have hget : s.contextGet c slot = .ok (s.storage t slot) := by
        simp [State.contextGet, htask, Nat.not_le_of_lt hslot]
      have hcall : s.taskCall c t (.contextGet t slot) = (s, .value (s.storage t slot)) := by
        simp only [State.taskCall, hget]
      show Inv (s.taskCall c t (.contextGet t slot)).1 ∧ Kept (.contextGet t slot,
        (s.taskCall c t (.contextGet t slot)).2) s _
      rw [hcall]
      exact ⟨h, fun _ => congrArg Answer.value (h.stored t slot)⟩
    · have hget : s.contextGet c slot = .error (.error "invalid slot for current task") := by
        simp [State.contextGet, htask, Nat.le_of_not_lt hslot]
      have hcall : (s.taskCall c t (.contextGet t slot)).1 = s := by
        simp only [State.taskCall, hget]
      show Inv (s.taskCall c t (.contextGet t slot)).1 ∧ _
      rw [hcall]
      exact ⟨h, fun hlt => absurd hlt hslot⟩

/-- The step lemma. -/
theorem next (h : Inv s) {l : Call × Answer} {s' : State} (hsafe : Safe l s)
    (hnext : next l s s') : Inv s' ∧ Kept l s s' := by
  rcases l with ⟨call, ans⟩
  have htask : ∀ c, s.componentOf call.task = some c →
      s.taskCall c call.task call = (s', ans) → Inv s' ∧ Kept (call, ans) s s' := by
    intro c hc hcall
    have hs' : (s.taskCall c call.task call).1 = s' := congrArg Prod.fst hcall
    have hans : (s.taskCall c call.task call).2 = ans := congrArg Prod.snd hcall
    subst hs' hans
    exact h.taskCall hc hsafe
  cases call with
  | stack call =>
    rcases map_eq_some_iff.1 hnext with ⟨stack, hstack, heq⟩
    cases heq
    exact ⟨h.stackCall hstack, trivial⟩
  | withMeta t =>
    rcases map_eq_some_iff.1 hnext with ⟨c, hc, hcall⟩
    exact htask c hc hcall
  | withEnd t =>
    rcases map_eq_some_iff.1 hnext with ⟨c, hc, hcall⟩
    exact htask c hc hcall
  | setMeta t =>
    rcases map_eq_some_iff.1 hnext with ⟨c, hc, hcall⟩
    exact htask c hc hcall
  | clearMeta t =>
    rcases map_eq_some_iff.1 hnext with ⟨c, hc, hcall⟩
    exact htask c hc hcall
  | contextSet t slot value =>
    rcases map_eq_some_iff.1 hnext with ⟨c, hc, hcall⟩
    exact htask c hc hcall
  | contextGet t slot =>
    rcases map_eq_some_iff.1 hnext with ⟨c, hc, hcall⟩
    exact htask c hc hcall

end Inv

/-! ## Isolation -/

/-- In every run in which calls into one component do not overlap, `context.get`
answers what the same task stored last, the end of a call puts back the entry
that its start replaced, and the entry of each open call names its task. -/
theorem context_isolation {tr : List (Call × Answer)} {s : State}
    (hrun : Run (guarded Safe next) .init tr s) :
    s.Current ∧ ∀ l s', guarded Safe next l s s' → Kept l s s' := by
  have hstep : ∀ (l : Call × Answer) (t t' : State), guarded Safe next l t t' → Inv t → Inv t' := by
    rintro l t t' ⟨hsafe, hnext⟩ hinv
    exact (hinv.next hsafe hnext).1
  have hinv : Inv s := Run.invariant hstep hrun Inv.init
  refine ⟨hinv.current, ?_⟩
  rintro l s' ⟨hsafe, hnext⟩
  exact (hinv.next hsafe hnext).2

/-- A task of one component stores a value and calls into another component,
whose task stores its own. -/
def nestedCall : List (Call × Answer) :=
  [(.stack (.create 0 true false), .nothing), (.withMeta 1, .nothing),
    (.contextSet 1 0 5, .nothing), (.stack (.create 1 false false), .nothing),
    (.setMeta 2, .nothing), (.contextSet 2 0 6, .nothing), (.clearMeta 2, .nothing),
    (.contextGet 1 0, .value 5)]

theorem context_isolation_nestedCall :
    ∃ s : State, (s.Current ∧ ∀ l s', guarded Safe next l s s' → Kept l s s') ∧
      s.storage 2 0 = 6 :=
  ⟨_, context_isolation (show Run _ _ nestedCall _ from
    .cons ⟨by decide, rfl⟩ <| .cons ⟨by decide, rfl⟩ <| .cons ⟨by decide, rfl⟩ <|
      .cons ⟨by decide, rfl⟩ <| .cons ⟨by decide, rfl⟩ <| .cons ⟨by decide, rfl⟩ <|
      .cons ⟨by decide, rfl⟩ <| .cons ⟨by decide, rfl⟩ <| .nil _), rfl⟩

/-- A second task of the component runs while the first is suspended; the first
finds no entry when it goes on. -/
theorem overlapping_call_clears_entry :
    ¬ ∀ (tr : List (Call × Answer)) (s : State), Run next .init tr s →
      ∀ l s', next l s s' → Kept l s s' := by
  intro hall
  have hrun : Run next .init [(.stack (.create 0 true false), .nothing), (.withMeta 1, .nothing),
      (.stack (.create 0 true false), .nothing), (.withMeta 2, .nothing),
      (.withEnd 2, .nothing)] _ :=
    .cons rfl <| .cons rfl <| .cons rfl <| .cons rfl <| .cons rfl <| .nil _
  have hkept := hall _ _ hrun (.contextGet 1 0, .threw (.error
    s!"missing/incomplete global current task meta for component idx [{(0 : Int)}] during context set"))
    _ rfl
  cases hkept (by decide)

end Jco.Component.TaskContext

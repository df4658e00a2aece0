import Jco.Js.Basic
import Jco.Lib.Count
import Jco.Lib.Run

/-! # Backpressure and the wait in `enter`

A guest turns its backpressure up and down, and a task that comes by `AsyncTask.enter`
waits for it, and for the exclusive lock. `waitForBackpressure` is another such wait,
with a handler and a timer. A step is what runs between two `await`s.

Nothing calls the handlers of `'backpressure-change'`, and `exclusiveLock` never throws,
so that the second wait of `enter`, in its `catch`, is left out. A task comes to `enter`
here when it has its slot of `nextTaskExecutionSlot`.
-/

namespace Jco.Component.Entry

open Jco.Js Jco.Lib List

/-! ## Tasks -/

/-- What `#isAsync`, `#isManualAsync` and `#callbackFn` say. -/
structure Kind where
  isAsync : Bool
  isManualAsync : Bool
  hasCallback : Bool
deriving DecidableEq, Repr

def Kind.needsExclusiveLock (k : Kind) : Bool := !k.isAsync || k.hasCallback

/-- `AsyncTask.State`, as far as a task has it before it runs. -/
inductive TaskState where
  | initial
  | cancelDelivered
  | resolved
deriving DecidableEq, Repr

def TaskState.text : TaskState → String
  | .initial => "initial"
  | .cancelDelivered => "cancel-delivered"
  | .resolved => "resolved"

/-- Where a call of `enter` is. The callers run the export when it returns true, and
throw when it returns false. -/
inductive Phase where
  | created
  | blocked
  | woken (keepGoing : Bool)
  | returned (started : Bool)
  | threw (err : JsError)
deriving DecidableEq, Repr

/-- History: how often the wait of the task has ended. -/
structure Task where
  id : Nat
  kind : Kind
  phase : Phase
  entered : Bool
  state : TaskState
  rejected : Bool
  cancelled : Bool
  wakes : Nat
deriving DecidableEq, Repr

/-- The task has counted itself as a waiter, and not yet off. -/
def Task.waits (x : Task) : Bool :=
  match x.phase with
  | .blocked => true
  | .woken _ => true
  | _ => false

namespace Task

/-- `cancel`. The handlers of `onResolve` may throw. -/
def cancel (x : Task) (componentIdx : Int) (handlers : Except JsError Unit) :
    Except JsError Unit × Task :=
  if x.state ≠ .cancelDelivered then
    (.error (.error s!"(component [{componentIdx}]) task [{x.id}] invalid task state [{x.state.text}] for cancellation"), x)
  else
    let x := { x with cancelled := true }
    match handlers with
    | .error err => (.error err, x)
    | .ok () => (.ok (), { x with state := .resolved })

/-- `reject`. The state `PENDING_CANCEL` does not exist, so that `deliverPendingCancel`
finds `undefined` on both sides and delivers. -/
def reject (x : Task) (componentIdx : Int) (handlers : Except JsError Unit) :
    Except JsError Unit × Task :=
  if x.state = .resolved ∨ x.rejected then (.ok (), x)
  else { x with rejected := true, state := .cancelDelivered }.cancel componentIdx handlers

end Task

/-! ## The state of a component -/

/-- A call of `waitForBackpressure`: whether its handler has been called, and whether
its timer goes on. History: how often its promise was resolved. -/
structure Waiter where
  handlerID : Nat
  backpressureCleared : Bool
  interval : Bool
  wakes : Nat
deriving DecidableEq, Repr

/-- `handlers` are the ids in `#handlerMap`. -/
structure State where
  componentIdx : Int
  backpressure : Int
  backpressureWaiters : Int
  locked : Bool
  handlers : List Nat
  nextHandlerID : Nat
  waiters : List Waiter
  tasks : List Task

namespace State

def init (componentIdx : Int) : State where
  componentIdx := componentIdx
  backpressure := 0
  backpressureWaiters := 0
  locked := false
  handlers := []
  nextHandlerID := 0
  waiters := []
  tasks := []

/-- Those that wait for the component. -/
def waiting (s : State) : Nat := s.tasks.countP Task.waits + s.waiters.countP Waiter.interval

def setTask (s : State) (t : Nat) (x : Task) : State := { s with tasks := s.tasks.set t x }

/-! ### Backpressure -/

/-- `setBackpressure` -/
def setBackpressure (s : State) (v : Int) : State := { s with backpressure := v }

/-- `hasBackpressure` -/
def hasBackpressure (s : State) : Bool := 0 < s.backpressure

/-- `incrementBackpressure` -/
def incrementBackpressure (s : State) : Except JsError State :=
  if s.backpressure < 0 ∨ 2 ^ 16 < s.backpressure then
    .error (.error s!"invalid current backpressure value [{s.backpressure}]")
  else
    let newValue := s.backpressure + 1
    if 2 ^ 16 ≤ newValue then
      .error (.error s!"invalid new backpressure value [{newValue}], overflow")
    else .ok (s.setBackpressure newValue)

/-- `decrementBackpressure` -/
def decrementBackpressure (s : State) : Except JsError State :=
  if s.backpressure < 0 ∨ 2 ^ 16 < s.backpressure then
    .error (.error s!"invalid current backpressure value [{s.backpressure}]")
  else
    let newValue := max 0 (s.backpressure - 1)
    if newValue < 0 then
      .error (.error s!"invalid new backpressure value [{newValue}], underflow")
    else .ok (s.setBackpressure newValue)

/-- `addBackpressureWaiter` -/
def addBackpressureWaiter (s : State) : State :=
  { s with backpressureWaiters := s.backpressureWaiters + 1 }

/-- `removeBackpressureWaiter` -/
def removeBackpressureWaiter (s : State) : Except JsError Unit × State :=
  let s := { s with backpressureWaiters := s.backpressureWaiters - 1 }
  if s.backpressureWaiters < 0 then
    (.error (.error "unexepctedly negative number of backpressure waiters"), s)
  else (.ok (), s)

/-- `registerHandler`, for `'backpressure-change'` -/
def registerHandler (s : State) : State :=
  { s with handlers := s.handlers ++ [s.nextHandlerID], nextHandlerID := s.nextHandlerID + 1 }

/-- `waitForBackpressure` -/
def waitForBackpressure (s : State) : State :=
  let handlerID := s.nextHandlerID
  let s := s.addBackpressureWaiter.registerHandler
  { s with waiters := s.waiters ++ [⟨handlerID, false, true, 0⟩] }

/-- The callback of `setInterval` in `waitForBackpressure`. -/
def interval (s : State) (w : Nat) (x : Waiter) : Except JsError Unit × State :=
  if x.backpressureCleared then (.ok (), s)
  else
    let s := { s with waiters := s.waiters.set w { x with interval := false } }
    match s.removeBackpressureWaiter with
    | (.error err, s) => (.error err, s)
    | (.ok (), s) =>
      (.ok (), { s with waiters := s.waiters.set w { x with interval := false, wakes := x.wakes + 1 } })

/-! ### Entering -/

/-- `readyFn` of the wait in `enter`. -/
def ready (s : State) (k : Kind) : Bool :=
  !(s.hasBackpressure || k.needsExclusiveLock && s.locked)

/-- The end of `enter`. -/
def admitted (s : State) (t : Nat) (x : Task) : State :=
  let s := if x.kind.needsExclusiveLock then { s with locked := true } else s
  s.setTask t { x with entered := true, phase := .returned true }

/-- `enter`, up to its wait or to its end. -/
def enter (s : State) (t : Nat) (x : Task) (isHost : Bool) : State :=
  if isHost then s.setTask t { x with entered := true, phase := .returned true }
  else if !x.kind.isAsync then
    let s :=
      if x.kind.isManualAsync && x.kind.needsExclusiveLock then { s with locked := true } else s
    s.setTask t { x with entered := true, phase := .returned true }
  else if !s.ready x.kind then s.addBackpressureWaiter.setTask t { x with phase := .blocked }
  else s.admitted t x

/-- A tick of the component comes to the task: `resume` resolves the promise of its
wait with `!task.isCancelled()`. -/
def tick (s : State) (t : Nat) (x : Task) : State :=
  if x.rejected || s.ready x.kind then
    s.setTask t { x with phase := .woken !x.cancelled, wakes := x.wakes + 1 }
  else s

end State

/-- What `enter` compares. -/
inductive JsValue where
  | bool (b : Bool)
  | str (s : String)
deriving DecidableEq, Repr

/-- `BlockResult.CANCELLED` -/
def blockResultCancelled : JsValue := .str "block.cancelled"

/-- `enter` after its wait, which has answered `keepGoing`. -/
def State.goOn (s : State) (t : Nat) (x : Task) (keepGoing : Bool)
    (handlers : Except JsError Unit) : State :=
  match s.removeBackpressureWaiter with
  | (.error err, s) => s.setTask t { x with phase := .threw err }
  | (.ok (), s) =>
    if JsValue.bool keepGoing = blockResultCancelled then
      match x.cancel s.componentIdx handlers with
      | (.error err, x) => s.setTask t { x with phase := .threw err }
      | (.ok (), x) => s.setTask t { x with phase := .returned false }
    else s.admitted t x

/-! ## Steps -/

/-- A call of the guest or of the host, or what a timer or a promise does next. The
lock is also taken and given back by tasks that are not in `enter`. -/
inductive Call where
  | backpressureInc
  | backpressureDec
  | waitForBackpressure
  | interval (w : Nat)
  | setLocked (locked : Bool)
  | create (id : Nat) (kind : Kind)
  | enter (t : Nat) (isHost : Bool)
  | reject (t : Nat) (handlers : Except JsError Unit)
  | tick (t : Nat)
  | goOn (t : Nat) (handlers : Except JsError Unit)

def State.call (s : State) : Call → Option (Except JsError Unit × State)
  | .backpressureInc =>
    match s.incrementBackpressure with
    | .error err => some (.error err, s)
    | .ok s' => some (.ok (), s')
  | .backpressureDec =>
    match s.decrementBackpressure with
    | .error err => some (.error err, s)
    | .ok s' => some (.ok (), s')
  | .waitForBackpressure => some (.ok (), s.waitForBackpressure)
  | .interval w =>
    match s.waiters[w]? with
    | some x => if x.interval then some (s.interval w x) else none
    | none => none
  | .setLocked locked => some (.ok (), { s with locked })
  | .create id kind =>
    some (.ok (), { s with tasks := s.tasks ++ [⟨id, kind, .created, false, .initial, false, false, 0⟩] })
  | .enter t isHost =>
    match s.tasks[t]? with
    | some x =>
      if x.entered then
        some (.error (.error s!"task with ID [{x.id}] should not be entered twice"), s)
      else if x.phase = .created then some (.ok (), s.enter t x isHost)
      else none
    | none => none
  | .reject t handlers =>
    match s.tasks[t]? with
    | some x =>
      let (answer, x) := x.reject s.componentIdx handlers
      some (answer, s.setTask t x)
    | none => none
  | .tick t =>
    match s.tasks[t]? with
    | some x => if x.phase = .blocked then some (.ok (), s.tick t x) else none
    | none => none
  | .goOn t handlers =>
    match s.tasks[t]? with
    | some x =>
      match x.phase with
      | .woken keepGoing => some (.ok (), s.goOn t x keepGoing handlers)
      | _ => none
    | none => none

def next : Action (Call × Except JsError Unit) State := fun l s s' =>
  s.call l.1 = some (l.2, s')

/-! ## What is expected of a wait in `enter` -/

/-- A task that was cancelled does not start, another one starts only when it may, and
the counter counts those that still wait. -/
structure EntersRight (s s' : State) (t : Nat) : Prop where
  refused : ∀ x x', s.tasks[t]? = some x → s'.tasks[t]? = some x' →
    x.cancelled = true ∨ x.rejected = true →
      x'.phase = .returned false ∧ x'.entered = x.entered ∧ s'.locked = s.locked
  admitted : ∀ x x', s.tasks[t]? = some x → s'.tasks[t]? = some x' →
    ¬ (x.cancelled = true ∨ x.rejected = true) → x'.phase = .returned true →
      s.backpressure = 0 ∧ (x.kind.needsExclusiveLock = true → s.locked = false)
  counted : s'.backpressureWaiters = s'.waiting

/-- Nobody has cancelled the task, and what it has waited for still holds. -/
def MayGoOn (s : State) (t : Nat) : Prop :=
  ∀ x, s.tasks[t]? = some x → x.cancelled = false ∧ x.rejected = false ∧
    s.backpressure = 0 ∧ (x.kind.needsExclusiveLock = true → s.locked = false)

/-! ## The invariant -/

/-- The wait of the task has not ended, or once. -/
def Task.WokenOnce (x : Task) : Prop :=
  x.wakes ≤ 1 ∧ (x.phase = .created ∨ x.phase = .blocked → x.wakes = 0) ∧
    (x.rejected = true → x.cancelled = true)

/-- The handler was not called, and the timer has ended when the promise was resolved. -/
def Waiter.WokenOnce (x : Waiter) : Prop :=
  x.backpressureCleared = false ∧ x.wakes = if x.interval then 0 else 1

structure Inv (s : State) : Prop where
  range : 0 ≤ s.backpressure ∧ s.backpressure < 2 ^ 16
  counted : s.backpressureWaiters = s.waiting
  tasks : ∀ x ∈ s.tasks, x.WokenOnce
  waiters : ∀ x ∈ s.waiters, x.WokenOnce

theorem Inv.init (componentIdx : Int) : Inv (.init componentIdx) where
  range := by
    show (0 : Int) ≤ 0 ∧ (0 : Int) < 2 ^ 16
    decide
  counted := rfl
  tasks x h := absurd h not_mem_nil
  waiters x h := absurd h not_mem_nil

section

variable {s : State} {t : Nat} {x y : Task}

/-- A task gets a new state, and counts as a waiter or not. The lock may change. -/
theorem Inv.setTask {s' : State} (h : Inv s) (hx : s.tasks[t]? = some x) (hy : y.WokenOnce)
    (htasks : s'.tasks = s.tasks.set t y) (hwaiters : s'.waiters = s.waiters)
    (hback : s'.backpressure = s.backpressure)
    (hnumber : s'.backpressureWaiters + (if x.waits then 1 else 0) =
      s.backpressureWaiters + (if y.waits then 1 else 0)) : Inv s' := by
  constructor
  case range =>
    rw [hback]
    exact h.range
  case counted =>
    have hcount := countP_set (p := Task.waits) (y := y) hx
    have hsum := h.counted
    unfold State.waiting at hsum ⊢
    rw [htasks, hwaiters]
    rcases Bool.eq_false_or_eq_true x.waits with hxw | hxw <;>
      rcases Bool.eq_false_or_eq_true y.waits with hyw | hyw <;>
        simp only [hxw, hyw, if_true, if_false, Bool.false_eq_true] at hcount hnumber <;> omega
  case tasks =>
    intro z hz
    rw [htasks] at hz
    rcases mem_or_eq_of_mem_set hz with hz | rfl
    · exact h.tasks z hz
    · exact hy
  case waiters =>
    rw [hwaiters]
    exact h.waiters

/-- A task that waits is counted. -/
theorem Inv.waiters_pos (h : Inv s) (hx : s.tasks[t]? = some x) (hwaits : x.waits = true) :
    0 < s.backpressureWaiters := by
  have hpos : 0 < s.tasks.countP Task.waits :=
    countP_pos_iff.2 ⟨x, mem_of_getElem? hx, hwaits⟩
  rw [h.counted]
  unfold State.waiting
  omega

theorem removeBackpressureWaiter_ok (h : 0 < s.backpressureWaiters) :
    s.removeBackpressureWaiter =
      (.ok (), { s with backpressureWaiters := s.backpressureWaiters - 1 }) := by
  unfold State.removeBackpressureWaiter
  dsimp only
  rw [if_neg (by omega)]

/-- The answer of the wait is a boolean, which is never `BlockResult.CANCELLED`. -/
theorem goOn_eq (keepGoing : Bool) (handlers : Except JsError Unit)
    (h : 0 < s.backpressureWaiters) :
    s.goOn t x keepGoing handlers =
      { s with backpressureWaiters := s.backpressureWaiters - 1 }.admitted t x := by
  unfold State.goOn
  rw [removeBackpressureWaiter_ok h]
  dsimp only
  rw [if_neg (by unfold blockResultCancelled; exact JsValue.noConfusion)]

/-! ## What a step keeps -/

theorem tasks_admitted (s : State) (t : Nat) (x : Task) :
    (s.admitted t x).tasks = s.tasks.set t { x with entered := true, phase := .returned true } := by
  unfold State.admitted State.setTask
  split <;> rfl

theorem locked_admitted (s : State) (t : Nat) (x : Task) :
    (s.admitted t x).locked = (x.kind.needsExclusiveLock || s.locked) := by
  unfold State.admitted State.setTask
  split
  case isTrue hneeds => rw [hneeds, Bool.true_or]
  case isFalse hneeds => rw [Bool.eq_false_iff.2 hneeds, Bool.false_or]

/-- Nothing else changes. -/
theorem admit_frame (s : State) (t : Nat) (x : Task) :
    (s.admitted t x).backpressure = s.backpressure ∧ (s.admitted t x).waiters = s.waiters ∧
      (s.admitted t x).backpressureWaiters = s.backpressureWaiters := by
  unfold State.admitted State.setTask
  split <;> exact ⟨rfl, rfl, rfl⟩

/-- A task that has come to its end was woken once, or did not wait. -/
theorem Task.WokenOnce.returned (h : x.WokenOnce) (started : Bool) :
    Task.WokenOnce { x with entered := true, phase := .returned started } := by
  refine ⟨h.1, ?_, h.2.2⟩
  rintro (hphase | hphase) <;> cases hphase

theorem Inv.admitted {n : Int} (h : Inv s) (hx : s.tasks[t]? = some x)
    (hn : n + (if x.waits then 1 else 0) = s.backpressureWaiters) :
    Inv ({ s with backpressureWaiters := n }.admitted t x) := by
  obtain ⟨hback, hwaiters, hnumber⟩ := admit_frame { s with backpressureWaiters := n } t x
  have honce := (h.tasks x (mem_of_getElem? hx)).returned true
  refine h.setTask hx honce (tasks_admitted _ t x) hwaiters hback ?_
  rw [hnumber]
  show n + (if x.waits then 1 else 0) = s.backpressureWaiters + 0
  omega

theorem not_waits (hcreated : x.phase = .created) : x.waits = false := by
  unfold Task.waits
  rw [hcreated]

theorem Inv.enter (h : Inv s) (hx : s.tasks[t]? = some x) (hcreated : x.phase = .created)
    (isHost : Bool) : Inv (s.enter t x isHost) := by
  have honce := h.tasks x (mem_of_getElem? hx)
  have hnot := not_waits hcreated
  unfold State.enter
  split
  -- the host enters at once, as a synchronous task does
  case isTrue =>
    refine h.setTask hx (honce.returned true) rfl rfl rfl ?_
    rw [hnot]
    rfl
  split
  case isTrue =>
    refine h.setTask hx (honce.returned true) (t := t) ?_ ?_ ?_ ?_
    all_goals split
    all_goals first | rfl | (rw [hnot]; rfl)
  split
  case isTrue =>
    have hblocked : Task.WokenOnce { x with phase := .blocked } :=
      ⟨honce.1, fun _ => honce.2.1 (.inl hcreated), honce.2.2⟩
    refine h.setTask hx hblocked rfl rfl rfl ?_
    rw [hnot]
    show s.backpressureWaiters + 1 + 0 = s.backpressureWaiters + 1
    omega
  case isFalse =>
    refine h.admitted (n := s.backpressureWaiters) hx ?_
    rw [hnot]
    exact Int.add_zero _

theorem Inv.tick (h : Inv s) (hx : s.tasks[t]? = some x) (hblocked : x.phase = .blocked) :
    Inv (s.tick t x) := by
  have honce := h.tasks x (mem_of_getElem? hx)
  have hzero := honce.2.1 (.inr hblocked)
  unfold State.tick
  split
  case isTrue =>
    have hwoken : Task.WokenOnce { x with phase := .woken !x.cancelled, wakes := x.wakes + 1 } := by
      refine ⟨by show x.wakes + 1 ≤ 1; omega, ?_, honce.2.2⟩
      rintro (hphase | hphase) <;> cases hphase
    refine h.setTask hx hwoken rfl rfl rfl ?_
    have hwaits : x.waits = true := by
      unfold Task.waits
      rw [hblocked]
    rw [hwaits]
    rfl
  case isFalse => exact h

/-- A cancellation leaves the call of `enter` where it is. -/
theorem cancel_frame (x : Task) (componentIdx : Int) (handlers : Except JsError Unit) :
    (x.cancel componentIdx handlers).2.phase = x.phase ∧
      (x.cancel componentIdx handlers).2.wakes = x.wakes ∧
      (x.cancel componentIdx handlers).2.rejected = x.rejected := by
  unfold Task.cancel
  split
  case isTrue => exact ⟨rfl, rfl, rfl⟩
  case isFalse => cases handlers <;> exact ⟨rfl, rfl, rfl⟩

/-- A task that is rejected is cancelled. -/
theorem reject_spec (h : x.WokenOnce) (componentIdx : Int) (handlers : Except JsError Unit) :
    (x.reject componentIdx handlers).2.WokenOnce ∧
      (x.reject componentIdx handlers).2.phase = x.phase := by
  unfold Task.reject
  split
  case isTrue => exact ⟨h, rfl⟩
  case isFalse =>
    let rejected : Task := { x with rejected := true, state := .cancelDelivered }
    obtain ⟨hphase, hwakes, -⟩ := cancel_frame rejected componentIdx handlers
    refine ⟨⟨?_, ?_, fun _ => ?_⟩, hphase⟩
    · rw [hwakes]
      exact h.1
    · rw [hwakes, hphase]
      exact h.2.1
    · unfold Task.cancel
      rw [if_neg (by simp)]
      cases handlers <;> rfl

theorem Inv.reject (h : Inv s) (hx : s.tasks[t]? = some x) (handlers : Except JsError Unit) :
    Inv (s.setTask t (x.reject s.componentIdx handlers).2) := by
  obtain ⟨honce, hphase⟩ :=
    reject_spec (h.tasks x (mem_of_getElem? hx)) s.componentIdx handlers
  refine h.setTask hx honce rfl rfl rfl ?_
  have hwaits : (x.reject s.componentIdx handlers).2.waits = x.waits := by
    unfold Task.waits
    rw [hphase]
  rw [hwaits]
  rfl

theorem Inv.setBackpressure {v : Int} (h : Inv s) (hv : 0 ≤ v ∧ v < 2 ^ 16) :
    Inv (s.setBackpressure v) := ⟨hv, h.counted, h.tasks, h.waiters⟩

/-- An increment within the bounds. -/
theorem Inv.increment (h : Inv s) :
    s.incrementBackpressure =
      if s.backpressure = 65535 then
        .error (.error s!"invalid new backpressure value [{s.backpressure + 1}], overflow")
      else .ok (s.setBackpressure (s.backpressure + 1)) := by
  have hrange := h.range
  unfold State.incrementBackpressure
  rw [if_neg (by omega)]
  dsimp only
  by_cases hfull : s.backpressure = 65535
  · rw [if_pos (by omega), if_pos hfull]
  · rw [if_neg (by omega), if_neg hfull]

/-- A decrement does not throw. -/
theorem Inv.decrement (h : Inv s) :
    s.decrementBackpressure = .ok (s.setBackpressure (max 0 (s.backpressure - 1))) := by
  have hrange := h.range
  unfold State.decrementBackpressure
  rw [if_neg (by omega)]
  rw [if_neg (by omega)]

theorem Inv.waitForBackpressure (h : Inv s) : Inv s.waitForBackpressure := by
  constructor
  case range => exact h.range
  case counted =>
    have hsum := h.counted
    unfold State.waiting at hsum ⊢
    unfold State.waitForBackpressure State.addBackpressureWaiter State.registerHandler
    dsimp only
    rw [countP_append, hsum]
    simp only [countP_cons, countP_nil]
    push_cast
    omega
  case tasks => exact h.tasks
  case waiters =>
    intro x hx
    rcases mem_append.1 hx with hx | hx
    · exact h.waiters x hx
    · rw [mem_singleton.1 hx]
      exact ⟨rfl, rfl⟩

/-- The timer of a waiter resolves its promise, whatever the backpressure. -/
theorem Inv.interval_eq {w : Nat} {x : Waiter} (h : Inv s) (hx : s.waiters[w]? = some x)
    (hinterval : x.interval = true) :
    s.interval w x = (.ok (), { s with
      backpressureWaiters := s.backpressureWaiters - 1
      waiters := s.waiters.set w { x with interval := false, wakes := 1 } }) := by
  obtain ⟨hcleared, hwakes⟩ := h.waiters x (mem_of_getElem? hx)
  have hpos : 0 < s.backpressureWaiters := by
    have hcount : 0 < s.waiters.countP Waiter.interval :=
      countP_pos_iff.2 ⟨x, mem_of_getElem? hx, hinterval⟩
    rw [h.counted]
    unfold State.waiting
    omega
  rw [hinterval, if_pos rfl] at hwakes
  unfold State.interval
  rw [if_neg (by rw [hcleared]; decide)]
  have hremove := removeBackpressureWaiter_ok
    (s := { s with waiters := s.waiters.set w { x with interval := false } }) hpos
  dsimp only at hremove ⊢
  rw [hremove]
  dsimp only
  rw [set_set, hwakes]

theorem Inv.interval {w : Nat} {x : Waiter} (h : Inv s) (hx : s.waiters[w]? = some x)
    (hinterval : x.interval = true) : Inv (s.interval w x).2 := by
  rw [h.interval_eq hx hinterval]
  constructor
  case range => exact h.range
  case counted =>
    have hcount := countP_set (p := Waiter.interval)
      (y := { x with interval := false, wakes := 1 }) hx
    have hsum := h.counted
    unfold State.waiting at hsum ⊢
    dsimp only at hcount ⊢
    rw [hinterval] at hcount
    simp only [if_true, Bool.false_eq_true, if_false] at hcount
    omega
  case tasks => exact h.tasks
  case waiters =>
    intro z hz
    rcases mem_or_eq_of_mem_set hz with hz | rfl
    · exact h.waiters z hz
    · exact ⟨(h.waiters x (mem_of_getElem? hx)).1, rfl⟩

end

/-! ## Runs -/

theorem Inv.next {s s' : State} {l : Call × Except JsError Unit} (h : Inv s)
    (hstep : next l s s') : Inv s' := by
  obtain ⟨call, answer⟩ := l
  unfold Entry.next State.call at hstep
  -- Each call has its lemma; a call for a task that does not exist is none.
  cases call with
  | backpressureInc =>
    dsimp only at hstep
    rw [h.increment] at hstep
    have hrange := h.range
    split at hstep
    case h_1 =>
      cases hstep
      exact h
    case h_2 heq =>
      cases hstep
      split at heq
      case isTrue => cases heq
      case isFalse hfull =>
        rw [← Except.ok.inj heq]
        exact h.setBackpressure (by omega)
  | backpressureDec =>
    dsimp only at hstep
    rw [h.decrement] at hstep
    cases hstep
    have hrange := h.range
    exact h.setBackpressure (by omega)
  | waitForBackpressure =>
    cases hstep
    exact h.waitForBackpressure
  | interval w =>
    dsimp only at hstep
    split at hstep
    case h_2 => cases hstep
    case h_1 x hx =>
      rcases Option.ite_none_right_eq_some.1 hstep with ⟨hinterval, hstep⟩
      have heq := congrArg Prod.snd (Option.some.inj hstep)
      dsimp only at heq
      rw [← heq]
      exact h.interval hx hinterval
  | setLocked locked =>
    cases hstep
    exact { h with }
  | create id kind =>
    -- the new task does not wait and was not woken
    cases hstep
    refine ⟨h.range, ?_, fun x hx => ?_, h.waiters⟩
    · have hsum := h.counted
      unfold State.waiting at hsum ⊢
      rw [countP_append]
      exact hsum
    · rcases mem_append.1 hx with hx | hx
      · exact h.tasks x hx
      · rw [mem_singleton.1 hx]
        exact ⟨Nat.zero_le 1, fun _ => rfl, fun hfalse => Bool.noConfusion hfalse⟩
  | enter t isHost =>
    dsimp only at hstep
    split at hstep
    case h_2 => cases hstep
    case h_1 x hx =>
      split at hstep
      case isTrue =>
        cases hstep
        exact h
      rcases Option.ite_none_right_eq_some.1 hstep with ⟨hcreated, hstep⟩
      cases hstep
      exact h.enter hx hcreated isHost
  | reject t handlers =>
    dsimp only at hstep
    split at hstep
    case h_2 => cases hstep
    case h_1 x hx =>
      cases hstep
      exact h.reject hx handlers
  | tick t =>
    dsimp only at hstep
    split at hstep
    case h_2 => cases hstep
    case h_1 x hx =>
      rcases Option.ite_none_right_eq_some.1 hstep with ⟨hblocked, hstep⟩
      cases hstep
      exact h.tick hx hblocked
  | goOn t handlers =>
    dsimp only at hstep
    split at hstep
    case h_2 => cases hstep
    case h_1 x hx =>
      split at hstep
      case h_2 => cases hstep
      case h_1 keepGoing hwoken =>
        cases hstep
        -- it was counted while it waited, so the counter is above zero
        have hwaits : x.waits = true := by
          unfold Task.waits
          rw [hwoken]
        rw [goOn_eq keepGoing handlers (h.waiters_pos hx hwaits)]
        refine h.admitted hx ?_
        rw [hwaits, if_pos rfl]
        omega

theorem Inv.run {componentIdx : Int} {calls : List (Call × Except JsError Unit)} {s : State}
    (hrun : Run Entry.next (.init componentIdx) calls s) : Inv s := by
  have hstep : ∀ (l : Call × Except JsError Unit) (s₁ s₂ : State), Entry.next l s₁ s₂ →
      Inv s₁ → Inv s₂ := fun _ _ _ hnext h => h.next hnext
  exact Run.invariant hstep hrun (.init componentIdx)

/-! ## The wait in `enter` -/

/-- A task goes on as if nothing had been said to it. -/
theorem Inv.goOn {s s' : State} {t : Nat} {handlers answer : Except JsError Unit} (h : Inv s)
    (hstep : Entry.next (.goOn t handlers, answer) s s') :
    ∃ x, s.tasks[t]? = some x ∧
      s'.tasks[t]? = some { x with entered := true, phase := .returned true } ∧
      s'.locked = (x.kind.needsExclusiveLock || s.locked) := by
  unfold Entry.next State.call at hstep
  dsimp only at hstep
  split at hstep
  case h_2 => cases hstep
  case h_1 x hx =>
    split at hstep
    case h_2 => cases hstep
    case h_1 keepGoing hwoken =>
      cases hstep
      have hwaits : x.waits = true := by
        unfold Task.waits
        rw [hwoken]
      rw [goOn_eq keepGoing handlers (h.waiters_pos hx hwaits)]
      refine ⟨x, hx, ?_, locked_admitted _ t x⟩
      rw [tasks_admitted, List.getElem?_set_self (List.getElem?_eq_some_iff.1 hx).1]

/-- In every run, a wait in `enter` ends as it should if and only if nobody has
cancelled the task, and the component is still free when the task goes on. -/
theorem enters_right_iff {componentIdx : Int} {calls : List (Call × Except JsError Unit)}
    {s s' : State} {t : Nat} {handlers answer : Except JsError Unit}
    (hrun : Run Entry.next (.init componentIdx) calls s)
    (hstep : Entry.next (.goOn t handlers, answer) s s') :
    EntersRight s s' t ↔ MayGoOn s t := by
  have h := Inv.run hrun
  obtain ⟨x, hx, hx', hlocked⟩ := h.goOn hstep
  constructor
  · intro hright y hy
    obtain rfl : x = y := Option.some.inj (hx.symm.trans hy)
    have hnot : ¬ (x.cancelled = true ∨ x.rejected = true) := by
      intro hcancelled
      -- the task was let in all the same
      have hphase := (hright.refused x _ hx hx' hcancelled).1
      cases hphase
    obtain ⟨hback, hlock⟩ := hright.admitted x _ hx hx' hnot rfl
    rw [not_or] at hnot
    exact ⟨Bool.eq_false_iff.2 hnot.1, Bool.eq_false_iff.2 hnot.2, hback, hlock⟩
  · intro hmay
    obtain ⟨hcancelled, hrejected, hback, hlock⟩ := hmay x hx
    constructor
    case refused =>
      intro y y' hy hy' hor
      obtain rfl : x = y := Option.some.inj (hx.symm.trans hy)
      rw [hcancelled, hrejected] at hor
      rcases hor with hor | hor <;> cases hor
    case admitted =>
      intro y y' hy hy' _ _
      obtain rfl : x = y := Option.some.inj (hx.symm.trans hy)
      exact ⟨hback, hlock⟩
    case counted => exact (h.next hstep).counted

/-- A callback task that is called under backpressure, which is turned down again. -/
def waitsOut : List (Call × Except JsError Unit) :=
  [(.create 1 ⟨true, false, true⟩, .ok ()), (.backpressureInc, .ok ()), (.enter 0 false, .ok ()),
    (.backpressureDec, .ok ()), (.tick 0, .ok ())]

theorem enters_right_iff_waitsOut : ∃ s s', Run Entry.next (.init 0) waitsOut s ∧
    Entry.next (.goOn 0 (.ok ()), .ok ()) s s' ∧ EntersRight s s' 0 := by
  have hrun : ∃ s s', Run Entry.next (.init 0) waitsOut s ∧
      Entry.next (.goOn 0 (.ok ()), .ok ()) s s' ∧ MayGoOn s 0 := by
    refine ⟨_, _, .cons rfl <| .cons rfl <| .cons rfl <| .cons rfl <| .cons rfl <| .nil _, rfl, ?_⟩
    rintro x hx
    rw [← Option.some.inj hx]
    exact ⟨rfl, rfl, rfl, fun _ => rfl⟩
  obtain ⟨s, s', hrun, hstep, hmay⟩ := hrun
  exact ⟨s, s', hrun, hstep, (enters_right_iff hrun hstep).2 hmay⟩

/-- The task is rejected while it waits, and the next tick wakes it. -/
def rejectedWhileBlocked : List (Call × Except JsError Unit) :=
  [(.create 1 ⟨true, false, true⟩, .ok ()), (.backpressureInc, .ok ()), (.enter 0 false, .ok ()),
    (.reject 0 (.ok ()), .ok ()), (.tick 0, .ok ())]

/-- It is let in, and runs its export under backpressure. -/
theorem rejectedWhileBlocked_enters : ¬ ∀ (calls : List (Call × Except JsError Unit))
    (s s' : State) (t : Nat) (handlers answer : Except JsError Unit),
    Run Entry.next (.init 0) calls s → Entry.next (.goOn t handlers, answer) s s' →
      EntersRight s s' t := by
  intro hall
  have hrun : ∃ s s', Run Entry.next (.init 0) rejectedWhileBlocked s ∧
      Entry.next (.goOn 0 (.ok ()), .ok ()) s s' ∧
      ∃ x x', s.tasks[0]? = some x ∧ s'.tasks[0]? = some x' ∧ x.rejected = true ∧
        x'.phase = .returned true :=
    ⟨_, _, .cons rfl <| .cons rfl <| .cons rfl <| .cons rfl <| .cons rfl <| .nil _, rfl,
      _, _, rfl, rfl, rfl, rfl⟩
  obtain ⟨s, s', hrun, hstep, x, x', hx, hx', hrejected, hphase⟩ := hrun
  have hrefused := ((hall _ s s' 0 _ _ hrun hstep).refused x x' hx hx' (.inr hrejected)).1
  rw [hphase] at hrefused
  cases hrefused

end Jco.Component.Entry

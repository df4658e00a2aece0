import Mathlib.Algebra.Ring.Nat
import Jco.Component.Entry

/-! # The counter of the backpressure

`decrementBackpressure` clamps its new value before it checks for an underflow, and the
timer of `waitForBackpressure` resolves the promise when the handler has not been called.
-/

namespace Jco.Component.Entry

open Jco.Js Jco.Lib State

/-! ## What is expected -/

/-- How often a wait has ended. -/
def State.wakes (s : State) : Nat :=
  (s.tasks.map Task.wakes).sum + (s.waiters.map Waiter.wakes).sum

/-- The counter goes up and down by one and traps at its bounds, and a wait ends at the
turn of its timer or of the tick if and only if there is no backpressure. The wait of a
task in `enter` is also one for the lock, and one that was rejected does not wait. -/
def CountsRight (l : Call × Except JsError Unit) (s s' : State) : Prop :=
  match l.1 with
  | .backpressureInc =>
    if s.backpressure = 65535 then (∃ err, l.2 = .error err) ∧ s' = s
    else l.2 = .ok () ∧ s'.backpressure = s.backpressure + 1 ∧ s'.wakes = s.wakes
  | .backpressureDec =>
    if s.backpressure = 0 then (∃ err, l.2 = .error err) ∧ s' = s
    else l.2 = .ok () ∧ s'.backpressure = s.backpressure - 1 ∧ s'.wakes = s.wakes
  | .interval _ => s'.wakes = s.wakes + if s.backpressure = 0 then 1 else 0
  | .tick t => ∀ x, s.tasks[t]? = some x → x.rejected = false →
      s'.wakes = s.wakes +
        if s.backpressure = 0 ∧ (x.kind.needsExclusiveLock = true → s.locked = false) then 1 else 0
  | _ => s'.backpressure = s.backpressure ∧ s'.wakes = s.wakes

/-- There is no decrement at `0`, and no timer of `waitForBackpressure` has its turn under
backpressure. -/
def CountsSafe (l : Call × Except JsError Unit) (s : State) : Prop :=
  match l.1 with
  | .backpressureDec => s.backpressure ≠ 0
  | .interval _ => s.backpressure = 0
  | _ => True

/-- An increment that did not trap. -/
def isInc : Call × Except JsError Unit → Bool
  | (.backpressureInc, .ok _) => true
  | _ => false

/-- A decrement that did not trap. -/
def isDec : Call × Except JsError Unit → Bool
  | (.backpressureDec, .ok _) => true
  | _ => false

/-! ## Wakes -/

section

variable {s s' : State} {t : Nat} {x y : Task}

/-- A task gets another state. -/
theorem wakes_set (hx : s.tasks[t]? = some x) (htasks : s'.tasks = s.tasks.set t y)
    (hwaiters : s'.waiters = s.waiters) : s'.wakes + x.wakes = s.wakes + y.wakes := by
  have hsum := sum_map_set Task.wakes hx y
  unfold wakes
  rw [htasks, hwaiters]
  omega

theorem wakes_same (hx : s.tasks[t]? = some x) (htasks : s'.tasks = s.tasks.set t y)
    (hwaiters : s'.waiters = s.waiters) (hsame : y.wakes = x.wakes) : s'.wakes = s.wakes := by
  have hset := wakes_set hx htasks hwaiters
  omega

theorem ready_iff (h : Inv s) (k : Kind) :
    s.ready k = true ↔
      s.backpressure = 0 ∧ (k.needsExclusiveLock = true → s.locked = false) := by
  have hrange := h.range
  unfold ready hasBackpressure
  rw [Bool.not_eq_true', Bool.or_eq_false_iff, decide_eq_false_iff_not, Bool.and_eq_false_imp]
  constructor
  · rintro ⟨hback, hlock⟩
    exact ⟨by omega, hlock⟩
  · rintro ⟨hback, hlock⟩
    exact ⟨by omega, hlock⟩

/-- Only timers and ticks end a wait, and only the guest moves the counter. -/
theorem enter_frame (s : State) (t : Nat) (x : Task) (isHost : Bool) :
    ∃ y, (s.enter t x isHost).tasks = s.tasks.set t y ∧ y.wakes = x.wakes ∧
      (s.enter t x isHost).waiters = s.waiters ∧
      (s.enter t x isHost).backpressure = s.backpressure := by
  unfold enter
  split
  case isTrue => exact ⟨_, rfl, rfl, rfl, rfl⟩
  split
  case isTrue => split <;> exact ⟨_, rfl, rfl, rfl, rfl⟩
  split
  case isTrue => exact ⟨_, rfl, rfl, rfl, rfl⟩
  case isFalse =>
    obtain ⟨hback, hwaiters, -⟩ := admit_frame s t x
    exact ⟨_, tasks_admitted s t x, rfl, hwaiters, hback⟩

theorem wakes_reject (x : Task) (componentIdx : Int) (handlers : Except JsError Unit) :
    (x.reject componentIdx handlers).2.wakes = x.wakes := by
  unfold Task.reject
  split
  case isTrue => rfl
  case isFalse => exact (cancel_frame _ componentIdx handlers).2.1

/-! ## Steps -/

variable {answer : Except JsError Unit}

theorem counts_inc (h : Inv s)
    (hstep : next (.backpressureInc, answer) s s') : CountsRight (.backpressureInc, answer) s s' := by
  unfold Entry.next call at hstep
  dsimp only at hstep
  rw [h.increment] at hstep
  unfold CountsRight
  dsimp only
  by_cases hfull : s.backpressure = 65535
  · rw [if_pos hfull] at hstep ⊢
    cases hstep
    exact ⟨⟨_, rfl⟩, rfl⟩
  · rw [if_neg hfull] at hstep ⊢
    cases hstep
    exact ⟨rfl, rfl, rfl⟩

/-- At `0` the decrement answers, and does nothing. -/
theorem counts_dec_iff (h : Inv s)
    (hstep : next (.backpressureDec, answer) s s') :
    CountsRight (.backpressureDec, answer) s s' ↔ s.backpressure ≠ 0 := by
  have hrange := h.range
  unfold Entry.next call at hstep
  dsimp only at hstep
  rw [h.decrement] at hstep
  cases hstep
  unfold CountsRight
  dsimp only
  by_cases hzero : s.backpressure = 0
  · rw [if_pos hzero]
    refine iff_of_false ?_ (not_not.2 hzero)
    rintro ⟨⟨err, herr⟩, -⟩
    cases herr
  · rw [if_neg hzero]
    refine iff_of_true ⟨rfl, ?_, rfl⟩ hzero
    show max 0 (s.backpressure - 1) = _
    omega

theorem counts_interval_iff (h : Inv s) {w : Nat}
    (hstep : next (.interval w, answer) s s') :
    CountsRight (.interval w, answer) s s' ↔ s.backpressure = 0 := by
  unfold Entry.next call at hstep
  dsimp only at hstep
  split at hstep
  case h_2 => cases hstep
  case h_1 x hx =>
    rcases Option.ite_none_right_eq_some.1 hstep with ⟨hinterval, hstep⟩
    have hwakes := (h.waiters x (List.mem_of_getElem? hx)).2
    rw [hinterval, if_pos rfl] at hwakes
    rw [h.interval_eq hx hinterval] at hstep
    cases hstep
    have hsum := sum_map_set Waiter.wakes hx { x with interval := false, wakes := 1 }
    unfold CountsRight wakes
    dsimp only at hsum ⊢
    by_cases hzero : s.backpressure = 0
    · rw [if_pos hzero]
      exact iff_of_true (by omega) hzero
    · -- the promise is resolved under backpressure
      rw [if_neg hzero]
      exact iff_of_false (by omega) hzero

theorem counts_tick (h : Inv s)
    (hstep : next (.tick t, answer) s s') : CountsRight (.tick t, answer) s s' := by
  unfold Entry.next call at hstep
  dsimp only at hstep
  split at hstep
  case h_2 => cases hstep
  case h_1 x hx =>
    rcases Option.ite_none_right_eq_some.1 hstep with ⟨hblocked, hstep⟩
    cases hstep
    intro y hy hrejected
    obtain rfl : x = y := Option.some.inj (hx.symm.trans hy)
    unfold tick
    by_cases hready : s.ready x.kind = true
    · have htasks : (s.setTask t { x with phase := .woken !x.cancelled, wakes := x.wakes + 1 }).tasks =
          s.tasks.set t { x with phase := .woken !x.cancelled, wakes := x.wakes + 1 } := rfl
      have hset := wakes_set hx htasks rfl
      rw [if_pos (by rw [hready, Bool.or_true]), if_pos ((ready_iff h x.kind).1 hready)]
      dsimp only at hset
      omega
    · rw [if_neg (by rw [hrejected, Bool.false_or]; exact hready),
        if_neg (mt (ready_iff h x.kind).2 hready)]
      rfl

variable {l : Call × Except JsError Unit}

/-- Every other step leaves the counter and the waits as they are. -/
theorem counts_frame (h : Inv s) (hstep : next l s s')
    (hother : ∀ t, l.1 ≠ .tick t) (hinterval : ∀ w, l.1 ≠ .interval w)
    (hinc : l.1 ≠ .backpressureInc) (hdec : l.1 ≠ .backpressureDec) :
    s'.backpressure = s.backpressure ∧ s'.wakes = s.wakes := by
  obtain ⟨call, answer⟩ := l
  cases call with
  | backpressureInc => exact absurd rfl hinc
  | backpressureDec => exact absurd rfl hdec
  | interval w => exact absurd rfl (hinterval w)
  | tick t => exact absurd rfl (hother t)
  | waitForBackpressure =>
    cases hstep
    refine ⟨rfl, ?_⟩
    unfold wakes waitForBackpressure registerHandler addBackpressureWaiter
    simp
  | setLocked locked =>
    cases hstep
    exact ⟨rfl, rfl⟩
  | create id kind =>
    cases hstep
    refine ⟨rfl, ?_⟩
    unfold wakes
    simp
  | enter t isHost =>
    unfold Entry.next call at hstep
    dsimp only at hstep
    split at hstep
    case h_2 => cases hstep
    case h_1 x hx =>
      split at hstep
      case isTrue =>
        cases hstep
        exact ⟨rfl, rfl⟩
      rcases Option.ite_none_right_eq_some.1 hstep with ⟨-, hstep⟩
      cases hstep
      obtain ⟨y, htasks, hsame, hwaiters, hback⟩ := enter_frame s t x isHost
      exact ⟨hback, wakes_same hx htasks hwaiters hsame⟩
  | reject t handlers =>
    unfold Entry.next call at hstep
    dsimp only at hstep
    split at hstep
    case h_2 => cases hstep
    case h_1 x hx =>
      cases hstep
      exact ⟨rfl, wakes_same hx rfl rfl (wakes_reject x s.componentIdx handlers)⟩
  | goOn t handlers =>
    -- a woken task takes one waiter off, which it was itself
    unfold Entry.next call at hstep
    dsimp only at hstep
    split at hstep
    case h_2 => cases hstep
    case h_1 x hx =>
      split at hstep
      case h_2 => cases hstep
      case h_1 keepGoing hwoken =>
        cases hstep
        have hwaits : x.waits = true := by
          unfold Task.waits
          rw [hwoken]
        rw [goOn_eq keepGoing handlers (h.waiters_pos hx hwaits)]
        obtain ⟨hback, hwaiters, -⟩ :=
          admit_frame { s with backpressureWaiters := s.backpressureWaiters - 1 } t x
        exact ⟨hback, wakes_same hx (tasks_admitted _ t x) hwaiters rfl⟩

theorem counts_iff (h : Inv s) (hstep : next l s s') :
    CountsRight l s s' ↔ CountsSafe l s := by
  obtain ⟨call, answer⟩ := l
  cases call with
  | backpressureInc => exact iff_of_true (counts_inc h hstep) trivial
  | backpressureDec => exact counts_dec_iff h hstep
  | interval w => exact counts_interval_iff h hstep
  | tick t => exact iff_of_true (counts_tick h hstep) trivial
  | waitForBackpressure | setLocked locked | create id kind | enter t isHost
  | reject t handlers | goOn t handlers =>
    exact iff_of_true (counts_frame h hstep nofun nofun nofun nofun) trivial

/-! ## Runs -/

/-- What a step adds to the counter. -/
theorem CountsRight.counter (hright : CountsRight l s s')
    (hstep : next l s s') (h : Inv s) :
    s'.backpressure =
      s.backpressure + (if isInc l then 1 else 0) - (if isDec l then 1 else 0) := by
  obtain ⟨call, answer⟩ := l
  cases call with
  | backpressureInc =>
    unfold CountsRight at hright
    dsimp only at hright
    split at hright
    case isTrue =>
      obtain ⟨⟨err, rfl⟩, rfl⟩ := hright
      simp [isInc, isDec]
    case isFalse =>
      obtain ⟨rfl, hback, -⟩ := hright
      simp [isInc, isDec, hback]
  | backpressureDec =>
    unfold CountsRight at hright
    dsimp only at hright
    split at hright
    case isTrue =>
      obtain ⟨⟨err, rfl⟩, rfl⟩ := hright
      simp [isInc, isDec]
    case isFalse =>
      obtain ⟨rfl, hback, -⟩ := hright
      simp [isInc, isDec, hback]
  | interval w =>
    unfold Entry.next call at hstep
    dsimp only at hstep
    split at hstep
    case h_2 => cases hstep
    case h_1 x hx =>
      rcases Option.ite_none_right_eq_some.1 hstep with ⟨hinterval, hstep⟩
      rw [h.interval_eq hx hinterval] at hstep
      cases hstep
      simp [isInc, isDec]
  | tick t =>
    -- a tick wakes waiters and leaves the counter
    unfold Entry.next call at hstep
    dsimp only at hstep
    split at hstep
    case h_2 => cases hstep
    case h_1 x hx =>
      rcases Option.ite_none_right_eq_some.1 hstep with ⟨-, hstep⟩
      cases hstep
      have hsame : (s.tick t x).backpressure = s.backpressure := by
        unfold tick
        split <;> rfl
      simp [isInc, isDec, hsame]
  | waitForBackpressure | setLocked locked | create id kind | enter t isHost
  | reject t handlers | goOn t handlers =>
    have hsame := (counts_frame h hstep nofun nofun nofun nofun).1
    simp [isInc, isDec, hsame]

end

/-- The increments and decrements of a run are in the counter. -/
theorem counter_run {s s' : State} {calls : List (Call × Except JsError Unit)}
    (hrun : Run (guarded CountsSafe next) s calls s') (h : Inv s) :
    s'.backpressure = s.backpressure + calls.countP isInc - calls.countP isDec := by
  induction hrun with
  | nil => simp
  | cons hstep _ ih =>
    obtain ⟨hsafe, hnext⟩ := hstep
    rw [ih (h.next hnext), ((counts_iff h hnext).2 hsafe).counter hnext h,
      List.countP_cons, List.countP_cons]
    split <;> split <;> omega

/-- As long as there is no decrement at `0` and no timer of `waitForBackpressure` has its
turn under backpressure, the counter is the number of increments without that of the
decrements, and every wait has ended once at most; the next call does with them what it
should if and only if it is no such call. -/
theorem backpressure_counts {componentIdx : Int} {calls : List (Call × Except JsError Unit)}
    {s : State} (hrun : Run (guarded CountsSafe next) (.init componentIdx) calls s) :
    s.backpressure = calls.countP isInc - calls.countP isDec ∧
      (∀ x ∈ s.tasks, x.wakes ≤ 1) ∧ (∀ x ∈ s.waiters, x.wakes ≤ 1) ∧
        ∀ l s', next l s s' → (CountsRight l s s' ↔ CountsSafe l s) := by
  have hinv : Inv s := Inv.run (hrun.mono fun _ _ _ hstep => hstep.2)
  have hcounter := counter_run hrun (.init componentIdx)
  refine ⟨?_, fun x hx => (hinv.tasks x hx).1, fun x hx => ?_, fun l s' => counts_iff hinv⟩
  · rw [hcounter]
    show 0 + _ - _ = _
    omega
  · obtain ⟨-, hwakes⟩ := hinv.waiters x hx
    rw [hwakes]
    split <;> omega

theorem backpressure_counts_waitsOut : ∃ s, Run (guarded CountsSafe next) (.init 0) waitsOut s ∧
    s.backpressure = 0 := by
  have hrun : ∃ s, Run (guarded CountsSafe next) (.init 0) waitsOut s :=
    ⟨_, .cons ⟨trivial, rfl⟩ <| .cons ⟨trivial, rfl⟩ <| .cons ⟨trivial, rfl⟩ <|
      .cons ⟨Int.one_ne_zero, rfl⟩ <| .cons ⟨trivial, rfl⟩ <| .nil _⟩
  obtain ⟨s, hrun⟩ := hrun
  exact ⟨s, hrun, (backpressure_counts hrun).1⟩

/-- The guest turns its backpressure down before it was up. -/
theorem decrement_at_zero_not_right : ¬ ∀ (calls : List (Call × Except JsError Unit)) (s : State),
    Run next (.init 0) calls s → ∀ l s', next l s s' → CountsRight l s s' := by
  intro hall
  have hright := hall [] _ (.nil _) (.backpressureDec, .ok ()) _ rfl
  obtain ⟨⟨err, herr⟩, -⟩ := hright
  cases herr

end Jco.Component.Entry

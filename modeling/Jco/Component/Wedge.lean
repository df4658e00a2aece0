import Jco.Component.Slots

/-! # A task that leaves

`exit` is called by the driver loop for the code `EXIT` only. Wherever the loop ends
otherwise, the task keeps its place in the queue of slots, and no call that waits
there is ever granted one.
-/

namespace Jco.Component.Execution

open Jco.Js Jco.Lib

variable {s s' : State}

/-! ## The end of the driver loop -/

/-- The driver loop has been given a code, or has called the callback. -/
def InLoop : Phase → Prop
  | .ready inLoop => inLoop = true
  | .guest inLoop => inLoop = true
  | .returned _ _ => True
  | .waiting => True
  | .woken => True
  | _ => False

/-- The step ends the driver loop of the task. -/
structure Ends (s s' : State) (t : Nat) : Prop where
  callback : s.kinds t = .callback
  before : InLoop (s.phase t)
  after : ¬ InLoop (s'.phase t)

/-- What is owed at the end. The handlers of an exit settle the exit promise, which
the next slot waits for. -/
structure CleanedUp (s : State) (t : Nat) : Prop where
  exited : s.phase t = .exited
  released : t ∉ s.holders
  settled : (s.tasks t).completion.isSome = true

/-- The loop is about to take the code `EXIT` of a task that has returned. -/
def Finishes (s : State) (t : Nat) : Prop :=
  (∃ inLoop, s.phase t = .returned inLoop .exit) ∧ (s.tasks t).resolved = true

def Queued (s : State) (t : Nat) : Prop := ∃ awaits, s.phase t = .queued awaits

/-- No slot is granted in any run from here. -/
def Wedged (s : State) : Prop :=
  ∀ calls u, Run next s calls u → ∀ call u', next call u u' →
    ∀ t, Queued u t → Queued u' t

/-! ## Resolved tasks are answered -/

def AllAnswered (s : State) : Prop := ∀ t, s.Answered t

theorem AllAnswered.init (kinds : Nat → Kind) : AllAnswered (.init kinds) := by
  intro t _ hresolved
  cases hresolved

variable {call : Call}

theorem next_answers (hstep : next call s s') : Answers s s' := by
  rcases next_effect hstep with ⟨hstill, -⟩ | ⟨t, -, rfl, -⟩ | ⟨t, -, -, rfl, -⟩ |
    ⟨t, -, rfl, -⟩ | ⟨t, hmove, -⟩ | ⟨t, op, p, p', -, hmove, -⟩ | ⟨t, p, p', -, -, -, hmove⟩
  · exact hstill.answers
  · exact (Answers.setPhase s t _).trans (.of_tasks rfl rfl)
  · unfold State.nextTaskExecutionSlot
    split
    · exact .setPhase s t _
    split
    · exact (Answers.setPhase s t _).trans (.of_tasks rfl rfl)
    · exact .setPhase s t _
  · exact .of_tasks rfl rfl
  · exact hmove.answers
  · exact hmove.answers
  · exact hmove.answers

theorem AllAnswered.next (ha : AllAnswered s) (hstep : next call s s') :
    AllAnswered s' :=
  fun t => (next_answers hstep).answered t (ha t)

/-! ## How the loop ends -/

/-- A task with a code in its loop exits, or it leaves. -/
theorem Allowed.end_cases {k : Kind} {r : Bool} {op : LockOp} {p p' : Phase}
    (h : Allowed k r p op p') (hk : k = .callback) (hp : InLoop p) (hp' : ¬ InLoop p') :
    op = .release ∧ p' = .exited ∧ (∃ inLoop, p = .returned inLoop .exit) ∧ r = true ∨
      p' = .left ∧ ¬ ((∃ inLoop, p = .returned inLoop .exit) ∧ r = true) := by
  subst hk
  cases h with
  | block => exact hp.elim
  | unblock => exact hp.elim
  | blockedLeft => exact hp.elim
  | run inLoop => exact absurd hp hp'
  | returns inLoop code => exact absurd trivial hp'
  | loopWaits inLoop code => exact absurd trivial hp'
  | wake => exact absurd trivial hp'
  | guestLeft inLoop => exact .inr ⟨rfl, fun ⟨⟨_, h⟩, _⟩ => Phase.noConfusion h⟩
  | guestExited inLoop hkind =>
    -- the caller exits the task, and the loop has not started
    rw [hkind rfl] at hp
    cases hp
  | loopLeft inLoop code hcode =>
    refine .inr ⟨rfl, ?_⟩
    rintro ⟨⟨inLoop', h⟩, hr⟩
    cases h
    rw [hcode rfl] at hr
    cases hr
  | loopExited inLoop hresolved => exact .inl ⟨rfl, rfl, ⟨inLoop, rfl⟩, hresolved⟩
  | loopFails inLoop code hcode =>
    refine .inr ⟨rfl, ?_⟩
    rintro ⟨⟨inLoop', h⟩, -⟩
    cases h
    exact hcode rfl
  | waitingLeft => exact .inr ⟨rfl, fun ⟨⟨_, h⟩, _⟩ => Phase.noConfusion h⟩

variable {t : Nat}

/-- The task exits after `EXIT`, or it leaves. -/
theorem ends_cases (hslots : Slots s) (ha : AllAnswered s)
    (hstep : next call s s') (hends : Ends s s' t) :
    CleanedUp s' t ∧ Finishes s t ∨ s'.phase t = .left ∧ ¬ Finishes s t := by
  have hself : ∀ {v p}, (∀ u, s'.phase u = if u = v then p else s.phase u) → t = v := by
    intro v p hphase
    by_contra hne
    have := hphase t
    rw [if_neg hne] at this
    exact hends.after (this ▸ hends.before)
  have hmoved : ∀ {v op p p'}, Move s s' v op p p' → v = t := by
    intro v op p p' hmove
    by_contra hne
    exact hends.after (hmove.others t (Ne.symm hne) ▸ hends.before)
  have hbefore := hends.before
  have hafter := hends.after
  rcases next_effect hstep with ⟨hstill, -⟩ | ⟨v, hphase, rfl, -⟩ | ⟨v, a, hphase, rfl, -⟩ |
    ⟨v, hphase, rfl, -⟩ | ⟨v, hmove, -⟩ | ⟨v, op, p, p', hallowed, hmove, -⟩ |
    ⟨v, p, p', hp', hwoken, hcall, hmove⟩
  · rw [hstill.phase] at hafter
    exact absurd hbefore hafter
  · -- a task that enters has no loop
    obtain rfl := hself fun u => phase_setPhase s v u (.queued s.nextTaskPromise)
    rw [hphase] at hbefore
    exact hbefore.elim
  · obtain ⟨p, -, hphase', -⟩ := hslots.slot_cases hphase
    obtain rfl := hself hphase'
    rw [hphase] at hbefore
    exact hbefore.elim
  · exact absurd hbefore hafter
  · obtain rfl := hmoved hmove
    rw [hmove.before] at hbefore
    exact hbefore.elim
  · obtain rfl := hmoved hmove
    rw [hmove.before] at hbefore
    rw [hmove.after] at hafter
    unfold Finishes
    rw [hmove.before, hmove.after]
    rcases hallowed.end_cases hends.callback hbefore hafter with
      ⟨rfl, rfl, hexit, hresolved⟩ | ⟨rfl, hnot⟩
    · refine .inl ⟨⟨hmove.after, fun hmem => ?_, ?_⟩, hexit, hresolved⟩
      · rw [hmove.holders] at hmem
        have := (List.mem_filter.1 hmem).2
        simp at this
      · apply hmove.answers.answered v (ha v)
        · rw [hmove.kinds, hends.callback]
          rfl
        · exact hmove.answers.resolved v hresolved
    · exact .inr ⟨rfl, hnot⟩
  · -- only a task that wakes up is in its loop, and it leaves or goes on
    obtain rfl := hmoved hmove
    rw [hmove.before] at hbefore
    rw [hmove.after] at hafter
    have hp : p = .woken := by
      rcases hcall with ⟨rfl, -⟩ | ⟨rfl | rfl | rfl, -⟩
      · exact hbefore.elim
      · exact hbefore.elim
      · exact hbefore.elim
      · rfl
    rcases hwoken hp with rfl | rfl
    · refine .inr ⟨hmove.after, ?_⟩
      rintro ⟨⟨inLoop, h⟩, -⟩
      rw [hmove.before, hp] at h
      cases h
    · exact absurd rfl hafter

/-! ## A task that has left -/

theorem Allowed.not_left {k : Kind} {r : Bool} {op : LockOp} {p p' : Phase}
    (h : Allowed k r p op p') : p ≠ .left := by
  cases h <;> exact Phase.noConfusion

/-- It does nothing any more. -/
theorem left_next (hslots : Slots s) (hstep : next call s s')
    (hleft : s.phase t = .left) : s'.phase t = .left := by
  have hother : ∀ {v p}, (∀ u, s'.phase u = if u = v then p else s.phase u) → s.phase v ≠ .left →
      s'.phase t = .left := by
    intro v p hphase hv
    rw [hphase, if_neg]
    · exact hleft
    · rintro rfl
      exact hv hleft
  have hmoved : ∀ {v op p p'}, Move s s' v op p p' → p ≠ .left → s'.phase t = .left := by
    intro v op p p' hmove hp
    rw [hmove.others t, hleft]
    rintro rfl
    exact hp (hmove.before.symm.trans hleft)
  rcases next_effect hstep with ⟨hstill, -⟩ | ⟨v, hphase, rfl, -⟩ | ⟨v, a, hphase, rfl, -⟩ |
    ⟨v, hphase, rfl, -⟩ | ⟨v, hmove, -⟩ | ⟨v, op, p, p', hallowed, hmove, -⟩ |
    ⟨v, p, p', -, -, hcall, hmove⟩
  · rw [hstill.phase]
    exact hleft
  · exact hother (fun u => phase_setPhase s v u _) (hphase ▸ Phase.noConfusion)
  · obtain ⟨p, -, hphase', -⟩ := hslots.slot_cases hphase
    exact hother hphase' (hphase ▸ Phase.noConfusion)
  · exact hleft
  · exact hmoved hmove Phase.noConfusion
  · exact hmoved hmove hallowed.not_left
  · apply hmoved hmove
    rcases hcall with ⟨rfl, -⟩ | ⟨rfl | rfl | rfl, -⟩ <;> exact Phase.noConfusion

/-- No other task is the first of the queue, so that no slot is granted. -/
theorem queued_next {t u : Nat} (hslots : Slots s) (hfirst : First s t)
    (hleft : s.phase t = .left) (hstep : next call s s') (hqueued : Queued s u) : Queued s' u := by
  obtain ⟨a, hu⟩ := hqueued
  have hother : ∀ {v p}, (∀ u, s'.phase u = if u = v then p else s.phase u) →
      (u = v → ∃ b, p = .queued b) → Queued s' u := by
    intro v p hphase hv
    unfold Queued
    rw [hphase]
    split
    case isTrue h => exact hv h
    case isFalse => exact ⟨a, hu⟩
  have hmoved : ∀ {v op p p'}, Move s s' v op p p' → (∀ b, p ≠ .queued b) → Queued s' u := by
    intro v op p p' hmove hp
    refine ⟨a, ?_⟩
    rw [hmove.others u, hu]
    rintro rfl
    exact hp a (hmove.before.symm.trans hu)
  rcases next_effect hstep with ⟨hstill, -⟩ | ⟨v, hphase, rfl, -⟩ | ⟨v, b, hphase, rfl, -⟩ |
    ⟨v, hphase, rfl, -⟩ | ⟨v, hmove, -⟩ | ⟨v, op, p, p', hallowed, hmove, -⟩ |
    ⟨v, p, p', -, -, hcall, hmove⟩
  · refine ⟨a, ?_⟩
    rw [hstill.phase]
    exact hu
  · exact hother (fun u => phase_setPhase s v u _) fun _ => ⟨_, rfl⟩
  · obtain ⟨p, hp, hphase', -⟩ := hslots.slot_cases hphase
    refine hother hphase' fun _ => ?_
    rcases hp with ⟨rfl, hv⟩ | ⟨rfl, -⟩
    · obtain rfl := hfirst.unique hv
      rw [hleft] at hphase
      cases hphase
    · exact ⟨_, rfl⟩
  · exact ⟨a, hu⟩
  · exact hmoved hmove fun _ => Phase.noConfusion
  · exact hmoved hmove hallowed.ne.2.1
  · apply hmoved hmove
    intro b
    rcases hcall with ⟨rfl, -⟩ | ⟨rfl | rfl | rfl, -⟩ <;> exact Phase.noConfusion

theorem next_kinds (hslots : Slots s) (hstep : next call s s') :
    s'.kinds = s.kinds := by
  rcases next_effect hstep with ⟨hstill, -⟩ | ⟨t, -, rfl, -⟩ | ⟨t, a, hphase, rfl, -⟩ |
    ⟨t, -, rfl, -⟩ | ⟨t, hmove, -⟩ | ⟨t, op, p, p', -, hmove, -⟩ | ⟨t, p, p', -, -, -, hmove⟩
  · exact hstill.kinds
  · rfl
  · obtain ⟨p, -, -, -, -, hkinds, -⟩ := hslots.slot_cases hphase
    exact hkinds
  · rfl
  · exact hmove.kinds
  · exact hmove.kinds
  · exact hmove.kinds

/-- A callback task has come by `enter`, and has its place in the queue. -/
theorem Slots.first_of_left (hslots : Slots s) (hk : s.kinds t = .callback)
    (hleft : s.phase t = .left) : First s t := by
  apply hslots.active
  have hsync : (s.tasks t).enteredSync = false := by
    by_contra hne
    have := hslots.sync t (by simpa using hne)
    rw [hk] at this
    cases this
  refine ⟨hsync, ?_⟩
  rw [hleft]
  simp

theorem wedged_of_left (hslots : Slots s) (hk : s.kinds t = .callback)
    (hleft : s.phase t = .left) : Wedged s := by
  intro calls u hrun call u' hnext v hqueued
  have hstep : ∀ (call : Call) (w w' : State), next call w w' →
      Slots w ∧ w.kinds t = .callback ∧ w.phase t = .left →
      Slots w' ∧ w'.kinds t = .callback ∧ w'.phase t = .left := by
    rintro call w w' hnext ⟨hslots, hk, hleft⟩
    refine ⟨hslots.next hnext, ?_, left_next hslots hnext hleft⟩
    rw [next_kinds hslots hnext]
    exact hk
  obtain ⟨hslots', hk', hleft'⟩ := Run.invariant hstep hrun ⟨hslots, hk, hleft⟩
  exact queued_next hslots' (hslots'.first_of_left hk' hleft') hleft' hnext hqueued

/-! ## Runs -/

/-- In every run the driver loop cleans up exactly when it takes `EXIT` from a task
that has returned. In every other case, the task has not exited, and no slot is
granted from there on. -/
theorem loop_cleans_up_iff {kinds : Nat → Kind} {calls : List Call} {call : Call} {t : Nat}
    (hrun : Run next (.init kinds) calls s) (hstep : next call s s') (hends : Ends s s' t) :
    (CleanedUp s' t ↔ Finishes s t) ∧ (¬ Finishes s t → s'.phase t = .left ∧ Wedged s') := by
  have hkeep : ∀ (call : Call) (w w' : State), next call w w' →
      Slots w ∧ AllAnswered w → Slots w' ∧ AllAnswered w' :=
    fun call w w' hnext h => ⟨h.1.next hnext, h.2.next hnext⟩
  obtain ⟨hslots, ha⟩ := Run.invariant hkeep hrun ⟨.init kinds, .init kinds⟩
  rcases ends_cases hslots ha hstep hends with ⟨hclean, hfinish⟩ | ⟨hleft, hnot⟩
  · exact ⟨⟨fun _ => hfinish, fun _ => hclean⟩, fun h => absurd hfinish h⟩
  · refine ⟨⟨fun hclean => ?_, fun h => absurd h hnot⟩, fun _ => ⟨hleft, ?_⟩⟩
    · have := hclean.exited
      rw [hleft] at this
      cases this
    · apply wedged_of_left (hslots.next hstep) _ hleft
      rw [next_kinds hslots hstep]
      exact hends.callback

/-- Task `0` yields once, and its callback traps; task `1` waits for its slot. -/
def callbackTraps : List Call :=
  [.enter 0, .slot 0, .enter 1, .proceed 0, .run 0, .returns 0 .yield, .loop 0, .wake 0,
    .relock 0 true, .run 0]

theorem callbackTraps_run : ∃ s s', Run next (.init fun _ => .callback) callbackTraps s ∧
    next (.traps 0) s s' ∧ Ends s s' 0 ∧ s.phase 0 = .guest true ∧ s'.holders = [0] ∧
    Queued s' 1 :=
  ⟨_, _, .cons rfl <| .cons rfl <| .cons rfl <| .cons rfl <| .cons rfl <| .cons rfl <|
    .cons rfl <| .cons rfl <| .cons rfl <| .cons rfl <| .nil _, rfl, ⟨rfl, rfl, id⟩, rfl, rfl,
    _, rfl⟩

theorem loop_cleans_up_iff_callbackTraps : ∃ s, s.phase 0 = .left ∧ Queued s 1 ∧ Wedged s := by
  obtain ⟨s, s', hrun, hstep, hends, hguest, -, hqueued⟩ := callbackTraps_run
  have hnot : ¬ Finishes s 0 := by
    rintro ⟨⟨inLoop, h⟩, -⟩
    rw [hguest] at h
    cases h
  obtain ⟨hleft, hwedged⟩ := (loop_cleans_up_iff hrun hstep hends).2 hnot
  exact ⟨s', hleft, hqueued, hwedged⟩

theorem callback_trap_not_cleaned_up : ¬ ∀ (calls : List Call) (call : Call) (s s' : State)
    (t : Nat), Run next (.init fun _ => .callback) calls s → next call s s' → Ends s s' t →
      CleanedUp s' t := by
  intro hall
  obtain ⟨s, s', hrun, hstep, hends, -, hholders, -⟩ := callbackTraps_run
  apply (hall _ _ s s' 0 hrun hstep hends).released
  rw [hholders]
  exact List.mem_cons_self

end Jco.Component.Execution

import Jco.Component.TickLoop
import Jco.Component.WaitableSet
import Jco.Lib.Count
import Mathlib.Data.List.TakeWhile

/-! # The events of a waitable set

As long as a tick finds no more waits ready than the set has events for them, each
wait that is resumed receives an event. A tick that finds more makes a wait fail,
and the set count it for ever.
-/

namespace Jco.Component.WaitableSet

open Jco.Js Jco.Lib List State SuspendedTasks

variable {s s' : State}

/-! ## The invariant -/

/-- Where the events are. -/
structure Ledger (s : State) : Prop where
  once : (s.delivered.map Prod.fst).Nodup
  pending : ∀ waitable event, s.pendingEvent waitable = some event →
    event ∉ s.delivered.map Prod.fst ∧ event ∉ s.others
  kept : ∀ event < s.events, (∃ waitable, s.pendingEvent waitable = some event) ∨
    event ∈ s.delivered.map Prod.fst ∨ event ∈ s.others
  fresh : ∀ waitable event, s.pendingEvent waitable = some event → event < s.events
  past : ∀ event, event ∈ s.delivered.map Prod.fst ∨ event ∈ s.others → event < s.events
  inj : ∀ waitable other event, s.pendingEvent waitable = some event →
    s.pendingEvent other = some event → waitable = other

/-- The component knows the tasks of the waits. -/
structure Book (s : State) : Prop where
  inv : s.cstate.Inv
  readyFns : ∀ t m, s.cstate.getSuspendedTaskMeta t = some m → m.readyFn = true
  promises : ∀ w ∈ s.waits, ∀ p, w.phase = .awaits p → p < s.cstate.promises.length
  rejected : ∀ t, s.rejected t = true → s.cancelled t = true

structure Inv (s : State) : Prop where
  ledger : Ledger s
  book : Book s
  members : s.waitables.Nodup
  waiting : s.waiting = s.waits.countP State.isWaiting
  noneFailed : ∀ w ∈ s.waits, ∀ err, w.phase ≠ .failed err
  received : ∀ i w event, s.waits[i]? = some w →
    (w.phase = .received event ↔ (event, i) ∈ s.delivered)
  bounded : ∀ event i, (event, i) ∈ s.delivered → i < s.waits.length
  room : s.numResumed ≤ s.numPending

theorem Inv.delivers (hinv : Inv s) : Delivers s where
  waiting := hinv.waiting
  found w hw := hinv.noneFailed w hw _
  received := hinv.received
  once := hinv.ledger.once
  pending := hinv.ledger.pending
  kept := hinv.ledger.kept

theorem Inv.init (componentIdx : Int) : Inv (.init componentIdx) where
  ledger :=
    { once := nodup_nil
      pending _ _ h := by cases h
      kept _ h := absurd h (Nat.not_lt_zero _)
      fresh _ _ h := by cases h
      past _ h := by rcases h with h | h <;> exact absurd h not_mem_nil
      inj _ _ _ h := by cases h }
  book :=
    { inv := .init componentIdx
      readyFns t m h := by
        unfold State.init SuspendedTasks.init SuspendedTasks.getSuspendedTaskMeta at h
        rw [AList.lookup_empty] at h
        cases h
      promises w h := absurd h not_mem_nil
      rejected _ h := h }
  members := nodup_nil
  waiting := rfl
  noneFailed w h := absurd h not_mem_nil
  received i w event h := by cases h
  bounded event i h := absurd h not_mem_nil
  room := le_rfl

/-! ## The members with an event -/

variable {waitable : Nat}

theorem isPending_iff :
    s.isPending waitable = true ↔ ∃ event, s.pendingEvent waitable = some event :=
  Option.isSome_iff_exists

theorem isPending_clearEvent (s : State) (waitable other : Nat) :
    (s.clearEvent waitable).isPending other = (other ≠ waitable && s.isPending other) := by
  unfold clearEvent isPending
  by_cases h : other = waitable
  · subst h
    simp
  · simp [h]

theorem numPending_clearEvent (hnodup : s.waitables.Nodup) (waitable : Nat) :
    (s.clearEvent waitable).numPending +
      (if waitable ∈ s.waitables ∧ s.isPending waitable then 1 else 0) = s.numPending := by
  have hcount := countP_of_ne (p := (s.clearEvent waitable).isPending) (q := s.isPending)
    (a := waitable) hnodup fun x _ hx => by simp [isPending_clearEvent, hx]
  have hself : (s.clearEvent waitable).isPending waitable = false := by
    simp [isPending_clearEvent]
  rw [hself] at hcount
  change s.waitables.countP _ + _ = s.waitables.countP _
  simpa using hcount

theorem numPending_setPendingEvent_le (s : State) (waitable : Nat) :
    s.numPending ≤ (s.setPendingEvent waitable).numPending := by
  apply countP_mono_left
  intro x _ hx
  unfold setPendingEvent isPending at *
  by_cases h : x = waitable
  · subst h
    simp
  · simpa [h] using hx

theorem numPending_removeWaitable (hnodup : s.waitables.Nodup) (waitable : Nat) :
    (s.removeWaitable waitable).numPending +
      (if waitable ∈ s.waitables ∧ s.isPending waitable then 1 else 0) = s.numPending := by
  have hcount := countP_of_ne (p := fun x => s.isPending x && decide (x ≠ waitable))
    (q := s.isPending) (a := waitable) hnodup fun x _ hx => by simp [hx]
  have hleft : (s.removeWaitable waitable).numPending =
      s.waitables.countP fun x => s.isPending x && decide (x ≠ waitable) := by
    unfold numPending removeWaitable
    rw [countP_filter]
    rfl
  rw [hleft]
  unfold numPending
  simpa using hcount

theorem numPending_addWaitable_le (hnodup : s.waitables.Nodup) (waitable : Nat) :
    s.numPending ≤ (s.addWaitable waitable).numPending := by
  have hremove := numPending_removeWaitable hnodup waitable
  have hadd : (s.addWaitable waitable).numPending =
      (s.removeWaitable waitable).numPending + if s.isPending waitable then 1 else 0 := by
    unfold numPending addWaitable removeWaitable
    rw [countP_append]
    simp only [countP_singleton]
    rfl
  rw [hadd, ← hremove]
  split <;> split <;> simp_all

theorem hasPendingEvent_iff : s.hasPendingEvent = true ↔ 0 < s.numPending := by
  unfold hasPendingEvent numPending
  rw [any_eq_true, countP_pos_iff]

/-! ## The ledger -/

theorem Ledger.clear {waitable event : Nat} (hl : Ledger s)
    (hevent : s.pendingEvent waitable = some event) (s' : State)
    (hpending : s'.pendingEvent = Function.update s.pendingEvent waitable none)
    (hevents : s'.events = s.events)
    (hlogs : (∃ i, s'.delivered = s.delivered ++ [(event, i)]) ∧ s'.others = s.others ∨
      s'.delivered = s.delivered ∧ s'.others = s.others ++ [event]) : Ledger s' := by
  obtain ⟨hnotDelivered, hnotOther⟩ := hl.pending _ _ hevent
  have hold : ∀ w e, s'.pendingEvent w = some e → w ≠ waitable ∧ s.pendingEvent w = some e := by
    intro w e h
    rw [hpending, Function.update_apply] at h
    split at h
    · cases h
    · exact ⟨‹_›, h⟩
  have hother : ∀ w e, s'.pendingEvent w = some e → e ≠ event := by
    rintro w e h rfl
    obtain ⟨hne, hw⟩ := hold w _ h
    exact hne (hl.inj _ _ _ hw hevent)
  -- the event goes from the pending ones to one of the two logs
  have hmem : ∀ e, (e ∈ s'.delivered.map Prod.fst ∨ e ∈ s'.others) ↔
      (e ∈ s.delivered.map Prod.fst ∨ e ∈ s.others) ∨ e = event := by
    intro e
    rcases hlogs with ⟨⟨i, hd⟩, ho⟩ | ⟨hd, ho⟩
    · rw [hd, ho, map_append, mem_append]
      simp only [map_cons, map_nil, mem_singleton]
      tauto
    · rw [hd, ho, mem_append, mem_singleton]
      tauto
  constructor
  case once =>
    rcases hlogs with ⟨⟨i, hd⟩, -⟩ | ⟨hd, -⟩
    · rw [hd, map_append]
      refine hl.once.append (nodup_singleton _) ?_
      simpa using hnotDelivered
    · rw [hd]
      exact hl.once
  case pending =>
    intro w e h
    have hw := hl.pending w e (hold w e h).2
    have hne := hother w e h
    have := (hmem e).not
    rw [not_or, not_or, not_or] at this
    exact this.2 ⟨hw, hne⟩
  case kept =>
    intro e he
    rw [hevents] at he
    rw [hmem]
    by_cases hee : e = event
    · exact .inr (.inr hee)
    · rcases hl.kept e he with ⟨w, hw⟩ | h
      · refine .inl ⟨w, ?_⟩
        rw [hpending, Function.update_of_ne]
        · exact hw
        · rintro rfl
          exact hee (Option.some.inj (hw.symm.trans hevent))
      · exact .inr (.inl h)
  case fresh =>
    intro w e h
    rw [hevents]
    exact hl.fresh w e (hold w e h).2
  case past =>
    intro e h
    rw [hevents]
    rcases (hmem e).1 h with h | rfl
    · exact hl.past e h
    · exact hl.fresh _ _ hevent
  case inj => exact fun w w' e h h' => hl.inj w w' e (hold w e h).2 (hold w' e h').2

theorem Ledger.takeEvent (hl : Ledger s) (waitable : Nat) : Ledger (s.takeEvent waitable) := by
  unfold State.takeEvent
  cases hevent : s.pendingEvent waitable with
  | none =>
    have hsame : Function.update s.pendingEvent waitable none = s.pendingEvent := by
      rw [← hevent, Function.update_eq_self]
    unfold clearEvent
    rw [hsame]
    simpa using hl
  | some event =>
    exact hl.clear hevent _ rfl rfl (.inr ⟨rfl, rfl⟩)

theorem Ledger.setPendingEvent (hl : Ledger s) (waitable : Nat) :
    Ledger (s.setPendingEvent waitable) := by
  -- the old event is taken first, and then the new one is set
  have hl := hl.takeEvent waitable
  obtain ⟨t, ht⟩ : ∃ t, t = s.takeEvent waitable := ⟨_, rfl⟩
  have hset : (s.setPendingEvent waitable).pendingEvent =
      Function.update t.pendingEvent waitable (some t.events) := by
    subst ht
    exact (Function.update_idem _ _ _).symm
  have hevents : (s.setPendingEvent waitable).events = t.events + 1 := by
    subst ht
    rfl
  have hlogs : (s.setPendingEvent waitable).delivered = t.delivered ∧
      (s.setPendingEvent waitable).others = t.others := by
    subst ht
    exact ⟨rfl, rfl⟩
  have hnone : t.pendingEvent waitable = none := by
    subst ht
    exact Function.update_self _ _ _
  rw [← ht] at hl
  obtain ⟨u, hu⟩ : ∃ u, u = s.setPendingEvent waitable := ⟨_, rfl⟩
  rw [← hu] at hset hevents hlogs ⊢
  have hcases : ∀ w e, u.pendingEvent w = some e →
      w = waitable ∧ e = t.events ∨ t.pendingEvent w = some e := by
    intro w e h
    rw [hset, Function.update_apply] at h
    split at h
    · exact .inl ⟨‹_›, (Option.some.inj h).symm⟩
    · exact .inr h
  have hnew : t.events ∉ t.delivered.map Prod.fst ∧ t.events ∉ t.others :=
    ⟨fun h => lt_irrefl _ (hl.past _ (.inl h)), fun h => lt_irrefl _ (hl.past _ (.inr h))⟩
  constructor
  case once =>
    rw [hlogs.1]
    exact hl.once
  case pending =>
    intro w e h
    rw [hlogs.1, hlogs.2]
    rcases hcases w e h with ⟨-, rfl⟩ | h
    · exact hnew
    · exact hl.pending w e h
  case kept =>
    intro e he
    rw [hevents] at he
    rw [hlogs.1, hlogs.2]
    rcases Nat.lt_succ_iff_lt_or_eq.1 he with hlt | rfl
    · rcases hl.kept e hlt with ⟨w, hw⟩ | h
      · refine .inl ⟨w, ?_⟩
        rw [hset, Function.update_of_ne]
        · exact hw
        · rintro rfl
          rw [hnone] at hw
          cases hw
      · exact .inr h
    · refine .inl ⟨waitable, ?_⟩
      rw [hset, Function.update_self]
  case fresh =>
    intro w e h
    rw [hevents]
    rcases hcases w e h with ⟨-, rfl⟩ | h
    · exact Nat.lt_succ_self _
    · exact Nat.lt_succ_of_lt (hl.fresh w e h)
  case past =>
    intro e h
    rw [hlogs.1, hlogs.2] at h
    rw [hevents]
    exact Nat.lt_succ_of_lt (hl.past e h)
  case inj =>
    intro w w' e h h'
    rcases hcases w e h with ⟨rfl, rfl⟩ | h
    · rcases hcases w' _ h' with ⟨rfl, -⟩ | h'
      · rfl
      · exact absurd (hl.fresh _ _ h') (lt_irrefl _)
    · rcases hcases w' e h' with ⟨rfl, rfl⟩ | h'
      · exact absurd (hl.fresh _ _ h) (lt_irrefl _)
      · exact hl.inj w w' e h h'

/-! ## Steps that leave the waits alone -/

/-- The waits and their tasks are as they were. -/
structure SameWaits (s s' : State) : Prop where
  cstate : s'.cstate = s.cstate
  waiting : s'.waiting = s.waiting
  waits : s'.waits = s.waits
  rejected : s'.rejected = s.rejected
  cancelled : s'.cancelled = s.cancelled
  delivered : s'.delivered = s.delivered

theorem SameWaits.numResumed (h : SameWaits s s') : s'.numResumed = s.numResumed := by
  have hresumes : s'.resumes = s.resumes := by
    funext w
    unfold resumes
    rw [h.cstate]
  unfold State.numResumed
  rw [hresumes, h.waits]

theorem Book.same (hb : Book s) (h : SameWaits s s') : Book s' where
  inv := h.cstate ▸ hb.inv
  readyFns := h.cstate ▸ hb.readyFns
  promises := by
    rw [h.cstate, h.waits]
    exact hb.promises
  rejected := by
    rw [h.rejected, h.cancelled]
    exact hb.rejected

theorem Inv.same (hinv : Inv s) (h : SameWaits s s') (hledger : Ledger s')
    (hmembers : s'.waitables.Nodup) (hroom : s.numResumed ≤ s'.numPending) : Inv s' where
  ledger := hledger
  book := hinv.book.same h
  members := hmembers
  waiting := by
    rw [h.waiting, h.waits]
    exact hinv.waiting
  noneFailed := by
    rw [h.waits]
    exact hinv.noneFailed
  received := by
    rw [h.waits, h.delivered]
    exact hinv.received
  bounded := by
    rw [h.waits, h.delivered]
    exact hinv.bounded
  room := by
    rw [h.numResumed]
    exact hroom

theorem numPending_takeEvent (s : State) (waitable : Nat) :
    (s.takeEvent waitable).numPending = (s.clearEvent waitable).numPending := rfl

theorem Inv.takeEvent (hinv : Inv s)
    (hspare : waitable ∈ s.waitables → s.isPending waitable = true → 0 < spare s) :
    Inv (s.takeEvent waitable) := by
  have hsame : SameWaits s (s.takeEvent waitable) := ⟨rfl, rfl, rfl, rfl, rfl, rfl⟩
  apply hinv.same hsame (hinv.ledger.takeEvent waitable) hinv.members
  have hcount := numPending_clearEvent hinv.members waitable
  rw [numPending_takeEvent]
  have hroom := hinv.room
  split at hcount
  case isTrue h =>
    have := hspare h.1 h.2
    unfold spare at this
    omega
  case isFalse => omega

theorem Inv.poll (hinv : Inv s) (hspare : s.hasPendingEvent = true → 0 < spare s) :
    Inv s.poll := by
  unfold State.poll
  split
  case h_1 waitable hfind =>
    apply hinv.takeEvent
    intro hmem hpending
    exact hspare (any_eq_true.2 ⟨waitable, hmem, hpending⟩)
  case h_2 => exact hinv

/-! ## Suspension -/

variable {w : Wait}

theorem resumes_append {promises : List (Option Bool)}
    (h : s'.cstate.promises = s.cstate.promises ++ promises) (hnone : ∀ x ∈ promises, x = none) :
    s'.resumes w = s.resumes w := by
  unfold resumes
  cases w.phase with
  | awaits p =>
    dsimp only
    rw [h]
    by_cases hp : p < s.cstate.promises.length
    · rw [List.getElem?_append_left hp]
    · rw [List.getElem?_append_right (Nat.le_of_not_lt hp),
        List.getElem?_eq_none (Nat.le_of_not_lt hp)]
      cases hx : promises[p - s.cstate.promises.length]? with
      | none => rfl
      | some x =>
        rw [hnone x (mem_of_getElem? hx)]
        rfl
  | goesOn => rfl
  | received => rfl
  | taskCancelled => rfl
  | failed => rfl

/-- What `suspendTask` does to the component of a set. -/
theorem suspendTask_cstate (hb : Book s) (taskID : Nat) (componentIdx : Int) :
    ∃ promises : List (Option Bool), (∀ x ∈ promises, x = none) ∧
      (s.cstate.suspendTask taskID componentIdx true).2.promises = s.cstate.promises ++ promises ∧
      (s.cstate.suspendTask taskID componentIdx true).2.Inv ∧
      ∀ t m, (s.cstate.suspendTask taskID componentIdx true).2.getSuspendedTaskMeta t = some m →
        m.readyFn = true := by
  have hstep : SuspendedTasks.next (.suspendTask taskID componentIdx true) s.cstate
    (s.cstate.suspendTask taskID componentIdx true).2 := rfl
  have hinv := next_inv hstep hb.inv
  rcases suspendTask_spec s.cstate taskID componentIdx true with
    heq | ⟨-, hs, -⟩
  · refine ⟨[], fun x hx => absurd hx not_mem_nil, ?_, hinv, ?_⟩
    · rw [heq, append_nil]
    · rw [heq]
      exact hb.readyFns
  · refine ⟨[none], fun x hx => mem_singleton.1 hx, hs.promises, hinv, fun t m hm => ?_⟩
    rw [hs.lookup] at hm
    split at hm
    · rw [← Option.some.inj hm]
    · exact hb.readyFns t m hm

theorem Inv.suspendTask (hinv : Inv s) (taskID : Nat) (componentIdx : Int) :
    Inv { s with cstate := (s.cstate.suspendTask taskID componentIdx true).2 } := by
  obtain ⟨promises, hnone, hpromises, hcinv, hfns⟩ :=
    suspendTask_cstate hinv.book taskID componentIdx
  obtain ⟨u, hu⟩ : ∃ u, u = { s with cstate := (s.cstate.suspendTask taskID componentIdx true).2 } :=
    ⟨_, rfl⟩
  have hcstate : u.cstate = (s.cstate.suspendTask taskID componentIdx true).2 := by rw [hu]
  rw [← hcstate] at hpromises hcinv hfns
  have hresumes : u.resumes = s.resumes := funext fun w => resumes_append hpromises hnone
  have hwaits : u.waits = s.waits := by rw [hu]
  rw [← hu]
  constructor
  case ledger =>
    subst hu
    exact { hinv.ledger with }
  case book =>
    refine ⟨hcinv, hfns, fun w hw p hp => ?_, ?_⟩
    · rw [hwaits] at hw
      rw [hpromises, length_append]
      exact Nat.lt_add_right _ (hinv.book.promises w hw p hp)
    · subst hu
      exact hinv.book.rejected
  case members =>
    subst hu
    exact hinv.members
  case waiting =>
    subst hu
    exact hinv.waiting
  case noneFailed =>
    rw [hwaits]
    exact hinv.noneFailed
  case received =>
    subst hu
    exact hinv.received
  case bounded =>
    subst hu
    exact hinv.bounded
  case room =>
    unfold numResumed
    rw [hresumes, hwaits]
    have : u.numPending = s.numPending := by
      subst hu
      rfl
    rw [this]
    exact hinv.room

/-! ## A new wait -/

variable {taskID : Nat} {phase : Phase}

/-- A wait begins, and waits. -/
theorem Inv.addWait (hinv : Inv s)
    (hphase : phase = .goesOn ∨ ∃ p, phase = .awaits p ∧ p < s.cstate.promises.length)
    (hroom : s.numResumed + (if s.resumes ⟨taskID, phase⟩ then 1 else 0) ≤ s.numPending) :
    Inv { s with waiting := s.waiting + 1, waits := s.waits ++ [⟨taskID, phase⟩] } := by
  have hwaiting : isWaiting ⟨taskID, phase⟩ = true := by
    rcases hphase with rfl | ⟨p, rfl, -⟩ <;> rfl
  constructor
  case ledger =>
    exact { hinv.ledger with }
  case book =>
    refine ⟨hinv.book.inv, hinv.book.readyFns, fun w hw p hp => ?_, hinv.book.rejected⟩
    rcases mem_append.1 hw with hw | hw
    · exact hinv.book.promises w hw p hp
    · obtain rfl := mem_singleton.1 hw
      rcases hphase with rfl | ⟨q, rfl, hq⟩
      · cases hp
      · cases hp
        exact hq
  case members => exact hinv.members
  case waiting =>
    rw [countP_append, countP_singleton, if_pos hwaiting, hinv.waiting]
    push_cast
    rfl
  case noneFailed =>
    intro w hw err
    rcases mem_append.1 hw with hw | hw
    · exact hinv.noneFailed w hw err
    · obtain rfl := mem_singleton.1 hw
      rcases hphase with rfl | ⟨q, rfl, -⟩ <;> exact Phase.noConfusion
  case received =>
    intro i w event hw
    rcases Nat.lt_or_ge i s.waits.length with hi | hi
    · rw [List.getElem?_append_left hi] at hw
      exact hinv.received i w event hw
    · -- the new wait has received nothing, and no event went to its place
      have hnot : (event, i) ∉ s.delivered :=
        fun h => absurd (hinv.bounded event i h) (Nat.not_lt.2 hi)
      rw [List.getElem?_append_right hi] at hw
      obtain rfl := mem_singleton.1 (mem_of_getElem? hw)
      refine ⟨fun h => ?_, fun h => absurd h hnot⟩
      rcases hphase with rfl | ⟨q, rfl, -⟩ <;> cases h
  case bounded =>
    intro event i h
    rw [length_append]
    exact Nat.lt_add_right _ (hinv.bounded event i h)
  case room =>
    unfold numResumed
    dsimp only
    rw [countP_append, countP_singleton]
    exact hroom

theorem resumes_awaits_new {taskID promise : Nat} {c : SuspendedTasks}
    (hsuspend : s.cstate.suspendTask taskID s.cstate.componentIdx true = (.ok promise, c)) :
    promise < c.promises.length ∧ c.promises[promise]? = some none := by
  unfold suspendTask at hsuspend
  rw [if_neg (not_not.2 rfl)] at hsuspend
  split at hsuspend
  · cases hsuspend
  · obtain ⟨hpromise, hc⟩ := Prod.mk.inj hsuspend
    cases hpromise
    have hpromises : c.promises = s.cstate.promises ++ [none] := by
      rw [← hc]
      obtain ⟨tickLoop, timers, hrun⟩ := runTickLoop_eq
        (addSuspendedTaskMeta
          { s.cstate with promises := s.cstate.promises ++ [none] }
          ⟨taskID, true, s.cstate.promises.length⟩)
      rw [hrun]
      rfl
    rw [hpromises]
    refine ⟨?_, List.getElem?_concat_length⟩
    rw [length_append]
    exact Nat.lt_succ_self _

theorem suspendTask_ok (hnone : s.cstate.getSuspendedTaskMeta taskID = none) :
    ∃ promise c, s.cstate.suspendTask taskID s.cstate.componentIdx true = (.ok promise, c) := by
  unfold suspendTask
  rw [if_neg (not_not.2 rfl), hnone]
  exact ⟨_, _, rfl⟩

theorem waitReady_returns (s : State) (ready : Bool) :
    s.waitReady (.returns ready) = .returns (ready && s.hasPendingEvent) := rfl

/-- The call of `waitUntil` counts the wait before it does anything else. -/
theorem waitReady_waiting (s : State) (x : Int) (r : Ready) :
    ({ s with waiting := x } : State).waitReady r = s.waitReady r := by
  cases r <;> rfl

theorem Inv.waitUntil {componentIdx : Int} {readyFn : Ready} {coinFlip : Bool}
    (hinv : Inv s) (hsafe : Safe (.waitUntil taskID componentIdx readyFn coinFlip) s) :
    Inv (s.waitUntil taskID componentIdx readyFn coinFlip) := by
  obtain ⟨ready, rfl, hcond⟩ := hsafe
  unfold State.waitUntil
  dsimp only
  rw [waitReady_waiting, waitReady_returns]
  dsimp only
  split at hcond
  case isTrue hcoin =>
    rw [if_pos hcoin]
    refine hinv.addWait (.inl rfl) ?_
    unfold spare at hcond
    have : s.resumes ⟨taskID, .goesOn⟩ = true := rfl
    rw [if_pos this]
    omega
  case isFalse hcoin =>
    obtain ⟨rfl, hnone⟩ := hcond
    rw [if_neg hcoin]
    obtain ⟨promise, c, hsuspend⟩ := suspendTask_ok hnone
    obtain ⟨hlt, hunsettled⟩ := resumes_awaits_new hsuspend
    have hinv' := hinv.suspendTask taskID s.cstate.componentIdx
    rw [hsuspend] at hinv' ⊢
    refine hinv'.addWait (.inr ⟨promise, rfl, hlt⟩) ?_
    have hno : ({ s with cstate := c } : State).resumes ⟨taskID, .awaits promise⟩ = false := by
      unfold resumes
      dsimp only
      rw [hunsettled]
      rfl
    rw [hno]
    exact hinv'.room

/-! ## Ticks -/

theorem foundReady_iff {tasks : Tasks} :
    foundReady s tasks w = true ↔ ∃ p, w.phase = .awaits p ∧
      ∃ t ∈ s.cstate.live.takeWhile tasks.goesPast, ∃ m, s.cstate.getSuspendedTaskMeta t = some m ∧
        m.promise = p ∧ tasks.readyFn t = .returns true ∧ tasks.isCancelled t = false := by
  unfold foundReady
  cases w.phase with
  | awaits p =>
    dsimp only
    rw [any_eq_true]
    constructor
    · rintro ⟨t, ht, h⟩
      cases hget : s.cstate.getSuspendedTaskMeta t with
      | none =>
        rw [hget] at h
        simp at h
      | some m =>
        rw [hget] at h
        simp only [Option.any_some, Bool.and_eq_true, decide_eq_true_eq,
          Bool.not_eq_true'] at h
        exact ⟨p, rfl, t, ht, m, hget, h.1.1, h.1.2, h.2⟩
    · rintro ⟨q, hq, t, ht, m, hget, rfl, hready, hcancelled⟩
      obtain rfl := Phase.awaits.inj hq
      refine ⟨t, ht, ?_⟩
      rw [hget, hready, hcancelled]
      simp
  | goesOn => simp
  | received => simp
  | taskCancelled => simp
  | failed => simp

/-- A tick resumes the waits that it finds ready, and no others. -/
theorem resumes_loopTick (hb : Book s) (readyFn : Nat → Ready) (w : Wait) :
    ({ s with cstate := s.cstate.loopTick (s.tasks readyFn) } : State).resumes w = true ↔
      s.resumes w = true ∨ foundReady s (s.tasks readyFn) w = true := by
  rw [foundReady_iff]
  have hticked := tick_ticked hb.inv (s.tasks readyFn)
  have hpromises := (same_loopTick s.cstate (s.tasks readyFn)).promises
  unfold resumes
  dsimp only
  cases w.phase with
  | awaits p =>
    dsimp only
    rw [hpromises, decide_eq_true_iff, decide_eq_true_iff,
      hticked.settled hb.inv hb.inv.nodup hb.readyFns hb.rejected p]
    constructor
    · rintro (h | h)
      · exact .inl h
      · exact .inr ⟨p, rfl, h⟩
    · rintro (h | ⟨q, hq, h⟩)
      · exact .inl h
      · obtain rfl := Phase.awaits.inj hq
        exact .inr h
  | goesOn => simp
  | received => simp
  | taskCancelled => simp
  | failed => simp

/-- A wait that a tick finds ready has not been resumed before. -/
theorem not_foundReady_of_resumes (hb : Book s) {tasks : Tasks}
    (h : s.resumes w = true) : foundReady s tasks w = false := by
  rw [Bool.eq_false_iff]
  intro hfound
  obtain ⟨p, hp, t, -, m, hget, rfl, -⟩ := foundReady_iff.1 hfound
  unfold resumes at h
  rw [hp] at h
  dsimp only at h
  rw [hb.inv.unsettled t m hget] at h
  simp at h

theorem numResumed_loopTick (hb : Book s) (readyFn : Nat → Ready) :
    ({ s with cstate := s.cstate.loopTick (s.tasks readyFn) } : State).numResumed =
      s.numResumed + s.waits.countP (foundReady s (s.tasks readyFn)) :=
  countP_or (fun w _ => resumes_loopTick hb readyFn w)
    fun _ _ h => not_foundReady_of_resumes hb h

theorem Book.loopTick (hb : Book s) (readyFn : Nat → Ready) :
    Book { s with cstate := s.cstate.loopTick (s.tasks readyFn) } := by
  have hticked := tick_ticked hb.inv (s.tasks readyFn)
  have hsame := same_loopTick s.cstate (s.tasks readyFn)
  refine ⟨(hticked.inv hb.inv).same hsame, fun t m hm => ?_, fun w hw p hp => ?_, hb.rejected⟩
  · rw [hsame.lookup] at hm
    exact hb.readyFns t m (hticked.lookup hm)
  · rw [hsame.promises, hticked.promises]
    exact hb.promises w hw p hp

/-- A tick changes no more than what is resumed. -/
theorem Inv.loopTick {readyFn : Nat → Ready} (hinv : Inv s) (hsafe : Safe (.loopTick readyFn) s) :
    Inv { s with cstate := s.cstate.loopTick (s.tasks readyFn) } where
  ledger := { hinv.ledger with }
  book := hinv.book.loopTick readyFn
  members := hinv.members
  waiting := hinv.waiting
  noneFailed := hinv.noneFailed
  received := hinv.received
  bounded := hinv.bounded
  room := by
    rw [numResumed_loopTick hinv.book]
    have : ((s.waits.countP (foundReady s (s.tasks readyFn)) : Nat) : Int) ≤ spare s := hsafe
    unfold spare at this
    change _ ≤ s.numPending
    omega

/-! ## The end of a wait -/

theorem isWaiting_of_resumes (h : s.resumes w = true) : isWaiting w = true := by
  unfold resumes at h
  unfold isWaiting
  cases hphase : w.phase <;> rw [hphase] at h <;> first | rfl | cases h

theorem setPhase_waits (s : State) (i : Nat) (phase : Phase) :
    (s.setPhase i phase).waits = s.waits.modify i fun w => { w with phase } := rfl

variable {i : Nat}

/-- The wait at the place `i` has ended. -/
theorem countP_setPhase (hw : s.waits[i]? = some w) {p : Wait → Bool}
    (hp : p w = true) (phase : Phase) (hphase : p ⟨w.taskID, phase⟩ = false) :
    (s.setPhase i phase).waits.countP p + 1 = s.waits.countP p := by
  have := countP_modify (p := p) (f := fun w => { w with phase }) hw
  rw [if_pos hp, if_neg (by rw [hphase]; exact Bool.false_ne_true)] at this
  exact this

theorem waits_setPhase_cases {i j : Nat}
    (h : (s.setPhase i phase).waits[j]? = some w) :
    ∃ v, s.waits[j]? = some v ∧ (j = i ∧ w = { v with phase } ∨ j ≠ i ∧ w = v) := by
  rw [setPhase_waits, List.getElem?_modify] at h
  by_cases hj : i = j
  · subst hj
    simp only [if_pos] at h
    cases hv : s.waits[i]? with
    | none =>
      rw [hv] at h
      cases h
    | some v =>
      rw [hv] at h
      exact ⟨v, rfl, .inl ⟨rfl, (Option.some.inj h).symm⟩⟩
  · simp only [if_neg hj, id_map'] at h
    exact ⟨w, h, .inr ⟨Ne.symm hj, rfl⟩⟩

theorem goOn_cases {eventFn : Except JsError Unit} (h : s.goOn i eventFn = some s') :
    ∃ w, s.waits[i]? = some w ∧ (s.resumes w = true ∧ s' = s.receive i eventFn ∨
      (s.resumes w = false ∧ isWaiting w = true ∧ ∀ event, w.phase ≠ .received event) ∧
        s' = s.receiveCancelled i) := by
  unfold goOn at h
  split at h
  · cases h
  case h_2 w hw =>
  refine ⟨w, hw, ?_⟩
  unfold resumes isWaiting
  split at h
  case h_1 hphase =>
    rw [hphase]
    exact .inl ⟨rfl, (Option.some.inj h).symm⟩
  case h_2 p hphase =>
    rw [hphase]
    dsimp only
    split at h
    case h_1 hp =>
      rw [hp]
      exact .inl ⟨by simp, (Option.some.inj h).symm⟩
    case h_2 hp =>
      rw [hp]
      exact .inr ⟨⟨by simp, rfl, fun _ => Phase.noConfusion⟩, (Option.some.inj h).symm⟩
    case h_3 => cases h
  case h_3 => cases h

theorem goOn_of_resumes (hw : s.waits[i]? = some w) (h : s.resumes w = true)
    (eventFn : Except JsError Unit) : s.goOn i eventFn = some (s.receive i eventFn) := by
  unfold resumes at h
  unfold goOn
  rw [hw]
  dsimp only
  split at h
  case h_1 p hphase =>
    rw [hphase]
    dsimp only
    rw [decide_eq_true_iff] at h
    rw [h]
  case h_2 hphase => rw [hphase]
  case h_3 => cases h

theorem find?_isPending (h : 0 < s.numPending) : ∃ waitable event,
    s.waitables.find? s.isPending = some waitable ∧ waitable ∈ s.waitables ∧
      s.pendingEvent waitable = some event := by
  obtain ⟨x, hx, hpending⟩ := countP_pos_iff.1 h
  cases hfind : s.waitables.find? s.isPending with
  | none => exact absurd hpending (by simpa using List.find?_eq_none.1 hfind x hx)
  | some waitable =>
    obtain ⟨event, hevent⟩ := isPending_iff.1 (List.find?_some hfind)
    exact ⟨waitable, event, rfl, mem_of_find?_eq_some hfind, hevent⟩

/-- The wait takes the event of a member. -/
theorem receive_ok {i waitable event : Nat} (hfind : s.waitables.find? s.isPending = some waitable)
    (hevent : s.pendingEvent waitable = some event) : s.receive i (.ok ()) =
      { (s.clearEvent waitable).setPhase i (.received event) with
        waiting := s.waiting - 1
        delivered := s.delivered ++ [(event, i)] } := by
  unfold receive
  rw [hfind]
  dsimp only
  rw [hevent]

/-- A wait that ends without a failure leaves the other waits in order. -/
theorem Book.setPhase (hb : Book s) (i : Nat) (phase : Phase) (hphase : ∀ p, phase ≠ .awaits p) :
    Book (s.setPhase i phase) := by
  refine ⟨hb.inv, hb.readyFns, fun w hw p hp => ?_, hb.rejected⟩
  obtain ⟨j, hj⟩ := List.getElem?_of_mem hw
  obtain ⟨v, hv, ⟨-, rfl⟩ | ⟨-, rfl⟩⟩ := waits_setPhase_cases hj
  · exact absurd hp (hphase p)
  · exact hb.promises _ (mem_of_getElem? hv) p hp

theorem noneFailed_setPhase (h : ∀ w ∈ s.waits, ∀ err, w.phase ≠ .failed err) (i : Nat)
    (hphase : ∀ err, phase ≠ .failed err) :
    ∀ w ∈ (s.setPhase i phase).waits, ∀ err, w.phase ≠ .failed err := by
  intro w hw err
  obtain ⟨j, hj⟩ := List.getElem?_of_mem hw
  obtain ⟨v, hv, ⟨-, rfl⟩ | ⟨-, rfl⟩⟩ := waits_setPhase_cases hj
  · exact hphase err
  · exact h _ (mem_of_getElem? hv) err

theorem not_received_of_resumes (h : s.resumes w = true) (event : Nat) :
    w.phase ≠ .received event := by
  intro hphase
  unfold resumes at h
  rw [hphase] at h
  cases h

theorem Inv.receive (hinv : Inv s) (hw : s.waits[i]? = some w)
    (hresumes : s.resumes w = true) : Inv (s.receive i (.ok ())) := by
  have hpos : 0 < s.numResumed :=
    countP_pos_iff.2 ⟨w, mem_of_getElem? hw, hresumes⟩
  obtain ⟨waitable, event, hfind, hmem, hevent⟩ := find?_isPending (hpos.trans_le hinv.room)
  rw [receive_ok hfind hevent]
  have hpending := numPending_clearEvent hinv.members waitable
  rw [if_pos ⟨hmem, isPending_iff.2 ⟨event, hevent⟩⟩] at hpending
  have hresumed := countP_setPhase hw hresumes (.received event) rfl
  have hwaiting := countP_setPhase hw (isWaiting_of_resumes hresumes) (.received event) rfl
  constructor
  case ledger => exact hinv.ledger.clear hevent _ rfl rfl (.inl ⟨⟨i, rfl⟩, rfl⟩)
  case book =>
    have := hinv.book.setPhase i (.received event) fun _ => Phase.noConfusion
    exact ⟨this.inv, this.readyFns, this.promises, this.rejected⟩
  case members => exact hinv.members
  case waiting =>
    change s.waiting - 1 = ((s.setPhase i (.received event)).waits.countP isWaiting : Int)
    rw [hinv.waiting]
    omega
  case noneFailed =>
    exact noneFailed_setPhase hinv.noneFailed i fun _ => Phase.noConfusion
  case received =>
    intro j v e hv
    change (s.setPhase i (.received event)).waits[j]? = some v at hv
    change _ ↔ (e, j) ∈ s.delivered ++ [(event, i)]
    rw [mem_append, mem_singleton, Prod.mk.injEq]
    obtain ⟨u, hu, ⟨rfl, rfl⟩ | ⟨hne, rfl⟩⟩ := waits_setPhase_cases hv
    · -- the wait had no event before
      cases hw.symm.trans hu
      have hnot : (e, j) ∉ s.delivered := fun h =>
        not_received_of_resumes hresumes e ((hinv.received j w e hw).2 h)
      simp only [Phase.received.injEq, hnot, false_or, and_true]
      exact eq_comm
    · rw [hinv.received j v e hu]
      simp [hne]
  case bounded =>
    intro e j h
    change j < ((s.setPhase i (.received event)).waits).length
    rw [setPhase_waits, length_modify]
    rcases mem_append.1 h with h | h
    · exact hinv.bounded e j h
    · cases mem_singleton.1 h
      exact (List.getElem?_eq_some_iff.1 hw).1
  case room =>
    have hroom := hinv.room
    change (s.setPhase i (.received event)).waits.countP s.resumes ≤
      (s.clearEvent waitable).numPending
    unfold numResumed at hroom
    omega

theorem Inv.receiveCancelled (hinv : Inv s) (hw : s.waits[i]? = some w)
    (hresumes : s.resumes w = false) (hwaits : isWaiting w = true)
    (hphase : ∀ event, w.phase ≠ .received event) : Inv (s.receiveCancelled i) := by
  have hwaiting := countP_setPhase hw hwaits .taskCancelled rfl
  have hresumed := countP_modify (p := s.resumes)
    (f := fun w : Wait => { w with phase := .taskCancelled }) hw
  have hnot : s.resumes { w with phase := .taskCancelled } = false := rfl
  rw [hresumes, hnot] at hresumed
  constructor
  case ledger => exact { hinv.ledger with }
  case book =>
    have := hinv.book.setPhase i .taskCancelled fun _ => Phase.noConfusion
    exact ⟨this.inv, this.readyFns, this.promises, this.rejected⟩
  case members => exact hinv.members
  case waiting =>
    change s.waiting - 1 = ((s.setPhase i .taskCancelled).waits.countP isWaiting : Int)
    rw [hinv.waiting]
    omega
  case noneFailed =>
    exact noneFailed_setPhase hinv.noneFailed i fun _ => Phase.noConfusion
  case received =>
    intro j v e hv
    change (s.setPhase i .taskCancelled).waits[j]? = some v at hv
    change _ ↔ (e, j) ∈ s.delivered
    obtain ⟨u, hu, ⟨rfl, rfl⟩ | ⟨-, rfl⟩⟩ := waits_setPhase_cases hv
    · cases hw.symm.trans hu
      rw [← hinv.received j w e hw]
      exact ⟨fun h => Phase.noConfusion h, fun h => absurd h (hphase e)⟩
    · exact hinv.received j v e hu
  case bounded =>
    intro e j h
    change j < ((s.setPhase i .taskCancelled).waits).length
    rw [setPhase_waits, length_modify]
    exact hinv.bounded e j h
  case room =>
    change (s.waits.modify i _).countP s.resumes ≤ s.numPending
    have hroom := hinv.room
    simp only [Bool.false_eq_true, if_false, Nat.add_zero] at hresumed
    rw [hresumed]
    exact hroom

/-! ## Runs -/

theorem next_inv {call : Call} (hstep : next call s s') (hsafe : Safe call s) (hinv : Inv s) :
    Inv s' := by
  -- A step that takes an event needs one to spare; the others keep the ledger.
  cases call with
  | setPendingEvent waitable =>
    obtain rfl := hstep
    exact hinv.same ⟨rfl, rfl, rfl, rfl, rfl, rfl⟩ (hinv.ledger.setPendingEvent waitable)
      hinv.members (hinv.room.trans (numPending_setPendingEvent_le s waitable))
  | addWaitable waitable =>
    obtain rfl := hstep
    have hmembers : (s.addWaitable waitable).waitables.Nodup := by
      refine (hinv.members.filter _).append (nodup_singleton _) ?_
      simp
    exact hinv.same ⟨rfl, rfl, rfl, rfl, rfl, rfl⟩
      { hinv.ledger with } hmembers
      (hinv.room.trans (numPending_addWaitable_le hinv.members waitable))
  | removeWaitable waitable =>
    -- the event of the waitable leaves with it
    obtain rfl := hstep
    have hcount := numPending_removeWaitable hinv.members waitable
    have hroom := hinv.room
    have hroom' : s.numResumed ≤ (s.removeWaitable waitable).numPending := by
      split at hcount
      case isTrue h =>
        have := hsafe h.1 h.2
        unfold spare at this
        omega
      case isFalse => omega
    exact hinv.same ⟨rfl, rfl, rfl, rfl, rfl, rfl⟩
      { hinv.ledger with } (hinv.members.filter _) hroom'
  | takeEvent waitable =>
    obtain rfl := hstep
    exact hinv.takeEvent hsafe
  | poll =>
    obtain rfl := hstep
    exact hinv.poll hsafe
  | cancelTask taskID =>
    obtain rfl := hstep
    refine { hinv with
      ledger := { hinv.ledger with }
      book := ⟨hinv.book.inv, hinv.book.readyFns, hinv.book.promises, fun t h => ?_⟩ }
    dsimp only at h ⊢
    rw [Function.update_apply]
    split
    · rfl
    · exact hinv.book.rejected t h
  | rejectTask taskID =>
    obtain rfl := hstep
    refine { hinv with
      ledger := { hinv.ledger with }
      book := ⟨hinv.book.inv, hinv.book.readyFns, hinv.book.promises, fun t h => ?_⟩ }
    dsimp only at h ⊢
    rw [Function.update_apply] at h ⊢
    split at h
    case isTrue ht => rw [if_pos ht]
    case isFalse ht =>
      rw [if_neg ht]
      exact hinv.book.rejected t h
  | suspendTask taskID componentIdx =>
    obtain rfl := hstep
    exact hinv.suspendTask taskID componentIdx
  | waitUntil taskID componentIdx readyFn coinFlip =>
    obtain rfl := hstep
    exact hinv.waitUntil hsafe
  | loopTick readyFn =>
    obtain ⟨-, rfl⟩ := hstep
    exact hinv.loopTick hsafe
  | goOn i eventFn =>
    -- a wait goes on with an event, or because its task was cancelled
    obtain ⟨w, hw, ⟨hresumes, rfl⟩ | ⟨⟨hno, hwaits, hphase⟩, rfl⟩⟩ := goOn_cases hstep
    · obtain rfl : eventFn = .ok () := hsafe ⟨w, hw, hresumes⟩
      exact hinv.receive hw hresumes
    · exact hinv.receiveCancelled hw hno hwaits hphase

/-! ## Too many waits for the events -/

/-- More waits are resumed than there are events for them. -/
structure Deficit (s : State) : Prop where
  members : s.waitables.Nodup
  short : s.numPending < s.numResumed

/-- The waits go on one after the other, until one finds no event. -/
theorem Deficit.fails (h : Deficit s) : ∃ calls s', Run next s calls s' ∧ ¬ Delivers s' := by
  obtain ⟨n, hn⟩ : ∃ n, n = s.numPending := ⟨_, rfl⟩
  induction n generalizing s with
  | zero =>
    obtain ⟨w, hmem, hresumes⟩ := countP_pos_iff.1 (Nat.zero_lt_of_lt h.short)
    obtain ⟨i, hw⟩ := List.getElem?_of_mem hmem
    have hfind : s.waitables.find? s.isPending = none := by
      rw [List.find?_eq_none]
      exact countP_eq_zero.1 hn.symm
    refine ⟨[.goOn i (.ok ())], _, .cons (goOn_of_resumes hw hresumes _) (.nil _), ?_⟩
    intro hdelivers
    unfold receive at hdelivers
    rw [hfind] at hdelivers
    have hfailed : (s.setPhase i (.failed (.error "no waitables had a pending event"))).waits[i]? =
        some { w with phase := .failed (.error "no waitables had a pending event") } := by
      rw [setPhase_waits, List.getElem?_modify_eq, hw]
      rfl
    exact hdelivers.found _ (mem_of_getElem? hfailed) rfl
  | succ n ih =>
    obtain ⟨w, hmem, hresumes⟩ := countP_pos_iff.1 (Nat.zero_lt_of_lt h.short)
    obtain ⟨i, hw⟩ := List.getElem?_of_mem hmem
    obtain ⟨waitable, event, hfind, hmember, hevent⟩ := find?_isPending (s := s) (by omega)
    have hpending := numPending_clearEvent h.members waitable
    rw [if_pos ⟨hmember, isPending_iff.2 ⟨event, hevent⟩⟩] at hpending
    have hresumed := countP_setPhase hw hresumes (.received event) rfl
    obtain ⟨u, hu⟩ : ∃ u, u = s.receive i (.ok ()) := ⟨_, rfl⟩
    have hreceive := hu.trans (receive_ok hfind hevent)
    have hupending : u.numPending = (s.clearEvent waitable).numPending := by
      subst hreceive
      rfl
    have huresumed : u.numResumed = (s.setPhase i (.received event)).waits.countP s.resumes := by
      subst hreceive
      rfl
    have hshort : s.numPending < s.waits.countP s.resumes := h.short
    have hdeficit : Deficit u := by
      refine ⟨?_, by omega⟩
      subst hreceive
      exact h.members
    obtain ⟨calls, s', hrun, hno⟩ := ih hdeficit (by omega)
    refine ⟨.goOn i (.ok ()) :: calls, s', .cons ?_ hrun, hno⟩
    rw [hu]
    exact goOn_of_resumes hw hresumes _

/-- The count of the set is wrong at once. -/
theorem fails_of_waiting (h : s.waiting ≠ s.waits.countP isWaiting) :
    ∃ calls s', Run next s calls s' ∧ ¬ Delivers s' :=
  ⟨[], s, .nil s, fun hdelivers => h hdelivers.waiting⟩

/-- A wait that fails at once stays counted. -/
theorem fails_addWait (hinv : Inv s) {c : SuspendedTasks} {err : JsError} :
    ∃ calls s', Run next { s with
      cstate := c, waiting := s.waiting + 1, waits := s.waits ++ [⟨taskID, .failed err⟩] } calls s' ∧
        ¬ Delivers s' := by
  apply fails_of_waiting
  dsimp only
  rw [countP_append, countP_singleton, hinv.waiting]
  have : isWaiting ⟨taskID, .failed err⟩ = false := rfl
  rw [this, if_neg Bool.false_ne_true]
  omega

theorem fails_waitUntil {componentIdx : Int} {readyFn : Ready} {coinFlip : Bool}
    (hinv : Inv s) (hviolates : ¬ Safe (.waitUntil taskID componentIdx readyFn coinFlip) s) :
    ∃ calls s', Run next (s.waitUntil taskID componentIdx readyFn coinFlip) calls s' ∧
      ¬ Delivers s' := by
  unfold waitUntil
  dsimp only
  rw [waitReady_waiting]
  cases readyFn with
  | throws err => exact fails_addWait hinv
  | returns ready =>
  rw [waitReady_returns]
  dsimp only
  split
  case isTrue hcoin =>
    apply Deficit.fails
    refine ⟨hinv.members, ?_⟩
    have hspare : ¬ 0 < spare s := fun h => hviolates ⟨ready, rfl, by rwa [if_pos hcoin]⟩
    unfold spare at hspare
    unfold numResumed
    dsimp only
    rw [countP_append, countP_singleton]
    have : s.resumes ⟨taskID, .goesOn⟩ = true := rfl
    change s.numPending < s.numResumed + if s.resumes ⟨taskID, .goesOn⟩ = true then 1 else 0
    rw [if_pos this]
    omega
  case isFalse hcoin =>
    have herr : ∃ err, s.cstate.suspendTask taskID componentIdx true = (.error err, s.cstate) := by
      unfold suspendTask
      split
      · exact ⟨_, rfl⟩
      case isFalse hidx =>
      split
      · exact ⟨_, rfl⟩
      case isFalse hsome =>
        refine absurd ⟨ready, rfl, ?_⟩ hviolates
        rw [if_neg hcoin]
        exact ⟨not_not.1 hidx, by simpa using hsome⟩
    obtain ⟨err, herr⟩ := herr
    rw [herr]
    exact fails_addWait hinv

theorem fails_takeEvent (hinv : Inv s) (hmem : waitable ∈ s.waitables)
    (hpending : s.isPending waitable = true) (hspare : ¬ 0 < spare s) :
    ∃ calls s', Run next (s.takeEvent waitable) calls s' ∧ ¬ Delivers s' := by
  apply Deficit.fails
  refine ⟨hinv.members, ?_⟩
  have hcount := numPending_clearEvent hinv.members waitable
  rw [if_pos ⟨hmem, hpending⟩] at hcount
  have hresumed : (s.takeEvent waitable).numResumed = s.numResumed := rfl
  rw [numPending_takeEvent, hresumed]
  unfold spare at hspare
  omega

/-- A step that is not safe lets a run follow in which a wait fails. -/
theorem fails_of_not_safe {call : Call} (hstep : next call s s') (hviolates : ¬ Safe call s)
    (hinv : Inv s) : ∃ calls u, Run next s' calls u ∧ ¬ Delivers u := by
  cases call with
  | setPendingEvent => exact absurd trivial hviolates
  | addWaitable => exact absurd trivial hviolates
  | cancelTask => exact absurd trivial hviolates
  | rejectTask => exact absurd trivial hviolates
  | suspendTask => exact absurd trivial hviolates
  | removeWaitable waitable =>
    obtain rfl := hstep
    unfold Safe at hviolates
    simp only [Classical.not_imp] at hviolates
    obtain ⟨hmem, hpending, hspare⟩ := hviolates
    apply Deficit.fails
    refine ⟨hinv.members.filter _, ?_⟩
    have hcount := numPending_removeWaitable hinv.members waitable
    rw [if_pos ⟨hmem, hpending⟩] at hcount
    have hresumed : (s.removeWaitable waitable).numResumed = s.numResumed := rfl
    rw [hresumed]
    unfold spare at hspare
    omega
  | takeEvent waitable =>
    obtain rfl := hstep
    unfold Safe at hviolates
    simp only [Classical.not_imp] at hviolates
    obtain ⟨hmem, hpending, hspare⟩ := hviolates
    exact fails_takeEvent hinv hmem hpending hspare
  | poll =>
    obtain rfl := hstep
    unfold Safe at hviolates
    simp only [Classical.not_imp] at hviolates
    obtain ⟨hpending, hspare⟩ := hviolates
    obtain ⟨waitable, event, hfind, hmem, hevent⟩ := find?_isPending (hasPendingEvent_iff.1 hpending)
    unfold poll
    rw [hfind]
    exact fails_takeEvent hinv hmem (isPending_iff.2 ⟨event, hevent⟩) hspare
  | waitUntil taskID componentIdx readyFn coinFlip =>
    obtain rfl := hstep
    exact fails_waitUntil hinv hviolates
  | loopTick readyFn =>
    obtain ⟨-, rfl⟩ := hstep
    apply Deficit.fails
    refine ⟨hinv.members, ?_⟩
    rw [numResumed_loopTick hinv.book]
    unfold Safe spare at hviolates
    change s.numPending < _
    omega
  | goOn i eventFn =>
    obtain ⟨w, hw, ⟨hresumes, rfl⟩ | ⟨⟨hno, -⟩, -⟩⟩ := goOn_cases hstep
    swap
    · refine absurd ?_ hviolates
      rintro ⟨v, hv, hresumes⟩
      cases hw.symm.trans hv
      rw [hno] at hresumes
      cases hresumes
    cases eventFn with
    | ok => exact absurd (fun _ => rfl) hviolates
    | error err =>
      -- the event is lost with the wait
      have hpos : 0 < s.numResumed :=
        countP_pos_iff.2 ⟨w, mem_of_getElem? hw, hresumes⟩
      obtain ⟨waitable, event, hfind, -, hevent⟩ := find?_isPending (hpos.trans_le hinv.room)
      apply fails_of_waiting
      unfold receive
      rw [hfind]
      dsimp only
      rw [hevent]
      have hwaiting := countP_setPhase hw (isWaiting_of_resumes hresumes) (.failed err) rfl
      change s.waiting ≠ ((s.setPhase i (.failed err)).waits.countP isWaiting : Int)
      rw [hinv.waiting]
      omega

/-- While an event is pending, a tick resumes every wait whose caller is ready,
unless it leaves early. -/
theorem resumes_of_pending {readyFn : Nat → Ready} (hinv : Inv s) (hpending : s.hasPendingEvent = true)
    (hpast : ∀ t ∈ s.cstate.live, (s.tasks readyFn).goesPast t = true) (hw : w ∈ s.waits)
    {t : Nat} {m : SuspendedTaskMeta} (hget : s.cstate.getSuspendedTaskMeta t = some m)
    (hphase : w.phase = .awaits m.promise) (hready : readyFn t = .returns true)
    (hcancelled : s.cancelled t = false) :
    ({ s with cstate := s.cstate.loopTick (s.tasks readyFn) } : State).resumes w = true := by
  rw [resumes_loopTick hinv.book]
  right
  rw [foundReady_iff]
  have hwaiter : s.isWaiter t = true := by
    unfold isWaiter
    rw [hget]
    exact any_eq_true.2 ⟨w, hw, by simpa using hphase⟩
  have hall : s.cstate.live.takeWhile (s.tasks readyFn).goesPast = s.cstate.live :=
    takeWhile_eq_self_iff.2 hpast
  refine ⟨m.promise, hphase, t, ?_, m, hget, rfl, ?_, hcancelled⟩
  · rw [hall, hinv.book.inv.ids, hget]
    rfl
  · unfold tasks
    dsimp only
    rw [if_pos hwaiter, hready, waitReady_returns, hpending]
    rfl

/-- As long as every tick finds an event for each wait that it finds ready, and no
wait fails in another way, each wait that is resumed receives an event of its own,
and the set counts the tasks that wait; a wait fails in some run after any other
step. While an event is pending, a tick that comes past all tasks resumes every
wait whose caller is ready. -/
theorem waits_delivered {componentIdx : Int} {calls : List Call}
    (hrun : Run (guarded Safe next) (.init componentIdx) calls s) :
    Delivers s ∧
      (∀ call s', next call s s' → (Safe call s → Delivers s') ∧
        (¬ Safe call s → ∃ calls' u, Run next s' calls' u ∧ ¬ Delivers u)) ∧
      ∀ readyFn s', next (.loopTick readyFn) s s' → s.hasPendingEvent = true →
        (∀ t ∈ s.cstate.live, (s.tasks readyFn).goesPast t = true) →
        ∀ w ∈ s.waits, ∀ t m, s.cstate.getSuspendedTaskMeta t = some m →
          w.phase = .awaits m.promise → readyFn t = .returns true → s.cancelled t = false →
          s'.resumes w = true := by
  have hstep : ∀ (call : Call) (t t' : State), guarded Safe next call t t' → Inv t → Inv t' :=
    fun call t t' h hi => next_inv h.2 h.1 hi
  have hinv : Inv s := Run.invariant hstep hrun (.init componentIdx)
  refine ⟨hinv.delivers, fun call s' hnext => ⟨fun hsafe => ?_, fun hviolates => ?_⟩, ?_⟩
  · exact (next_inv hnext hsafe hinv).delivers
  · exact fails_of_not_safe hnext hviolates hinv
  · intro readyFn s' hnext hpending hpast w hw t m hget hphase hready hcancelled
    obtain ⟨-, rfl⟩ := hnext
    exact resumes_of_pending hinv hpending hpast hw hget hphase hready hcancelled

/-- Two tasks wait, and each receives one of the two events that are set. -/
def twoEvents : List Call :=
  [.addWaitable 7, .addWaitable 8, .waitUntil 1 0 (.returns true) false,
    .waitUntil 2 0 (.returns true) false, .setPendingEvent 7, .setPendingEvent 8,
    .loopTick fun _ => .returns true, .goOn 1 (.ok ()), .goOn 0 (.ok ())]

theorem twoEvents_run : ∃ s, Run (guarded Safe next) (.init 0) twoEvents s ∧
    s.delivered = [(0, 1), (1, 0)] ∧ s.waiting = 0 := by
  refine ⟨_, .cons ⟨trivial, rfl⟩ <| .cons ⟨trivial, rfl⟩ <|
    .cons ⟨⟨true, rfl, rfl, rfl⟩, rfl⟩ <| .cons ⟨⟨true, rfl, rfl, rfl⟩, rfl⟩ <|
    .cons ⟨trivial, rfl⟩ <| .cons ⟨trivial, rfl⟩ <| .cons ⟨?_, Nat.one_pos, rfl⟩ <|
    .cons ⟨fun _ => rfl, rfl⟩ <| .cons ⟨fun _ => rfl, rfl⟩ <| .nil _, rfl, rfl⟩
  unfold Safe
  decide

theorem waits_delivered_twoEvents :
    ∃ s, Run (guarded Safe next) (.init 0) twoEvents s ∧ Delivers s := by
  obtain ⟨s, hrun, -⟩ := twoEvents_run
  exact ⟨s, hrun, (waits_delivered hrun).1⟩

/-- Two tasks wait, and one event is set. -/
def twoWaiters : List Call :=
  [.addWaitable 7, .waitUntil 1 0 (.returns true) false, .waitUntil 2 0 (.returns true) false,
    .setPendingEvent 7, .loopTick fun _ => .returns true, .goOn 0 (.ok ()), .goOn 1 (.ok ())]

/-- The second wait fails, and stays counted. -/
theorem twoWaiters_run : ∃ s, Run next (.init 0) twoWaiters s ∧
    s.waits[1]? = some ⟨2, .failed (.error "no waitables had a pending event")⟩ ∧ s.waiting = 1 :=
  ⟨_, .cons rfl <| .cons rfl <| .cons rfl <| .cons rfl <| .cons ⟨Nat.one_pos, rfl⟩ <|
    .cons rfl <| .cons rfl <| .nil _, rfl, rfl⟩

theorem twoWaiters_not_delivered : ¬ ∀ (calls : List Call) (s : State),
    Run next (.init 0) calls s → Delivers s := by
  intro hall
  obtain ⟨s, hrun, hfailed, -⟩ := twoWaiters_run
  exact (hall _ s hrun).found _ (mem_of_getElem? hfailed) rfl

end Jco.Component.WaitableSet

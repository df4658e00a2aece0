import Jco.Component.Slots

/-! # The exclusive lock

The lock is never refused: `exclusiveLock` sets the flag, and `exclusiveRelease`
clears it whoever calls. The tasks that come by `enter` are kept apart by their
slots; a task that comes by `enterSync` is not.
-/

namespace Jco.Component.Execution

open Jco.Js Jco.Lib

variable {s s' : State}

/-! ## The invariant -/

/-- From the lock to the exit, or to the wait of the driver loop. -/
def Holding : Phase → Prop
  | .ready _ => True
  | .guest _ => True
  | .returned _ _ => True
  | _ => False

structure Locks (s : State) : Prop where
  single : ∀ t ∈ s.holders, ∀ u ∈ s.holders, t = u
  locked : s.locked = true ↔ ∃ t, t ∈ s.holders
  holding : ∀ t, Holding (s.phase t) → t ∈ s.holders
  phases : ∀ t ∈ s.holders, Holding (s.phase t) ∨ s.phase t = .left

theorem Locks.init (kinds : Nat → Kind) : Locks (.init kinds) where
  single _ h := absurd h List.not_mem_nil
  locked := ⟨fun h => Bool.noConfusion h, fun ⟨_, h⟩ => absurd h List.not_mem_nil⟩
  holding _ h := h.elim
  phases _ h := absurd h List.not_mem_nil

theorem Locks.exclusive (hl : Locks s) : Exclusive s where
  single := hl.single
  locked := hl.locked
  guest t inLoop h := by
    apply hl.holding
    rcases h with h | h <;> rw [h] <;> trivial

/-- The tasks that hold the lock are where they were, and no others are there. -/
theorem Locks.same (hl : Locks s) (hlocked : s'.locked = s.locked)
    (hholders : s'.holders = s.holders) (hholding : ∀ t, Holding (s'.phase t) → Holding (s.phase t))
    (hphases : ∀ t, Holding (s.phase t) ∨ s.phase t = .left →
      Holding (s'.phase t) ∨ s'.phase t = .left) : Locks s' := by
  constructor
  case single =>
    rw [hholders]
    exact hl.single
  case locked =>
    rw [hlocked, hholders]
    exact hl.locked
  case holding =>
    rw [hholders]
    exact fun t h => hl.holding t (hholding t h)
  case phases =>
    rw [hholders]
    exact fun t h => hphases t (hl.phases t h)

theorem Locks.still (hl : Locks s) (h : Still s s') : Locks s' := by
  refine hl.same h.locked h.holders (fun t ht => ?_) fun t ht => ?_
  · rwa [h.phase] at ht
  · rwa [h.phase]

/-! ## Moves -/

variable {p p' : Phase}

theorem Allowed.keep {k : Kind} {r : Bool} (h : Allowed k r p .keep p') :
    (Holding p' → Holding p) ∧ (Holding p ∨ p = .left → Holding p' ∨ p' = .left) := by
  cases h <;> simp [Holding]

theorem Allowed.release {k : Kind} {r : Bool} (h : Allowed k r p .release p') :
    Holding p ∧ ¬ Holding p' := by
  cases h <;> simp [Holding]

theorem Allowed.ne_lock {k : Kind} {r : Bool} {op : LockOp}
    (h : Allowed k r p op p') :
    op ≠ .lock := by
  cases h <;> exact LockOp.noConfusion

variable {t : Nat}

theorem Locks.keep (hl : Locks s) (hmove : Move s s' t .keep p p')
    (hholding : Holding p' → Holding p)
    (hphases : Holding p ∨ p = .left → Holding p' ∨ p' = .left) : Locks s' := by
  refine hl.same hmove.locked hmove.holders (fun u hu => ?_) fun u hu => ?_
  · by_cases hut : u = t
    · subst hut
      rw [hmove.after] at hu
      rw [hmove.before]
      exact hholding hu
    · rwa [hmove.others u hut] at hu
  · by_cases hut : u = t
    · subst hut
      rw [hmove.before] at hu
      rw [hmove.after]
      exact hphases hu
    · rwa [hmove.others u hut]

/-- The holder gives the lock back, and nobody has it. -/
theorem Locks.release (hl : Locks s) (hmove : Move s s' t .release p p')
    (hp : Holding p) (hp' : ¬ Holding p') : t ∈ s.holders ∧ Locks s' := by
  have hmem : t ∈ s.holders := by
    apply hl.holding
    rw [hmove.before]
    exact hp
  have hnone : ∀ u, u ∉ s'.holders := by
    intro u hu
    rw [hmove.holders] at hu
    obtain ⟨hu, hne⟩ := List.mem_filter.1 hu
    exact absurd (hl.single u hu t hmem) (by simpa using hne)
  refine ⟨hmem, ?_⟩
  constructor
  case single => exact fun u hu => absurd hu (hnone u)
  case locked =>
    rw [hmove.locked]
    exact ⟨fun h => Bool.noConfusion h, fun ⟨u, hu⟩ => absurd hu (hnone u)⟩
  case holding =>
    intro u hu
    by_cases hut : u = t
    · subst hut
      rw [hmove.after] at hu
      exact absurd hu hp'
    · rw [hmove.others u hut] at hu
      exact absurd (hl.single u (hl.holding u hu) t hmem) hut
  case phases => exact fun u hu => absurd hu (hnone u)

/-- A task takes the lock that nobody has. -/
theorem Locks.lock (hl : Locks s) (hmove : Move s s' t .lock p p')
    (hfree : s.locked = false) (hp' : p' = .left ∨ ∃ inLoop, p' = .ready inLoop) : Locks s' := by
  have hnone : ∀ u, u ∉ s.holders := by
    intro u hu
    rw [hl.locked.2 ⟨u, hu⟩] at hfree
    cases hfree
  have hholders : ∀ u, u ∈ s'.holders ↔ u = t := by
    intro u
    rw [hmove.holders]
    change u ∈ t :: s.holders ↔ u = t
    rw [List.mem_cons]
    exact ⟨fun h => h.resolve_right (hnone u), .inl⟩
  constructor
  case single =>
    intro u hu v hv
    rw [(hholders u).1 hu, (hholders v).1 hv]
  case locked =>
    rw [hmove.locked]
    exact ⟨fun _ => ⟨t, (hholders t).2 rfl⟩, fun _ => rfl⟩
  case holding =>
    intro u hu
    rw [hholders]
    by_contra hut
    rw [hmove.others u hut] at hu
    exact hnone u (hl.holding u hu)
  case phases =>
    intro u hu
    obtain rfl := (hholders u).1 hu
    rw [hmove.after]
    rcases hp' with rfl | ⟨inLoop, rfl⟩
    · exact .inr rfl
    · exact .inl trivial

/-! ## Safe steps -/

/-- Two tasks that have come by `enter` are not inside together. -/
theorem Slots.holder_eq {t u : Nat} (hs : Slots s) (hl : Locks s)
    (ht : s.phase t = .granted ∨ s.phase t = .unblocked ∨ s.phase t = .woken)
    (hu : u ∈ s.holders) (hsync : (s.tasks u).enteredSync = false) : u = t := by
  have htsync : (s.tasks t).enteredSync = false := by
    by_contra hne
    have := hs.syncPhase t (by simpa using hne)
    rcases ht with ht | ht | ht <;> rw [ht] at this <;> exact this
  have hactive : Active s t := by
    refine ⟨htsync, ?_⟩
    rcases ht with ht | ht | ht <;> rw [ht] <;> simp
  have hactive' : Active s u := by
    refine ⟨hsync, ?_⟩
    rcases hl.phases u hu with h | h
    · refine ⟨?_, fun a => ?_, ?_⟩ <;> intro h' <;> rw [h'] at h <;> exact h
    · rw [h]
      simp
  exact (hs.active u hactive').unique (hs.active t hactive)

theorem not_mem_holders (hl : Locks s)
    (ht : s.phase t = .created ∨ s.phase t = .granted ∨ s.phase t = .unblocked ∨
      s.phase t = .woken) : t ∉ s.holders := by
  intro hmem
  have := hl.phases t hmem
  rcases ht with ht | ht | ht | ht <;> rw [ht] at this <;> simp [Holding] at this

/-- A safe call takes a lock that is free. -/
theorem free_of_safe {call : Call} (hs : Slots s) (hl : Locks s)
    (hmove : Move s s' t .lock p p')
    (hcall : p = .created ∧ (Safe call s ↔ s.locked = false) ∨
      (p = .granted ∨ p = .unblocked ∨ p = .woken) ∧
        ((Safe call s ↔ ¬ InsideSync s) ∨ Safe call s ∧ s.locked = false))
    (hsafe : Safe call s) : s.locked = false := by
  rcases hcall with ⟨-, hiff⟩ | ⟨hp, hiff | ⟨-, hfree⟩⟩
  · exact hiff.1 hsafe
  · rw [← hmove.before] at hp
    by_contra hlocked
    obtain ⟨u, hu⟩ := hl.locked.1 (by simpa using hlocked)
    have hsync : (s.tasks u).enteredSync = false := by
      by_contra hne
      exact hiff.1 hsafe ⟨u, hu, by simpa using hne⟩
    obtain rfl := hs.holder_eq hl hp hu hsync
    exact not_mem_holders hl (.inr hp) hu
  · exact hfree

/-- A task that takes a lock which is not free is a second holder. -/
theorem not_exclusive_of_not_safe {call : Call} (hl : Locks s)
    (hmove : Move s s' t .lock p p')
    (hcall : p = .created ∧ (Safe call s ↔ s.locked = false) ∨
      (p = .granted ∨ p = .unblocked ∨ p = .woken) ∧
        ((Safe call s ↔ ¬ InsideSync s) ∨ Safe call s ∧ s.locked = false))
    (hnot : ¬ Safe call s) : ¬ Exclusive s' := by
  intro hexclusive
  have hholder : ∃ u, u ∈ s.holders := by
    rcases hcall with ⟨-, hiff⟩ | ⟨-, hiff | ⟨hsafe, -⟩⟩
    · exact hl.locked.1 (by simpa using fun h => hnot (hiff.2 h))
    · obtain ⟨u, hu, -⟩ := not_not.1 fun h => hnot (hiff.2 h)
      exact ⟨u, hu⟩
    · exact absurd hsafe hnot
  have hout : t ∉ s.holders := by
    apply not_mem_holders hl
    rw [hmove.before]
    exact hcall.imp (fun h => h.1) fun h => h.1
  obtain ⟨u, hu⟩ := hholder
  have hholders : s'.holders = t :: s.holders := hmove.holders
  have := hexclusive.single t (hholders ▸ List.mem_cons_self) u
    (hholders ▸ List.mem_cons_of_mem _ hu)
  exact hout (this ▸ hu)

/-! ## Runs -/

theorem Locks.next {call : Call} (hs : Slots s) (hl : Locks s) (hstep : next call s s') :
    (Safe call s → Locks s') ∧ (¬ Safe call s → ¬ Exclusive s') ∧
      (s.locked = true → s'.locked = false → ∃ t ∈ s.holders, call.isOwnRelease t) := by
  have hsame : ∀ {P : Prop}, s'.locked = s.locked → s.locked = true → s'.locked = false → P := by
    intro P h h₁ h₂
    rw [h, h₁] at h₂
    cases h₂
  rcases next_effect hstep with ⟨hstill, hsafe⟩ | ⟨t, hphase, rfl, hsafe⟩ |
    ⟨t, a, hphase, rfl, hsafe⟩ | ⟨t, hphase, rfl, hsafe⟩ | ⟨t, hmove, hnot⟩ |
    ⟨t, op, p, p', hallowed, hmove, hsafe, hown⟩ | ⟨t, p, p', hp', -, hcall, hmove⟩
  · exact ⟨fun _ => hl.still hstill, fun h => absurd hsafe h, hsame hstill.locked⟩
  · refine ⟨fun _ => ?_, fun h => absurd hsafe h, hsame rfl⟩
    have hphase' : ∀ u, (s.enter t).phase u = if u = t then .queued s.nextTaskPromise else s.phase u :=
      fun u => phase_setPhase s t u _
    refine hl.same rfl rfl (fun u hu => ?_) fun u hu => ?_
    · rw [hphase'] at hu
      split at hu
      · exact hu.elim
      · exact hu
    · rw [hphase']
      split
      case isTrue hut =>
        rw [hut, hphase] at hu
        simp [Holding] at hu
      case isFalse => exact hu
  · obtain ⟨p, hp, hphase', -, -, -, hlocked, hholders⟩ := hs.slot_cases hphase
    refine ⟨fun _ => ?_, fun h => absurd hsafe h, hsame hlocked⟩
    refine hl.same hlocked hholders (fun u hu => ?_) fun u hu => ?_
    · rw [hphase'] at hu
      split at hu
      · rcases hp with ⟨rfl, -⟩ | ⟨rfl, -⟩ <;> exact hu.elim
      · exact hu
    · rw [hphase']
      split
      case isTrue hut =>
        rw [hut, hphase] at hu
        simp [Holding] at hu
      case isFalse => exact hu
  · exact ⟨fun _ => hl.same rfl rfl (fun _ h => h) fun _ h => h, fun h => absurd hsafe h, hsame rfl⟩
  · refine ⟨fun h => absurd h hnot, fun _ hexclusive => ?_, hsame hmove.locked⟩
    -- the task is about to run guest code without the lock
    have hmem := hexclusive.guest t false (.inl hmove.after)
    have hholders : s'.holders = s.holders := hmove.holders
    rw [hholders] at hmem
    exact not_mem_holders hl (.inr (.inl hmove.before)) hmem
  · refine ⟨fun _ => ?_, fun h => absurd hsafe h, fun hlocked hfree => ?_⟩
    · cases op with
      | keep => exact hl.keep hmove hallowed.keep.1 hallowed.keep.2
      | lock => exact absurd rfl hallowed.ne_lock
      | release => exact (hl.release hmove hallowed.release.1 hallowed.release.2).2
    · cases op with
      | keep => exact hsame hmove.locked hlocked hfree
      | lock => exact absurd rfl hallowed.ne_lock
      | release =>
        exact ⟨t, (hl.release hmove hallowed.release.1 hallowed.release.2).1, hown rfl⟩
  · refine ⟨fun hsafe => ?_, not_exclusive_of_not_safe hl hmove hcall, fun _ hfree => ?_⟩
    · exact hl.lock hmove (free_of_safe hs hl hmove hcall hsafe) hp'
    · have hlocked : s'.locked = true := hmove.locked
      rw [hlocked] at hfree
      cases hfree

/-- As long as `enterSync` finds the component free, and no task goes on from its
slot or its wait while one is inside that came by `enterSync`, one task holds the
lock at most and guest code runs under it; another step is the end of this. The
lock is given back by its holder only. -/
theorem exclusive_run {kinds : Nat → Kind} {calls : List Call}
    (hrun : Run (guarded Safe next) (.init kinds) calls s) :
    Exclusive s ∧ ∀ call s', next call s s' → (Exclusive s' ↔ Safe call s) ∧
      (s.locked = true → s'.locked = false → ∃ t ∈ s.holders, call.isOwnRelease t) := by
  have hstep : ∀ (call : Call) (t t' : State), guarded Safe next call t t' →
      (Slots t ∧ Locks t) → Slots t' ∧ Locks t' :=
    fun call t t' h hi => ⟨hi.1.next h.2, (hi.2.next hi.1 h.2).1 h.1⟩
  obtain ⟨hs, hl⟩ := Run.invariant hstep hrun ⟨.init kinds, .init kinds⟩
  refine ⟨hl.exclusive, fun call s' hnext => ?_⟩
  obtain ⟨hsafe, hnot, hrelease⟩ := hl.next hs hnext
  refine ⟨⟨fun hexclusive => ?_, fun h => (hsafe h).exclusive⟩, hrelease⟩
  by_contra h
  exact hnot h hexclusive

/-- Task `0` has a callback, the others are synchronous. -/
def oneCallback : Nat → Kind := fun t => if t = 0 then .callback else .sync false

/-- Whatever becomes of the lock, one task has a slot at most: the first that entered
of those that are not over. -/
theorem slot_exclusive {kinds : Nat → Kind} {calls : List Call} {t : Nat}
    (hrun : Run next (.init kinds) calls s) (ht : Active s t) :
    (∀ u, Active s u → u = t) ∧ ∃ before after,
      s.nextTaskQueue = before ++ ⟨t, false⟩ :: after ∧ ∀ p ∈ before, p.completed = true := by
  have hs : Slots s := hrun.invariant (fun _ _ _ hnext h => h.next hnext) (.init kinds)
  have hfirst := hs.active t ht
  obtain ⟨-, before, after, heq, hover⟩ := List.find?_eq_some_iff_append.1 hfirst
  exact ⟨fun u hu => (hs.active u hu).unique hfirst, before, after, heq, by simpa using hover⟩

theorem slot_exclusive_enter :
    ∃ s, Run next (.init oneCallback) [.enter 0, .slot 0, .enter 1] s ∧ ∀ u, Active s u → u = 0 :=
  ⟨_, .cons rfl <| .cons rfl <| .cons rfl <| .nil _,
    (@slot_exclusive _ oneCallback [.enter 0, .slot 0, .enter 1] 0
      (.cons rfl <| .cons rfl <| .cons rfl <| .nil _)
      ⟨rfl, Phase.noConfusion, fun _ => Phase.noConfusion, Phase.noConfusion⟩).1⟩

/-- A callback task waits once; a synchronous call comes while it waits. -/
def callWhileWaiting : List Call :=
  [.enter 0, .slot 0, .proceed 0, .run 0, .returns 0 .yield, .loop 0, .enterSync 1, .run 1,
    .returns 1 .exit, .wake 0, .relock 0 true, .run 0, .resolve 0, .returns 0 .exit, .loop 0]

theorem callWhileWaiting_run : ∃ s,
    Run (guarded Safe next) (.init oneCallback) callWhileWaiting s ∧ s.locked = false := by
  have hfree : ∀ s : State, s.holders = [] → ¬ InsideSync s := by
    rintro s hnil ⟨t, ht, -⟩
    rw [hnil] at ht
    exact List.not_mem_nil ht
  refine ⟨_, .cons ⟨trivial, rfl⟩ <| .cons ⟨trivial, rfl⟩ <|
    .cons ⟨fun h => Bool.noConfusion h, rfl⟩ <| .cons ⟨trivial, rfl⟩ <| .cons ⟨trivial, rfl⟩ <|
    .cons ⟨trivial, rfl⟩ <| .cons ⟨rfl, rfl⟩ <| .cons ⟨trivial, rfl⟩ <| .cons ⟨trivial, rfl⟩ <|
    .cons ⟨trivial, rfl⟩ <| .cons ⟨hfree _ rfl, rfl⟩ <| .cons ⟨trivial, rfl⟩ <|
    .cons ⟨trivial, rfl⟩ <| .cons ⟨trivial, rfl⟩ <| .cons ⟨trivial, rfl⟩ <| .nil _, rfl⟩

theorem exclusive_run_callWhileWaiting : ∃ s,
    Run (guarded Safe next) (.init oneCallback) callWhileWaiting s ∧ Exclusive s := by
  obtain ⟨s, hrun, -⟩ := callWhileWaiting_run
  exact ⟨s, hrun, (exclusive_run hrun).1⟩

/-- A synchronous call comes while the guest code of the callback task waits for
an import, and is over before the guest code goes on. -/
def callWhileRunning : List Call :=
  [.enter 0, .slot 0, .proceed 0, .run 0, .enterSync 1, .run 1, .returns 1 .exit]

/-- The callback task runs without the lock. -/
theorem callWhileRunning_run : ∃ s, Run next (.init oneCallback) callWhileRunning s ∧
    s.phase 0 = .guest false ∧ s.holders = [0] ∧ s.locked = false :=
  ⟨_, .cons rfl <| .cons rfl <| .cons rfl <| .cons rfl <| .cons rfl <| .cons rfl <|
    .cons rfl <| .nil _, rfl, rfl, rfl⟩

theorem callWhileRunning_not_exclusive : ¬ ∀ (calls : List Call) (s : State),
    Run next (.init oneCallback) calls s → Exclusive s := by
  intro hall
  obtain ⟨s, hrun, -, hholders, hlocked⟩ := callWhileRunning_run
  have := (hall _ s hrun).locked.2 ⟨0, hholders ▸ List.mem_cons_self⟩
  rw [hlocked] at this
  cases this

end Jco.Component.Execution

import Jco.Component.Execution
import Mathlib.Data.List.Nodup

/-! # What a step of a task does

Every step moves one task from a phase to another and takes or gives back the lock
once at most. The slots of `nextTaskExecutionSlot` keep the tasks that come by
`enter` apart, from the slot to the exit, whatever becomes of the lock.
-/

namespace Jco.Component.Execution

open Jco.Js Jco.Lib State

variable {s s' : State}

/-! ## Fields after an update -/

section

variable (s : State) (t u : Nat)

theorem phase_modifyTask (f : Task → Task) :
    (s.modifyTask t f).phase u = if u = t then (f (s.tasks t)).phase else s.phase u := by
  unfold modifyTask phase
  dsimp only
  rw [Function.update_apply]
  split <;> rfl

theorem enteredSync_modifyTask (f : Task → Task) :
    ((s.modifyTask t f).tasks u).enteredSync =
      if u = t then (f (s.tasks t)).enteredSync else (s.tasks u).enteredSync := by
  unfold modifyTask
  dsimp only
  rw [Function.update_apply]
  split <;> rfl

@[simp] theorem phase_setPhase (p : Phase) :
    (s.setPhase t p).phase u = if u = t then p else s.phase u := phase_modifyTask s t u _

@[simp] theorem enteredSync_setPhase (p : Phase) :
    ((s.setPhase t p).tasks u).enteredSync = (s.tasks u).enteredSync := by
  unfold setPhase
  rw [enteredSync_modifyTask]
  split
  · rename_i h
    rw [h]
  · rfl

end

/-! ## Resolved tasks -/

/-- A callback task that is resolved has its completion promise settled. -/
def State.Answered (s : State) (t : Nat) : Prop :=
  (s.kinds t).isAsync = true → (s.tasks t).resolved = true → (s.tasks t).completion.isSome = true

/-- What is resolved stays resolved, and is answered. -/
structure Answers (s s' : State) : Prop where
  resolved : ∀ t, (s.tasks t).resolved = true → (s'.tasks t).resolved = true
  answered : ∀ t, s.Answered t → s'.Answered t

theorem Answers.trans {s₁ s₂ s₃ : State} (h : Answers s₁ s₂) (h' : Answers s₂ s₃) :
    Answers s₁ s₃ where
  resolved t ht := h'.resolved t (h.resolved t ht)
  answered t ht := h'.answered t (h.answered t ht)

/-- The tasks are the same. -/
theorem Answers.of_tasks (hkinds : s'.kinds = s.kinds) (htasks : s'.tasks = s.tasks) :
    Answers s s' where
  resolved t ht := by rwa [htasks]
  answered t ht := by
    unfold State.Answered at ht ⊢
    rwa [hkinds, htasks]

theorem answers_exclusiveLock (s : State) (t : Nat) : Answers s (s.exclusiveLock t) :=
  .of_tasks rfl rfl

theorem answers_exclusiveRelease (s : State) (t : Nat) : Answers s (s.exclusiveRelease t) :=
  .of_tasks rfl rfl

theorem Answers.modifyTask (s : State) (t : Nat) {f : Task → Task}
    (hresolved : ∀ x, x.resolved = true → (f x).resolved = true)
    (hanswered : s.Answered t → (s.kinds t).isAsync = true →
      (f (s.tasks t)).resolved = true → (f (s.tasks t)).completion.isSome = true) :
    Answers s (s.modifyTask t f) where
  resolved u hu := by
    unfold State.modifyTask
    dsimp only
    rw [Function.update_apply]
    split
    case isTrue h => exact hresolved _ (h ▸ hu)
    case isFalse => exact hu
  answered u hu := by
    unfold State.Answered State.modifyTask
    dsimp only
    rw [Function.update_apply]
    split
    case isTrue h =>
      subst h
      exact hanswered hu
    case isFalse => exact hu

theorem Answers.setPhase (s : State) (t : Nat) (p : Phase) : Answers s (s.setPhase t p) :=
  .modifyTask s t (fun _ h => h) fun h => h

/-! ## What does not move a task -/

/-- The phases, the lock and the slots are as they were. -/
structure Still (s s' : State) : Prop where
  kinds : s'.kinds = s.kinds
  phase : ∀ t, s'.phase t = s.phase t
  enteredSync : ∀ t, (s'.tasks t).enteredSync = (s.tasks t).enteredSync
  locked : s'.locked = s.locked
  holders : s'.holders = s.holders
  nextTaskQueue : s'.nextTaskQueue = s.nextTaskQueue
  nextTaskPromise : s'.nextTaskPromise = s.nextTaskPromise
  answers : Answers s s'

theorem Still.refl (s : State) : Still s s :=
  ⟨rfl, fun _ => rfl, fun _ => rfl, rfl, rfl, rfl, rfl, .of_tasks rfl rfl⟩

theorem Still.trans {s₁ s₂ s₃ : State} (h : Still s₁ s₂) (h' : Still s₂ s₃) : Still s₁ s₃ where
  kinds := h'.kinds.trans h.kinds
  phase t := (h'.phase t).trans (h.phase t)
  enteredSync t := (h'.enteredSync t).trans (h.enteredSync t)
  locked := h'.locked.trans h.locked
  holders := h'.holders.trans h.holders
  nextTaskQueue := h'.nextTaskQueue.trans h.nextTaskQueue
  nextTaskPromise := h'.nextTaskPromise.trans h.nextTaskPromise
  answers := h.answers.trans h'.answers

theorem Still.modifyTask (s : State) (t : Nat) {f : Task → Task}
    (hphase : ∀ x, (f x).phase = x.phase) (hsync : ∀ x, (f x).enteredSync = x.enteredSync)
    (hanswers : Answers s (s.modifyTask t f)) : Still s (s.modifyTask t f) where
  kinds := rfl
  phase u := by
    rw [phase_modifyTask]
    split
    case isTrue h => rw [hphase, h, State.phase]
    case isFalse => rfl
  enteredSync u := by
    rw [enteredSync_modifyTask]
    split
    case isTrue h => rw [hsync, h]
    case isFalse => rfl
  locked := rfl
  holders := rfl
  nextTaskQueue := rfl
  nextTaskPromise := rfl
  answers := hanswers

theorem still_resolve (s : State) (t : Nat) : Still s (s.resolve t) := by
  refine Still.modifyTask s t (fun _ => rfl) (fun _ => rfl) ?_
  refine Answers.modifyTask s t (fun _ _ => rfl) ?_
  intro _ hasync _
  rw [hasync, if_pos rfl]
  rfl

theorem still_reject (s : State) (t : Nat) : Still s (s.reject t) := by
  unfold reject
  split
  · exact .refl s
  · refine Still.modifyTask s t (fun _ => rfl) (fun _ => rfl) ?_
    refine Answers.modifyTask s t (fun _ _ => rfl) ?_
    intro _ hasync _
    rw [hasync, if_pos rfl]
    rfl

theorem still_fail (s : State) (t : Nat) : Still s (s.fail t) := by
  have herrored : Still s (s.modifyTask t fun x => { x with errored := true }) :=
    .modifyTask s t (fun _ => rfl) (fun _ => rfl) (.modifyTask s t (fun _ h => h) fun h => h)
  exact herrored.trans (still_reject _ t)

/-! ## Moves -/

inductive LockOp where
  | keep
  | lock
  | release
deriving DecidableEq, Repr

def LockOp.locked (op : LockOp) (s : State) : Bool :=
  match op with
  | .keep => s.locked
  | .lock => true
  | .release => false

def LockOp.holders (op : LockOp) (t : Nat) (s : State) : List Nat :=
  match op with
  | .keep => s.holders
  | .lock => t :: s.holders
  | .release => s.holders.filter (· ≠ t)

/-- One task moves. One that comes out of `created` has come by `enterSync`. -/
structure Move (s s' : State) (t : Nat) (op : LockOp) (p p' : Phase) : Prop where
  kinds : s'.kinds = s.kinds
  before : s.phase t = p
  after : s'.phase t = p'
  others : ∀ u, u ≠ t → s'.phase u = s.phase u
  enteredSync : ∀ u, u ≠ t ∨ p ≠ .created → (s'.tasks u).enteredSync = (s.tasks u).enteredSync
  sync : p = .created → (s'.tasks t).enteredSync = true ∧ (s.kinds t).isAsync = false
  locked : s'.locked = op.locked s
  holders : s'.holders = op.holders t s
  nextTaskQueue : s'.nextTaskQueue = s.nextTaskQueue
  answers : Answers s s'

variable {t : Nat} {p p' : Phase} {op : LockOp} {u : State}

/-- The phase changes, after what leaves all phases. -/
theorem Move.setPhase (hbefore : s.phase t = p)
    (hne : p ≠ .created) (hkinds : u.kinds = s.kinds) (hphase : ∀ t, u.phase t = s.phase t)
    (hsync : ∀ t, (u.tasks t).enteredSync = (s.tasks t).enteredSync)
    (hlocked : u.locked = op.locked s) (hholders : u.holders = op.holders t s)
    (hqueue : u.nextTaskQueue = s.nextTaskQueue) (hanswers : Answers s u) :
    Move s (u.setPhase t p') t op p p' where
  kinds := hkinds
  before := hbefore
  after := by simp
  others v hv := by
    rw [phase_setPhase, if_neg hv]
    exact hphase v
  enteredSync v _ := by
    rw [enteredSync_setPhase]
    exact hsync v
  sync h := absurd h hne
  locked := hlocked
  holders := hholders
  nextTaskQueue := hqueue
  answers := hanswers.trans (.setPhase u t p')

theorem Move.keep (hbefore : s.phase t = p)
    (hne : p ≠ .created) (hstill : Still s u) : Move s (u.setPhase t p') t .keep p p' :=
  .setPhase hbefore hne hstill.kinds hstill.phase hstill.enteredSync hstill.locked hstill.holders
    hstill.nextTaskQueue hstill.answers

theorem Move.lock (hbefore : s.phase t = p) (hne : p ≠ .created) :
    Move s ((s.exclusiveLock t).setPhase t p') t .lock p p' :=
  .setPhase hbefore hne rfl (fun _ => rfl) (fun _ => rfl) rfl rfl rfl (.of_tasks rfl rfl)

/-- What leaves the phases may come before a release, or after it. -/
theorem Move.release (hbefore : s.phase t = p)
    (hne : p ≠ .created) (hstill : Still (s.exclusiveRelease t) u) :
    Move s (u.setPhase t p') t .release p p' :=
  .setPhase hbefore hne hstill.kinds hstill.phase hstill.enteredSync hstill.locked hstill.holders
    hstill.nextTaskQueue ((answers_exclusiveRelease s t).trans hstill.answers)

theorem Still.exclusiveRelease (h : Still s s') (t : Nat) :
    Still (s.exclusiveRelease t) (s'.exclusiveRelease t) where
  kinds := h.kinds
  phase := h.phase
  enteredSync := h.enteredSync
  locked := rfl
  holders := congrArg (fun holders : List Nat => holders.filter (· ≠ t)) h.holders
  nextTaskQueue := h.nextTaskQueue
  nextTaskPromise := h.nextTaskPromise
  answers := ⟨h.answers.resolved, h.answers.answered⟩

/-- An exit gives the lock back. -/
theorem exit_ok {skip : Bool} (h : s.exit t skip = .ok u) :
    u = (s.exclusiveRelease t).setPhase t .exited ∧ (s.tasks t).resolved = true := by
  unfold exit at h
  split at h
  · cases h
  split at h
  · cases h
  case isFalse hresolved =>
  split at h
  · cases h
  · exact ⟨(Except.ok.inj h).symm, by simpa using hresolved⟩

/-- The loop leaves the task resolved, or it cannot exit. -/
theorem exit_error {e : JsError} (h : s.exit t true = .error e)
    (hphase : s.phase t ≠ .exited) : (s.tasks t).resolved = false := by
  unfold exit at h
  rw [if_neg hphase] at h
  split at h
  case isTrue hresolved => simpa using hresolved
  case isFalse => simp at h

/-- The steps of a task of this kind, resolved or not, without the steps that take
the lock. -/
inductive Allowed (k : Kind) (resolved : Bool) : Phase → LockOp → Phase → Prop
  | block : Allowed k resolved .granted .keep .blocked
  | unblock : Allowed k resolved .blocked .keep .unblocked
  | run (inLoop : Bool) : Allowed k resolved (.ready inLoop) .keep (.guest inLoop)
  | returns (inLoop : Bool) (code : CallbackCode) (hkind : k.isAsync = true) :
      Allowed k resolved (.guest inLoop) .keep (.returned inLoop code)
  | guestLeft (inLoop : Bool) : Allowed k resolved (.guest inLoop) .keep .left
  | guestExited (inLoop : Bool) (hkind : k.isAsync = true → inLoop = false) :
      Allowed k resolved (.guest inLoop) .release .exited
  | loopLeft (inLoop : Bool) (code : CallbackCode) (hcode : code = .exit → resolved = false) :
      Allowed k resolved (.returned inLoop code) .keep .left
  | loopExited (inLoop : Bool) (hresolved : resolved = true) :
      Allowed k resolved (.returned inLoop .exit) .release .exited
  | loopWaits (inLoop : Bool) (code : CallbackCode) :
      Allowed k resolved (.returned inLoop code) .release .waiting
  | loopFails (inLoop : Bool) (code : CallbackCode) (hcode : code ≠ .exit) :
      Allowed k resolved (.returned inLoop code) .release .left
  | blockedLeft : Allowed k resolved .blocked .keep .left
  | waitingLeft : Allowed k resolved .waiting .keep .left
  | wake : Allowed k resolved .waiting .keep .woken

/-! ## Every step -/

/-- What a call does. The step that takes the lock says when the call is safe. -/
inductive Effect (call : Call) (s s' : State) : Prop
  | still (hstill : Still s s') (hsafe : Safe call s)
  | enter (t : Nat) (hphase : s.phase t = .created) (heq : s' = s.enter t) (hsafe : Safe call s)
  | slot (t : Nat) (awaits : Option Nat) (hphase : s.phase t = .queued awaits)
      (heq : s' = s.nextTaskExecutionSlot t) (hsafe : Safe call s)
  | complete (t : Nat) (hphase : s.phase t = .exited) (heq : s' = s.complete t)
      (hsafe : Safe call s)
  | free (t : Nat) (hmove : Move s s' t .keep .granted (.ready false)) (hnotSafe : ¬ Safe call s)
  | move (t : Nat) (op : LockOp) (p p' : Phase) (hallowed : Allowed (s.kinds t) (s.tasks t).resolved p op p')
      (hmove : Move s s' t op p p') (hsafe : Safe call s) (hown : op = .release → call.isOwnRelease t)
  | lock (t : Nat) (p p' : Phase) (hp' : p' = .left ∨ ∃ inLoop, p' = .ready inLoop)
      (hwoken : p = .woken → p' = .left ∨ p' = .ready true)
      (hcall : p = .created ∧ (Safe call s ↔ s.locked = false) ∨
        (p = .granted ∨ p = .unblocked ∨ p = .woken) ∧
          ((Safe call s ↔ ¬ InsideSync s) ∨ Safe call s ∧ s.locked = false))
      (hmove : Move s s' t .lock p p')

variable {call : Call}

theorem effect_exitOrLeave {inLoop : Bool}
    (hphase : s.phase t = .guest inLoop) (hkind : (s.kinds t).isAsync = true → inLoop = false)
    (hstill : Still s u) (hsafe : Safe call s) (hown : call.isOwnRelease t) :
    Effect call s (u.exitOrLeave t) := by
  unfold exitOrLeave
  split
  case h_1 v hexit =>
    rw [(exit_ok hexit).1]
    exact .move t .release _ _ (.guestExited inLoop hkind)
      (.release hphase Phase.noConfusion (hstill.exclusiveRelease t)) hsafe fun _ => hown
  case h_2 =>
    exact .move t .keep _ _ (.guestLeft inLoop) (.keep hphase Phase.noConfusion hstill) hsafe
      fun h => LockOp.noConfusion h

theorem effect_driverLoop {inLoop : Bool} {code : CallbackCode}
    (hphase : s.phase t = .returned inLoop code) (hsafe : Safe call s)
    (hown : call.isOwnRelease t) : Effect call s (s.driverLoop t inLoop code) := by
  have hkeep : ∀ u, (code = .exit → (s.tasks t).resolved = false) → Still s u →
      Effect call s (u.setPhase t .left) := fun u hcode hstill =>
    .move t .keep _ _ (.loopLeft inLoop code hcode) (.keep hphase Phase.noConfusion hstill) hsafe
      fun h => LockOp.noConfusion h
  have hwaits : Effect call s ((s.exclusiveRelease t).setPhase t .waiting) :=
    .move t .release _ _ (.loopWaits inLoop code) (.release hphase Phase.noConfusion (.refl _)) hsafe
      fun _ => hown
  have hfails : code ≠ .exit → Effect call s ((s.exclusiveRelease t).abandonLoop t) := fun hcode =>
    .move t .release _ _ (.loopFails inLoop code hcode)
      (.release hphase Phase.noConfusion (still_fail _ t)) hsafe fun _ => hown
  unfold driverLoop
  split
  case h_1 =>
    split
    · exact hkeep _ CallbackCode.noConfusion (still_fail s t)
    · exact hkeep _ CallbackCode.noConfusion (.refl s)
  case h_2 =>
    split
    case h_1 u hexit =>
      rw [(exit_ok hexit).1]
      exact .move t .release _ _ (.loopExited inLoop (exit_ok hexit).2)
        (.release hphase Phase.noConfusion (.refl _)) hsafe fun _ => hown
    case h_2 e hexit =>
      exact hkeep _ (fun _ => exit_error hexit (hphase ▸ Phase.noConfusion)) (still_fail s t)
  case h_3 => exact hwaits
  case h_4 => exact hwaits
  case h_5 => exact hfails CallbackCode.noConfusion
  case h_6 => exact hfails CallbackCode.noConfusion

theorem effect_proceed (hphase : s.phase t = .granted) :
    Effect (.proceed t) s (s.proceed t) := by
  have hlock : Move s ((s.exclusiveLock t).setPhase t (.ready false)) t .lock .granted
    (.ready false) := .lock hphase Phase.noConfusion
  unfold proceed
  rw [needsExclusiveLock_eq, Bool.and_true, Bool.true_and]
  cases hasync : (s.kinds t).isAsync with
  | false =>
    rw [Bool.not_false, if_pos rfl]
    split
    case isTrue hmanual =>
      refine .lock t _ _ (.inr ⟨false, rfl⟩) Phase.noConfusion (.inr ⟨.inl rfl, .inl ?_⟩) hlock
      unfold Safe
      dsimp only
      rw [hasync, hmanual]
      simp
    case isFalse hmanual =>
      refine .free t (.keep hphase Phase.noConfusion (.refl s)) ?_
      unfold Safe
      dsimp only
      rw [hasync]
      exact fun h => hmanual (h rfl).1
  | true =>
    have hsafe : Safe (.proceed t) s := by
      unfold Safe
      dsimp only
      rw [hasync]
      exact fun h => Bool.noConfusion h
    rw [if_neg (by simp)]
    split
    case isTrue =>
      exact .move t .keep _ _ .block (.keep hphase Phase.noConfusion (.refl s)) hsafe
        fun h => LockOp.noConfusion h
    case isFalse hfree =>
      have hunlocked : s.locked = false := by
        rw [Bool.or_eq_true, not_or] at hfree
        simpa using hfree.2
      exact .lock t _ _ (.inr ⟨false, rfl⟩) Phase.noConfusion
        (.inr ⟨.inl rfl, .inr ⟨hsafe, hunlocked⟩⟩) hlock

theorem effect_relock {hasEvent : Bool} (hphase : s.phase t = .woken) :
    Effect (.relock t hasEvent) s (s.relock t hasEvent) := by
  have hcall : (Phase.woken = .granted ∨ Phase.woken = .unblocked ∨ Phase.woken = .woken) ∧
      ((Safe (.relock t hasEvent) s ↔ ¬ InsideSync s) ∨
        Safe (.relock t hasEvent) s ∧ s.locked = false) := ⟨.inr (.inr rfl), .inl Iff.rfl⟩
  unfold relock
  dsimp only
  split
  · exact .lock t _ _ (.inl rfl) (fun _ => .inl rfl) (.inr hcall) (.lock hphase Phase.noConfusion)
  split
  · exact .lock t _ _ (.inr ⟨true, rfl⟩) (fun _ => .inr rfl) (.inr hcall)
      (.lock hphase Phase.noConfusion)
  · have hstill := still_fail (s.exclusiveLock t) t
    refine .lock t _ _ (.inl rfl) (fun _ => .inl rfl) (.inr hcall) ?_
    exact .setPhase hphase Phase.noConfusion hstill.kinds hstill.phase hstill.enteredSync
      hstill.locked hstill.holders hstill.nextTaskQueue
      ((answers_exclusiveLock s t).trans hstill.answers)

theorem effect_enterSync {isManualAsync : Bool} (hphase : s.phase t = .created)
    (hkind : s.kinds t = .sync isManualAsync) :
    Effect (.enterSync t) s ((s.exclusiveLock t).modifyTask t fun x =>
      { x with phase := .ready false, enteredSync := true }) := by
  refine .lock t .created (.ready false) (.inr ⟨false, rfl⟩) Phase.noConfusion
    (.inl ⟨rfl, Iff.rfl⟩) ?_
  refine ⟨rfl, hphase, ?_, fun u hu => ?_, fun u hu => ?_, fun _ => ⟨?_, ?_⟩, rfl, rfl, rfl, ?_⟩
  · rw [phase_modifyTask, if_pos rfl]
  · rw [phase_modifyTask, if_neg hu]
    rfl
  · rw [enteredSync_modifyTask, if_neg]
    · rfl
    · rcases hu with hu | hu
      · exact hu
      · exact absurd rfl hu
  · rw [enteredSync_modifyTask, if_pos rfl]
  · rw [hkind]
    rfl
  · exact (answers_exclusiveLock s t).trans (.modifyTask _ t (fun _ h => h) fun h => h)

theorem next_effect (hstep : next call s s') : Effect call s s' := by
  unfold next State.call at hstep
  -- A call that is taken has found its task in the phase that it needs.
  cases call with
  | enter t =>
    dsimp only at hstep
    split at hstep
    case h_1 hphase => exact .enter t hphase (Option.some.inj hstep).symm trivial
    case h_2 => cases hstep
  | slot t =>
    dsimp only at hstep
    split at hstep
    case h_2 => cases hstep
    case h_1 awaits hphase =>
    split at hstep
    · exact .slot t awaits hphase (Option.some.inj hstep).symm trivial
    · cases hstep
  | complete t =>
    dsimp only at hstep
    split at hstep
    case h_1 hphase => exact .complete t hphase (Option.some.inj hstep).symm trivial
    case h_2 => cases hstep
  | proceed t =>
    dsimp only at hstep
    split at hstep
    case h_1 hphase =>
      rw [← Option.some.inj hstep]
      exact effect_proceed hphase
    case h_2 => cases hstep
  | unblock t =>
    dsimp only at hstep
    split at hstep
    case h_2 => cases hstep
    case h_1 hphase =>
    split at hstep
    · rw [← Option.some.inj hstep]
      exact .move t .keep _ _ .unblock (.keep hphase Phase.noConfusion (.refl s)) trivial
        fun h => LockOp.noConfusion h
    · cases hstep
  | lock t =>
    dsimp only at hstep
    split at hstep
    case h_1 hphase =>
      rw [← Option.some.inj hstep]
      exact .lock t _ _ (.inr ⟨false, rfl⟩) Phase.noConfusion
        (.inr ⟨.inr (.inl rfl), .inl Iff.rfl⟩) (.lock hphase Phase.noConfusion)
    case h_2 => cases hstep
  | enterSync t =>
    dsimp only at hstep
    split at hstep
    case h_1 hphase hkind =>
      rw [← Option.some.inj hstep]
      exact effect_enterSync hphase hkind
    case h_2 => cases hstep
  | run t =>
    dsimp only at hstep
    split at hstep
    case h_1 inLoop hphase =>
      rw [← Option.some.inj hstep]
      exact .move t .keep _ _ (.run inLoop) (.keep hphase Phase.noConfusion (.refl s)) trivial
        fun h => LockOp.noConfusion h
    case h_2 => cases hstep
  | resolve t =>
    -- a task that is resolved already stays as it is
    dsimp only at hstep
    split at hstep
    case h_2 => cases hstep
    case h_1 =>
    split at hstep
    · rw [← Option.some.inj hstep]
      exact .still (.refl s) trivial
    · rw [← Option.some.inj hstep]
      exact .still (still_resolve s t) trivial
  | reject t =>
    dsimp only at hstep
    rw [← Option.some.inj hstep]
    exact .still (still_reject s t) trivial
  | returns t code =>
    -- a code goes to the loop; without one the task is over, unless it is asynchronous by hand
    dsimp only at hstep
    split at hstep
    case h_1 inLoop hphase hkind =>
      rw [← Option.some.inj hstep]
      exact .move t .keep _ _ (.returns inLoop code (by rw [hkind]; rfl))
        (.keep hphase Phase.noConfusion (.refl s)) trivial fun h => LockOp.noConfusion h
    case h_2 inLoop isManualAsync hphase hkind =>
      split at hstep
      · rw [← Option.some.inj hstep]
        exact .move t .keep _ _ (.guestLeft inLoop) (.keep hphase Phase.noConfusion (.refl s))
          trivial fun h => LockOp.noConfusion h
      · rw [← Option.some.inj hstep]
        have hnot : (s.kinds t).isAsync = true → inLoop = false := by
          rw [hkind]
          exact fun h => Bool.noConfusion h
        exact effect_exitOrLeave hphase hnot (still_resolve s t) trivial rfl
    case h_3 => cases hstep
  | traps t =>
    -- outside the loop the failed task exits, within it is left as it stands
    dsimp only at hstep
    split at hstep
    case h_1 hphase =>
      rw [← Option.some.inj hstep]
      exact effect_exitOrLeave hphase (fun _ => rfl) (still_fail s t) trivial rfl
    case h_2 hphase =>
      rw [← Option.some.inj hstep]
      exact .move t .keep _ _ (.guestLeft true) (.keep hphase Phase.noConfusion (still_fail s t))
        trivial fun h => LockOp.noConfusion h
    case h_3 => cases hstep
  | abandon t =>
    dsimp only at hstep
    split at hstep
    case h_1 hphase =>
      rw [← Option.some.inj hstep]
      exact .move t .keep _ _ (.guestLeft false) (.keep hphase Phase.noConfusion (.refl s)) trivial
        fun h => LockOp.noConfusion h
    case h_2 => cases hstep
  | loop t =>
    dsimp only at hstep
    split at hstep
    case h_1 inLoop code hphase =>
      rw [← Option.some.inj hstep]
      exact effect_driverLoop hphase trivial rfl
    case h_2 => cases hstep
  | failWait t =>
    -- a wait that fails leaves the lock with its holder
    dsimp only at hstep
    split at hstep
    case h_1 hphase =>
      rw [← Option.some.inj hstep]
      exact .move t .keep _ _ .blockedLeft (.keep hphase Phase.noConfusion (.refl s)) trivial
        fun h => LockOp.noConfusion h
    case h_2 hphase =>
      rw [← Option.some.inj hstep]
      exact .move t .keep _ _ .waitingLeft (.keep hphase Phase.noConfusion (still_fail s t)) trivial
        fun h => LockOp.noConfusion h
    case h_3 => cases hstep
  | wake t =>
    dsimp only at hstep
    split at hstep
    case h_2 => cases hstep
    case h_1 hphase =>
    split at hstep
    · rw [← Option.some.inj hstep]
      exact .move t .keep _ _ .wake (.keep hphase Phase.noConfusion (.refl s)) trivial
        fun h => LockOp.noConfusion h
    · cases hstep
  | relock t hasEvent =>
    dsimp only at hstep
    split at hstep
    case h_1 hphase =>
      rw [← Option.some.inj hstep]
      exact effect_relock hphase
    case h_2 => cases hstep
  | setBackpressure b =>
    rw [← Option.some.inj hstep]
    exact .still ⟨rfl, fun _ => rfl, fun _ => rfl, rfl, rfl, rfl, rfl, .of_tasks rfl rfl⟩ trivial

/-! ## Slots -/

/-- From its slot to its exit; a task that has left keeps the slot for good. -/
def Active (s : State) (t : Nat) : Prop :=
  (s.tasks t).enteredSync = false ∧ s.phase t ≠ .created ∧ (∀ a, s.phase t ≠ .queued a) ∧
    s.phase t ≠ .exited

/-- The task is the first of the queue. -/
def First (s : State) (t : Nat) : Prop :=
  s.nextTaskQueue.find? (fun p => !p.completed) = some ⟨t, false⟩

/-- The phases of a task that has come by `enterSync`. -/
def SyncPhase : Phase → Prop
  | .ready _ => True
  | .guest _ => True
  | .left => True
  | .exited => True
  | _ => False

structure Slots (s : State) : Prop where
  active : ∀ t, Active s t → First s t
  queued : ∀ t a, s.phase t = .queued a → ⟨t, false⟩ ∈ s.nextTaskQueue
  created : ∀ t, s.phase t = .created → (s.tasks t).enteredSync = false
  sync : ∀ t, (s.tasks t).enteredSync = true → (s.kinds t).isAsync = false
  syncPhase : ∀ t, (s.tasks t).enteredSync = true → SyncPhase (s.phase t)
  callbacks : ∀ t, (s.kinds t).isAsync = false → ∀ inLoop code, s.phase t ≠ .returned inLoop code

theorem First.unique {t u : Nat} (h : First s t) (h' : First s u) : t = u := by
  unfold First at h h'
  rw [h] at h'
  exact congrArg Placeholder.task (Option.some.inj h')

theorem Slots.init (kinds : Nat → Kind) : Slots (.init kinds) where
  active t h := absurd rfl h.2.1
  queued t a h := by cases h
  created t _ := rfl
  sync t h := by cases h
  syncPhase t h := by cases h
  callbacks t _ inLoop code h := by cases h

/-! ### The queue -/

theorem find?_append_of_some {ps qs : List Placeholder} {p : Placeholder}
    (h : ps.find? (fun p => !p.completed) = some p) :
    (ps ++ qs).find? (fun p => !p.completed) = some p := by
  rw [List.find?_append, h, Option.some_or]

theorem find?_filter_completed (ps : List Placeholder) :
    (ps.filter fun p => !p.completed).find? (fun p => !p.completed) =
      ps.find? fun p => !p.completed := by
  rw [List.find?_filter]
  congr 1
  funext p
  simp

/-- A placeholder that is completed is not the first one, which stays. -/
theorem First.complete {t u : Nat} (h : First s t) (hne : u ≠ t) : First (s.complete u) t := by
  unfold First at h ⊢
  obtain ⟨-, before, after, heq, hbefore⟩ := List.find?_eq_some_iff_append.1 h
  unfold State.complete
  dsimp only
  rw [heq, List.map_append, List.map_cons, List.find?_append]
  have hnone : (before.map fun p => if p.task = u then (⟨u, true⟩ : Placeholder) else p).find?
      (fun p => !p.completed) = none := by
    rw [List.find?_eq_none]
    intro p hp
    obtain ⟨q, hq, rfl⟩ := List.mem_map.1 hp
    have := hbefore q hq
    split
    · simp
    · simpa using this
  rw [hnone, Option.none_or, if_neg (Ne.symm hne)]
  rfl

theorem First.nextTaskExecutionSlot {t u : Nat} (h : First s t) :
    First (s.nextTaskExecutionSlot u) t := by
  unfold State.nextTaskExecutionSlot
  rw [h]
  dsimp only
  unfold First at h ⊢
  split
  · dsimp only
    split
    · rw [find?_filter_completed]
      exact h
    · exact h
  · exact h

/-- The queue has a first task while one waits in it. -/
theorem Slots.exists_first (hs : Slots s) {a : Option Nat} (h : s.phase t = .queued a) :
    ∃ u, First s u := by
  unfold First
  cases hfind : s.nextTaskQueue.find? fun p => !p.completed with
  | none =>
    have := List.find?_eq_none.1 hfind _ (hs.queued t a h)
    simp at this
  | some p =>
    obtain ⟨task, completed⟩ := p
    have := List.find?_some hfind
    obtain rfl : completed = false := by simpa using this
    exact ⟨task, rfl⟩

/-- What the task finds after an `await` of `nextTaskExecutionSlot`. -/
theorem Slots.slot_cases (hs : Slots s) {a : Option Nat} (h : s.phase t = .queued a) :
    ∃ p, (p = .granted ∧ First s t ∨ p = .queued s.nextTaskPromise ∧ ¬ First s t) ∧
      (∀ u, (s.nextTaskExecutionSlot t).phase u = if u = t then p else s.phase u) ∧
      (∀ u, ((s.nextTaskExecutionSlot t).tasks u).enteredSync = (s.tasks u).enteredSync) ∧
      (∀ u, ⟨u, false⟩ ∈ s.nextTaskQueue → ⟨u, false⟩ ∈ (s.nextTaskExecutionSlot t).nextTaskQueue) ∧
      (s.nextTaskExecutionSlot t).kinds = s.kinds ∧
      (s.nextTaskExecutionSlot t).locked = s.locked ∧
      (s.nextTaskExecutionSlot t).holders = s.holders := by
  obtain ⟨first, hfirst⟩ := hs.exists_first h
  unfold nextTaskExecutionSlot
  have hfind := hfirst
  unfold First at hfind
  rw [hfind]
  dsimp only
  split
  case isTrue ht =>
    obtain rfl : first = t := ht
    refine ⟨.granted, .inl ⟨rfl, hfirst⟩, fun u => ?_, fun u => ?_, fun u hu => ?_, rfl, rfl, rfl⟩
    · exact phase_setPhase s first u .granted
    · exact enteredSync_setPhase s first u .granted
    · split
      · exact List.mem_filter.2 ⟨hu, rfl⟩
      · exact hu
  case isFalse ht =>
    refine ⟨.queued s.nextTaskPromise, .inr ⟨rfl, fun h' => ht (hfirst.unique h')⟩, fun u => ?_,
      fun u => ?_, fun u hu => hu, rfl, rfl, rfl⟩
    · exact phase_setPhase s t u _
    · exact enteredSync_setPhase s t u _

/-! ### Steps -/

theorem Allowed.ne {k : Kind} {r : Bool}
    (h : Allowed k r p op p') :
    p ≠ .created ∧ (∀ a, p ≠ .queued a) ∧ p ≠ .exited ∧ p' ≠ .created ∧ ∀ a, p' ≠ .queued a := by
  cases h <;> simp

/-- A task that does not go through the driver loop stays out of it. -/
theorem Allowed.syncPhase {k : Kind} {r : Bool}
    (h : Allowed k r p op p')
    (hk : k.isAsync = false) (hp : SyncPhase p) : SyncPhase p' := by
  cases h with
  | returns _ _ hkind =>
    rw [hk] at hkind
    cases hkind
  | run => trivial
  | guestLeft => trivial
  | guestExited => trivial
  | _ => cases hp

theorem Allowed.not_returned {k : Kind} {r : Bool}
    (h : Allowed k r p op p')
    (hk : k.isAsync = false) (inLoop : Bool) (code : CallbackCode) :
    p' ≠ .returned inLoop code := by
  cases h with
  | returns _ _ hkind =>
    rw [hk] at hkind
    cases hkind
  | _ => exact Phase.noConfusion

/-- A move of a task that has its slot, or that has come without one. -/
theorem Slots.move (hs : Slots s)
    (hmove : Move s s' t op p p') (hqueued : ∀ a, p ≠ .queued a) (hexited : p ≠ .exited)
    (hcreated' : p' ≠ .created) (hqueued' : ∀ a, p' ≠ .queued a)
    (hsync : (s.kinds t).isAsync = false → SyncPhase p ∨ p = .created → SyncPhase p')
    (hcallbacks : (s.kinds t).isAsync = false → ∀ inLoop code, p' ≠ .returned inLoop code) :
    Slots s' := by
  have hfirst : ∀ u, First s u → First s' u := by
    intro u hu
    unfold First at hu ⊢
    rw [hmove.nextTaskQueue]
    exact hu
  have hsame : ∀ u, u ≠ t → (s'.tasks u).enteredSync = (s.tasks u).enteredSync :=
    fun u hu => hmove.enteredSync u (.inl hu)
  have hself : (s'.tasks t).enteredSync = true →
      (s.kinds t).isAsync = false ∧ (SyncPhase p ∨ p = .created) := by
    intro h
    by_cases hp : p = .created
    · exact ⟨(hmove.sync hp).2, .inr hp⟩
    · rw [hmove.enteredSync t (.inr hp)] at h
      exact ⟨hs.sync t h, .inl (hmove.before ▸ hs.syncPhase t h)⟩
  constructor
  case active =>
    intro u hu
    apply hfirst
    by_cases hut : u = t
    · subst hut
      by_cases hp : p = .created
      · -- it has come by `enterSync`
        have := (hmove.sync hp).1
        rw [hu.1] at this
        cases this
      · apply hs.active
        refine ⟨?_, ?_, ?_, ?_⟩
        · rw [← hmove.enteredSync u (.inr hp)]
          exact hu.1
        · rw [hmove.before]
          exact hp
        · rw [hmove.before]
          exact hqueued
        · rw [hmove.before]
          exact hexited
    · apply hs.active
      unfold Active at hu ⊢
      rw [hmove.others u hut, hsame u hut] at hu
      exact hu
  case queued =>
    intro u a hu
    rw [hmove.nextTaskQueue]
    by_cases hut : u = t
    · subst hut
      rw [hmove.after] at hu
      exact absurd hu (hqueued' a)
    · rw [hmove.others u hut] at hu
      exact hs.queued u a hu
  case created =>
    intro u hu
    by_cases hut : u = t
    · subst hut
      rw [hmove.after] at hu
      exact absurd hu hcreated'
    · rw [hmove.others u hut] at hu
      rw [hsame u hut]
      exact hs.created u hu
  case sync =>
    intro u hu
    rw [hmove.kinds]
    by_cases hut : u = t
    · subst hut
      exact (hself hu).1
    · rw [hsame u hut] at hu
      exact hs.sync u hu
  case syncPhase =>
    intro u hu
    by_cases hut : u = t
    · subst hut
      rw [hmove.after]
      exact hsync (hself hu).1 (hself hu).2
    · rw [hsame u hut] at hu
      rw [hmove.others u hut]
      exact hs.syncPhase u hu
  case callbacks =>
    intro u hu inLoop code
    rw [hmove.kinds] at hu
    by_cases hut : u = t
    · subst hut
      rw [hmove.after]
      exact hcallbacks hu inLoop code
    · rw [hmove.others u hut]
      exact hs.callbacks u hu inLoop code

/-- The phases and the entered tasks are as they were, but for one task, and the
places in the queue that are not completed are kept. -/
theorem Slots.requeue {p : Phase} (hs : Slots s) (hkinds : s'.kinds = s.kinds)
    (hphase : ∀ u, s'.phase u = if u = t then p else s.phase u)
    (hsync : ∀ u, (s'.tasks u).enteredSync = (s.tasks u).enteredSync)
    (hfirst : ∀ u, First s u → s.phase u ≠ .exited → First s' u)
    (hqueue : ∀ u a, s'.phase u = .queued a → ⟨u, false⟩ ∈ s'.nextTaskQueue)
    (hp : p ≠ .created ∧ ∀ inLoop code, p ≠ .returned inLoop code)
    (hnot : (s.tasks t).enteredSync = false)
    (hactive : p = .granted → First s' t)
    (hother : p ≠ .granted → (∃ a, p = .queued a) ∨ p = .exited) : Slots s' := by
  constructor
  -- `t` is active only where it is granted, and then it is the first
  case active =>
    intro u hu
    by_cases hut : u = t
    · subst hut
      by_cases hgranted : p = .granted
      · exact hactive hgranted
      · have hphase' := hphase u
        rw [if_pos rfl] at hphase'
        rcases hother hgranted with ⟨a, rfl⟩ | rfl
        · exact absurd hphase' (hu.2.2.1 a)
        · exact absurd hphase' hu.2.2.2
    · unfold Active at hu
      rw [hphase u, if_neg hut, hsync u] at hu
      exact hfirst u (hs.active u hu) hu.2.2.2
  case queued => exact hqueue
  case created =>
    intro u hu
    rw [hphase u] at hu
    rw [hsync u]
    split at hu
    · exact absurd hu hp.1
    · exact hs.created u hu
  case sync =>
    intro u hu
    rw [hsync u] at hu
    rw [hkinds]
    exact hs.sync u hu
  case syncPhase =>
    intro u hu
    rw [hsync u] at hu
    rw [hphase u]
    split
    case isTrue hut =>
      rw [hut, hnot] at hu
      cases hu
    case isFalse => exact hs.syncPhase u hu
  case callbacks =>
    intro u hu inLoop code
    rw [hkinds] at hu
    rw [hphase u]
    split
    · exact hp.2 inLoop code
    · exact hs.callbacks u hu inLoop code

theorem Slots.still (hs : Slots s) (h : Still s s') : Slots s' := by
  have hfirst : ∀ u, First s' u ↔ First s u := by
    intro u
    unfold First
    rw [h.nextTaskQueue]
  constructor
  case active =>
    intro u hu
    unfold Active at hu
    rw [h.phase, h.enteredSync] at hu
    exact (hfirst u).2 (hs.active u hu)
  case queued =>
    intro u a hu
    rw [h.phase] at hu
    rw [h.nextTaskQueue]
    exact hs.queued u a hu
  case created =>
    intro u hu
    rw [h.phase] at hu
    rw [h.enteredSync]
    exact hs.created u hu
  case sync =>
    intro u hu
    rw [h.enteredSync] at hu
    rw [h.kinds]
    exact hs.sync u hu
  case syncPhase =>
    intro u hu
    rw [h.enteredSync] at hu
    rw [h.phase]
    exact hs.syncPhase u hu
  case callbacks =>
    intro u hu
    rw [h.kinds] at hu
    rw [h.phase]
    exact hs.callbacks u hu

theorem mem_queued_complete {t u : Nat} (h : (⟨u, false⟩ : Placeholder) ∈ s.nextTaskQueue)
    (hne : u ≠ t) : ⟨u, false⟩ ∈ (s.complete t).nextTaskQueue := by
  refine List.mem_map.2 ⟨_, h, ?_⟩
  rw [if_neg hne]

theorem Slots.next (hs : Slots s) (hstep : next call s s') : Slots s' := by
  rcases next_effect hstep with ⟨hstill, -⟩ | ⟨t, hphase, rfl, -⟩ | ⟨t, a, hphase, rfl, -⟩ |
    ⟨t, hphase, rfl, -⟩ | ⟨t, hmove, -⟩ | ⟨t, op, p, p', hallowed, hmove, -⟩ |
    ⟨t, p, p', hp', -, hcall, hmove⟩
  · exact hs.still hstill
  · -- the queue grows at its end
    refine hs.requeue (t := t) (p := .queued s.nextTaskPromise) rfl ?_ ?_ ?_ ?_ ?_ ?_ ?_ ?_
    · exact fun u => phase_setPhase s t u _
    · exact fun u => enteredSync_setPhase s t u _
    · exact fun u hu _ => find?_append_of_some hu
    · intro u b hu
      change ⟨u, false⟩ ∈ s.nextTaskQueue ++ [⟨t, false⟩]
      by_cases hut : u = t
      · rw [hut]
        exact List.mem_append_right _ List.mem_cons_self
      · have hold : s.phase u = .queued b := by
          have := phase_setPhase s t u (.queued s.nextTaskPromise)
          rw [if_neg hut] at this
          exact this.symm.trans hu
        exact List.mem_append_left _ (hs.queued u b hold)
    · exact ⟨Phase.noConfusion, fun _ _ => Phase.noConfusion⟩
    · exact hs.created t hphase
    · exact fun h => Phase.noConfusion h
    · exact fun _ => .inl ⟨_, rfl⟩
  · obtain ⟨p, hp, hphase', hsync, hqueue, hkinds, -⟩ := hs.slot_cases hphase
    refine hs.requeue (t := t) (p := p) hkinds hphase' hsync ?_ ?_ ?_ ?_ ?_ ?_
    · exact fun u hu _ => hu.nextTaskExecutionSlot
    · intro u b hu
      apply hqueue
      rw [hphase'] at hu
      split at hu
      case isTrue hut => exact hut ▸ hs.queued t a hphase
      case isFalse => exact hs.queued u b hu
    · rcases hp with ⟨rfl, -⟩ | ⟨rfl, -⟩ <;> simp
    · by_contra hne
      have := hs.syncPhase t (by simpa using hne)
      rw [hphase] at this
      exact this
    · intro h
      rcases hp with ⟨-, hfirst⟩ | ⟨rfl, -⟩
      · exact hfirst.nextTaskExecutionSlot
      · cases h
    · intro h
      rcases hp with ⟨rfl, -⟩ | ⟨rfl, -⟩
      · exact absurd rfl h
      · exact .inl ⟨_, rfl⟩
  · have hne : ∀ u, s.phase u ≠ .exited → u ≠ t := by
      rintro u hu rfl
      exact hu hphase
    constructor
    case active =>
      exact fun u hu => (hs.active u hu).complete (Ne.symm (hne u hu.2.2.2))
    case queued =>
      intro u a hu
      refine mem_queued_complete (hs.queued u a hu) (hne u ?_)
      change s.phase u = .queued a at hu
      rw [hu]
      exact Phase.noConfusion
    case created => exact hs.created
    case sync => exact hs.sync
    case syncPhase => exact hs.syncPhase
    case callbacks => exact hs.callbacks
  · refine hs.move hmove ?_ ?_ ?_ ?_ ?_ ?_ <;> simp [SyncPhase]
  · obtain ⟨-, hqueued, hexited, hcreated', hqueued'⟩ := hallowed.ne
    refine hs.move hmove hqueued hexited hcreated' hqueued' (fun hk hp => ?_) fun hk => ?_
    · rcases hp with hp | hp
      · exact hallowed.syncPhase hk hp
      · exact absurd hp hallowed.ne.1
    · exact hallowed.not_returned hk
  · have hp : (∀ a, p ≠ .queued a) ∧ p ≠ .exited := by
      rcases hcall with ⟨rfl, -⟩ | ⟨rfl | rfl | rfl, -⟩ <;> simp
    have hp'' : p' ≠ .created ∧ (∀ a, p' ≠ .queued a) ∧ SyncPhase p' ∧
        ∀ inLoop code, p' ≠ .returned inLoop code := by
      rcases hp' with rfl | ⟨inLoop, rfl⟩ <;> simp [SyncPhase]
    exact hs.move hmove hp.1 hp.2 hp''.1 hp''.2.1 (fun _ _ => hp''.2.2.1) fun _ => hp''.2.2.2

end Jco.Component.Execution

import Jco.Component.Subtask
import Mathlib.Logic.Relation
import Mathlib.Data.List.Pairwise

/-! # What becomes of a subtask

The resolve handlers do not know why they are called: a rejection goes through
`cancel` to the same `onResolve` as the results do, which gives the error to the
function of the adapter and makes the subtask `RETURNED`.
-/

namespace Jco.Component.Subtask

open Jco.Js Jco.Lib

variable {α : Type} {s s' : State α}

/-! ## What resolve handlers keep -/

/-- The state of the task and the history, but for what is stored. -/
structure Kept (s s' : State α) : Prop where
  taskState : s'.taskState = s.taskState
  rejected : s'.rejected = s.rejected
  cancelled : s'.cancelled = s.cancelled
  answered : s'.answered = s.answered
  seen : s'.seen = s.seen
  cancelRequested : s'.cancelRequested = s.cancelRequested
  onStartCalled : s'.onStartCalled = s.onStartCalled
  stores : s.stores ≠ [] → s'.stores ≠ []

theorem Kept.preorder : Script.Preorder (Kept (α := α)) where
  refl _ := ⟨rfl, rfl, rfl, rfl, rfl, rfl, rfl, id⟩
  trans h h' := ⟨h'.taskState.trans h.taskState, h'.rejected.trans h.rejected,
    h'.cancelled.trans h.cancelled, h'.answered.trans h.answered, h'.seen.trans h.seen,
    h'.cancelRequested.trans h.cancelRequested, h'.onStartCalled.trans h.onStartCalled,
    fun hs => h'.stores (h.stores hs)⟩

/-- Handlers keep the subtask's state too, once it has been resolved. -/
structure KeptStatus (s s' : State α) : Prop extends Kept s s' where
  status : s'.status = s.status

theorem KeptStatus.preorder : Script.Preorder (KeptStatus (α := α)) where
  refl s := ⟨Kept.preorder.refl s, rfl⟩
  trans h h' := ⟨Kept.preorder.trans h.toKept h'.toKept, h'.status.trans h.status⟩

/-- A change of fields that are not looked at here. -/
theorem KeptStatus.of_eq (htask : s'.taskState = s.taskState) (hrejected : s'.rejected = s.rejected)
    (hcancelled : s'.cancelled = s.cancelled) (hanswered : s'.answered = s.answered)
    (hseen : s'.seen = s.seen) (hrequested : s'.cancelRequested = s.cancelRequested)
    (hstart : s'.onStartCalled = s.onStartCalled) (hstores : s.stores ≠ [] → s'.stores ≠ [])
    (hstatus : s'.status = s.status) : KeptStatus s s' :=
  ⟨⟨htask, hrejected, hcancelled, hanswered, hseen, hrequested, hstart, hstores⟩, hstatus⟩

open Script

theorem keeps_deliverResolve : Keeps KeptStatus (deliverResolve : Js α Unit) := by
  have hR := KeptStatus.preorder (α := α)
  apply Keeps.bind hR (.get hR)
  intro s
  apply Keeps.bind hR (.throwIf hR _ _)
  intro _
  apply Keeps.bind hR (.throwIf hR _ _)
  intro _
  exact .modify fun s => .of_eq rfl rfl rfl rfl rfl rfl rfl id rfl

theorem keeps_returnFn (o : Outcome) (params : List (Value α)) :
    Keeps KeptStatus (returnFn o params) := by
  apply Keeps.ite
  · exact .modify fun s => .of_eq rfl rfl rfl rfl rfl rfl rfl (by simp) rfl
  · exact .throw KeptStatus.preorder _

theorem keeps_lowerResult (o : Outcome) (value : Value α) :
    Keeps KeptStatus (lowerResult o value) := by
  apply Keeps.ite
  · exact .modify fun s => .of_eq rfl rfl rfl rfl rfl rfl rfl (by simp) rfl
  · exact .throw KeptStatus.preorder _

theorem keeps_callReturnFn (o : Outcome) (params : List (Value α)) :
    Keeps KeptStatus (callReturnFn o params) := by
  apply Keeps.bind KeptStatus.preorder (keeps_returnFn o params)
  intro _
  exact .modify fun s => .of_eq rfl rfl rfl rfl rfl rfl rfl id rfl

theorem keeps_asyncStartCallHandler (o : Outcome) (res : Value α) :
    Keeps KeptStatus (asyncStartCallHandler o res) := by
  have hR := KeptStatus.preorder (α := α)
  apply Keeps.bind hR (.get hR)
  intro s
  apply Keeps.bind hR (.throwIf hR _ _)
  intro _
  apply Keeps.ite
  · apply Keeps.ite
    · exact .pure hR ()
    · exact keeps_returnFn o []
  · apply Keeps.ite
    · exact .pure hR ()
    · exact keeps_lowerResult o res

theorem keeps_setResult (value : Value α) : Keeps KeptStatus (setResult value) := by
  have hR := KeptStatus.preorder (α := α)
  apply Keeps.bind hR (.get hR)
  intro s
  apply Keeps.bind hR (.throwIf hR _ _)
  intro _
  exact .modify fun s => .of_eq rfl rfl rfl rfl rfl rfl rfl id rfl

theorem keeps_storeResult (o : Outcome) (value : Value α) :
    Keeps KeptStatus (storeResult o value) := by
  have hR := KeptStatus.preorder (α := α)
  apply Keeps.bind hR (keeps_setResult value)
  intro _
  apply Keeps.bind hR (.get hR)
  intro s
  apply Keeps.bind hR (.when hR (keeps_asyncStartCallHandler o value))
  intro _
  apply Keeps.bind hR (.get hR)
  intro s'
  apply Keeps.bind hR (.when hR (keeps_lowerResult o value))
  intro _
  apply Keeps.bind hR
  · exact .modify fun s => .of_eq rfl rfl rfl rfl rfl rfl rfl id rfl
  intro _
  exact .when hR keeps_deliverResolve

/-! ## What they deliver -/

/-- The handlers move a subtask in one way only, as no cancellation is requested. -/
def Along (a b : Status) : Prop := b = a ∨ a = .started ∧ b = .returned

/-- What a call of the handlers does, where `hit` tells that something is delivered. -/
structure Resolves (hit : Prop) (s s' : State α) : Prop extends Kept s s' where
  delivered : s'.Delivered ↔ s.Delivered ∨ hit
  along : Along s.status s'.status

theorem resolveStatus_eq (hrequested : s.cancelRequested = false) (value : Value α) :
    (resolveStatus value).run s =
      if s.status = .started then (.ok (), { s with status := .returned })
      else (.error (.error "resolved subtask must have been started before completion"), s) := by
  have hnot : ¬ (value.isNull && s.cancelRequested) = true := by
    rw [hrequested]
    simp
  unfold resolveStatus
  rw [get_bind, if_neg hnot, throwIf_bind, run_modify]
  by_cases h : s.status = .started
  · rw [if_pos h, if_neg (by simp [h])]
  · rw [if_neg h, if_pos (by simp [h])]

theorem subtaskOnResolve_resolves (hrequested : s.cancelRequested = false) (o : Outcome)
    (value : Value α) :
    Resolves (s.resolved = false ∧ s.status = .started) s ((subtaskOnResolve o value).leaves s) := by
  unfold leaves subtaskOnResolve
  rw [get_bind, throwIf_bind]
  split
  case isTrue hresolved =>
    refine ⟨Kept.preorder.refl s, ⟨.inl, fun h => h.resolve_right ?_⟩, .inl rfl⟩
    rw [hresolved]
    exact fun h => Bool.noConfusion h.1
  case isFalse hresolved =>
  rw [modify_bind, run_bind]
  by_cases hstatus : s.status = .started
  · -- from here on the subtask has returned, whatever is thrown
    rw [resolveStatus_eq (s := s.progress) hrequested, if_pos (show s.progress.status = .started from hstatus)]
    have hkept := keeps_storeResult o value { s.progress with status := .returned }
    have hbefore : Kept s { s.progress with status := .returned } :=
      ⟨rfl, rfl, rfl, rfl, rfl, rfl, rfl, id⟩
    refine ⟨Kept.preorder.trans hbefore hkept.toKept, ⟨fun _ => .inr ⟨?_, hstatus⟩, fun _ => ?_⟩, ?_⟩
    · simpa using hresolved
    · exact .inl hkept.status
    · exact .inr ⟨hstatus, hkept.status⟩
  · rw [resolveStatus_eq (s := s.progress) hrequested, if_neg (show s.progress.status ≠ .started from hstatus)]
    exact ⟨⟨rfl, rfl, rfl, rfl, rfl, rfl, rfl, id⟩,
      ⟨.inl, fun h => h.resolve_right fun h => hstatus h.2⟩, .inl rfl⟩

theorem callReturnFn_ok {o : Outcome} (ho : o.returnFn = true) (params : List (Value α)) :
    ∃ t, (callReturnFn o params).run s = (.ok (), t) ∧ KeptStatus s t ∧ t.stores ≠ [] ∧
      t.returnFnPending = false := by
  have hkept := keeps_callReturnFn o params s
  unfold leaves callReturnFn returnFn at hkept
  unfold callReturnFn returnFn
  rw [if_pos ho, modify_bind, run_modify] at hkept ⊢
  refine ⟨_, rfl, hkept, ?_, ?_⟩
  · simp
  · simp [State.returnFnPending]

theorem callReturnFn_error {o : Outcome} (ho : o.returnFn = false) (params : List (Value α)) :
    (callReturnFn o params).run s = (.error .engine, s) := by
  unfold callReturnFn returnFn
  rw [if_neg (by rw [ho]; exact Bool.false_ne_true), throw_bind]

theorem onResolve_resolves (hrequested : s.cancelRequested = false) (o : Outcome)
    (value : Value α) : Resolves (s.Delivers o) s ((onResolve o value).leaves s) := by
  have hnothing : ¬ s.Delivers o → Resolves (s.Delivers o) s s := fun h =>
    ⟨Kept.preorder.refl s, ⟨.inl, fun h' => h'.resolve_right h⟩, .inl rfl⟩
  unfold leaves onResolve
  rw [throwIf_bind]
  split
  case isTrue hhandlers =>
    refine hnothing fun h => ?_
    rw [h.1] at hhandlers
    cases hhandlers
  case isFalse hhandlers =>
  have hhandlers : o.handlers = true := by simpa using hhandlers
  rw [get_bind, when_bind]
  split
  case isFalse hpending =>
    rw [throwIf_bind]
    have hdelivers : s.Delivers o ↔
        o.postReturn = true ∧ s.resolved = false ∧ s.status = .started := by
      unfold State.Delivers
      rw [if_neg hpending]
      exact ⟨fun h => h.2, fun h => ⟨hhandlers, h⟩⟩
    split
    case isTrue hpost =>
      refine hnothing fun h => ?_
      rw [(hdelivers.1 h).1] at hpost
      cases hpost
    case isFalse hpost =>
      have hpost : o.postReturn = true := by simpa using hpost
      obtain ⟨hkept, hdelivered, halong⟩ := subtaskOnResolve_resolves hrequested o value
      refine ⟨hkept, hdelivered.trans (or_congr_right ?_), halong⟩
      rw [hdelivers]
      exact ⟨fun h => ⟨hpost, h⟩, fun h => h.2⟩
  case isTrue hpending =>
    have hdelivers : s.Delivers o ↔ o.returnFn = true := by
      unfold State.Delivers
      rw [if_pos hpending]
      exact ⟨fun h => h.2, fun h => ⟨hhandlers, h⟩⟩
    rw [run_bind]
    cases hreturn : o.returnFn with
    | false =>
      rw [callReturnFn_error hreturn]
      refine hnothing fun h => ?_
      rw [hdelivers, hreturn] at h
      cases h
    | true =>
      -- the adapter has stored what it was given
      obtain ⟨t, hrun, hkept, hstores, -⟩ := callReturnFn_ok (s := s) hreturn [value]
      rw [hrun]
      dsimp only
      rw [throwIf_bind]
      have hhit : s.Delivers o := hdelivers.2 hreturn
      split
      · exact ⟨hkept.toKept, ⟨fun _ => .inr hhit, fun _ => .inr hstores⟩, .inl hkept.status⟩
      · have hrequested' : t.cancelRequested = false := hkept.cancelRequested.trans hrequested
        obtain ⟨hkept', hdelivered, halong⟩ := subtaskOnResolve_resolves hrequested' o value
        refine ⟨Kept.preorder.trans hkept.toKept hkept', ⟨fun _ => .inr hhit, fun _ => ?_⟩, ?_⟩
        · exact hdelivered.2 (.inl (.inr hstores))
        · rw [← hkept.status]
          exact halong

/-! ## The callee -/

/-- What a step does for the caller, where `hit` tells that something is delivered. -/
structure Progress (hit : Prop) (s s' : State α) : Prop where
  delivered : s'.Delivered ↔ s.Delivered ∨ hit
  along : Along s.status s'.status
  seen : s'.seen = s.seen
  cancelRequested : s'.cancelRequested = s.cancelRequested
  onStartCalled : s'.onStartCalled = s.onStartCalled

theorem Progress.refl {hit : Prop} (hnot : ¬ hit) (s : State α) : Progress hit s s where
  delivered := ⟨.inl, fun h => h.resolve_right hnot⟩
  along := .inl rfl
  seen := rfl
  cancelRequested := rfl
  onStartCalled := rfl

theorem Resolves.progress {hit : Prop} (h : Resolves hit s s') : Progress hit s s' :=
  { h with }

theorem cancel_of_ne (htask : s.taskState ≠ .cancelDelivered) (o : Outcome) (err : JsError) :
    (cancel o err).leaves s = s := by
  unfold leaves cancel
  rw [get_bind, throwIf_bind, if_pos (by simpa using htask)]

theorem cancel_progress (hrequested : s.cancelRequested = false)
    (htask : s.taskState = .cancelDelivered) (o : Outcome) (err : JsError) :
    Progress (s.Delivers o) s ((cancel o err).leaves s) ∧
      ((cancel o err).leaves s).rejected = s.rejected ∧
      ((cancel o err).leaves s).cancelled = true := by
  have hresolves := onResolve_resolves (s := { s with cancelled := true }) hrequested o (.error err)
  have hprogress := hresolves.progress
  have hrejected := hresolves.rejected
  have hcancelled := hresolves.cancelled
  unfold leaves at hprogress hrejected hcancelled ⊢
  unfold cancel
  rw [get_bind, throwIf_bind, if_neg (by simpa using htask), modify_bind, run_bind]
  rcases hrun : (onResolve o (.error err)).run { s with cancelled := true } with ⟨r, t⟩
  rw [hrun] at hprogress hrejected hcancelled
  -- whether it threw or not is seen in the state of the task only
  cases r with
  | ok _ =>
    exact ⟨{ hprogress with }, hrejected, hcancelled⟩
  | error _ =>
    exact ⟨{ hprogress with }, hrejected, hcancelled⟩

theorem reject_of_over (h : s.taskState = .resolved ∨ s.rejected = true) (o : Outcome)
    (err : JsError) : (reject o err).leaves s = s := by
  unfold leaves reject
  rw [get_bind, if_pos (by simpa using h), run_pure]

theorem reject_progress (hrequested : s.cancelRequested = false)
    (h : ¬ (s.taskState = .resolved ∨ s.rejected = true)) (o : Outcome) (err : JsError) :
    Progress (s.Delivers o) s ((reject o err).leaves s) ∧
      ((reject o err).leaves s).rejected = true := by
  have hcancel := cancel_progress (s := { s with rejected := true, taskState := .cancelDelivered })
    hrequested rfl o err
  unfold leaves at hcancel ⊢
  unfold reject
  rw [get_bind, if_neg (by simpa using h), modify_bind, modify_bind]
  obtain ⟨hprogress, hrejected, -⟩ := hcancel
  exact ⟨{ hprogress with }, hrejected⟩

theorem resolve_of_resolved (htask : s.taskState = .resolved) (o : Outcome) (results : List α) :
    (resolve o results).leaves s = s := by
  unfold leaves resolve
  rw [get_bind, throwIf_bind, if_pos (by simpa using htask)]

theorem resolve_progress (hrequested : s.cancelRequested = false) (htask : s.taskState ≠ .resolved)
    (o : Outcome) (results : List α) :
    Progress (results.length ≤ 1 ∧ s.Delivers o) s ((resolve o results).leaves s) ∧
      ((resolve o results).leaves s).rejected = s.rejected ∧
      ((resolve o results).leaves s).cancelled = s.cancelled ∧
      ((resolve o results).leaves s).answered = s.answered ∧
      ((resolve o results).leaves s).taskState = .resolved := by
  have hresolves := fun value =>
    onResolve_resolves (s := { s with taskState := .resolved }) hrequested o value
  have hone : ∀ value : Value α, Progress (True ∧ s.Delivers o) s
      ((onResolve o value).leaves { s with taskState := .resolved }) := by
    intro value
    obtain ⟨hdelivered, halong, hseen, hreq, hstart⟩ := (hresolves value).progress
    refine ⟨hdelivered.trans (or_congr_right ?_), halong, hseen, hreq, hstart⟩
    rw [true_and]
    exact Iff.rfl
  rcases results with _ | ⟨value, _ | ⟨second, rest⟩⟩
  · have hthrough : (resolve o []).leaves s =
        (onResolve o .undefined).leaves { s with taskState := .resolved } := by
      simp only [leaves, resolve, get_bind, throwIf_bind, modify_bind, decide_eq_true_eq, htask, if_false]
    rw [hthrough]
    have hkept := (hresolves .undefined).toKept
    refine ⟨?_, hkept.rejected, hkept.cancelled, hkept.answered, hkept.taskState⟩
    simpa using hone .undefined
  · have hthrough : (resolve o [value]).leaves s =
        (onResolve o (.result value)).leaves { s with taskState := .resolved } := by
      simp only [leaves, resolve, get_bind, throwIf_bind, modify_bind, decide_eq_true_eq, htask, if_false]
    rw [hthrough]
    have hkept := (hresolves (.result value)).toKept
    refine ⟨?_, hkept.rejected, hkept.cancelled, hkept.answered, hkept.taskState⟩
    simpa using hone (.result value)
  · have hthrough : (resolve o (value :: second :: rest)).leaves s =
        { s with taskState := .resolved } := by
      simp only [leaves, resolve, get_bind, throwIf_bind, modify_bind, decide_eq_true_eq, htask, if_false]
      exact rfl
    rw [hthrough]
    refine ⟨⟨⟨.inl, fun h => h.resolve_right ?_⟩, .inl rfl, rfl, rfl, rfl⟩, rfl, rfl, rfl, rfl⟩
    simp

/-- Where a `task.return` leaves the call: the task is resolved when something has
been delivered. -/
structure Returned (hit : Prop) (s t : State α) : Prop where
  progress : Progress hit s t
  rejected : t.rejected = s.rejected
  cancelled : t.cancelled = s.cancelled
  answered : t.answered = s.answered
  task : t.taskState = .resolved ∨ t.taskState = s.taskState ∧ ¬ hit

theorem taskReturn_progress (hrequested : s.cancelRequested = false) (o : Outcome)
    (params : List α) (lifted : Option (List α)) :
    Returned (s.Returns o lifted) s ((taskReturn o params lifted).leaves s) := by
  have hnothing : ¬ s.Returns o lifted → (taskReturn o params lifted).leaves s = s →
      Returned (s.Returns o lifted) s ((taskReturn o params lifted).leaves s) := by
    intro hnot heq
    rw [heq]
    exact ⟨.refl hnot s, rfl, rfl, rfl, .inr ⟨rfl, hnot⟩⟩
  -- A return function that waits is called first and takes what was lifted.
  by_cases hpending : s.returnFnPending = true
  · have hreturns : s.Returns o lifted ↔ o.returnFn = true := by
      unfold State.Returns
      rw [if_pos hpending]
    have hthrough : (taskReturn o params lifted).leaves s =
        ((callReturnFn o (params.map .result) >>= fun _ => resolve o []).run s).2 := by
      unfold leaves taskReturn
      rw [get_bind, if_pos hpending]
    cases hreturn : o.returnFn with
    | false =>
      apply hnothing
      · rw [hreturns, hreturn]
        exact Bool.false_ne_true
      · rw [hthrough, run_bind, callReturnFn_error hreturn]
    | true =>
      obtain ⟨t, hrun, hkept, hstores, -⟩ := callReturnFn_ok (s := s) hreturn (params.map .result)
      have hrequested' : t.cancelRequested = false := hkept.cancelRequested.trans hrequested
      have hthrough : (taskReturn o params lifted).leaves s = (resolve o []).leaves t := by
        rw [hthrough, run_bind, hrun]
        rfl
      rw [hthrough]
      have hhit : s.Returns o lifted := hreturns.2 hreturn
      -- it may have resolved the task itself
      by_cases htask : t.taskState = .resolved
      · rw [resolve_of_resolved htask]
        refine ⟨⟨⟨fun _ => .inr hhit, fun _ => .inr hstores⟩, .inl hkept.status, hkept.seen,
          hkept.cancelRequested, hkept.onStartCalled⟩, hkept.rejected, hkept.cancelled,
          hkept.answered, .inl htask⟩
      · obtain ⟨hprogress, hrejected, hcancelled, hanswered, htask'⟩ :=
          resolve_progress hrequested' htask o []
        refine ⟨⟨⟨fun _ => .inr hhit, fun _ => hprogress.delivered.2 (.inl (.inr hstores))⟩, ?_,
          hprogress.seen.trans hkept.seen, hprogress.cancelRequested.trans hkept.cancelRequested,
          hprogress.onStartCalled.trans hkept.onStartCalled⟩, hrejected.trans hkept.rejected,
          hcancelled.trans hkept.cancelled, hanswered.trans hkept.answered, .inl htask'⟩
        rw [← hkept.status]
        exact hprogress.along
  · have hreturns : s.Returns o lifted ↔
        s.taskState ≠ .resolved ∧ ∃ results ∈ lifted, results.length ≤ 1 ∧ s.Delivers o := by
      unfold State.Returns
      rw [if_neg hpending]
    cases lifted with
    | none =>
      -- nothing could be lifted, so the call throws before it resolves
      apply hnothing
      · rw [hreturns]
        simp
      · unfold leaves taskReturn
        rw [get_bind, if_neg hpending]
        rfl
    | some results =>
      have hthrough : (taskReturn o params (some results)).leaves s =
          (resolve o results).leaves s := by
        unfold leaves taskReturn
        rw [get_bind, if_neg hpending]
      by_cases htask : s.taskState = .resolved
      · apply hnothing
        · rw [hreturns]
          exact fun h => h.1 htask
        · rw [hthrough, resolve_of_resolved htask]
      · rw [hthrough]
        obtain ⟨hprogress, hrejected, hcancelled, hanswered, htask'⟩ :=
          resolve_progress hrequested htask o results
        refine ⟨⟨hprogress.delivered.trans (or_congr_right ?_), hprogress.along, hprogress.seen,
          hprogress.cancelRequested, hprogress.onStartCalled⟩, hrejected, hcancelled, hanswered,
          .inl htask'⟩
        rw [hreturns]
        simp [htask]

/-! ## Every run -/

theorem Along.move {a b : Status} (h : Along a b) : b = a ∨ Move a b := by
  rcases h with h | ⟨rfl, rfl⟩
  · exact .inl h
  · exact .inr .returns

/-- What the caller may see later. -/
def Later : Status → Status → Prop := Relation.ReflTransGen Move

theorem later_of_move {a b : Status} (h : b = a ∨ Move a b) : Later a b := by
  rcases h with rfl | h
  · exact .refl
  · exact .single h

/-- What holds whatever the handlers are called with. -/
structure Base (s : State α) : Prop where
  cancelRequested : s.cancelRequested = false
  starting : s.onStartCalled = false → s.status = .starting
  seen : s.seen.Pairwise Later
  current : ∀ x ∈ s.seen, Later x s.status

theorem Base.init (componentIdx : Int) (taskID : Nat) (isAsync startCall callerMemory : Bool)
    (callMetadata : CallMetadata) : Base
      (.init componentIdx taskID isAsync startCall callerMemory callMetadata : State α) where
  cancelRequested := rfl
  starting _ := rfl
  seen := .nil
  current _ h := absurd h List.not_mem_nil

theorem Base.progress {hit : Prop} (hb : Base s) (h : Progress hit s s') : Base s' where
  cancelRequested := h.cancelRequested.trans hb.cancelRequested
  starting hs := by
    have hstarting := hb.starting (h.onStartCalled.symm.trans hs)
    rcases h.along with halong | ⟨hstarted, -⟩
    · exact halong.trans hstarting
    · rw [hstarting] at hstarted
      cases hstarted
  seen := by
    rw [h.seen]
    exact hb.seen
  current x hx := by
    rw [h.seen] at hx
    exact (hb.current x hx).trans (later_of_move h.along.move)

theorem Base.observe (hb : Base s) : Base s.observe where
  cancelRequested := hb.cancelRequested
  starting := hb.starting
  seen := by
    refine List.pairwise_append.2 ⟨hb.seen, List.pairwise_singleton _ _, fun x hx y hy => ?_⟩
    rw [List.mem_singleton.1 hy]
    exact hb.current x hx
  current x hx := by
    rcases List.mem_append.1 hx with hx | hx
    · exact hb.current x hx
    · rw [List.mem_singleton.1 hx]
      exact .refl

/-- The caller takes the event, or sees nothing. -/
theorem event_cases (s : State α) : ∃ t, KeptStatus s t ∧ t.stores = s.stores ∧
    (s.event = t ∨ s.event = t.observe) := by
  have hclear : KeptStatus s { s with pendingEvent := false } :=
    .of_eq rfl rfl rfl rfl rfl rfl rfl id rfl
  have hdeliver := keeps_deliverResolve (α := α) { s with pendingEvent := false }
  have hstores : ((deliverResolve : Js α Unit).leaves { s with pendingEvent := false }).stores =
      s.stores := by
    unfold leaves deliverResolve
    rw [get_bind, throwIf_bind]
    split
    · rfl
    · rw [throwIf_bind]
      split <;> rfl
  have hafter := KeptStatus.preorder.trans hclear hdeliver
  unfold State.event
  dsimp only
  split
  · split
    · exact ⟨_, hafter, hstores, .inl rfl⟩
    · exact ⟨_, hafter, hstores, .inr rfl⟩
  · exact ⟨_, hclear, rfl, .inr rfl⟩

/-- What a step is: the start, nothing that counts, results that are given, or a
failure of the callee. -/
inductive Effect (call : Call α) (s s' : State α) : Prop
  | start (hcalled : s.onStartCalled = false) (heq : s' = s.start) (hsafe : Safe call s)
  | quiet (t : State α) (hkept : KeptStatus s t) (hstores : t.stores = s.stores)
      (hcases : s' = t ∨ s' = t.observe) (hsafe : Safe call s)
  | answer (hit : Prop) (hprogress : Progress hit s s') (hanswered : s'.answered = true)
      (hrejected : s'.rejected = s.rejected) (hcancelled : s'.cancelled = s.cancelled)
      (htask : s'.taskState = .resolved ∨ s'.taskState = s.taskState ∧ ¬ hit)
      (hsafe : Safe call s ↔ (s.rejected = true → ¬ hit))
  | fail (hit : Prop) (hprogress : Progress hit s s') (htask : s.taskState ≠ .resolved)
      (hrejected : (s.taskState = .cancelDelivered → s.rejected = true) → s'.rejected = true)
      (hsafe : Safe call s ↔ ¬ hit)

theorem next_effect {call : Call α} (hrequested : s.cancelRequested = false)
    (hstep : next call s s') : Effect call s s' := by
  have hsame : Safe call s → s' = s → Effect call s s' := by
    rintro hsafe rfl
    exact .quiet s' (KeptStatus.preorder.refl s') rfl (.inl rfl) hsafe
  unfold next State.call at hstep
  cases call with
  | start =>
    dsimp only at hstep
    split at hstep
    · cases hstep
    case isFalse hcalled =>
      exact .start (by simpa using hcalled) (Option.some.inj hstep).symm trivial
  | taskReturn o params lifted =>
    -- an answer, whatever it delivers
    cases hstep
    obtain ⟨hprogress, hrejected, hcancelled, hanswered, htask⟩ :=
      taskReturn_progress (s := s.answer) hrequested o params lifted
    exact .answer (s.Returns o lifted) { hprogress with } hanswered hrejected hcancelled htask
      Iff.rfl
  | resolve o results =>
    -- on a resolved task it throws; else at most one result is delivered
    cases hstep
    by_cases htask : s.taskState = .resolved
    · rw [resolve_of_resolved (s := s.answer) htask]
      exact .answer False ⟨⟨.inl, fun h => h.resolve_right id⟩, .inl rfl, rfl, rfl, rfl⟩ rfl rfl rfl
        (.inl htask) ⟨fun _ _ => id, fun _ _ => .inl htask⟩
    · obtain ⟨hprogress, hrejected, hcancelled, hanswered, htask'⟩ :=
        resolve_progress (s := s.answer) hrequested htask o results
      refine .answer (results.length ≤ 1 ∧ s.Delivers o) { hprogress with } hanswered hrejected
        hcancelled (.inl htask') ?_
      refine imp_congr_right fun _ => ?_
      rw [not_and_or, Nat.not_le]
      exact ⟨fun h => h.resolve_left htask, .inr⟩
  | reject o err =>
    -- nothing once the task is over
    cases hstep
    by_cases hover : s.taskState = .resolved ∨ s.rejected = true
    · exact hsame (or_assoc.1 (.inl hover)) (reject_of_over hover o err)
    · obtain ⟨hprogress, hrejected⟩ := reject_progress hrequested hover o err
      refine .fail (s.Delivers o) hprogress (fun h => hover (.inl h)) (fun _ => hrejected) ?_
      unfold Safe
      dsimp only
      rw [← or_assoc]
      exact ⟨fun h => h.resolve_left hover, .inr⟩
  | cancel o =>
    cases hstep
    by_cases htask : s.taskState = .cancelDelivered
    · obtain ⟨hprogress, hrejected, -⟩ :=
        cancel_progress hrequested htask o (.error "task cancelled")
      refine .fail (s.Delivers o) hprogress ?_ (fun h => hrejected.trans (h htask)) ?_
      · rw [htask]
        exact TaskState.noConfusion
      · exact ⟨fun h => h htask, fun h _ => h⟩
    · exact hsame (fun h => absurd h htask) (cancel_of_ne htask o _)
  | observe =>
    cases hstep
    exact .quiet s (KeptStatus.preorder.refl s) rfl (.inr rfl) trivial
  | event =>
    rcases Option.ite_none_right_eq_some.1 hstep with ⟨-, hstep⟩
    cases hstep
    obtain ⟨t, hkept, hstores, hcases⟩ := event_cases s
    exact .quiet t hkept hstores hcases trivial

/-! ## Faithful runs -/

/-- What has been delivered came from results, and the task is resolved since. -/
structure Sound (s : State α) : Prop where
  faithful : Faithful s
  cancelling : s.taskState = .cancelDelivered ∨ s.cancelled = true → s.rejected = true
  settled : s.Delivered → s.taskState = .resolved

theorem not_delivered_init (componentIdx : Int) (taskID : Nat)
    (isAsync startCall callerMemory : Bool) (callMetadata : CallMetadata) :
    ¬ (State.init componentIdx taskID isAsync startCall callerMemory callMetadata :
      State α).Delivered := by
  rintro (h | h)
  · cases h
  · exact h rfl

theorem Sound.init (componentIdx : Int) (taskID : Nat) (isAsync startCall callerMemory : Bool)
    (callMetadata : CallMetadata) : Sound
      (.init componentIdx taskID isAsync startCall callerMemory callMetadata : State α) where
  faithful := by
    have hnot := not_delivered_init (α := α) componentIdx taskID isAsync startCall callerMemory
      callMetadata
    exact ⟨fun h => absurd h hnot, fun h => absurd h hnot, fun h => absurd h hnot⟩
  cancelling h := by
    rcases h with h | h <;> cases h
  settled h := absurd h (not_delivered_init _ _ _ _ _ _)

/-- Nothing is delivered, and the task is in the state it was in. -/
theorem Sound.same (hs : Sound s) (hdelivered : s'.Delivered → s.Delivered)
    (htask : s'.taskState = s.taskState) (hrejected : s'.rejected = s.rejected)
    (hcancelled : s'.cancelled = s.cancelled) (hanswered : s'.answered = s.answered) :
    Sound s' := by
  constructor
  case faithful =>
    constructor
    · intro h
      rw [hanswered]
      exact hs.faithful.answered (hdelivered h)
    · intro h
      rw [hrejected]
      exact hs.faithful.rejected (hdelivered h)
    · intro h
      rw [hcancelled]
      exact hs.faithful.cancelled (hdelivered h)
  case cancelling =>
    rw [htask, hcancelled, hrejected]
    exact hs.cancelling
  case settled =>
    intro h
    rw [htask]
    exact hs.settled (hdelivered h)

theorem KeptStatus.sound {t : State α} (h : KeptStatus s t) (hstores : t.stores = s.stores)
    (hs : Sound s) : Sound t := by
  refine hs.same (fun hd => ?_) h.taskState h.rejected h.cancelled h.answered
  rcases hd with hd | hd
  · exact .inl (h.status.symm.trans hd)
  · exact .inr (hstores ▸ hd)

theorem Sound.observe (hs : Sound s) : Sound s.observe := hs.same id rfl rfl rfl rfl

theorem Sound.start (hs : Sound s) : Sound s.start := by
  refine hs.same (fun hd => ?_) rfl rfl rfl rfl
  rcases hd with hd | hd
  · cases hd
  · exact .inr hd

/-- A safe step keeps it, and a step that is not safe delivers what no results gave. -/
theorem Sound.next {call : Call α} (hb : Base s) (hs : Sound s) (hstep : next call s s') :
    (Safe call s → Sound s') ∧ (¬ Safe call s → ¬ Faithful s') := by
  rcases next_effect hb.cancelRequested hstep with ⟨-, rfl, hsafe⟩ |
    ⟨t, hkept, hstores, hcases, hsafe⟩ |
    ⟨hit, hprogress, hanswered, hrejected, hcancelled, htask, hsafe⟩ |
    ⟨hit, hprogress, htask, hrejected, hsafe⟩
  · exact ⟨fun _ => hs.start, fun h => absurd hsafe h⟩
  · refine ⟨fun _ => ?_, fun h => absurd hsafe h⟩
    rcases hcases with rfl | rfl
    · exact hkept.sound hstores hs
    · exact (hkept.sound hstores hs).observe
  · rw [hsafe]
    have hclean : s.rejected = false → s'.rejected = false ∧ s'.cancelled = false := by
      intro h
      refine ⟨hrejected.trans h, ?_⟩
      rw [hcancelled]
      by_contra hne
      rw [hs.cancelling (.inr (by simpa using hne))] at h
      cases h
    refine ⟨fun hsafe => ⟨⟨fun _ => hanswered, fun hd => ?_, fun hd => ?_⟩, fun h => ?_, fun hd => ?_⟩,
      fun hnot hf => ?_⟩
    · rcases hprogress.delivered.1 hd with hd | hd
      · exact (hclean (hs.faithful.rejected hd)).1
      · exact (hclean (by simpa using fun h => hsafe h hd)).1
    · rcases hprogress.delivered.1 hd with hd | hd
      · exact (hclean (hs.faithful.rejected hd)).2
      · exact (hclean (by simpa using fun h => hsafe h hd)).2
    · rw [hrejected]
      apply hs.cancelling
      rw [hcancelled] at h
      rcases htask with htask | ⟨htask, -⟩
      · rw [htask] at h
        exact .inr (h.resolve_left TaskState.noConfusion)
      · rwa [htask] at h
    · rcases htask with htask | ⟨htask, hnothing⟩
      · exact htask
      · exact htask.trans (hs.settled ((hprogress.delivered.1 hd).resolve_right hnothing))
    · -- the callee had been rejected, and something is delivered
      apply hnot
      intro hrej hhit
      have := hf.rejected (hprogress.delivered.2 (.inr hhit))
      rw [hrejected, hrej] at this
      cases this
  · rw [hsafe]
    have hrej : s'.rejected = true := hrejected fun h => hs.cancelling (.inl h)
    have hbefore : ¬ s.Delivered := fun hd => htask (hs.settled hd)
    refine ⟨fun hnothing => ?_, fun hhit hf => ?_⟩
    · have hafter : ¬ s'.Delivered := fun hd => (hprogress.delivered.1 hd).elim hbefore hnothing
      exact ⟨⟨fun hd => absurd hd hafter, fun hd => absurd hd hafter, fun hd => absurd hd hafter⟩,
        fun _ => hrej, fun hd => absurd hd hafter⟩
    · have := hf.rejected (hprogress.delivered.2 (.inr (not_not.1 hhit)))
      rw [hrej] at this
      cases this

theorem Base.next {call : Call α} (hb : Base s) (hstep : next call s s') :
    Base s' ∧ (s'.status = s.status ∨ Move s.status s'.status) := by
  have hkept : ∀ {t : State α}, KeptStatus s t → Base t ∧ t.status = s.status := by
    intro t h
    refine ⟨⟨h.cancelRequested.trans hb.cancelRequested, fun hs => ?_, ?_, ?_⟩, h.status⟩
    · exact h.status.trans (hb.starting (h.onStartCalled.symm.trans hs))
    · rw [h.seen]
      exact hb.seen
    · rw [h.seen, h.status]
      exact hb.current
  rcases next_effect hb.cancelRequested hstep with ⟨hcalled, rfl, -⟩ | ⟨t, h, -, hcases, -⟩ |
    ⟨hit, hprogress, -⟩ | ⟨hit, hprogress, -⟩
  · have hmove : Move s.status s.start.status := by
      rw [hb.starting hcalled]
      exact .start
    refine ⟨⟨hb.cancelRequested, fun h => Bool.noConfusion h, hb.seen, fun x hx => ?_⟩, .inr hmove⟩
    exact (hb.current x hx).tail hmove
  · obtain ⟨hbase, hstatus⟩ := hkept h
    rcases hcases with rfl | rfl
    · exact ⟨hbase, .inl hstatus⟩
    · exact ⟨hbase.observe, .inl hstatus⟩
  · exact ⟨hb.progress hprogress, hprogress.along.move⟩
  · exact ⟨hb.progress hprogress, hprogress.along.move⟩

/-- In every run the subtask goes its ways. In a run in which no rejection and no
cancellation reaches a handler that delivers, everything delivered comes from
results; another step delivers what no results gave. -/
theorem subtask_outcome (componentIdx : Int) (taskID : Nat) (isAsync startCall callerMemory : Bool)
    (callMetadata : CallMetadata) :
    (∀ (calls : List (Call α)) (s : State α),
      Run next (.init componentIdx taskID isAsync startCall callerMemory callMetadata) calls s →
        s.seen.Pairwise Later ∧
          ∀ call s', next call s s' → s'.status = s.status ∨ Move s.status s'.status) ∧
    ∀ (calls : List (Call α)) (s : State α),
      Run (guarded Safe next) (.init componentIdx taskID isAsync startCall callerMemory callMetadata)
        calls s →
        Faithful s ∧ ∀ call s', next call s s' → (Faithful s' ↔ Safe call s) := by
  constructor
  · intro calls s hrun
    have hstep : ∀ (call : Call α) (t t' : State α), next call t t' → Base t → Base t' :=
      fun call t t' hnext hb => (hb.next hnext).1
    have hb := Run.invariant hstep hrun (.init _ _ _ _ _ _)
    exact ⟨hb.seen, fun call s' hnext => (hb.next hnext).2⟩
  · intro calls s hrun
    have hstep : ∀ (call : Call α) (t t' : State α), guarded Safe next call t t' →
        Base t ∧ Sound t → Base t' ∧ Sound t' :=
      fun call t t' h hi => ⟨(hi.1.next h.2).1, (hi.2.next hi.1 h.2).1 h.1⟩
    obtain ⟨hb, hs⟩ := Run.invariant hstep hrun ⟨.init _ _ _ _ _ _, .init _ _ _ _ _ _⟩
    refine ⟨hs.faithful, fun call s' hnext => ⟨fun hf => ?_, fun hsafe => ?_⟩⟩
    · by_contra hnot
      exact (hs.next hb hnext).2 hnot hf
    · exact ((hs.next hb hnext).1 hsafe).faithful

/-- An import that is lowered asynchronously, with its result in memory. -/
def asyncImport : State Nat :=
  .init 0 1 true false true ⟨false, false, 8, true, false, true⟩

/-- Every function that is called returns. -/
def allReturn : Outcome := ⟨true, true, true, true⟩

theorem asyncImport_resolve : ∃ s : State Nat,
    Run (guarded Safe next) asyncImport [.start, .resolve allReturn [7], .event] s ∧
      s.seen = [.returned] ∧ s.stores = [.lower (.result 7) 8] :=
  ⟨_, .cons ⟨trivial, rfl⟩ <| .cons ⟨fun h => Bool.noConfusion h, rfl⟩ <|
    .cons ⟨trivial, rfl⟩ <| .nil _, rfl, rfl⟩

theorem subtask_outcome_resolve : ∃ s : State Nat,
    Run (guarded Safe next) asyncImport [.start, .resolve allReturn [7], .event] s ∧
      s.seen = [.returned] ∧ Faithful s := by
  obtain ⟨s, hrun, hseen, -⟩ := asyncImport_resolve
  exact ⟨s, hrun, hseen, ((subtask_outcome 0 1 true false true _).2 _ s hrun).1⟩

/-- The host function throws. -/
theorem asyncImport_reject : ∃ s : State Nat,
    Run next asyncImport [.start, .reject allReturn (.error "failed")] s ∧ s.status = .returned ∧
      s.stores = [.lower (.error (.error "failed")) 8] ∧ s.answered = false :=
  ⟨_, .cons rfl <| .cons rfl <| .nil _, rfl, rfl, rfl⟩

theorem asyncImport_reject_not_faithful : ¬ ∀ (calls : List (Call Nat)) (s : State Nat),
    Run next asyncImport calls s → Faithful s := by
  intro hall
  obtain ⟨s, hrun, hstatus, -, hanswered⟩ := asyncImport_reject
  have := (hall _ s hrun).answered (.inl hstatus)
  rw [hanswered] at this
  cases this

end Jco.Component.Subtask

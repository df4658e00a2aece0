import Jco.Component.Subtask
import Mathlib.Data.List.Nodup

/-! # The completion promise of a task

The promise that the caller of an export awaits. The first of the resolve handlers
of an `AsyncTask` settles it, and they are called by `resolve`, with the results of
`task.return`, and by `reject`, through `cancel`.

What follows the handlers, the function of the fused adapter, the post-return and
the parent subtask, is the matter of `Jco.Component.Subtask`; here it may only
throw. Left out are the checks of `borrowedHandles`, an object without a length,
which never fail, and the tables of current tasks.
-/

namespace Jco.Component.Completion

open Jco.Js Jco.Lib List
open Jco.Component.Subtask (TaskState)

variable {α : Type}

/-- What a promise is settled with. Of what is lifted only a future has a `then`. -/
inductive Value (α : Type) where
  | undefined
  | null
  | error (err : JsError)
  | future (a : α)
  | other (a : α)

inductive Promise (α : Type) where
  | pending
  | fulfilled (value : Value α)
  | following (a : α)
  | rejected (reason : Value α)

inductive Handler where
  | completion
  | registered (id : Nat)
deriving DecidableEq

/-- Which of the functions that are called return; the others throw. `rest` is what
comes after the resolve handlers. -/
structure Outcome where
  handlers : Nat → Bool
  returnFn : Bool
  rest : Bool

/-- An `AsyncTask`. Registered handlers are numbered. History: the handlers that
have been called. -/
structure State (α : Type) where
  componentIdx : Int
  taskID : Nat
  isAsync : Bool
  preserveFutureResult : Bool
  hasCallback : Bool
  parentSubtask : Bool
  taskState : TaskState
  onResolveHandlers : List Handler
  nextHandler : Nat
  completionPromise : Promise α
  rejected : Bool
  errored : Value α
  cancelRequested : Bool
  cancelled : Bool
  exitPromise : Bool
  exited : Bool
  ran : List Handler

/-- Code that works on a task. -/
abbrev Js (α : Type) := Script JsError (State α)

namespace Value

def isNull : Value α → Bool
  | null => true
  | _ => false

/-- It has no properties, not even a `message`. -/
def isNullish : Value α → Bool
  | undefined => true
  | null => true
  | _ => false

/-- What a promise becomes that is resolved with the value. `resolveAsValue` hides
the `then` of a future. -/
def resolves (preserveFutureResult : Bool) : Value α → Promise α
  | future a => if preserveFutureResult then .fulfilled (future a) else .following a
  | value => .fulfilled value

end Value

/-! ## The resolve handlers -/

/-- A promise is settled once. -/
def Promise.settle : Promise α → Promise α → Promise α
  | pending, p => p
  | p, _ => p

def settle (p : Promise α) : Js α Unit :=
  .modify fun s => { s with completionPromise := s.completionPromise.settle p }

/-- The handler that the constructor registers. -/
def completionHandler (results : Value α) : Js α Unit := do
  let s ← Script.get
  if s.parentSubtask then pure ()
  else if !s.isAsync then pure ()
  else if !s.errored.isNull then settle (.rejected s.errored)
  else if s.rejected then settle (.rejected results)
  else settle (results.resolves s.preserveFutureResult)

def runHandler (o : Outcome) (taskValue : Value α) : Handler → Js α Unit
  | .completion => completionHandler taskValue
  | .registered id => Script.throwIf (!o.handlers id) .engine

/-- The loop of `onResolve`, which the first handler that throws ends. -/
def runHandlers (o : Outcome) (taskValue : Value α) : List Handler → Js α Unit
  | [] => pure ()
  | f :: handlers => do
      Script.modify fun s => { s with ran := s.ran ++ [f] }
      runHandler o taskValue f
      runHandlers o taskValue handlers

def onResolve (o : Outcome) (taskValue : Value α) : Js α Unit := do
  let s ← Script.get
  Script.modify fun s => { s with onResolveHandlers := [] }
  runHandlers o taskValue s.onResolveHandlers
  Script.throwIf (!o.rest) .engine

/-! ## The task -/

def cancel (o : Outcome) (err : Value α) : Js α Unit := do
  let s ← Script.get
  Script.throwIf (s.taskState ≠ .cancelDelivered)
    (.error s!"(component [{s.componentIdx}]) task [{s.taskID}] invalid task state [{s.taskState.toString}] for cancellation")
  Script.modify fun s => { s with cancelled := true }
  onResolve o (if err.isNullish then .error (.error "task cancelled") else err)
  Script.modify fun s => { s with taskState := .resolved }

/-- `reject`. What is logged first reads the `message` of the error, and the
cancellation is found pending, as `undefined` equals itself. -/
def reject (o : Outcome) (taskErr : Value α) : Js α Unit := do
  Script.throwIf taskErr.isNullish .engine
  let s ← Script.get
  if s.taskState = .resolved || s.rejected then pure ()
  else
    Script.modify fun s => { s with rejected := true, cancelRequested := true, taskState := .undefined }
    Script.modify fun s => { s with taskState := .cancelDelivered }
    cancel o taskErr

/-- The `switch` of `resolve` -/
def resolveResults (o : Outcome) : List (Value α) → Js α Unit
  | [] => onResolve o .undefined
  | [value] => onResolve o value
  | _ => Script.throw (.error "unexpected number of results")

def resolve (o : Outcome) (results : List (Value α)) : Js α Unit := do
  let s ← Script.get
  Script.throwIf (s.taskState = .resolved)
    (.error s!"(component [{s.componentIdx}]) task [{s.taskID}]  is already resolved (did you forget to wait for an import?)")
  Script.modify fun s => { s with taskState := .resolved }
  resolveResults o results

/-- `taskReturn`. A call of a subtask may be `fused`; otherwise the results are
lifted, which may fail. -/
def taskReturn (o : Outcome) (fused : Bool) (lifted : Option (List (Value α))) : Js α Unit := do
  let s ← Script.get
  if s.parentSubtask && fused then
    Script.throwIf (!o.returnFn) .engine
    resolve o []
  else
    match lifted with
    | none => Script.throw .engine
    | some results => resolve o results

/-- `taskCancel`, which logs the `isAsync` that it does not declare. -/
def taskCancel : Js α Unit := Script.throw .engine

def setErrored (err : Value α) : Js α Unit := .modify fun s => { s with errored := err }

/-- `setParentSubtask`, with a subtask. -/
def setParentSubtask : Js α Unit := do
  let s ← Script.get
  Script.throwIf s.parentSubtask (.error "parent subtask can only be set once")
  Script.modify fun s => { s with parentSubtask := true }

def registerOnResolveHandler : Js α Unit :=
  .modify fun s =>
    { s with
      onResolveHandlers := s.onResolveHandlers ++ [.registered s.nextHandler]
      nextHandler := s.nextHandler + 1 }

def State.needsExclusiveLock (s : State α) : Bool := !s.isAsync || s.hasCallback

/-- `exit`, where the component may be exclusively locked. -/
def exit (skipExclusiveLockCheck isExclusivelyLocked : Bool) : Js α Unit := do
  let s ← Script.get
  Script.throwIf s.exited (.error "task has already exited")
  Script.throwIf (s.taskState ≠ .resolved)
    (.error s!"(component [{s.componentIdx}]) task [{s.taskID}] exited without resolution")
  Script.throwIf
    (s.componentIdx ≠ -1 && !skipExclusiveLockCheck && s.needsExclusiveLock && !isExclusivelyLocked)
    (.error s!"task [{s.taskID}] exit: component [{s.componentIdx}] should have been exclusively locked")
  Script.modify fun s => { s with exitPromise := true }
  Script.modify fun s => { s with exited := true }

/-! ## Steps -/

/-- What is done to a task. -/
inductive Call (α : Type) where
  | taskReturn (o : Outcome) (fused : Bool) (lifted : Option (List (Value α)))
  | resolve (o : Outcome) (results : List (Value α))
  | reject (o : Outcome) (err : Value α)
  | taskCancel
  | setErrored (err : Value α)
  | setParentSubtask
  | registerOnResolveHandler
  | exit (skipExclusiveLockCheck isExclusivelyLocked : Bool)

def Call.script : Call α → Js α Unit
  | taskReturn o fused lifted => Completion.taskReturn o fused lifted
  | resolve o results => Completion.resolve o results
  | reject o err => Completion.reject o err
  | taskCancel => Completion.taskCancel
  | setErrored err => Completion.setErrored err
  | setParentSubtask => Completion.setParentSubtask
  | registerOnResolveHandler => Completion.registerOnResolveHandler
  | exit skip locked => Completion.exit skip locked

/-- The label tells whether the call threw. -/
def next : Action (Call α × Bool) (State α) :=
  fun l s s' => l.1.script.threw s = l.2 ∧ l.1.script.leaves s = s'

/-- A task that has been constructed. -/
def State.init (componentIdx : Int) (taskID : Nat)
    (isAsync preserveFutureResult hasCallback parentSubtask : Bool) : State α where
  componentIdx := componentIdx
  taskID := taskID
  isAsync := isAsync
  preserveFutureResult := preserveFutureResult
  hasCallback := hasCallback
  parentSubtask := parentSubtask
  taskState := .initial
  onResolveHandlers := [.completion]
  nextHandler := 0
  completionPromise := .pending
  rejected := false
  errored := .null
  cancelRequested := false
  cancelled := false
  exitPromise := false
  exited := false
  ran := []

/-! ## What is expected -/

/-- The promise that an answer is for. The promises of synchronous tasks and of the
callees of subtasks are not awaited, and an error that has been recorded goes before
the answer. -/
def State.answered (s : State α) (answer : Promise α) : Promise α :=
  if s.isAsync && !s.parentSubtask then
    if s.errored.isNull then answer else .rejected s.errored
  else .pending

/-- The promise after a call of `resolve`. -/
def State.resolved (s : State α) (results : List (Value α)) : Promise α :=
  if s.taskState = .initial then
    match results with
    | [] => s.answered (.fulfilled .undefined)
    | [value] => s.answered (value.resolves s.preserveFutureResult)
    | _ => s.completionPromise
  else s.completionPromise

/-- The results that `task.return` gives, if it gives any. -/
def State.results (s : State α) (o : Outcome) (fused : Bool) (lifted : Option (List (Value α))) :
    Option (List (Value α)) :=
  if s.parentSubtask && fused then
    if o.returnFn then some [] else none
  else lifted

/-- The promise after a call: the first answer settles it. -/
def State.expected (s : State α) : Call α → Promise α
  | .taskReturn o fused lifted =>
    match s.results o fused lifted with
    | none => s.completionPromise
    | some results => s.resolved results
  | .resolve _ results => s.resolved results
  | .reject _ err =>
    if s.taskState = .initial then s.answered (.rejected err) else s.completionPromise
  | _ => s.completionPromise

def Call.IsExit : Call α → Prop
  | exit _ _ => True
  | _ => False

/-- It may answer the call that the task is for. -/
def Call.Answers : Call α → Prop
  | taskReturn _ _ _ => True
  | resolve _ _ => True
  | reject _ _ => True
  | _ => False

/-- It rejects with an error that is `undefined` or `null`. -/
def Call.RejectsNullish : Call α → Prop
  | reject _ err => err.isNullish = true
  | _ => False

/-- What is expected of a task after the calls. -/
structure Settled (calls : List (Call α × Bool)) (s : State α) : Prop where
  once : s.ran.Nodup
  answers : s.taskState ≠ .initial → ∃ l ∈ calls, l.1.Answers

/-- What is expected of a step. -/
structure Settles (l : Call α × Bool) (s s' : State α) : Prop where
  once : s.completionPromise = .pending ∨ s'.completionPromise = s.completionPromise
  expected : ¬ l.1.RejectsNullish → s'.completionPromise = s.expected l.1
  exit : l.1.IsExit → s.taskState ≠ .resolved → l.2 = true

/-! ## The handlers -/

open Script

variable {s s' : State α}

/-- What an answer is, as the completion handler sees it. -/
def State.answer (s : State α) (results : Value α) : Promise α :=
  if s.rejected then .rejected results else results.resolves s.preserveFutureResult

theorem answered_of_not_awaited (h : (s.isAsync && !s.parentSubtask) = false) (answer : Promise α) :
    s.answered answer = .pending := by
  unfold State.answered
  rw [h, if_neg Bool.false_ne_true]

theorem completionHandler_run (results : Value α) : (completionHandler results).run s =
    (.ok (), { s with
      completionPromise := s.completionPromise.settle (s.answered (s.answer results)) }) := by
  have hnothing : s.completionPromise.settle .pending = s.completionPromise := by
    cases s.completionPromise with
    | pending => rfl
    | fulfilled _ => rfl
    | following _ => rfl
    | rejected _ => rfl
  unfold completionHandler
  rw [get_bind]
  by_cases hparent : s.parentSubtask = true
  · rw [if_pos hparent, run_pure, answered_of_not_awaited (by simp [hparent]), hnothing]
  rw [if_neg hparent]
  by_cases hsync : (!s.isAsync) = true
  · rw [if_pos hsync, run_pure, answered_of_not_awaited (by simp at hsync; simp [hsync]), hnothing]
  rw [if_neg hsync]
  -- the promise is awaited
  have hawaited : (s.isAsync && !s.parentSubtask) = true := by simpa using And.intro hsync hparent
  unfold State.answered
  rw [if_pos hawaited]
  by_cases herrored : s.errored.isNull = true
  · rw [if_neg (by simp [herrored]), if_pos herrored]
    unfold State.answer
    by_cases hrejected : s.rejected = true
    · rw [if_pos hrejected, if_pos hrejected]
      rfl
    · rw [if_neg hrejected, if_neg hrejected]
      rfl
  · rw [if_pos (by simp [herrored]), if_neg herrored]
    rfl

/-- What some of the handlers leave when they have been called. -/
structure Ran (handlers : List Handler) (s s' : State α) : Prop where
  same : s' = { s with completionPromise := s'.completionPromise, ran := s'.ran }
  ran : ∃ called, called <+: handlers ∧ s'.ran = s.ran ++ called
  promise : .completion ∉ handlers → s'.completionPromise = s.completionPromise

theorem Ran.nil (handlers : List Handler) (s : State α) : Ran handlers s s where
  same := rfl
  ran := ⟨[], nil_prefix, (append_nil _).symm⟩
  promise _ := rfl

variable {handlers : List Handler}

/-- One more handler in front. -/
theorem Ran.cons {f : Handler} {p : Promise α}
    (h : Ran handlers { s with ran := s.ran ++ [f], completionPromise := p } s')
    (hp : f ≠ .completion → p = s.completionPromise) : Ran (f :: handlers) s s' := by
  refine ⟨h.same, ?_, ?_⟩
  · rcases h.ran with ⟨called, hcalled, hran⟩
    refine ⟨f :: called, prefix_cons_inj f |>.2 hcalled, ?_⟩
    rw [hran, append_assoc, singleton_append]
  · intro hnot
    rw [mem_cons, not_or] at hnot
    rw [h.promise hnot.2]
    exact hp fun hf => hnot.1 hf.symm

theorem runHandlers_ran (o : Outcome) (taskValue : Value α) (handlers : List Handler) :
    ∀ s, Ran handlers s ((runHandlers o taskValue handlers).leaves s) := by
  induction handlers with
  | nil => exact fun s => .nil [] s
  | cons f handlers ih =>
    intro s
    unfold leaves runHandlers
    rw [modify_bind]
    cases f with
    | completion =>
      rw [runHandler, run_bind_ok (completionHandler_run taskValue)]
      exact .cons (ih _) fun h => (h rfl).elim
    | registered id =>
      rw [runHandler, throwIf_bind]
      split
      · exact .cons (p := s.completionPromise) (.nil _ _) fun _ => rfl
      · exact .cons (p := s.completionPromise) (ih _) fun _ => rfl

/-- The promise is settled by the first handler, whatever the others do. -/
theorem runHandlers_completion (o : Outcome) (taskValue : Value α)
    (hnot : .completion ∉ handlers) (hpending : s.completionPromise = .pending) :
    ((runHandlers o taskValue (.completion :: handlers)).leaves s).completionPromise =
      s.answered (s.answer taskValue) := by
  unfold leaves runHandlers
  rw [modify_bind, runHandler, run_bind_ok (completionHandler_run taskValue)]
  have hran := runHandlers_ran o taskValue handlers
  unfold leaves at hran
  rw [(hran _).promise hnot]
  rw [hpending]
  rfl

theorem onResolve_ran (o : Outcome) (taskValue : Value α) :
    Ran s.onResolveHandlers { s with onResolveHandlers := [] } ((onResolve o taskValue).leaves s) := by
  have hran := runHandlers_ran o taskValue s.onResolveHandlers { s with onResolveHandlers := [] }
  rw [← leaves_bind_throwIf _ _ (!o.rest) .engine] at hran
  exact hran

theorem onResolve_completion (o : Outcome) (taskValue : Value α)
    (hhandlers : s.onResolveHandlers = .completion :: handlers) (hnot : .completion ∉ handlers)
    (hpending : s.completionPromise = .pending) :
    ((onResolve o taskValue).leaves s).completionPromise = s.answered (s.answer taskValue) := by
  have hsettled := runHandlers_completion (s := { s with onResolveHandlers := [] }) o taskValue hnot
    hpending
  rw [← leaves_bind_throwIf _ _ (!o.rest) .engine, ← hhandlers] at hsettled
  exact hsettled

/-! ## What calls keep -/

/-- The handlers of a task that has not been answered are all there. -/
structure Unanswered (s : State α) : Prop where
  handlers : ∃ fs, s.onResolveHandlers = .completion :: fs
  promise : s.completionPromise = .pending
  rejected : s.rejected = false

/-- The invariant of a task. -/
structure Inv (s : State α) : Prop where
  nodup : (s.ran ++ s.onResolveHandlers).Nodup
  fresh : ∀ id, .registered id ∈ s.ran ++ s.onResolveHandlers → id < s.nextHandler
  initial : s.taskState = .initial → Unanswered s
  cancelDelivered : s.taskState = .cancelDelivered →
    s.rejected = true ∧ .completion ∉ s.onResolveHandlers
  undefined : s.taskState ≠ .undefined

theorem Inv.notMem (h : Inv s) {fs : List Handler} (hfs : s.onResolveHandlers = .completion :: fs) :
    .completion ∉ fs := by
  have hnodup := h.nodup.of_append_right
  rw [hfs] at hnodup
  exact (nodup_cons.1 hnodup).1

/-- The handlers keep the invariant of a task that will be over. -/
theorem Inv.ran (h : Inv s) {t : State α} (hran : Ran s.onResolveHandlers t s')
    (hsame : t.ran = s.ran) (hnext : t.nextHandler = s.nextHandler)
    (hhandlers : t.onResolveHandlers = []) (htask : s'.taskState ≠ .initial)
    (hundefined : s'.taskState ≠ .undefined)
    (hrejected : s'.taskState = .cancelDelivered → s'.rejected = true) : Inv s' := by
  have hnone : s'.onResolveHandlers = [] := by
    rw [hran.same]
    exact hhandlers
  have hcount : s'.nextHandler = s.nextHandler := by
    rw [hran.same]
    exact hnext
  rcases hran.ran with ⟨called, hcalled, hlist⟩
  rw [hsame] at hlist
  have hinit : s'.ran ++ s'.onResolveHandlers <+: s.ran ++ s.onResolveHandlers := by
    rw [hnone, append_nil, hlist]
    exact (prefix_append_right_inj s.ran).2 hcalled
  refine ⟨h.nodup.sublist hinit.sublist, ?_, fun h' => (htask h').elim, ?_, hundefined⟩
  · intro id hid
    rw [hcount]
    exact h.fresh id (hinit.subset hid)
  · intro h'
    rw [hnone]
    exact ⟨hrejected h', not_mem_nil⟩

/-- The invariant looks at the promise only while the task is not answered. -/
theorem Inv.taskState (h : Inv s) (htask : s'.taskState = .resolved) (hran : s'.ran = s.ran)
    (hhandlers : s'.onResolveHandlers = s.onResolveHandlers)
    (hnext : s'.nextHandler = s.nextHandler) : Inv s' where
  nodup := by
    rw [hran, hhandlers]
    exact h.nodup
  fresh := by
    rw [hran, hhandlers, hnext]
    exact h.fresh
  initial := by
    rw [htask]
    exact fun h' => nomatch h'
  cancelDelivered := by
    rw [htask]
    exact fun h' => nomatch h'
  undefined := by
    rw [htask]
    exact fun h' => nomatch h'

/-- The completion handler has been called if the task is not in its first state and
takes an answer. -/
theorem Inv.completion_called (h : Inv s) (hinitial : s.taskState ≠ .initial)
    (hresolved : s.taskState ≠ .resolved) : .completion ∉ s.onResolveHandlers := by
  cases htask : s.taskState with
  | initial => exact (hinitial htask).elim
  | undefined => exact (h.undefined htask).elim
  | cancelDelivered => exact (h.cancelDelivered htask).2
  | resolved => exact (hresolved htask).elim

theorem resolve_leaves_of_resolved (htask : s.taskState = .resolved) (o : Outcome)
    (results : List (Value α)) : (resolve o results).leaves s = s := by
  unfold leaves resolve
  rw [get_bind, throwIf_bind, if_pos (by simpa using htask)]

/-- `resolve` with one value that its handlers are called with. -/
theorem onResolve_resolved (h : Inv s) (htask : s.taskState ≠ .resolved) (o : Outcome)
    (value : Value α) :
    Inv ((onResolve o value).leaves { s with taskState := .resolved }) ∧
      ((onResolve o value).leaves { s with taskState := .resolved }).completionPromise =
        if s.taskState = .initial then s.answered (value.resolves s.preserveFutureResult)
        else s.completionPromise := by
  have hran := onResolve_ran (s := { s with taskState := .resolved }) o value
  constructor
  · have hresolved : ((onResolve o value).leaves { s with taskState := .resolved }).taskState =
        .resolved := by
      rw [hran.same]
    refine h.ran hran rfl rfl rfl ?_ ?_ ?_
    · rw [hresolved]
      exact fun h' => nomatch h'
    · rw [hresolved]
      exact fun h' => nomatch h'
    · rw [hresolved]
      exact fun h' => nomatch h'
  · by_cases hinitial : s.taskState = .initial
    · rcases h.initial hinitial with ⟨⟨fs, hfs⟩, hpending, hrejected⟩
      have hsettled := onResolve_completion (s := { s with taskState := .resolved }) o value hfs
        (h.notMem hfs) hpending
      unfold State.answer at hsettled
      rw [if_neg (by rw [hrejected]; exact Bool.false_ne_true)] at hsettled
      rw [if_pos hinitial]
      exact hsettled
    · rw [if_neg hinitial]
      exact hran.promise (h.completion_called hinitial htask)

theorem resolve_keeps (h : Inv s) (o : Outcome) (results : List (Value α)) :
    Inv ((resolve o results).leaves s) ∧
      ((resolve o results).leaves s).completionPromise = s.resolved results := by
  by_cases htask : s.taskState = .resolved
  · rw [resolve_leaves_of_resolved htask]
    unfold State.resolved
    rw [if_neg (by rw [htask]; exact fun h' => nomatch h')]
    exact ⟨h, rfl⟩
  have hresolve : (resolve o results).leaves s =
      (resolveResults o results).leaves { s with taskState := .resolved } := by
    unfold leaves resolve
    rw [get_bind, throwIf_bind, if_neg (by simpa using htask), modify_bind]
  rw [hresolve]
  rcases results with _ | ⟨value, _ | ⟨_, _⟩⟩
  · exact onResolve_resolved h htask o .undefined
  · exact onResolve_resolved h htask o value
  · -- it throws before any handler is called
    refine ⟨h.taskState rfl rfl rfl rfl, ?_⟩
    unfold State.resolved
    split
    · rfl
    · rfl

/-- `reject` before its `cancel`. -/
def State.rejecting (s : State α) : State α :=
  { s with rejected := true, cancelRequested := true, taskState := .cancelDelivered }

variable {err : Value α}

theorem reject_leaves_of_nullish (herr : err.isNullish = true) (o : Outcome) :
    (reject o err).leaves s = s := by
  unfold leaves reject
  rw [throwIf_bind, if_pos herr]

theorem reject_leaves_of_over (herr : err.isNullish = false)
    (hover : s.taskState = .resolved ∨ s.rejected = true) (o : Outcome) :
    (reject o err).leaves s = s := by
  unfold leaves reject
  rw [throwIf_bind, if_neg (by rw [herr]; exact Bool.false_ne_true), get_bind,
    if_pos (by simpa using hover), run_pure]

theorem reject_leaves (herr : err.isNullish = false)
    (hover : ¬ (s.taskState = .resolved ∨ s.rejected = true)) (o : Outcome) :
    (reject o err).leaves s = (cancel o err).leaves s.rejecting := by
  unfold leaves reject
  rw [throwIf_bind, if_neg (by rw [herr]; exact Bool.false_ne_true), get_bind,
    if_neg (by simpa using hover), modify_bind, modify_bind]
  rfl

/-- The task is cancelled, unless a handler throws. -/
theorem cancel_leaves (herr : err.isNullish = false)
    (htask : s.taskState = .cancelDelivered) (o : Outcome) :
    ∃ taskState, (taskState = .cancelDelivered ∨ taskState = .resolved) ∧
      (cancel o err).leaves s =
        { (onResolve o err).leaves { s with cancelled := true } with taskState := taskState } := by
  have hkept : ((onResolve o err).leaves { s with cancelled := true }).taskState =
      .cancelDelivered := by
    rw [(onResolve_ran o err).same]
    exact htask
  unfold leaves at hkept
  unfold leaves cancel
  rw [get_bind, throwIf_bind, if_neg (by simpa using htask), modify_bind,
    if_neg (by rw [herr]; exact Bool.false_ne_true), run_bind]
  rcases hrun : (onResolve o err).run { s with cancelled := true } with ⟨e | _, t⟩
  · rw [hrun] at hkept
    refine ⟨.cancelDelivered, .inl rfl, ?_⟩
    dsimp only at hkept ⊢
    rw [← hkept]
  · exact ⟨.resolved, .inr rfl, rfl⟩

/-- What is called with an error settles the promise with it. -/
theorem reject_keeps (h : Inv s) (herr : err.isNullish = false) (o : Outcome) :
    Inv ((reject o err).leaves s) ∧ ((reject o err).leaves s).completionPromise =
      if s.taskState = .initial then s.answered (.rejected err) else s.completionPromise := by
  by_cases hinitial : s.taskState = .initial
  · rcases h.initial hinitial with ⟨⟨fs, hfs⟩, hpending, hrejected⟩
    have hover : ¬ (s.taskState = .resolved ∨ s.rejected = true) := by
      simp [hinitial, hrejected]
    rcases cancel_leaves (s := s.rejecting) herr rfl o with ⟨taskState, htask, hcancel⟩
    have hran := onResolve_ran (s := { s.rejecting with cancelled := true }) o err
    have hsettled := onResolve_completion (s := { s.rejecting with cancelled := true }) o err hfs
      (h.notMem hfs) hpending
    rw [reject_leaves herr hover, hcancel, if_pos hinitial]
    refine ⟨?_, hsettled⟩
    have hleft : Ran s.onResolveHandlers
        { s.rejecting with cancelled := true, onResolveHandlers := [], taskState := taskState }
        { (onResolve o err).leaves { s.rejecting with cancelled := true } with
          taskState := taskState } := by
      refine ⟨?_, hran.ran, hran.promise⟩
      conv_lhs => rw [hran.same]
    have hrejected' : ((onResolve o err).leaves { s.rejecting with cancelled := true }).rejected =
        true := by
      rw [hran.same]
      rfl
    refine h.ran hleft rfl rfl rfl ?_ ?_ fun _ => hrejected'
    · rintro rfl
      exact htask.elim (fun h' => nomatch h') (fun h' => nomatch h')
    · rintro rfl
      exact htask.elim (fun h' => nomatch h') (fun h' => nomatch h')
  · rw [if_neg hinitial]
    -- a task that has been answered is rejected no more
    have hover : s.taskState = .resolved ∨ s.rejected = true := by
      cases htask : s.taskState with
      | initial => exact (hinitial htask).elim
      | undefined => exact (h.undefined htask).elim
      | cancelDelivered => exact .inr (h.cancelDelivered htask).1
      | resolved => exact .inl rfl
    rw [reject_leaves_of_over herr hover]
    exact ⟨h, rfl⟩

/-- `task.return` resolves the task with the results that it gives. -/
theorem taskReturn_leaves (o : Outcome) (fused : Bool) (lifted : Option (List (Value α))) :
    (taskReturn o fused lifted).leaves s =
      (s.results o fused lifted).elim s fun results => (resolve o results).leaves s := by
  unfold leaves taskReturn State.results
  rw [get_bind]
  by_cases hfused : (s.parentSubtask && fused) = true
  · rw [if_pos hfused, if_pos hfused, throwIf_bind]
    cases o.returnFn with
    | false => rfl
    | true => rfl
  · rw [if_neg hfused, if_neg hfused]
    cases lifted with
    | none => rfl
    | some results => rfl

theorem taskReturn_keeps (h : Inv s) (o : Outcome) (fused : Bool)
    (lifted : Option (List (Value α))) :
    Inv ((taskReturn o fused lifted).leaves s) ∧
      ((taskReturn o fused lifted).leaves s).completionPromise =
        s.expected (.taskReturn o fused lifted) := by
  rw [taskReturn_leaves]
  unfold State.expected
  dsimp only
  cases s.results o fused lifted with
  | none => exact ⟨h, rfl⟩
  | some results => exact resolve_keeps h o results

theorem registerOnResolveHandler_keeps (h : Inv s) :
    Inv ((registerOnResolveHandler : Js α Unit).leaves s) where
  nodup := by
    have hnew : .registered s.nextHandler ∉ s.ran ++ s.onResolveHandlers := fun hmem =>
      absurd (h.fresh _ hmem) (Nat.lt_irrefl _)
    have hnodup := nodup_append.2 ⟨h.nodup, nodup_singleton _, fun f hf g hg hfg => by
      rw [hfg, mem_singleton.1 hg] at hf
      exact hnew hf⟩
    rw [append_assoc] at hnodup
    exact hnodup
  fresh := by
    intro id hid
    change Handler.registered id ∈ s.ran ++ (s.onResolveHandlers ++ [.registered s.nextHandler]) at hid
    rw [← append_assoc, mem_append, mem_singleton] at hid
    change id < s.nextHandler + 1
    rcases hid with hid | hid
    · exact Nat.lt_succ_of_lt (h.fresh id hid)
    · rw [Handler.registered.inj hid]
      exact Nat.lt_succ_self _
  initial := by
    intro hinitial
    rcases h.initial hinitial with ⟨⟨fs, hfs⟩, hpending, hrejected⟩
    refine ⟨⟨fs ++ [.registered s.nextHandler], ?_⟩, hpending, hrejected⟩
    change s.onResolveHandlers ++ [.registered s.nextHandler] = _
    rw [hfs, cons_append]
  cancelDelivered := by
    intro hcancel
    rcases h.cancelDelivered hcancel with ⟨hrejected, hnot⟩
    refine ⟨hrejected, ?_⟩
    change Handler.completion ∉ s.onResolveHandlers ++ [.registered s.nextHandler]
    rw [mem_append, not_or]
    exact ⟨hnot, by simp⟩
  undefined := h.undefined

/-- A call that does not touch what the invariant is about. -/
theorem Inv.congr (h : Inv s) (hran : s'.ran = s.ran)
    (hhandlers : s'.onResolveHandlers = s.onResolveHandlers)
    (hnext : s'.nextHandler = s.nextHandler) (htask : s'.taskState = s.taskState)
    (hpromise : s'.completionPromise = s.completionPromise)
    (hrejected : s'.rejected = s.rejected) : Inv s' where
  nodup := by
    rw [hran, hhandlers]
    exact h.nodup
  fresh := by
    rw [hran, hhandlers, hnext]
    exact h.fresh
  initial := by
    rw [htask]
    intro hinitial
    rcases h.initial hinitial with ⟨hfs, hpending, hfalse⟩
    rw [← hhandlers] at hfs
    exact ⟨hfs, hpromise.trans hpending, hrejected.trans hfalse⟩
  cancelDelivered := by
    rw [htask, hhandlers, hrejected]
    exact h.cancelDelivered
  undefined := by
    rw [htask]
    exact h.undefined

theorem setParentSubtask_leaves :
    (setParentSubtask : Js α Unit).leaves s = { s with parentSubtask := true } := by
  unfold leaves setParentSubtask
  rw [get_bind, throwIf_bind]
  split
  case isTrue hparent => rw [← hparent]
  case isFalse => rfl

theorem exit_of_not_resolved (htask : s.taskState ≠ .resolved) (skip locked : Bool) :
    (exit skip locked : Js α Unit).threw s = true := by
  unfold threw exit
  rw [get_bind, throwIf_bind, throwIf_bind, if_pos (c := decide (s.taskState ≠ .resolved) = true)]
  · cases s.exited with
    | false => rfl
    | true => rfl
  · simpa using htask

theorem exit_leaves (skip locked : Bool) : ∃ exitPromise exited,
    (exit skip locked : Js α Unit).leaves s =
      { s with exitPromise := exitPromise, exited := exited } := by
  unfold leaves exit
  rw [get_bind, throwIf_bind]
  split
  · exact ⟨_, _, rfl⟩
  rw [throwIf_bind]
  split
  · exact ⟨_, _, rfl⟩
  rw [throwIf_bind]
  split
  · exact ⟨_, _, rfl⟩
  · exact ⟨true, true, rfl⟩

/-- A rejection with nothing is lost, and every other call does what is expected. -/
theorem script_keeps (h : Inv s) (call : Call α) :
    Inv (call.script.leaves s) ∧ (¬ call.RejectsNullish →
      (call.script.leaves s).completionPromise = s.expected call) := by
  cases call with
  | taskReturn o fused lifted =>
    rcases taskReturn_keeps h o fused lifted with ⟨hinv, hexpected⟩
    exact ⟨hinv, fun _ => hexpected⟩
  | resolve o results =>
    rcases resolve_keeps h o results with ⟨hinv, hexpected⟩
    exact ⟨hinv, fun _ => hexpected⟩
  | reject o err =>
    cases herr : err.isNullish with
    | true =>
      unfold Call.script
      rw [reject_leaves_of_nullish herr]
      exact ⟨h, fun hnot => (hnot herr).elim⟩
    | false =>
      rcases reject_keeps h herr o with ⟨hinv, hexpected⟩
      exact ⟨hinv, fun _ => hexpected⟩
  | taskCancel => exact ⟨h, fun _ => rfl⟩
  | setErrored err => exact ⟨h.congr rfl rfl rfl rfl rfl rfl, fun _ => rfl⟩
  | setParentSubtask =>
    unfold Call.script
    rw [setParentSubtask_leaves]
    exact ⟨h.congr rfl rfl rfl rfl rfl rfl, fun _ => rfl⟩
  | registerOnResolveHandler => exact ⟨registerOnResolveHandler_keeps h, fun _ => rfl⟩
  | exit skip locked =>
    rcases exit_leaves (s := s) skip locked with ⟨exitPromise, exited, hleaves⟩
    unfold Call.script
    rw [hleaves]
    exact ⟨h.congr rfl rfl rfl rfl rfl rfl, fun _ => rfl⟩

/-! ## Runs -/

/-- After the first answer the promise is what it is. -/
theorem expected_of_answered (htask : s.taskState ≠ .initial) (call : Call α) :
    s.expected call = s.completionPromise := by
  have hresolved : ∀ results, s.resolved results = s.completionPromise := by
    intro results
    unfold State.resolved
    rw [if_neg htask]
  cases call with
  | taskReturn o fused lifted =>
    unfold State.expected
    dsimp only
    cases s.results o fused lifted with
    | none => rfl
    | some results => exact hresolved results
  | resolve o results => exact hresolved results
  | reject o err => exact if_neg htask
  | taskCancel => rfl
  | setErrored err => rfl
  | setParentSubtask => rfl
  | registerOnResolveHandler => rfl
  | exit skip locked => rfl

theorem next_settles (h : Inv s) {l : Call α × Bool} (hnext : next l s s') : Settles l s s' := by
  rcases l with ⟨call, threw⟩
  rcases hnext with ⟨hthrew, rfl⟩
  dsimp only at hthrew ⊢
  refine ⟨?_, (script_keeps h call).2, ?_⟩
  · by_cases hinitial : s.taskState = .initial
    · exact .inl (h.initial hinitial).promise
    right
    by_cases hnullish : call.RejectsNullish
    · cases call with
      | reject o err =>
        unfold Call.script
        rw [reject_leaves_of_nullish hnullish]
      | _ => exact hnullish.elim
    · rw [(script_keeps h call).2 hnullish, expected_of_answered hinitial]
  · intro hexit htask
    rw [← hthrew]
    cases call with
    | exit skip locked => exact exit_of_not_resolved htask skip locked
    | _ => exact hexit.elim

/-- Only an answer ends the first state of a task. -/
theorem script_taskState (call : Call α) :
    call.Answers ∨ (call.script.leaves s).taskState = s.taskState := by
  cases call with
  | taskReturn _ _ _ => exact .inl trivial
  | resolve _ _ => exact .inl trivial
  | reject _ _ => exact .inl trivial
  | taskCancel => exact .inr rfl
  | setErrored _ => exact .inr rfl
  | setParentSubtask =>
    unfold Call.script
    rw [setParentSubtask_leaves]
    exact .inr rfl
  | registerOnResolveHandler => exact .inr rfl
  | exit skip locked =>
    rcases exit_leaves (s := s) skip locked with ⟨exitPromise, exited, hleaves⟩
    unfold Call.script
    rw [hleaves]
    exact .inr rfl

theorem run_answers {calls : List (Call α × Bool)} (hrun : Run next s calls s') :
    (∃ l ∈ calls, l.1.Answers) ∨ s'.taskState = s.taskState := by
  induction hrun with
  | nil => exact .inr rfl
  | @cons s₁ s₂ s₃ l ls hnext _ ih =>
    rcases hnext with ⟨-, rfl⟩
    rcases ih with ⟨l', hl', hanswers⟩ | hsame
    · exact .inl ⟨l', mem_cons_of_mem l hl', hanswers⟩
    rcases script_taskState (s := s₁) l.1 with hanswers | hsame'
    · exact .inl ⟨l, mem_cons_self, hanswers⟩
    · exact .inr (hsame.trans hsame')

section

variable (componentIdx : Int) (taskID : Nat)
variable (isAsync preserveFutureResult hasCallback parentSubtask : Bool)

theorem init_inv : Inv (State.init componentIdx taskID isAsync preserveFutureResult hasCallback
    parentSubtask : State α) where
  nodup := nodup_singleton _
  fresh id hid := by
    change Handler.registered id ∈ [Handler.completion] at hid
    simp at hid
  initial _ := ⟨⟨[], rfl⟩, rfl, rfl⟩
  cancelDelivered := by
    rintro ⟨⟩
  undefined := by
    rintro ⟨⟩

/-- **The completion promise is settled by the first answer.** Whatever is done to a
task in whatever order, no resolve handler is called twice, the first results or the
first error settle the promise, and an exit without either throws. -/
theorem completion_settles : ∀ (calls : List (Call α × Bool)) s,
    Run next (State.init componentIdx taskID isAsync preserveFutureResult hasCallback parentSubtask)
      calls s →
    Settled calls s ∧ ∀ l s', next l s s' → Settles l s s' := by
  intro calls s hrun
  have hstep : ∀ l (s s' : State α), next l s s' → Inv s → Inv s' := by
    rintro l s _ ⟨-, rfl⟩ h
    exact (script_keeps h l.1).1
  have hinv := hrun.invariant hstep
    (init_inv componentIdx taskID isAsync preserveFutureResult hasCallback parentSubtask)
  refine ⟨⟨hinv.nodup.of_append_left, ?_⟩, fun l s' hnext => next_settles hinv hnext⟩
  intro htask
  exact (run_answers hrun).resolve_right htask

end

/-- All functions return. -/
def Outcome.returns : Outcome where
  handlers _ := true
  returnFn := true
  rest := true

/-- Results are returned, and the error that comes after them changes nothing. -/
theorem completion_settles_returned : ∃ s : State Nat,
    s.completionPromise = .fulfilled (.other 7) ∧ s.ran = [.completion, .registered 0] ∧
      Settled
        [(.registerOnResolveHandler, false), (.taskReturn .returns false (some [.other 7]), false),
          (.reject .returns (.error .engine), false), (.exit false true, false)] s :=
  ⟨_, rfl, rfl, (completion_settles 0 1 true false true false _ _
    (.cons ⟨rfl, rfl⟩ <| .cons ⟨rfl, rfl⟩ <| .cons ⟨rfl, rfl⟩ <| .cons ⟨rfl, rfl⟩ <| .nil _)).1⟩

/-- One of the steps by which a task is answered, cancelled or left. -/
def Call.Concludes (call : Call α) : Prop :=
  call.Answers ∨ call.IsExit ∨ call = .taskCancel

/-- The promise of a synchronous task stays pending, whatever it returns. -/
theorem syncTask_not_fulfilled : ¬ ∀ (isAsync parentSubtask : Bool) calls (s : State Nat),
    Run next (.init 0 1 isAsync false false parentSubtask) calls s →
    (∀ l ∈ calls, l.1.Concludes) → ∀ o value threw s', s.taskState = .initial →
      next (.taskReturn o false (some [value]), threw) s s' →
      s'.completionPromise = .fulfilled value := by
  intro h
  have hfulfilled := h false false [] _ (.nil _) nofun .returns (.other 7) false _ rfl ⟨rfl, rfl⟩
  cases hfulfilled

end Jco.Component.Completion

import Jco.Component.LowerImport
import Jco.Component.SubtaskOutcome

/-! # Imports of async type that are lowered synchronously

A call through `lowerImport` or `lowerImportBackwardsCompat` with `funcTypeIsAsync`
and without `isAsync`. It should act synchronously: the caller is suspended until
the import has completed. An import is manually async when it is named in the list
of async imports; then the code goes on as for an asynchronous lowering, and else
it comes to the branch that is meant for these calls.

The subtask is that of `Jco.Component.Subtask`, and its handle table that of
`Jco.Component.LowerImport`.
-/

namespace Jco.Component.SyncLower

open Jco.Js Jco.Lib
open Jco.Component.Subtask (Outcome Value Js subtaskOnResolve onStart deliverResolve)
open Jco.Component.LowerImport (Handle)

variable {α : Type}

/-- The arguments of the call, and what it finds: whether the component has a
current task, and whether this may block. -/
structure Args where
  isManualAsync : Bool
  params : List Int
  currentTask : Bool
  mayBlock : Bool
  componentIdx : Int
  taskID : Nat
  resultPtr : Nat
  memory : Bool
  callerMemory : Bool
  realloc : Bool
  lowers : Bool

/-- What the import has done: nothing before it is called. -/
inductive Import (α : Type) where
  | waiting
  | called
  | returned (value : Value α)
  | failed (err : JsError)

/-- How the call is answered, with a number if there is one. -/
inductive Answer where
  | fulfilled (res : Option Int)
  | rejected (err : JsError)

/-- `microtask` and `timer` are queued. History: the parameters that the import has
been called with, and what it had done when the call was answered. -/
structure State (α : Type) where
  manual : Bool
  params : List Int
  subtask : Subtask.State α
  handles : RepTable Handle
  rep : Int
  microtask : Bool
  timer : Bool
  importFn : Import α
  invoked : List (List Int)
  settled : Option (Answer × Import α)

namespace State

/-- The call before it has a subtask. -/
def before (args : Args) (handles : RepTable Handle) : State α where
  manual := false
  params := args.params
  subtask := .init args.componentIdx args.taskID false false args.callerMemory
    ⟨false, false, args.resultPtr, args.memory, args.realloc, args.lowers⟩
  handles := handles
  rep := 0
  microtask := false
  timer := false
  importFn := .waiting
  invoked := []
  settled := none

def settle (s : State α) (answer : Answer) : State α :=
  { s with settled := s.settled.or (some (answer, s.importFn)) }

/-- `createSubtask` and `onStart`, if there is room for a handle. -/
def createSubtask (s : State α) : Option (State α) :=
  (s.handles.insert .subtask).map fun (rep, handles) =>
    { s with
      subtask := { (onStart : Js α Unit).leaves s.subtask with onStartCalled := true }
      handles
      rep }

/-- `Number(subtask.waitableRep()) << 4 | subtaskState` -/
def packed (s : State α) : Int := bitOr (shl s.rep 4) s.subtask.status.number

/-- The call of `importFn` is left to a microtask. -/
def setOnProgressFn (s : State α) : State α :=
  { s with
    manual := true
    subtask := { s.subtask with onProgressFn := true }
    microtask := true }

end State

/-! ## The call -/

def lowerImport (args : Args) (handles : RepTable Handle) : Option (State α) :=
  let s := State.before args handles
  if !args.currentTask then some (s.settle (.rejected .engine))
  else if !args.mayBlock then
    some (s.settle
      (.rejected (.error "non async exports cannot synchronously call async functions")))
  else
    s.createSubtask.map fun s =>
      if !args.isManualAsync then { s with microtask := true }
      else { s.setOnProgressFn with timer := true }

/-- It answers a manually async call at once. -/
def lowerImportBackwardsCompat (args : Args) (handles : RepTable Handle) : Option (State α) :=
  let s := State.before args handles
  if !args.currentTask then
    some (s.settle
      (.rejected (.error "p3 async wasm exports cannot use backwards compat auto-task init")))
  else if !args.mayBlock then
    some (s.settle
      (.rejected (.error "non async exports cannot synchronously call async functions")))
  else
    s.createSubtask.map fun s =>
      if !args.isManualAsync then { s with microtask := true }
      else s.setOnProgressFn.settle (.fulfilled (some s.packed))

/-! ## After the call -/

/-- `handles.remove`, of a handle that stands for something. -/
def removeHandle (t : RepTable Handle) (rep : Int) : RepTable Handle :=
  if (t.lookup rep).isSome then (t.remove rep).getD t else t

namespace State

/-- The microtask. The branch for these calls asks for `isResolvedState`, which a
subtask does not have: it throws, and the promise of the call is left alone. -/
def runMicrotask (s : State α) : State α :=
  if s.manual then
    { s with microtask := false, importFn := .called, invoked := s.invoked ++ [s.params] }
  else { s with microtask := false }

/-- `onResolve` of the subtask, which takes a synchronous one out of the table. -/
def onResolve (s : State α) (o : Outcome) (value : Value α) : State α :=
  let subtask := (subtaskOnResolve o value).leaves s.subtask
  if (subtaskOnResolve o value).threw s.subtask then { s with subtask }
  else { s with subtask, handles := removeHandle s.handles s.rep }

/-- The timer. A subtask that is not in the table makes it throw. -/
def runTimer (s : State α) : State α :=
  let s := { s with timer := false }
  if s.subtask.status = .returned then
    let subtask :=
      if s.subtask.lenders then (deliverResolve : Js α Unit).leaves s.subtask else s.subtask
    let s' := { s with subtask, handles := removeHandle s.handles s.rep }
    if s.handles.lookup s.rep = some .subtask then
      s'.settle (.fulfilled (some s.subtask.status.number))
    else s'
  else s.settle (.fulfilled (some s.packed))

end State

/-- `complete` and `fail` are of the import, which may give its error to the
subtask. The others are what the component does with its handles. -/
inductive Call (α : Type) where
  | microtask
  | timer
  | complete (o : Outcome) (value : Value α)
  | fail (o : Outcome) (err : JsError) (rejects : Bool)
  | subtaskDrop (rep : Int)
  | insert (n : Nat)
  | remove (rep : Int)

def Import.isCalled : Import α → Bool
  | called => true
  | _ => false

def State.call (s : State α) : Call α → Option (State α)
  | .microtask => if s.microtask then some s.runMicrotask else none
  | .timer => if s.timer then some s.runTimer else none
  | .complete o value =>
    if s.importFn.isCalled then some { s.onResolve o value with importFn := .returned value }
    else none
  | .fail o err rejects =>
    if s.importFn.isCalled then
      some { (if rejects then s.onResolve o (.error err) else s) with importFn := .failed err }
    else none
  | .subtaskDrop rep =>
    if s.handles.lookup rep = some .subtask then
      some { s with handles := removeHandle s.handles rep }
    else some s
  | .insert n => (s.handles.insert (.other n)).map fun (_, handles) => { s with handles }
  | .remove rep =>
    if (s.handles.lookup rep).any (· ≠ .subtask) then
      (s.handles.remove rep).map fun handles => { s with handles }
    else none

def next : Action (Call α) (State α) := fun call s s' => s.call call = some s'

/-! ## What is expected -/

/-- The call has been answered after the import completed, with its lowered result
or with an error. -/
inductive Answered (lower : Value α → Option Int) : Answer × Import α → Prop
  | returned (value : Value α) : Answered lower (.fulfilled (lower value), .returned value)
  | failed (err err' : JsError) : Answered lower (.rejected err, .failed err')

/-- The import has been called once, with the parameters, and the call answered. -/
structure Right (lower : Value α → Option Int) (s : State α) : Prop where
  once : s.invoked = [s.params]
  settled : ∃ answer ∈ s.settled, Answered lower answer

/-- Nothing is left to be done. -/
structure Over (s : State α) : Prop where
  microtask : s.microtask = false
  timer : s.timer = false
  importFn : s.importFn.isCalled = false

/-! ## The subtask -/

open Script
open Jco.Component.LowerImport (Held NotHeld lookup_subtask insert_other remove_other
  deliverResolve_run)
open Jco.Component.Subtask (Status resolveStatus storeResult setResult resolveStatus_eq)

variable {s s' : State α}

/-- A synchronous subtask that has not been resolved. -/
structure Running (s : Subtask.State α) : Prop where
  status : s.status = .started
  resolved : s.resolved = false
  result : s.result = none
  lenders : s.lenders = true
  isAsync : s.isAsync = false
  startCall : s.startCall = false
  cancelRequested : s.cancelRequested = false

/-- The subtask is resolved and told so at once, and nothing is stored. -/
theorem onResolve_running {t : Subtask.State α} (h : Running t) (o : Outcome) (value : Value α) :
    (subtaskOnResolve o value).run t = (.ok (), { t.progress with
      status := .returned, result := some value, resolved := true, lenders := false }) := by
  have hprogress : t.progress.status = .started := h.status
  have hstatus : (resolveStatus value).run t.progress =
      (.ok (), { t.progress with status := .returned }) := by
    rw [resolveStatus_eq (s := t.progress) h.cancelRequested, if_pos hprogress]
  have hdeliver : (deliverResolve : Js α Unit).run { t.progress with
        status := .returned, result := some value, resolved := true } =
      (.ok (), { t.progress with
        status := .returned, result := some value, resolved := true, lenders := false }) :=
    deliverResolve_run rfl h.lenders
  unfold subtaskOnResolve
  rw [get_bind, throwIf_bind, if_neg (by simp [h.resolved]), modify_bind, run_bind_ok hstatus]
  have hstore : (storeResult o value).run { t.progress with status := .returned } =
      (deliverResolve : Js α Unit).run { t.progress with
        status := .returned, result := some value, resolved := true } := by
    simp [storeResult, setResult, run_bind, throwIf, when, Subtask.State.progress, h.result,
      h.startCall, h.isAsync]
  rw [hstore, hdeliver]

/-! ## The handle table -/

/-- Nothing but the call itself has made the handle of the subtask. -/
def Own (t : RepTable Handle) (rep : Int) : Prop := Held t rep ∨ NotHeld t

theorem Own.congr {t t' : RepTable Handle} {rep : Int} (h : Own t rep)
    (hsame : ∀ j : Nat, t'.cells[j]? = some (.val .subtask) ↔ t.cells[j]? = some (.val .subtask)) :
    Own t' rep := h.imp (·.congr hsame) (·.congr hsame)

variable {t : RepTable Handle}

/-- The handle is gone, whether it was there or not. -/
theorem Own.removeHandle {rep : Int} (h : Own t rep) :
    NotHeld (removeHandle t rep) := by
  unfold SyncLower.removeHandle
  rcases h with hheld | hnot
  · rcases hheld.remove rfl with ⟨t', hremove, hgone⟩
    rw [hheld.lookup, Option.isSome_some, if_pos rfl, hremove]
    exact hgone
  · rcases hlookup : t.lookup rep with _ | v
    · exact hnot
    · rw [Option.isSome_some, if_pos rfl]
      have hother : (t.lookup rep).any (· ≠ .subtask) := by
        rw [hlookup]
        have hv : v ≠ .subtask := fun hv => hnot.lookup rep (hv ▸ hlookup)
        simpa using hv
      rcases hremove : t.remove rep with _ | t'
      · exact hnot
      · exact hnot.congr (remove_other hother hremove)

/-- The guest may drop the handle under any number that names its place. -/
theorem Own.subtaskDrop {rep rep' : Int} (h : Own t rep)
    (hlookup : t.lookup rep' = some .subtask) : NotHeld (SyncLower.removeHandle t rep') := by
  rcases h with hheld | hnot
  · rcases hheld.remove (lookup_subtask hheld hlookup) with ⟨t', hremove, hgone⟩
    unfold SyncLower.removeHandle
    rw [hlookup, Option.isSome_some, if_pos rfl, hremove]
    exact hgone
  · exact absurd hlookup (hnot.lookup rep')

/-! ## The invariant -/

/-- Where a manually async call is. Once the subtask has returned, it has no handle. -/
inductive Manual (s : State α) : Prop where
  | running (subtask : Running s.subtask) (importFn : ∀ value, s.importFn ≠ .returned value)
      (queued : s.microtask = true → s.importFn = .waiting) (handles : Own s.handles s.rep)
  | returned (status : s.subtask.status = .returned) (queued : s.microtask = false)
      (importFn : s.importFn.isCalled = false) (handles : NotHeld s.handles)

/-- The import of a call that is not manually async waits, and no call is answered
as it should be. -/
structure Inv (s : State α) : Prop where
  settled : ∀ lower, ∀ answer ∈ s.settled, ¬ Answered lower answer
  plain : s.manual = false → s.importFn = .waiting ∧ s.timer = false
  manual : s.manual = true → Manual s

variable {lower : Value α → Option Int}

theorem settle_wrong {answer : Answer}
    (h : ∀ a ∈ s.settled, ¬ Answered lower a) (hanswer : ¬ Answered lower (answer, s.importFn)) :
    ∀ a ∈ (s.settle answer).settled, ¬ Answered lower a := by
  intro a ha
  change a ∈ s.settled.or (some (answer, s.importFn)) at ha
  cases hsettled : s.settled with
  | none =>
    rw [hsettled] at ha
    cases ha
    exact hanswer
  | some first =>
    rw [hsettled] at ha
    cases ha
    exact h a hsettled

theorem Inv.settle (h : Inv s) {answer : Answer}
    (hwrong : ∀ lower, ¬ Answered lower (answer, s.importFn)) : Inv (s.settle answer) where
  settled lower := settle_wrong (h.settled lower) (hwrong lower)
  plain := h.plain
  manual hmanual := by
    cases h.manual hmanual with
    | running subtask importFn queued handles => exact .running subtask importFn queued handles
    | returned status queued importFn handles => exact .returned status queued importFn handles

variable {importFn : Import α}

/-- Before the import has returned no number is the right answer. -/
theorem fulfilled_wrong {res : Option Int}
    (h : ∀ value, importFn ≠ .returned value) : ¬ Answered lower (.fulfilled res, importFn) := by
  rintro ⟨⟩
  exact h _ rfl

theorem rejected_wrong {err : JsError} :
    ¬ Answered lower (.rejected err, .waiting) := by
  rintro ⟨⟩

/-- The import hands something to the subtask. -/
theorem Manual.onResolve (h : Manual s) (hcalled : s.importFn.isCalled = true) (o : Outcome)
    (value : Value α) (himport : importFn.isCalled = false) :
    Manual { s.onResolve o value with importFn := importFn } ∧
      (s.onResolve o value).settled = s.settled ∧ (s.onResolve o value).manual = s.manual := by
  cases h with
  | running subtask hreturned queued handles =>
    have hrun := onResolve_running subtask o value
    have hthrew : ¬ (subtaskOnResolve o value).threw s.subtask = true := by
      unfold threw
      rw [hrun]
      exact Bool.false_ne_true
    have hqueued : s.microtask = false := by
      rw [Bool.eq_false_iff]
      intro hmicrotask
      rw [queued hmicrotask] at hcalled
      cases hcalled
    unfold State.onResolve leaves
    dsimp only
    rw [if_neg hthrew, hrun]
    exact ⟨.returned rfl hqueued himport handles.removeHandle, rfl, rfl⟩
  | returned status queued hover handles =>
    rw [hover] at hcalled
    cases hcalled

/-- The timer throws when the subtask has returned, as the handle is gone. -/
theorem Manual.runTimer (h : Manual s) : Manual s.runTimer ∧ s.runTimer.manual = s.manual ∧
    ((∃ res, s.runTimer.settled = (s.settle (.fulfilled res)).settled ∧
      ∀ value, s.importFn ≠ .returned value) ∨ s.runTimer.settled = s.settled) := by
  unfold State.runTimer
  dsimp only
  cases h with
  | running subtask importFn queued handles =>
    rw [if_neg (by rw [subtask.status]; exact fun h => nomatch h)]
    exact ⟨.running subtask importFn queued handles, rfl, .inl ⟨_, rfl, importFn⟩⟩
  | returned status queued importFn handles =>
    rw [if_pos status, if_neg (handles.lookup s.rep)]
    refine ⟨.returned ?_ queued importFn ?_, rfl, .inr rfl⟩
    · split
      case isTrue hlenders =>
        unfold leaves
        rw [deliverResolve_run status hlenders]
        exact status
      case isFalse => exact status
    · exact Own.removeHandle (.inr handles)

/-- The component goes on to use its handles. -/
theorem Manual.handles (h : Manual s) (hown : Own s.handles s.rep → Own t s.rep)
    (hnot : NotHeld s.handles → NotHeld t) : Manual { s with handles := t } := by
  cases h with
  | running subtask importFn queued handles =>
    exact .running subtask importFn queued (hown handles)
  | returned status queued importFn handles => exact .returned status queued importFn (hnot handles)

/-- The import fails without telling the subtask. -/
theorem Manual.failed (h : Manual s) (hcalled : s.importFn.isCalled = true) (err : JsError) :
    Manual { s with importFn := .failed err } := by
  cases h with
  | running subtask importFn queued handles =>
    refine .running subtask ?_ ?_ handles
    · rintro value ⟨⟩
    · intro hmicrotask
      rw [queued hmicrotask] at hcalled
      cases hcalled
  | returned status queued importFn handles => exact .returned status queued rfl handles

theorem Inv.manual_of_called (h : Inv s) (hcalled : s.importFn.isCalled = true) :
    s.manual = true := by
  rw [← Bool.not_eq_false]
  intro hplain
  rw [(h.plain hplain).1] at hcalled
  cases hcalled

/-- The import is over, and the subtask has been told. -/
theorem Inv.onResolve (h : Inv s) (hcalled : s.importFn.isCalled = true) (o : Outcome)
    (value : Value α) (himport : importFn.isCalled = false) :
    Inv { s.onResolve o value with importFn := importFn } := by
  have hmanual := h.manual_of_called hcalled
  rcases (h.manual hmanual).onResolve hcalled o value himport with ⟨hstage, hsettled, hsame⟩
  refine ⟨?_, fun hplain => ?_, fun _ => hstage⟩
  · change ∀ lower, ∀ answer ∈ (s.onResolve o value).settled, _
    rw [hsettled]
    exact h.settled
  · change (s.onResolve o value).manual = false at hplain
    rw [hsame, hmanual] at hplain
    cases hplain

theorem Inv.next {call : Call α} (h : Inv s) (hnext : next call s s') : Inv s' := by
  cases call with
  | microtask =>
    -- only a lowering by hand has something queued
    rcases Option.ite_none_right_eq_some.1 hnext with ⟨hmicrotask, hnext⟩
    cases hnext
    unfold State.runMicrotask
    split
    case isFalse hplain =>
      exact ⟨h.settled, h.plain, fun hmanual => absurd hmanual hplain⟩
    case isTrue hmanual =>
      refine ⟨h.settled, fun hplain => ?_, fun _ => ?_⟩
      · rw [show s.manual = false from hplain] at hmanual
        cases hmanual
      · cases h.manual hmanual with
        | running subtask importFn queued handles =>
          refine .running subtask ?_ ?_ handles
          · rintro value ⟨⟩
          · rintro ⟨⟩
        | returned status queued importFn handles =>
          rw [queued] at hmicrotask
          cases hmicrotask
  | timer =>
    -- a timer is set by a lowering by hand alone
    rcases Option.ite_none_right_eq_some.1 hnext with ⟨htimer, hnext⟩
    cases hnext
    have hmanual : s.manual = true := by
      rw [← Bool.not_eq_false]
      intro hplain
      rw [(h.plain hplain).2] at htimer
      cases htimer
    rcases (h.manual hmanual).runTimer with ⟨hstage, hsame, hsettled⟩
    refine ⟨?_, fun hplain => ?_, fun _ => hstage⟩
    · rcases hsettled with ⟨res, heq, hreturned⟩ | heq
      · intro lower
        rw [heq]
        exact settle_wrong (h.settled lower) (fulfilled_wrong hreturned)
      · rw [heq]
        exact h.settled
    · rw [hsame, hmanual] at hplain
      cases hplain
  | complete o value =>
    rcases Option.ite_none_right_eq_some.1 hnext with ⟨hcalled, hnext⟩
    cases hnext
    have hreturned : (Import.returned value).isCalled = false := rfl
    exact h.onResolve hcalled o value hreturned
  | fail o err rejects =>
    rcases Option.ite_none_right_eq_some.1 hnext with ⟨hcalled, hnext⟩
    cases hnext
    have hfailed : (Import.failed err : Import α).isCalled = false := rfl
    cases rejects with
    | true => exact h.onResolve hcalled o (.error err) hfailed
    | false =>
      have hmanual := h.manual_of_called hcalled
      refine ⟨h.settled, fun hplain => ?_, fun _ => (h.manual hmanual).failed hcalled err⟩
      change s.manual = false at hplain
      rw [hmanual] at hplain
      cases hplain
  | subtaskDrop rep =>
    -- a handle that is not there makes the drop throw
    unfold SyncLower.next State.call at hnext
    dsimp only at hnext
    split at hnext
    case isFalse =>
      cases hnext
      exact h
    case isTrue hlookup =>
    cases hnext
    refine ⟨h.settled, h.plain, fun hmanual => (h.manual hmanual).handles ?_ ?_⟩
    · exact fun hown => .inr (hown.subtaskDrop hlookup)
    · exact fun hnot => absurd hlookup (hnot.lookup rep)
  | insert n =>
    rcases Option.map_eq_some_iff.1 hnext with ⟨⟨rep, t⟩, hinsert, rfl⟩
    have hsame := insert_other hinsert
    exact ⟨h.settled, h.plain, fun hmanual => (h.manual hmanual).handles (·.congr hsame) (·.congr hsame)⟩
  | remove rep =>
    rcases Option.ite_none_right_eq_some.1 hnext with ⟨hlookup, hnext⟩
    rcases Option.map_eq_some_iff.1 hnext with ⟨t, hremove, rfl⟩
    have hsame := remove_other hlookup hremove
    exact ⟨h.settled, h.plain, fun hmanual => (h.manual hmanual).handles (·.congr hsame) (·.congr hsame)⟩

/-! ## Runs -/

variable {handles : RepTable Handle} {args : Args}

theorem before_inv (err : JsError) :
    Inv ((State.before args handles : State α).settle (.rejected err)) where
  settled _ := settle_wrong (fun _ h => nomatch h) rejected_wrong
  plain _ := ⟨rfl, rfl⟩
  manual h := nomatch h

/-- A call that has its subtask and is not answered yet. -/
structure Created (s : State α) : Prop where
  manual : s.manual = false
  importFn : s.importFn = .waiting
  timer : s.timer = false
  settled : s.settled = none
  subtask : Running s.subtask
  handles : Held s.handles s.rep

theorem createSubtask_created (hnew : NotHeld handles)
    (hcreate : (State.before args handles : State α).createSubtask = some s) : Created s := by
  rcases Option.map_eq_some_iff.1 hcreate with ⟨⟨rep, t⟩, hinsert, rfl⟩
  exact ⟨rfl, rfl, rfl, rfl, ⟨rfl, rfl, rfl, rfl, rfl, rfl, rfl⟩, hnew.insert hinsert⟩

namespace Created

theorem unanswered (h : Created s) (lower : Value α → Option Int) :
    ∀ answer ∈ s.settled, ¬ Answered lower answer := by
  rw [h.settled]
  exact fun _ hanswer => nomatch hanswer

/-- The branch that is meant for these calls. -/
theorem plain (h : Created s) : Inv { s with microtask := true } where
  settled := h.unanswered
  plain _ := ⟨h.importFn, h.timer⟩
  manual hmanual := by
    change s.manual = true at hmanual
    rw [h.manual] at hmanual
    cases hmanual

/-- The way of an asynchronous lowering. -/
theorem manually (h : Created s) (timer : Bool) :
    Inv { s.setOnProgressFn with timer := timer } where
  settled := h.unanswered
  plain hplain := nomatch hplain
  manual _ := by
    rcases h.subtask with ⟨hstatus, hresolved, hresult, hlenders, hasync, hcall, hcancel⟩
    refine .running ⟨hstatus, hresolved, hresult, hlenders, hasync, hcall, hcancel⟩ ?_
      (fun _ => h.importFn) (.inl h.handles)
    intro value hreturned
    cases h.importFn.symm.trans hreturned

end Created

theorem lowerImport_inv (hnew : NotHeld handles)
    (hstart : lowerImport args handles = some s) : Inv s := by
  unfold lowerImport at hstart
  dsimp only at hstart
  split at hstart
  · cases hstart
    exact before_inv _
  split at hstart
  · cases hstart
    exact before_inv _
  rcases Option.map_eq_some_iff.1 hstart with ⟨t, hcreate, rfl⟩
  have hcreated := createSubtask_created hnew hcreate
  split
  · exact hcreated.plain
  · exact hcreated.manually true

theorem lowerImportBackwardsCompat_inv
    (hnew : NotHeld handles) (hstart : lowerImportBackwardsCompat args handles = some s) :
    Inv s := by
  unfold lowerImportBackwardsCompat at hstart
  dsimp only at hstart
  split at hstart
  · cases hstart
    exact before_inv _
  split at hstart
  · cases hstart
    exact before_inv _
  rcases Option.map_eq_some_iff.1 hstart with ⟨t, hcreate, rfl⟩
  have hcreated := createSubtask_created hnew hcreate
  split
  · exact hcreated.plain
  · -- answered at once, when the import has not even been called
    have hinv : Inv t.setOnProgressFn := hcreated.manually t.timer
    refine hinv.settle fun lower => fulfilled_wrong ?_
    intro value hreturned
    cases hcreated.importFn.symm.trans hreturned

/-- **A synchronously lowered call of an async import never settles as it should.**
The branch that is meant for it does not call the import, and a manually async call
is answered before the import has returned, or never. -/
theorem syncLowered_not_right {args : Args} {handles : RepTable Handle} {s₀ : State α}
    (hnew : NotHeld handles)
    (hstart : lowerImport args handles = some s₀ ∨ lowerImportBackwardsCompat args handles = some s₀) :
    ∀ calls s, Run next s₀ calls s → ∀ lower, ¬ Right lower s := by
  intro calls s hrun lower hright
  have hinv₀ : Inv s₀ := hstart.elim (lowerImport_inv hnew) (lowerImportBackwardsCompat_inv hnew)
  have hinv := hrun.invariant (fun _ _ _ hnext h => h.next hnext) hinv₀
  rcases hright.settled with ⟨answer, hanswer, hanswered⟩
  exact hinv.settled lower answer hanswer hanswered

/-- A call with one parameter, of an import that is in no list. -/
def plainCall : Args := ⟨false, [3], true, true, 0, 1, 0, true, true, true, true⟩

theorem empty_new : NotHeld (RepTable.empty : RepTable Handle) :=
  LowerImport.empty_new

/-- The state that the call leaves. -/
def plainState : State Nat := (lowerImport plainCall .empty).get rfl

theorem run_plainCall : Run next plainState [.microtask] plainState.runMicrotask :=
  .cons rfl (.nil _)

theorem syncLowered_not_right_plainCall : ¬ Right (fun _ => some 7) plainState.runMicrotask := by
  have hstart : lowerImport plainCall .empty = some plainState := rfl
  exact syncLowered_not_right empty_new (.inl hstart) _ _ run_plainCall _

/-- The call is over, and the import has not been called. -/
theorem plainCall_not_right :
    ¬ ∀ (args : Args) (handles : RepTable Handle) (s₀ s : State Nat) calls lower,
      NotHeld handles → lowerImport args handles = some s₀ → Run next s₀ calls s → Over s →
        Right lower s := by
  intro h
  have hright := h plainCall .empty _ _ _ (fun _ => some 7) empty_new rfl run_plainCall
    ⟨rfl, rfl, rfl⟩
  cases hright.once

end Jco.Component.SyncLower

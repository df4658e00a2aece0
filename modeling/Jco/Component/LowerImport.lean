import Jco.Component.RepTable
import Jco.Component.Subtask

/-! # Asynchronously lowered imports

A call of a host import through `lowerImport` with `isAsync`: the subtask is put
into the handle table and started, the import is called in a microtask, and a timer
reads the subtask's state and answers the call. When the import completes, the
progress function of the subtask leaves an event on its waitable, which is
evaluated when the guest takes it.

The microtask comes before the timer, and the import may complete at any time after
it. Around the call the component goes on to use its handle table.
-/

namespace Jco.Component.LowerImport

open Jco.Js Jco.Lib Jco.Component.Subtask RepTable

variable {α : Type}

/-- What a handle stands for: the subtask of the call, or something else. -/
inductive Handle where
  | subtask
  | other (n : Nat)
deriving DecidableEq, Repr

/-- What the call answers: `RETURNED`, or a handle packed with a state. -/
inductive Answer where
  | returned
  | handle (res : Int)
deriving DecidableEq, Repr

/-- The arguments of the call. A `resultPtr` of zero is one that is not there, for
the code; `lowers` tells that the function has a result. -/
structure Args where
  componentIdx : Int
  taskID : Nat
  resultPtr : Nat
  memory : Bool
  callerMemory : Bool
  realloc : Bool
  lowers : Bool

/-- `joined` tells that the waitable is in a set, and `fired` that the timer has
run. History: what the import has completed with. -/
structure State (α : Type) where
  subtask : Subtask.State α
  handles : RepTable Handle
  rep : Int
  joined : Bool
  fired : Bool
  answer : Option Answer
  completed : Option (Value α)

namespace State

/-- `createSubtask`, `onStart` and `setOnProgressFn`, if there is room for a
handle. -/
def init (args : Args) (handles : RepTable Handle) : Option (State α) :=
  (handles.insert .subtask).map fun (rep, handles) =>
    { subtask := (Subtask.State.init args.componentIdx args.taskID true false args.callerMemory
        ⟨false, false, args.resultPtr, args.memory, args.realloc, args.lowers⟩).start
      handles
      rep
      joined := false
      fired := false
      answer := none
      completed := none }

/-- `Number(subtask.waitableRep()) << 4 | subtaskState` -/
def packed (s : State α) : Int := bitOr (shl s.rep 4) s.subtask.status.number

/-- The timer. A subtask that is not in the table makes it throw, and the call is
never answered. -/
def timer (s : State α) : State α :=
  if s.subtask.status = .returned then
    let subtask :=
      if s.subtask.lenders then (deliverResolve : Js α Unit).leaves s.subtask else s.subtask
    let handles := (s.handles.remove s.rep).getD s.handles
    if s.handles.lookup s.rep = some .subtask then
      { s with subtask, handles, fired := true, answer := some .returned }
    else { s with subtask, handles, fired := true }
  else { s with fired := true, answer := some (.handle s.packed) }

/-- `subtask.drop` of a handle of the subtask, which is removed before the checks. -/
def subtaskDrop (s : State α) (rep : Int) : State α :=
  let handles := (s.handles.remove rep).getD s.handles
  if s.subtask.lenders || s.subtask.pendingEvent then { s with handles }
  else { s with handles, joined := false }

end State

/-! ## Steps -/

/-- `insert` and `remove` are what the component does with other handles. -/
inductive Call (α : Type) where
  | complete (o : Outcome) (value : Value α)
  | timer
  | join (waitableRep : Int) (inSet : Bool)
  | event
  | subtaskDrop (rep : Int)
  | insert (n : Nat)
  | remove (rep : Int)

def State.call (s : State α) : Call α → Option (State α)
  | .complete o value =>
    if s.completed.isSome then none
    else some { s with
      subtask := (subtaskOnResolve o value).leaves s.subtask
      completed := some value }
  | .timer => if s.fired then none else some s.timer
  | .join waitableRep inSet =>
    if s.handles.lookup waitableRep = some .subtask then some { s with joined := inSet } else some s
  | .event =>
    if s.joined && s.subtask.pendingEvent then some { s with subtask := s.subtask.event } else none
  | .subtaskDrop rep =>
    if s.handles.lookup rep = some .subtask then some (s.subtaskDrop rep) else some s
  | .insert n => (s.handles.insert (.other n)).map fun (_, handles) => { s with handles }
  | .remove rep =>
    if (s.handles.lookup rep).any (· ≠ .subtask) then
      (s.handles.remove rep).map fun handles => { s with handles }
    else none

def next : Action (Call α) (State α) := fun call s s' => s.call call = some s'

/-! ## What is promised -/

/-- The results have been stored where the caller wants them. -/
def State.Stored (s : State α) : Prop :=
  ∀ value ∈ s.completed, s.subtask.callMetadata.lowers = true →
    .lower value s.subtask.callMetadata.resultPtr ∈ s.subtask.stores

/-- The completion is reported once: by the answer `RETURNED`, with no handle of the
subtask left, or by one event after the answer was a live handle. -/
structure Reported (s : State α) : Prop where
  returned : s.answer = some .returned → s.completed.isSome ∧ s.subtask.seen = [] ∧
    ∀ rep, s.handles.lookup rep ≠ some .subtask
  handle : ∀ res, s.answer = some (.handle res) → res % 2 ^ 32 = 16 * s.rep + 1 ∧
    (s.subtask.seen = [] → s.handles.lookup s.rep = some .subtask)
  running : s.completed = none → s.subtask.seen = []
  once : ∀ res, s.answer = some (.handle res) → s.completed.isSome →
    s.subtask.seen = [.returned] ∧ s.subtask.pendingEvent = false ∨
      s.subtask.seen = [] ∧ s.subtask.pendingEvent = true
  unanswered : s.answer = none → s.subtask.seen = []
  stored : s.answer = some .returned ∨ s.subtask.seen ≠ [] → s.Stored

/-- The result can be stored: there is a pointer to memory, and lowering does not
throw. -/
def State.CanStore (s : State α) (o : Outcome) : Prop :=
  s.subtask.callMetadata.lowers = true → s.subtask.callMetadata.resultPtr ≠ 0 ∧
    (s.subtask.callMetadata.memory || s.subtask.callerMemory) = true ∧ o.lowers = true

/-- A step keeps the promise when results can be stored, handles fit into 28 bits,
and the guest uses the handle of the subtask only once it has been given it, and
drops it only after the event. -/
def Safe : Call α → State α → Prop
  | .complete o _, s => s.CanStore o
  | .timer, s => s.subtask.status = .returned ∨ 0 ≤ s.rep ∧ s.rep < 2 ^ 28
  | .join waitableRep _, s => s.handles.lookup waitableRep = some .subtask →
      s.answer.any (· ≠ .returned)
  | .subtaskDrop rep, s => s.handles.lookup rep = some .subtask → s.subtask.seen ≠ []
  | .event, _ => True
  | .insert _, _ => True
  | .remove _, _ => True

/-! ## The subtask -/

/-- What the call sets once and for all. -/
structure Shape (s : Subtask.State α) : Prop where
  isAsync : s.isAsync = true
  startCall : s.startCall = false
  returnFn : s.callMetadata.returnFn = false
  cancelRequested : s.cancelRequested = false
  onProgressFn : s.onProgressFn = true

/-- The import has not completed. -/
structure Running (s : Subtask.State α) : Prop where
  status : s.status = .started
  resolved : s.resolved = false
  result : s.result = none
  lenders : s.lenders = true
  pendingEvent : s.pendingEvent = false
  seen : s.seen = []

/-- The import has completed with a value, which is stored if it has to be. -/
structure Completed (value : Value α) (s : Subtask.State α) : Prop where
  status : s.status = .returned
  stored : s.callMetadata.lowers = true → .lower value s.callMetadata.resultPtr ∈ s.stores

/-- The completion has not been reported; its event waits. -/
structure Pending (value : Value α) (s : Subtask.State α) : Prop extends Completed value s where
  lenders : s.lenders = true
  pendingEvent : s.pendingEvent = true
  seen : s.seen = []

/-- The completion has been reported by an event. -/
structure Told (value : Value α) (s : Subtask.State α) : Prop extends Completed value s where
  lenders : s.lenders = false
  pendingEvent : s.pendingEvent = false
  seen : s.seen = [.returned]

open Script

theorem shape_init (args : Args) :
    Shape (Subtask.State.init (α := α) args.componentIdx args.taskID true false args.callerMemory
      ⟨false, false, args.resultPtr, args.memory, args.realloc, args.lowers⟩).start :=
  ⟨rfl, rfl, rfl, rfl, rfl⟩

theorem running_init (args : Args) :
    Running (Subtask.State.init (α := α) args.componentIdx args.taskID true false args.callerMemory
      ⟨false, false, args.resultPtr, args.memory, args.realloc, args.lowers⟩).start :=
  ⟨rfl, rfl, rfl, rfl, rfl, rfl⟩

variable {s : Subtask.State α}

/-- The completion of a running import, when the result can be stored. -/
theorem onResolve_running (hs : Shape s) (hr : Running s) {o : Outcome}
    (value : Value α)
    (hstore : s.callMetadata.lowers = true → s.callMetadata.resultPtr ≠ 0 ∧
      (s.callMetadata.memory || s.callerMemory) = true ∧ o.lowers = true) :
    Shape ((subtaskOnResolve o value).leaves s) ∧ Pending value ((subtaskOnResolve o value).leaves s) := by
  have hisNull : (value.isNull && s.cancelRequested) = false := by
    rw [hs.cancelRequested]
    exact Bool.and_false _
  have hstatus : (resolveStatus value).run s.progress =
      (.ok (), { s.progress with status := .returned }) := by
    have hnot : ¬ (value.isNull && s.progress.cancelRequested) = true := by
      rw [show s.progress.cancelRequested = s.cancelRequested from rfl, hisNull]
      exact Bool.false_ne_true
    have hstarted : s.progress.status = .started := hr.status
    unfold resolveStatus
    rw [get_bind, if_neg hnot, throwIf_bind, if_neg (by simp [hstarted]), run_modify]
  have hstart : (subtaskOnResolve o value).run s =
      (storeResult o value).run { s.progress with status := .returned } := by
    unfold subtaskOnResolve
    rw [get_bind, throwIf_bind, if_neg (by simp [hr.resolved]), modify_bind,
      run_bind_ok hstatus]
  unfold leaves
  rw [hstart]
  -- a call that lowers its result stores it at the pointer, another one keeps it
  by_cases hlowers : s.callMetadata.lowers = true
  · rcases hstore hlowers with ⟨hptr, hmemory, ho⟩
    rw [Bool.or_eq_true] at hmemory
    have hrun : (storeResult o value).run { s.progress with status := .returned } =
        (.ok (), { s.progress with
          status := .returned
          result := some value
          stores := s.stores ++ [.lower value s.callMetadata.resultPtr]
          resolved := true }) := by
      simp [storeResult, setResult, run_bind, throwIf, when, State.progress, hr.result,
        hs.startCall, hs.returnFn, hs.isAsync, hptr, hmemory, hlowers, lowerResult, ho]
    rw [hrun]
    refine ⟨{ hs with }, ⟨rfl, fun _ => ?_⟩, hr.lenders, ?_, hr.seen⟩
    · exact List.mem_append_right _ (List.mem_singleton.2 rfl)
    · show (s.onProgressFn || s.pendingEvent) = true
      rw [hs.onProgressFn]
      rfl
  · have hrun : (storeResult o value).run { s.progress with status := .returned } =
        (.ok (), { s.progress with
          status := .returned
          result := some value
          resolved := true }) := by
      simp [storeResult, setResult, run_bind, throwIf, when, State.progress, hr.result,
        hs.startCall, hs.returnFn, hs.isAsync, hlowers]
    rw [hrun]
    refine ⟨{ hs with }, ⟨rfl, fun h => absurd h hlowers⟩, hr.lenders, ?_, hr.seen⟩
    show (s.onProgressFn || s.pendingEvent) = true
    rw [hs.onProgressFn]
    rfl

theorem deliverResolve_run (hstatus : s.status = .returned)
    (hlenders : s.lenders = true) :
    (deliverResolve : Js α Unit).run s = (.ok (), { s with lenders := false }) := by
  simp [deliverResolve, throwIf_bind, hstatus, hlenders, Status.isResolved]

/-- The event of a completion, taken once. -/
theorem event_pending {value : Value α} (hs : Shape s)
    (hp : Pending value s) : Shape s.event ∧ Told value s.event := by
  obtain ⟨t, ht⟩ : ∃ t, t = { s with pendingEvent := false } := ⟨_, rfl⟩
  have hstatus : t.status = .returned := by rw [ht]; exact hp.status
  have hrun : (deliverResolve : Js α Unit).run t = (.ok (), { t with lenders := false }) :=
    deliverResolve_run hstatus (by rw [ht]; exact hp.lenders)
  have hleaves : (deliverResolve : Js α Unit).leaves t = { t with lenders := false } :=
    congrArg Prod.snd hrun
  have hthrew : ¬ (deliverResolve : Js α Unit).threw t = true := by
    unfold threw
    rw [hrun]
    exact Bool.false_ne_true
  have hevent : s.event = Subtask.State.observe { t with lenders := false } := by
    unfold Subtask.State.event
    dsimp only
    rw [if_pos (by rw [hp.status]; rfl), ← ht, if_neg hthrew, hleaves]
  rw [hevent, ht]
  refine ⟨{ hs with }, ⟨hp.status, hp.stored⟩, rfl, rfl, ?_⟩
  rw [hp.seen, hp.status]
  rfl

/-! ## The handle table -/

/-- The subtask has the handle `rep`, and no other. -/
def Held (t : RepTable Handle) (rep : Int) : Prop :=
  ∃ i : Nat, slot rep = i + 1 ∧ ∀ j, t.cells[j]? = some (.val .subtask) ↔ j = i

def NotHeld (t : RepTable Handle) : Prop := ∀ j : Nat, t.cells[j]? ≠ some (.val .subtask)

theorem lookup_subtask {t : RepTable Handle} {rep rep' : Int} (h : Held t rep)
    (hlookup : t.lookup rep' = some .subtask) : slot rep' = slot rep := by
  rcases h with ⟨i, hslot, hcells⟩
  rcases lookup_cells hlookup with ⟨j, hslot', hcell⟩
  rw [hslot, hslot', (hcells j).1 hcell]

theorem Held.lookup {t : RepTable Handle} {rep : Int} (h : Held t rep) :
    t.lookup rep = some .subtask := by
  rcases h with ⟨i, hslot, hcells⟩
  exact lookup_of_cells hslot ((hcells i).2 rfl)

theorem NotHeld.lookup {t : RepTable Handle} (h : NotHeld t) (rep : Int) :
    t.lookup rep ≠ some .subtask := by
  intro hlookup
  rcases lookup_cells hlookup with ⟨j, -, hcell⟩
  exact h j hcell

variable {t t' : RepTable Handle}

/-- The subtask gets its handle. -/
theorem NotHeld.insert {rep : Int} (h : NotHeld t)
    (hinsert : t.insert .subtask = some (rep, t')) : Held t' rep := by
  rcases insert_spec hinsert with ⟨i, hspec⟩
  refine ⟨i, hspec.slot, ?_⟩
  intro j
  constructor
  · intro hj
    by_contra hji
    rw [hspec.other j hji] at hj
    exact h j hj
  · rintro rfl
    exact hspec.cell

/-- Removing the handle of the subtask, under any number that names its place. -/
theorem Held.remove {t : RepTable Handle} {rep rep' : Int} (h : Held t rep)
    (hslot' : slot rep' = slot rep) : ∃ t', t.remove rep' = some t' ∧ NotHeld t' := by
  rcases h with ⟨i, hslot, hcells⟩
  rcases remove_spec (hslot'.trans hslot) ((hcells i).2 rfl) with ⟨t', hremove, hspec⟩
  refine ⟨t', hremove, ?_⟩
  intro j hj
  by_cases hji : j = i
  · exact hspec.cell .subtask (hji ▸ hj)
  · rw [hspec.other j hji] at hj
    exact hji ((hcells j).1 hj)

/-- The other handles of the component, as they come and go. -/
theorem insert_other {n : Nat} {rep' : Int}
    (hinsert : t.insert (.other n) = some (rep', t')) (j : Nat) :
    t'.cells[j]? = some (.val .subtask) ↔ t.cells[j]? = some (.val .subtask) := by
  rcases insert_spec hinsert with ⟨i, hspec⟩
  by_cases hji : j = i
  · subst hji
    constructor
    · intro h
      rw [hspec.cell] at h
      cases h
    · intro h
      exact absurd h (hspec.fresh .subtask)
  · rw [hspec.other j hji]

theorem remove_other {rep' : Int}
    (hlookup : (t.lookup rep').any (· ≠ .subtask)) (hremove : t.remove rep' = some t') (j : Nat) :
    t'.cells[j]? = some (.val .subtask) ↔ t.cells[j]? = some (.val .subtask) := by
  rcases hval : t.lookup rep' with _ | v
  · rw [hval] at hlookup
    cases hlookup
  · rw [hval] at hlookup
    have hv : v ≠ .subtask := by simpa using hlookup
    rcases lookup_cells hval with ⟨i, hslot, hcell⟩
    rcases remove_spec hslot hcell with ⟨t₁, hremove₁, hspec⟩
    rw [hremove] at hremove₁
    cases hremove₁
    by_cases hji : j = i
    · subst hji
      constructor
      · intro h
        exact absurd h (hspec.cell .subtask)
      · intro h
        rw [hcell] at h
        exact absurd (Cell.val.inj (Option.some.inj h)) hv
    · rw [hspec.other j hji]

theorem Held.congr {rep : Int} (h : Held t rep)
    (hsame : ∀ j : Nat, t'.cells[j]? = some (.val .subtask) ↔ t.cells[j]? = some (.val .subtask)) :
    Held t' rep := by
  rcases h with ⟨i, hslot, hcells⟩
  exact ⟨i, hslot, fun j => (hsame j).trans (hcells j)⟩

theorem NotHeld.congr (h : NotHeld t)
    (hsame : ∀ j : Nat, t'.cells[j]? = some (.val .subtask) ↔ t.cells[j]? = some (.val .subtask)) :
    NotHeld t' :=
  fun j hj => h j ((hsame j).1 hj)

/-! ## The stages of a call -/

/-- Where a call is: before and after its answer, its completion and the report. -/
inductive Stage (s : State α) : Prop where
  | calling (answer : s.answer = none) (fired : s.fired = false) (completed : s.completed = none)
      (subtask : Running s.subtask) (handle : Held s.handles s.rep) (joined : s.joined = false)
  | early (value : Value α) (answer : s.answer = none) (fired : s.fired = false)
      (completed : s.completed = some value) (subtask : Pending value s.subtask)
      (handle : Held s.handles s.rep) (joined : s.joined = false)
  | returned (value : Value α) (answer : s.answer = some .returned) (fired : s.fired = true)
      (completed : s.completed = some value) (subtask : Completed value s.subtask)
      (seen : s.subtask.seen = []) (handle : NotHeld s.handles) (joined : s.joined = false)
  | waiting (res : Int) (answer : s.answer = some (.handle res)) (fired : s.fired = true)
      (packed : res % 2 ^ 32 = 16 * s.rep + 1) (completed : s.completed = none)
      (subtask : Running s.subtask) (handle : Held s.handles s.rep)
  | pending (res : Int) (value : Value α) (answer : s.answer = some (.handle res))
      (fired : s.fired = true) (packed : res % 2 ^ 32 = 16 * s.rep + 1)
      (completed : s.completed = some value) (subtask : Pending value s.subtask)
      (handle : Held s.handles s.rep)
  | told (res : Int) (value : Value α) (answer : s.answer = some (.handle res))
      (fired : s.fired = true) (packed : res % 2 ^ 32 = 16 * s.rep + 1)
      (completed : s.completed = some value) (subtask : Told value s.subtask)
      (handle : Held s.handles s.rep ∨ NotHeld s.handles)

/-- Before the answer nothing is promised, and the caller has seen no event. -/
theorem Reported.of_unanswered {s : State α} (answer : s.answer = none)
    (seen : s.subtask.seen = []) : Reported s := by
  constructor
  case returned => intro h; rw [answer] at h; cases h
  case handle => intro res h; rw [answer] at h; cases h
  case running => exact fun _ => seen
  case once => intro res h; rw [answer] at h; cases h
  case unanswered => exact fun _ => seen
  case stored =>
    rintro (h | h)
    · rw [answer] at h; cases h
    · exact absurd seen h

/-- The caller has the handle and has seen no event; once the call is complete one waits. -/
theorem Reported.of_unseen {s : State α} {res : Int} (answer : s.answer = some (.handle res))
    (packed : res % 2 ^ 32 = 16 * s.rep + 1) (handle : s.handles.lookup s.rep = some .subtask)
    (seen : s.subtask.seen = []) (event : s.completed.isSome → s.subtask.pendingEvent = true) :
    Reported s := by
  constructor
  case returned => intro h; rw [answer] at h; cases h
  case handle =>
    intro res' h
    rw [answer] at h
    cases h
    exact ⟨packed, fun _ => handle⟩
  case running => exact fun _ => seen
  case once => exact fun _ _ hcompleted => .inr ⟨seen, event hcompleted⟩
  case unanswered => exact fun _ => seen
  case stored =>
    rintro (h | h)
    · rw [answer] at h; cases h
    · exact absurd seen h

/-- Every stage keeps the promise. -/
theorem Stage.reported {s : State α} (h : Stage s) : Reported s := by
  cases h with
  | calling answer fired completed subtask handle joined => exact .of_unanswered answer subtask.seen
  | early value answer fired completed subtask handle joined =>
    exact .of_unanswered answer subtask.seen
  | returned value answer fired completed subtask seen handle joined =>
    constructor
    case returned => exact fun _ => ⟨by rw [completed]; rfl, seen, handle.lookup⟩
    case handle => intro res h; rw [answer] at h; cases h
    case running => exact fun _ => seen
    case once => intro res h; rw [answer] at h; cases h
    case unanswered => exact fun _ => seen
    case stored =>
      intro _ v hv
      rw [completed] at hv
      cases hv
      exact subtask.stored
  | waiting res answer fired packed completed subtask handle =>
    refine .of_unseen answer packed handle.lookup subtask.seen fun h => ?_
    rw [completed] at h
    cases h
  | pending res value answer fired packed completed subtask handle =>
    exact .of_unseen answer packed handle.lookup subtask.seen fun _ => subtask.pendingEvent
  | told res value answer fired packed completed subtask handle =>
    -- The event has been seen, so the call is complete.
    have hseen : s.subtask.seen ≠ [] := by
      rw [subtask.seen]
      exact List.cons_ne_nil _ _
    constructor
    case returned => intro h; rw [answer] at h; cases h
    case handle =>
      intro res' h
      rw [answer] at h
      cases h
      exact ⟨packed, fun hnil => absurd hnil hseen⟩
    case running => intro h; rw [completed] at h; cases h
    case once => exact fun _ _ _ => .inl ⟨subtask.seen, subtask.pendingEvent⟩
    case unanswered => intro h; rw [answer] at h; cases h
    case stored =>
      intro _ v hv
      rw [completed] at hv
      cases hv
      exact subtask.stored

/-! ## The steps -/

/-- The invariant. -/
structure Inv (s : State α) : Prop where
  shape : Shape s.subtask
  stage : Stage s

theorem Inv.init {args : Args} {handles : RepTable Handle} {s : State α} (hnew : NotHeld handles)
    (hinit : State.init args handles = some s) : Inv s := by
  rcases Option.map_eq_some_iff.1 hinit with ⟨⟨rep, handles'⟩, hinsert, rfl⟩
  exact ⟨shape_init args, .calling rfl rfl rfl (running_init args) (hnew.insert hinsert) rfl⟩

namespace Stage

variable {s : State α}

/-- Other handles are of no matter. -/
theorem handles (h : Stage s) {t : RepTable Handle}
    (hsame : ∀ j : Nat,
      t.cells[j]? = some (.val .subtask) ↔ s.handles.cells[j]? = some (.val .subtask)) :
    Stage { s with handles := t } := by
  cases h with
  | calling answer fired completed subtask handle joined =>
    exact .calling answer fired completed subtask (handle.congr hsame) joined
  | early value answer fired completed subtask handle joined =>
    exact .early value answer fired completed subtask (handle.congr hsame) joined
  | returned value answer fired completed subtask seen handle joined =>
    exact .returned value answer fired completed subtask seen (handle.congr hsame) joined
  | waiting res answer fired packed completed subtask handle =>
    exact .waiting res answer fired packed completed subtask (handle.congr hsame)
  | pending res value answer fired packed completed subtask handle =>
    exact .pending res value answer fired packed completed subtask (handle.congr hsame)
  | told res value answer fired packed completed subtask handle =>
    exact .told res value answer fired packed completed subtask
      (handle.imp (·.congr hsame) (·.congr hsame))

/-- The completion of the import. -/
theorem complete (h : Stage s) (hs : Shape s.subtask) (hnot : s.completed = none) {o : Outcome}
    (value : Value α) (hstore : s.CanStore o) :
    Shape ((subtaskOnResolve o value).leaves s.subtask) ∧
      Stage { s with
        subtask := (subtaskOnResolve o value).leaves s.subtask
        completed := some value } := by
  cases h with
  | calling answer fired completed subtask handle joined =>
    have hdone := onResolve_running hs subtask value hstore
    exact ⟨hdone.1, .early value answer fired rfl hdone.2 handle joined⟩
  | waiting res answer fired packed completed subtask handle =>
    have hdone := onResolve_running hs subtask value hstore
    exact ⟨hdone.1, .pending res value answer fired packed rfl hdone.2 handle⟩
  | early value answer fired completed => rw [completed] at hnot; cases hnot
  | returned value answer fired completed => rw [completed] at hnot; cases hnot
  | pending res value answer fired packed completed => rw [completed] at hnot; cases hnot
  | told res value answer fired packed completed => rw [completed] at hnot; cases hnot

/-- The timer reads `STARTED` and answers the handle. -/
theorem timer_running (hcompleted : s.completed = none) (hr : Running s.subtask)
    (hheld : Held s.handles s.rep) (hrep : 0 ≤ s.rep ∧ s.rep < 2 ^ 28) : Stage s.timer := by
  have hnot : s.subtask.status ≠ .returned := by
    rw [hr.status]
    nofun
  have htimer : s.timer = { s with fired := true, answer := some (.handle s.packed) } := by
    unfold State.timer
    rw [if_neg hnot]
  rw [htimer]
  have hpacked : s.packed % 2 ^ 32 = 16 * s.rep + 1 := by
    rcases Int.eq_ofNat_of_zero_le hrep.1 with ⟨n, hn⟩
    have hn28 : n < 2 ^ 28 := by omega
    unfold State.packed
    rw [hr.status, hn]
    exact bitOr_shl_four hn28 (by decide)
  exact .waiting s.packed rfl rfl hpacked hcompleted hr hheld

/-- The timer reads `RETURNED`, and the handle goes. -/
theorem timer_returned (hs : Shape s.subtask) {value : Value α}
    (hcompleted : s.completed = some value) (hp : Pending value s.subtask)
    (hheld : Held s.handles s.rep) (hjoined : s.joined = false) :
    Shape s.timer.subtask ∧ Stage s.timer := by
  rcases hheld.remove rfl with ⟨t, hremove, hgone⟩
  have hleaves : (deliverResolve : Js α Unit).leaves s.subtask =
      { s.subtask with lenders := false } :=
    congrArg Prod.snd (deliverResolve_run hp.status hp.lenders)
  have htimer : s.timer = { s with
      subtask := { s.subtask with lenders := false }
      handles := t
      fired := true
      answer := some .returned } := by
    unfold State.timer
    rw [if_pos hp.status, if_pos hheld.lookup, if_pos hp.lenders, hleaves, hremove]
    rfl
  rw [htimer]
  exact ⟨{ hs with },
    .returned value rfl rfl hcompleted ⟨hp.status, hp.stored⟩ hp.seen hgone hjoined⟩

theorem timer (h : Stage s) (hs : Shape s.subtask) (hnot : s.fired = false)
    (hsafe : s.subtask.status = .returned ∨ 0 ≤ s.rep ∧ s.rep < 2 ^ 28) :
    Shape s.timer.subtask ∧ Stage s.timer := by
  cases h with
  | calling answer fired completed subtask handle joined =>
    have hrep : 0 ≤ s.rep ∧ s.rep < 2 ^ 28 := by
      refine hsafe.resolve_left ?_
      rw [subtask.status]
      nofun
    refine ⟨?_, timer_running completed subtask handle hrep⟩
    unfold State.timer
    rw [if_neg (by rw [subtask.status]; nofun)]
    exact hs
  | early value answer fired completed subtask handle joined =>
    exact timer_returned hs completed subtask handle joined
  | returned value answer fired => rw [fired] at hnot; cases hnot
  | waiting res answer fired => rw [fired] at hnot; cases hnot
  | pending res value answer fired => rw [fired] at hnot; cases hnot
  | told res value answer fired => rw [fired] at hnot; cases hnot

/-- The guest joins a set or leaves it with the handle it has been given. -/
theorem join (h : Stage s) (hanswer : s.answer.any (· ≠ .returned)) (inSet : Bool) :
    Stage { s with joined := inSet } := by
  cases h with
  | calling answer => rw [answer] at hanswer; cases hanswer
  | early value answer => rw [answer] at hanswer; cases hanswer
  | returned value answer => rw [answer] at hanswer; cases hanswer
  | waiting res answer fired packed completed subtask handle =>
    exact .waiting res answer fired packed completed subtask handle
  | pending res value answer fired packed completed subtask handle =>
    exact .pending res value answer fired packed completed subtask handle
  | told res value answer fired packed completed subtask handle =>
    exact .told res value answer fired packed completed subtask handle

/-- The guest takes the event from its set. -/
theorem event (h : Stage s) (hs : Shape s.subtask) (hjoined : s.joined = true)
    (hevent : s.subtask.pendingEvent = true) :
    Shape s.subtask.event ∧ Stage { s with subtask := s.subtask.event } := by
  cases h with
  | calling answer fired completed subtask handle joined => rw [joined] at hjoined; cases hjoined
  | early value answer fired completed subtask handle joined =>
    rw [joined] at hjoined; cases hjoined
  | returned value answer fired completed subtask seen handle joined =>
    rw [joined] at hjoined; cases hjoined
  | waiting res answer fired packed completed subtask handle =>
    rw [subtask.pendingEvent] at hevent; cases hevent
  | pending res value answer fired packed completed subtask handle =>
    have htold := event_pending hs subtask
    exact ⟨htold.1, .told res value answer fired packed completed htold.2 (.inl handle)⟩
  | told res value answer fired packed completed subtask handle =>
    rw [subtask.pendingEvent] at hevent; cases hevent

/-- The guest drops the handle after the event. -/
theorem subtaskDrop (h : Stage s) {rep : Int} (hlookup : s.handles.lookup rep = some .subtask)
    (hseen : s.subtask.seen ≠ []) :
    (s.subtaskDrop rep).subtask = s.subtask ∧ Stage (s.subtaskDrop rep) := by
  cases h with
  | calling answer fired completed subtask => exact absurd subtask.seen hseen
  | early value answer fired completed subtask => exact absurd subtask.seen hseen
  | returned value answer fired completed subtask seen => exact absurd seen hseen
  | waiting res answer fired packed completed subtask => exact absurd subtask.seen hseen
  | pending res value answer fired packed completed subtask => exact absurd subtask.seen hseen
  | told res value answer fired packed completed subtask handle =>
    rcases handle with hheld | hgone
    · rcases hheld.remove (lookup_subtask hheld hlookup) with ⟨t, hremove, hgone⟩
      have hnot : ¬ (s.subtask.lenders || s.subtask.pendingEvent) = true := by
        rw [subtask.lenders, subtask.pendingEvent]
        exact Bool.false_ne_true
      have hdrop : s.subtaskDrop rep = { s with handles := t, joined := false } := by
        unfold State.subtaskDrop
        rw [if_neg hnot, hremove]
        rfl
      rw [hdrop]
      exact ⟨rfl, .told res value answer fired packed completed subtask (.inr hgone)⟩
    · exact absurd hlookup (hgone.lookup rep)

end Stage

/-- The step lemma. -/
theorem Inv.next {s s' : State α} {call : Call α} (h : Inv s) (hsafe : Safe call s)
    (hnext : next call s s') : Inv s' := by
  cases call with
  | complete o value =>
    rcases Option.ite_none_left_eq_some.1 hnext with ⟨hnot, hnext⟩
    cases hnext
    have hnone : s.completed = none := by simpa using hnot
    have hdone := h.stage.complete h.shape hnone value hsafe
    exact ⟨hdone.1, hdone.2⟩
  | timer =>
    rcases Option.ite_none_left_eq_some.1 hnext with ⟨hnot, hnext⟩
    cases hnext
    have hfired : s.fired = false := by simpa using hnot
    have htimer := h.stage.timer h.shape hfired hsafe
    exact ⟨htimer.1, htimer.2⟩
  | join waitableRep inSet =>
    unfold LowerImport.next State.call at hnext
    dsimp only at hnext
    split at hnext
    case isTrue hlookup =>
      cases hnext
      exact ⟨h.shape, h.stage.join (hsafe hlookup) inSet⟩
    case isFalse =>
      cases hnext
      exact h
  | event =>
    rcases Option.ite_none_right_eq_some.1 hnext with ⟨hboth, hnext⟩
    cases hnext
    rw [Bool.and_eq_true] at hboth
    have htold := h.stage.event h.shape hboth.1 hboth.2
    exact ⟨htold.1, htold.2⟩
  | subtaskDrop rep =>
    unfold LowerImport.next State.call at hnext
    dsimp only at hnext
    split at hnext
    case isTrue hlookup =>
      cases hnext
      have hdrop := h.stage.subtaskDrop hlookup (hsafe hlookup)
      exact ⟨by rw [hdrop.1]; exact h.shape, hdrop.2⟩
    case isFalse =>
      cases hnext
      exact h
  | insert n =>
    rcases Option.map_eq_some_iff.1 hnext with ⟨⟨rep', t⟩, hinsert, rfl⟩
    exact ⟨h.shape, h.stage.handles (insert_other hinsert)⟩
  | remove rep =>
    rcases Option.ite_none_right_eq_some.1 hnext with ⟨hlookup, hnext⟩
    rcases Option.map_eq_some_iff.1 hnext with ⟨t, hremove, rfl⟩
    exact ⟨h.shape, h.stage.handles (remove_other hlookup hremove)⟩

/-! ## The report -/

/-- In every run of a call whose steps are safe, the completion is reported exactly
once, with the results stored before. -/
theorem completion_reported_once {args : Args} {handles : RepTable Handle} {s₀ s : State α}
    {tr : List (Call α)} (hnew : ∀ j : Nat, handles.cells[j]? ≠ some (.val .subtask))
    (hinit : State.init args handles = some s₀) (hrun : Run (guarded Safe next) s₀ tr s) :
    Reported s := by
  have hstep : ∀ (call : Call α) (t t' : State α), guarded Safe next call t t' → Inv t → Inv t' :=
    fun call t t' hnext hinv => hinv.next hnext.1 hnext.2
  exact (Run.invariant hstep hrun (Inv.init hnew hinit)).stage.reported

theorem empty_new (j : Nat) :
    (empty : RepTable Handle).cells[j]? ≠ some (.val .subtask) := by
  simp [empty]

/-- A call with one result, to be stored at `resultPtr`. -/
def oneResult (resultPtr : Nat) : Args := ⟨0, 1, resultPtr, true, true, true, true⟩

/-- Every function that is called returns. -/
def returns : Outcome := ⟨true, true, true, true⟩

/-- The import takes longer than the timer. -/
def slowImport : List (Call Nat) :=
  [.timer, .join 1 true, .insert 5, .complete returns (.result 7), .event, .subtaskDrop 1]

theorem completion_reported_once_slowImport :
    ∃ s : State Nat, Reported s ∧ s.subtask.seen = [.returned] ∧
      s.subtask.stores = [.lower (.result 7) 8] := by
  have hrun : Run (guarded Safe next) ((State.init (oneResult 8) empty).get rfl)
      slowImport _ :=
    .cons ⟨.inr (by decide), rfl⟩ <| .cons ⟨fun _ => rfl, rfl⟩ <| .cons ⟨trivial, rfl⟩ <|
      .cons ⟨fun _ => by decide, rfl⟩ <| .cons ⟨trivial, rfl⟩ <|
      .cons ⟨fun _ => List.cons_ne_nil _ _, rfl⟩ <| .nil _
  exact ⟨_, completion_reported_once empty_new rfl hrun, rfl, rfl⟩

/-- A result pointer of zero is taken for one that is not there: the call answers
`RETURNED`, and the result has not been stored. -/
theorem zero_pointer_not_stored :
    ¬ ∀ (args : Args) (handles : RepTable Handle) (s₀ s : State Nat) (tr : List (Call Nat)),
      (∀ j : Nat, handles.cells[j]? ≠ some (.val .subtask)) → State.init args handles = some s₀ →
        Run next s₀ tr s → Reported s := by
  intro hall
  have hrun : Run next ((State.init (oneResult 0) empty).get rfl)
      [.complete returns (.result 7), .timer] _ := .cons rfl <| .cons rfl <| .nil _
  have hreported := hall _ _ _ _ _ empty_new rfl hrun
  have hstored := hreported.stored (.inl rfl) (.result 7) rfl rfl
  cases hstored

end Jco.Component.LowerImport

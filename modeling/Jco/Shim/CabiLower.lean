import Jco.Js.Memory
import Jco.Resource.Table

/-! # The lowered fast paths of the shim

In the optimized binding modes the core of a component does not call the plain
functions of the wall clock and of pollables but what `Symbol.for("cabiLower")`
makes of them: functions on core values that read the handle table and store
their results in the memory themselves.

`lowered` is what these functions do, `canonical` what the canonical ABI makes
of the plain JavaScript functions: a return pointer that is not aligned or does
not fit traps, as does a handle `rscTableGet` refuses, and the result is stored
where the pointer says. Every exception is a trap.
-/

namespace Jco.Shim

open Jco.Js Jco.Resource Writes

/-- A poll state of the worker. -/
structure PollState where
  ready : Bool
  /-- `ready` after `pollStateCheck`, which may throw. -/
  checked : Option Bool
  /-- `ready` once a listener has been called. -/
  woken : Bool
deriving DecidableEq, Repr

/-- The polls of the worker. -/
abbrev Polls := Int → Option PollState

/-- The positions of the flags that are set. -/
def positions (flags : List Bool) : List Nat :=
  (flags.zipIdx.filter fun p => p.1).map fun p => p.2

/-- `POLL_POLLABLE_READY` -/
def pollPollableReady (polls : Polls) (id : Int) : Except JsError Bool :=
  match polls id with
  | none => .error .engine
  | some pollState => .ok pollState.ready

/-- `pollStateCheck` of one entry of the list, which may be `undefined`. -/
def pollStateCheck (polls : Polls) (id : Int) : Except JsError (Bool × Bool) :=
  match polls id with
  | none => .error .engine
  | some pollState =>
    match pollState.checked with
    | none => .error (.error "wasi-io trap: got data for a null read")
    | some ready => .ok (ready, pollState.woken)

/-- `POLL_POLL_LIST`; `POLL_POLLABLE_BLOCK` is the list of one. -/
def pollPollList (polls : Polls) (payload : List Int) : Except JsError (List Nat) :=
  if payload.length = 0 then
    .error (.error "wasi-io trap: attempt to poll on empty list")
  else
    (payload.mapM (pollStateCheck polls)).map fun pollList =>
      let doneList := positions (pollList.map fun p => p.1)
      if 0 < doneList.length then doneList else positions (pollList.map fun p => p.2)

/-- What the calls find: the component's memory and handle table, its `realloc`
(the pointer and the size of the memory then), the polls of the worker, and the
two readings of `Date.now()`. -/
structure Env where
  memory : Memory
  table : ResourceTable
  realloc : Nat → BitVec 32 × Nat
  polls : Polls
  dateNow : Int × Int

/-- A call with its core arguments. -/
inductive Call where
  | resolution (retptr : BitVec 32)
  | now (retptr : BitVec 32)
  | ready (handle : BitVec 32)
  | block (handle : BitVec 32)
  | poll (listPtr len retptr : BitVec 32)
deriving DecidableEq, Repr

/-- What a call stores and the core value it returns. -/
structure Effect where
  writes : Writes := .nothing
  value : Option Int := none

namespace Env

variable (env : Env)

/-! ## The plain functions -/

/-- `wallClock.resolution()` -/
def wallClockResolution : Int × Int := (0, 1000000)

/-- `wallClock.now()`, the two readings of the clock given. -/
def wallClockNow : Int × Int :=
  (env.dateNow.1 / 1000, env.dateNow.2.tmod 1000 * 1000000)

/-! ## The fast paths -/

def loweredResolution (retptr : BitVec 32) : Except JsError Effect :=
  if retptr.toInt % 4 ≠ 0 then
    .error (.error "wasi-io trap: retptr not aligned")
  else
    let writes := Writes.nothing.setElement env.memory.size 4 (shr retptr.toInt 2 + 0) 0
    let writes := writes.setElement env.memory.size 4 (shr retptr.toInt 2 + 4) 0
    let writes := writes.setElement env.memory.size 4 (shr retptr.toInt 2 + 8) 1000000
    .ok { writes }

def loweredNow (retptr : BitVec 32) : Except JsError Effect :=
  if retptr.toInt % 4 ≠ 0 then
    .error (.error "wasi-io trap: retptr not aligned")
  else
    let writes := Writes.nothing.setElement env.memory.size 8 (shr retptr.toInt 2 + 0)
      (env.dateNow.1 / 1000)
    let writes := writes.setElement env.memory.size 4 (shr retptr.toInt 2 + 8)
      (env.dateNow.2.tmod 1000 * 1000000)
    .ok { writes }

/-- `table[(handle << 1) + 1] & ~T_FLAG` -/
def rawRep (handle : Int) : Int :=
  bitAnd (num (env.table.cells.get (shl handle 1 + 1))) (bitNot T_FLAG)

def pollableReady (handle : BitVec 32) : Except JsError Effect :=
  (pollPollableReady env.polls (env.rawRep handle.toInt)).map fun ready =>
    { value := some (if ready then 1 else 0) }

def pollableBlock (handle : BitVec 32) : Except JsError Effect :=
  (pollPollList env.polls [env.rawRep handle.toInt]).map fun _ => {}

/-- The stores of the result of `poll`: the list, then its pointer and length. -/
def pollResult (ptr : BitVec 32) (retptr : Nat) (result : List Nat) : Effect where
  writes := ((Writes.nothing.storeWords ptr.toNat result).store retptr 4 ptr.toNat).store
    (retptr + 4) 4 result.length

def pollPollList (listPtr len retptr : BitVec 32) : Except JsError Effect :=
  if ¬ ViewFits env.memory.size listPtr.toInt len.toInt then
    .error .engine
  else
    let handleList := env.memory.words listPtr.toNat len.toNat
    let repList := handleList.map fun handle : Nat => env.rawRep handle
    (Shim.pollPollList env.polls repList).bind fun result =>
      let (ptr, size) := env.realloc (4 * result.length)
      if ¬ ViewFits size ptr.toInt result.length then
        .error .engine
      else if ¬ ViewFits size retptr.toInt 2 then
        .error .engine
      else
        .ok (pollResult ptr retptr.toNat result)

def lowered : Call → Except JsError Effect
  | .resolution retptr => env.loweredResolution retptr
  | .now retptr => env.loweredNow retptr
  | .ready handle => env.pollableReady handle
  | .block handle => env.pollableBlock handle
  | .poll listPtr len retptr => env.pollPollList listPtr len retptr

/-! ## The canonical lowering -/

/-- A region the canonical ABI accepts. -/
def InBounds (size : Nat) (ptr : BitVec 32) (align length : Nat) : Prop :=
  ptr.toNat % align = 0 ∧ ptr.toNat + length ≤ size

instance (size : Nat) (ptr : BitVec 32) (align length : Nat) :
    Decidable (InBounds size ptr align length) :=
  inferInstanceAs (Decidable (_ ∧ _))

/-- The record of the seconds, a `u64`, and the nanoseconds, a `u32`. -/
def canonicalInstant (retptr : BitVec 32) (instant : Int × Int) : Except JsError Effect :=
  if ¬ InBounds env.memory.size retptr 8 16 then
    .error .engine
  else
    .ok { writes := (Writes.nothing.store retptr.toNat 8 instant.1).store (retptr.toNat + 8) 4
            instant.2 }

def liftBorrow (handle : Int) : Except JsError Int :=
  (rscTableGet env.table handle).map Entry.rep

def canonicalPoll (listPtr len retptr : BitVec 32) : Except JsError Effect :=
  if ¬ InBounds env.memory.size listPtr 4 (4 * len.toNat) then
    .error .engine
  else
    let handleList := env.memory.words listPtr.toNat len.toNat
    (handleList.mapM fun handle : Nat => env.liftBorrow handle).bind fun reps =>
      (Shim.pollPollList env.polls reps).bind fun result =>
        let (ptr, size) := env.realloc (4 * result.length)
        if ¬ InBounds size ptr 4 (4 * result.length) then
          .error .engine
        else if ¬ InBounds size retptr 4 8 then
          .error .engine
        else
          .ok (pollResult ptr retptr.toNat result)

def canonical : Call → Except JsError Effect
  | .resolution retptr => env.canonicalInstant retptr wallClockResolution
  | .now retptr => env.canonicalInstant retptr env.wallClockNow
  | .ready handle =>
    (env.liftBorrow handle.toInt).bind fun rep =>
      (pollPollableReady env.polls rep).map fun ready =>
        { value := some (if ready then 1 else 0) }
  | .block handle =>
    (env.liftBorrow handle.toInt).bind fun rep =>
      (Shim.pollPollList env.polls [rep]).map fun _ => {}
  | .poll listPtr len retptr => env.canonicalPoll listPtr len retptr

/-- Both trap, or both return the same with the same bytes stored. -/
def Agrees (c : Call) : Prop := (env.lowered c).toOption = (env.canonical c).toOption

/-! ## Where they agree -/

/-- `rscTableGet` accepts the handle. -/
def Live (handle : Int) : Prop := ∃ entry, rscTableGet env.table handle = .ok entry

/-- The worker refuses to wait for the polls. -/
def Refused (reps : List Int) : Prop :=
  ∀ result, Shim.pollPollList env.polls reps ≠ .ok result

/-- The handles a call of `poll` names. -/
def handleList (listPtr len : BitVec 32) : List Nat := env.memory.words listPtr.toNat len.toNat

/-- Nothing stops a call of `poll` that answers `result` but dead handles, and
pointers that JavaScript reads as negative numbers. -/
structure Through (listPtr len retptr : BitVec 32) (result : List Nat) : Prop where
  list : InBounds env.memory.size listPtr 4 (4 * len.toNat)
  polled : Shim.pollPollList env.polls
    ((env.handleList listPtr len).map fun handle : Nat => env.rawRep handle) = .ok result
  ptr : InBounds (env.realloc (4 * result.length)).2 (env.realloc (4 * result.length)).1 4
    (4 * result.length)
  ret : InBounds (env.realloc (4 * result.length)).2 retptr 4 8

/-- The condition under which a fast path agrees with the canonical lowering. -/
def AgreesWhen : Call → Prop
  | .resolution retptr | .now retptr => retptr.toNat % 4 ≠ 0
  | .ready handle =>
    env.Live handle.toInt ∨ env.polls (env.rawRep handle.toInt) = none
  | .block handle => env.Live handle.toInt ∨ env.Refused [env.rawRep handle.toInt]
  | .poll listPtr len retptr =>
    ∀ result, env.Through listPtr len retptr result →
      ((∀ handle ∈ env.handleList listPtr len, env.Live handle) ↔
        Low listPtr ∧ Low (env.realloc (4 * result.length)).1 ∧ Low retptr)

/-! ## Handles -/

section Handles

variable {env}

variable {handle : Int}

theorem rep_of_get {entry : Entry}
    (h : rscTableGet env.table handle = .ok entry) : entry.rep = env.rawRep handle := by
  simp only [rscTableGet] at h
  split at h
  · cases h
  · rw [← Except.ok.inj h]
    rfl

/-- A handle that is accepted stands for what its cell says. -/
theorem liftBorrow_live (h : env.Live handle) :
    env.liftBorrow handle = .ok (env.rawRep handle) := by
  obtain ⟨entry, hget⟩ := h
  rw [liftBorrow, hget, ← rep_of_get hget]
  rfl

theorem liftBorrow_dead (h : ¬ env.Live handle) :
    ∃ e, env.liftBorrow handle = .error e := by
  unfold liftBorrow
  cases hget : rscTableGet env.table handle with
  | error e => exact ⟨e, rfl⟩
  | ok entry => exact absurd ⟨entry, hget⟩ h

theorem liftBorrows_live {handles : List Nat} (h : ∀ handle ∈ handles, env.Live handle) :
    (handles.mapM fun handle : Nat => env.liftBorrow handle) =
      .ok (handles.map fun handle : Nat => env.rawRep handle) := by
  induction handles with
  | nil => rfl
  | cons handle handles ih =>
    have hrest := ih fun other hmem => h other (List.mem_cons_of_mem _ hmem)
    rw [List.mapM_cons, liftBorrow_live (h handle List.mem_cons_self), hrest]
    rfl

/-- One dead handle and the whole list is refused. -/
theorem liftBorrows_dead {handles : List Nat} (h : ¬ ∀ handle ∈ handles, env.Live handle) :
    ∃ e, (handles.mapM fun handle : Nat => env.liftBorrow handle) = .error e := by
  induction handles with
  | nil => exact absurd (by simp) h
  | cons handle handles ih =>
    rw [List.mapM_cons]
    by_cases hhead : env.Live handle
    · have hrest : ¬ ∀ handle ∈ handles, env.Live handle := fun hall =>
        h (List.forall_mem_cons.2 ⟨hhead, hall⟩)
      obtain ⟨e, he⟩ := ih hrest
      rw [liftBorrow_live hhead, he]
      exact ⟨e, rfl⟩
    · obtain ⟨e, he⟩ := liftBorrow_dead hhead
      rw [he]
      exact ⟨e, rfl⟩

end Handles

/-! ## The wall clock -/

section Clock

variable {env}

variable {retptr : BitVec 32}

/-- A return pointer that is no multiple of four is no multiple of eight. -/
theorem canonicalInstant_misaligned (h : retptr.toNat % 4 ≠ 0)
    (instant : Int × Int) : env.canonicalInstant retptr instant = .error .engine := by
  unfold canonicalInstant InBounds
  rw [if_pos (by omega)]

/-- The bytes of the seconds and of the nanoseconds are stored, at a multiple
of eight. -/
theorem canonicalInstant_writes {instant : Int × Int} {e : Effect}
    (h : (env.canonicalInstant retptr instant).toOption = some e) :
    retptr.toNat % 8 = 0 ∧ ∀ addr, retptr.toNat ≤ addr → addr < retptr.toNat + 12 →
      e.writes addr ≠ none := by
  unfold canonicalInstant at h
  split at h
  · cases h
  case isFalse hin =>
    cases h
    refine ⟨(not_not.1 hin).1, fun addr hlow hhigh => ?_⟩
    by_cases hnano : retptr.toNat + 8 ≤ addr <;> dsimp only
    · rw [store_at _ _ hnano (by omega)]
      exact Option.some_ne_none _
    · rw [store_of_not _ _ (by omega), store_at _ _ hlow (by omega)]
      exact Option.some_ne_none _

/-- A fast path of the clock that leaves out a byte of the record does something
else than store the record. -/
theorem clock_disagrees {x : Effect} {instant : Int × Int} (addr : Nat)
    (hmiss : retptr.toNat % 8 = 0 → x.writes addr = none) (hlow : retptr.toNat ≤ addr)
    (hhigh : addr < retptr.toNat + 12) :
    some x ≠ (env.canonicalInstant retptr instant).toOption := by
  intro h
  have hrecord := canonicalInstant_writes h.symm
  exact hrecord.2 addr hlow hhigh (hmiss hrecord.1)

/-- Words are stored at the pointer and sixteen and thirty-two bytes after it:
the nanoseconds are not stored where they belong. -/
theorem resolution_agrees (retptr : BitVec 32) :
    env.Agrees (.resolution retptr) ↔ retptr.toNat % 4 ≠ 0 := by
  have hmod := toInt_mod_four retptr
  show (env.loweredResolution retptr).toOption = (env.canonicalInstant retptr _).toOption ↔ _
  unfold loweredResolution
  by_cases haligned : retptr.toNat % 4 = 0
  · rw [if_neg (by omega)]
    refine ⟨fun h => absurd h ?_, fun h => absurd haligned h⟩
    refine clock_disagrees (retptr.toNat + 8) (fun _ => ?_) (by omega) (by omega)
    have hptr := toInt_eq_ite retptr
    have hlt := retptr.isLt
    show ((setElement _ _ _ _ _).setElement _ _ _ _).setElement _ _ _ _ _ = none
    rw [shr_two]
    rw [setElement_of_not _ _ (by split at hptr <;> omega),
      setElement_of_not _ _ (by split at hptr <;> omega),
      setElement_of_not _ _ (by split at hptr <;> omega)]
    rfl
  · rw [if_pos (by omega), canonicalInstant_misaligned haligned]
    exact iff_of_true rfl haligned

/-- The seconds are stored at twice the pointer, the nanoseconds thirty-two bytes
after it. -/
theorem now_agrees (retptr : BitVec 32) :
    env.Agrees (.now retptr) ↔ retptr.toNat % 4 ≠ 0 := by
  have hmod := toInt_mod_four retptr
  show (env.loweredNow retptr).toOption = (env.canonicalInstant retptr _).toOption ↔ _
  unfold loweredNow
  by_cases haligned : retptr.toNat % 4 = 0
  · rw [if_neg (by omega)]
    refine ⟨fun h => absurd h ?_, fun h => absurd haligned h⟩
    -- at eight the seconds hit the nanoseconds, and miss their own place
    obtain ⟨addr, haddr⟩ : ∃ addr, addr = if retptr.toNat = 8 then 8 else retptr.toNat + 8 :=
      ⟨_, rfl⟩
    refine clock_disagrees addr (fun height => ?_) (by split at haddr <;> omega)
      (by split at haddr <;> omega)
    have hptr := toInt_eq_ite retptr
    have hlt := retptr.isLt
    show (setElement _ _ _ _ _).setElement _ _ _ _ _ = none
    rw [shr_two]
    rw [setElement_of_not _ _ (by split at hptr <;> split at haddr <;> omega),
      setElement_of_not _ _ (by split at hptr <;> split at haddr <;> omega)]
    rfl
  · rw [if_pos (by omega), canonicalInstant_misaligned haligned]
    exact iff_of_true rfl haligned

end Clock

/-! ## Pollables -/

section Pollables

variable {env}

theorem toOption_eq_some {α : Type*} {x : Except JsError α} {a : α} :
    x.toOption = some a ↔ x = .ok a := by
  cases x with
  | error e => exact ⟨nofun, nofun⟩
  | ok b => exact ⟨fun h => congrArg Except.ok (Option.some.inj h),
      fun h => congrArg some (Except.ok.inj h)⟩

theorem bind_of_ok {α β : Type*} {x : Except JsError α} {a : α} (h : x = .ok a)
    (f : α → Except JsError β) : x.bind f = f a := by
  rw [h]
  rfl

/-- With a handle that is live both paths ask the worker the same; with a dead
one they agree where the worker refuses. -/
theorem handle_agrees {α : Type*} (ask : Int → Except JsError α) (handle : Int) :
    (ask (env.rawRep handle)).toOption = ((env.liftBorrow handle).bind ask).toOption ↔
      env.Live handle ∨ (ask (env.rawRep handle)).toOption = none := by
  by_cases hlive : env.Live handle
  · rw [liftBorrow_live hlive]
    exact iff_of_true rfl (Or.inl hlive)
  · obtain ⟨e, he⟩ := liftBorrow_dead hlive
    rw [he]
    exact ⟨Or.inr, fun h => h.resolve_left hlive⟩

theorem ready_agrees (handle : BitVec 32) :
    env.Agrees (.ready handle) ↔
      env.Live handle.toInt ∨ env.polls (env.rawRep handle.toInt) = none := by
  refine (handle_agrees (fun rep => (pollPollableReady env.polls rep).map fun ready =>
    ({ value := some (if ready then 1 else 0) } : Effect)) handle.toInt).trans (or_congr_right ?_)
  unfold pollPollableReady
  cases env.polls (env.rawRep handle.toInt) with
  | none => exact iff_of_true rfl rfl
  | some pollState => exact iff_of_false nofun nofun

theorem block_agrees (handle : BitVec 32) :
    env.Agrees (.block handle) ↔
      env.Live handle.toInt ∨ env.Refused [env.rawRep handle.toInt] := by
  refine (handle_agrees (fun rep => (Shim.pollPollList env.polls [rep]).map fun _ =>
    ({} : Effect)) handle.toInt).trans (or_congr_right ?_)
  unfold Refused
  cases Shim.pollPollList env.polls [env.rawRep handle.toInt] with
  | error e => exact iff_of_true rfl fun _ => nofun
  | ok result => exact iff_of_false nofun fun h => h result rfl

/-- What `poll` does with the list: the view fits exactly where the canonical ABI
accepts the list, up to the sign of its pointer. -/
theorem listView (listPtr len : BitVec 32) :
    ViewFits env.memory.size listPtr.toInt len.toInt ↔
      InBounds env.memory.size listPtr 4 (4 * len.toNat) ∧ Low listPtr := by
  by_cases hlow : Low len
  · rw [toInt_of_low hlow]
    exact viewFits_iff _ _ _
  · -- a list that long fits in no memory
    have hneg := toInt_neg_of_high hlow
    have hsize := env.memory.size_le
    unfold Low at hlow
    unfold ViewFits InBounds
    omega

variable {listPtr len retptr : BitVec 32}

theorem pollPollList_eq_ok {e : Effect} :
    env.pollPollList listPtr len retptr = .ok e ↔
      ∃ result, env.Through listPtr len retptr result ∧
        (Low listPtr ∧ Low (env.realloc (4 * result.length)).1 ∧ Low retptr) ∧
        e = pollResult (env.realloc (4 * result.length)).1 retptr.toNat result := by
  constructor
  · intro h
    unfold pollPollList at h
    split at h
    · cases h
    case isFalse hlist =>
      obtain ⟨result, hpolled, h⟩ := bind_ok h
      dsimp only at h
      split at h
      · cases h
      case isFalse hptr =>
        split at h
        · cases h
        case isFalse hret =>
          rw [not_not] at hlist hptr hret
          have hlist' := (listView listPtr len).1 hlist
          have hptr' := (viewFits_iff _ _ _).1 hptr
          have hret' := (viewFits_iff _ retptr 2).1 hret
          exact ⟨result, ⟨hlist'.1, hpolled, hptr'.1, hret'.1⟩,
            ⟨hlist'.2, hptr'.2, hret'.2⟩, (Except.ok.inj h).symm⟩
  · rintro ⟨result, hthrough, ⟨hlist, hptr, hret⟩, rfl⟩
    have hptr' := (viewFits_iff _ _ _).2 ⟨hthrough.ptr, hptr⟩
    have hret' : ViewFits _ retptr.toInt 2 := (viewFits_iff _ retptr 2).2 ⟨hthrough.ret, hret⟩
    unfold pollPollList
    rw [if_neg (not_not.2 ((listView listPtr len).2 ⟨hthrough.list, hlist⟩))]
    refine (bind_of_ok hthrough.polled _).trans ?_
    dsimp only
    rw [if_neg (not_not.2 hptr'), if_neg (not_not.2 hret')]

theorem canonicalPoll_eq_ok {e : Effect} :
    env.canonicalPoll listPtr len retptr = .ok e ↔
      ∃ result, env.Through listPtr len retptr result ∧
        (∀ handle ∈ env.handleList listPtr len, env.Live handle) ∧
        e = pollResult (env.realloc (4 * result.length)).1 retptr.toNat result := by
  by_cases hlive : ∀ handle ∈ env.handleList listPtr len, env.Live handle
  · have hreps := liftBorrows_live hlive
    constructor
    · intro h
      unfold canonicalPoll at h
      split at h
      · cases h
      case isFalse hlist =>
        obtain ⟨reps, hlift, h⟩ := bind_ok h
        have heq : reps = _ := Except.ok.inj (hlift.symm.trans hreps)
        subst heq
        obtain ⟨result, hpolled, h⟩ := bind_ok h
        dsimp only at h
        split at h
        · cases h
        case isFalse hptr =>
          split at h
          · cases h
          case isFalse hret =>
            rw [not_not] at hlist hptr hret
            exact ⟨result, ⟨hlist, hpolled, hptr, hret⟩, hlive, (Except.ok.inj h).symm⟩
    · rintro ⟨result, hthrough, -, rfl⟩
      unfold canonicalPoll
      rw [if_neg (not_not.2 hthrough.list)]
      refine (bind_of_ok hreps _).trans ((bind_of_ok hthrough.polled _).trans ?_)
      dsimp only
      rw [if_neg (not_not.2 hthrough.ptr), if_neg (not_not.2 hthrough.ret)]
  · -- a dead handle traps before the worker is asked
    obtain ⟨e', he⟩ := liftBorrows_dead hlive
    constructor
    · intro h
      unfold canonicalPoll at h
      split at h
      · cases h
      · obtain ⟨reps, hlift, -⟩ := bind_ok h
        exact absurd (hlift.symm.trans he) nofun
    · rintro ⟨result, -, hall, -⟩
      exact absurd hall hlive

theorem Through.unique {result result' : List Nat}
    (h : env.Through listPtr len retptr result) (h' : env.Through listPtr len retptr result') :
    result' = result :=
  Except.ok.inj (h'.polled.symm.trans h.polled)

theorem poll_agrees (listPtr len retptr : BitVec 32) :
    env.Agrees (.poll listPtr len retptr) ↔ env.AgreesWhen (.poll listPtr len retptr) := by
  show (env.pollPollList listPtr len retptr).toOption =
    (env.canonicalPoll listPtr len retptr).toOption ↔ _
  rw [Option.ext_iff]
  simp only [toOption_eq_some, pollPollList_eq_ok, canonicalPoll_eq_ok]
  constructor
  · intro h result hthrough
    constructor
    · intro hlive
      obtain ⟨result', hthrough', hlow, -⟩ := (h _).2 ⟨result, hthrough, hlive, rfl⟩
      rwa [hthrough.unique hthrough'] at hlow
    · intro hlow
      obtain ⟨-, -, hlive, -⟩ := (h _).1 ⟨result, hthrough, hlow, rfl⟩
      exact hlive
  · intro h e
    constructor
    · rintro ⟨result, hthrough, hlow, he⟩
      exact ⟨result, hthrough, (h result hthrough).2 hlow, he⟩
    · rintro ⟨result, hthrough, hlive, he⟩
      exact ⟨result, hthrough, (h result hthrough).1 hlive, he⟩

end Pollables

/-- Exactly where each fast path has the effect of the canonical lowering: the
clock where both trap, a pollable where its handle is live or the worker refuses
what the cell says, `poll` where nothing else stops the call and its handles are
live as long as its pointers are below 2 GiB. -/
theorem agrees_iff (env : Env) (c : Call) : env.Agrees c ↔ env.AgreesWhen c := by
  cases c with
  | resolution retptr => exact resolution_agrees retptr
  | now retptr => exact now_agrees retptr
  | ready handle => exact ready_agrees handle
  | block handle => exact block_agrees handle
  | poll listPtr len retptr => exact poll_agrees listPtr len retptr

end Env

/-- One page of memory, an empty handle table, no polls. -/
def onePage : Env where
  memory := { size := 65536, byte := fun _ => 0, size_le := by decide }
  table := .fresh
  realloc _ := (0, 65536)
  polls _ := none
  dateNow := (0, 0)

theorem onePage_disagrees : ¬ onePage.Agrees (.resolution 16) := by
  intro h
  have hwrites := congrArg (fun e => e.map fun e => e.writes 24) h
  revert hwrites
  decide

end Jco.Shim

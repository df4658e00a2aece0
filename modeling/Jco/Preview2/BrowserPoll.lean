import Mathlib
import Jco.Lib.Run

/-!
# Polling in the browser

A pollable of the browser shim is a flag and a promise: the flag is set in a continuation
of the promise it was made with. `pollList` answers what is ready at once, or lets the
pollables race: a racer assembles the answer in one job, and the race settles in a later
one. Modelled are the pollables, the job queue and one poll; a source promise settles once,
when it likes.
-/

namespace Jco.Preview2.BrowserPoll

open Jco.Lib List

/-- `#ready` and `#promise`, which is null or fulfilled or not. What `_create` and `new` make
has a fulfilled promise only with the flag. -/
structure Pollable where
  ready : Bool
  promise : Option Bool
  fulfilled_iff : ∀ fulfilled, promise = some fulfilled → ready = fulfilled

namespace Pollable

/-- `new Pollable()` -/
def bare : Pollable := ⟨false, none, by simp⟩

/-- `_create()` and `_create(promise)` -/
def create (promise : Bool) : Pollable :=
  if promise then ⟨false, some false, by simp⟩ else ⟨true, none, by simp⟩

/-- The continuation of the promise that it was made with. -/
def settled (p : Pollable) : Pollable := ⟨true, p.promise.map fun _ => true, by simp⟩

/-- Whether the promise that `block` answers is fulfilled. -/
def blocked (p : Pollable) : Bool := p.ready || p.promise.getD true

/-- No flag and no promise. -/
def Bare (p : Pollable) : Prop := p.ready = false ∧ p.promise = none

/-- `subscribe` of a stream whose handler may have its own. -/
def subscribe (handler : Option Pollable) : Pollable := handler.getD bare

theorem blocked_ready {p : Pollable} (hp : ¬ p.Bare) (hblocked : p.blocked = true) :
    p.ready = true := by
  cases hready : p.ready with
  | true => rfl
  | false =>
    cases hpromise : p.promise with
    | none => exact absurd ⟨hready, hpromise⟩ hp
    | some fulfilled =>
      have hsame := p.fulfilled_iff fulfilled hpromise
      rw [blocked, hready, hpromise, ← hsame, hready] at hblocked
      exact hblocked

end Pollable

inductive Job where
  /-- The source promise of a pollable has settled. -/
  | settled (pollable : Nat)
  /-- The racer of an index: `block()` is fulfilled. -/
  | sweep (index : Nat)
  /-- `Promise.race` hears of a racer that is fulfilled with an array. -/
  | race (indices : List Nat)
deriving DecidableEq, Repr

def Job.isSettled : Job → Bool
  | settled _ => true
  | _ => false

/-- What the poll returned, with the pollables at that time. -/
structure Return where
  indices : List Nat
  pollables : Nat → Pollable

/-- `list` is what the poll in progress was given. -/
structure State where
  pollables : Nat → Pollable
  jobs : List Job
  list : List Nat
  returned : Option Return

namespace State

variable (s : State)

def readyAt (j : Nat) : Bool := (s.list[j]?.map fun p => (s.pollables p).ready).getD false

def indices : List Nat := List.range s.list.length

/-- The array that the racer `i` assembles. -/
def answer (i : Nat) : List Nat := i :: s.indices.filter fun j => j ≠ i && s.readyAt j

/-- The continuation of the racer `i`. -/
def sweep (i : Nat) : State := { s with jobs := s.jobs ++ [.race (s.answer i)] }

/-- The promise of the race settles; only the first racer counts. -/
def race (indices : List Nat) : State :=
  match s.returned with
  | some _ => s
  | none => { s with returned := some ⟨indices, s.pollables⟩ }

/-- A pollable becomes ready, and the racers that wait for it are queued. -/
def settle (p : Nat) : State where
  pollables := Function.update s.pollables p (s.pollables p).settled
  jobs := s.jobs ++ (s.indices.filter fun i => s.list[i]? = some p).map Job.sweep
  list := s.list
  returned := s.returned

end State

/-- What `pollList` does up to its return, the race being on if nothing is ready; `queued` are
the pollables whose continuations are queued already. -/
def pollList (pollables : Nat → Pollable) (queued list : List Nat) : Except String State :=
  if list.length = 0 then .error "poll list must not be empty"
  else if list.length > 0xffffffff then .error "poll list length exceeds u32 index range"
  else
    let s : State := ⟨pollables, queued.map Job.settled, list, none⟩
    let ready := s.indices.filter s.readyAt
    if ready.length > 0 then .ok { s with returned := some ⟨ready, pollables⟩ }
    else
      -- a `block()` that is fulfilled already has its continuation queued
      let racers := s.indices.filter fun i =>
        (list[i]?.map fun p => (pollables p).blocked).getD false
      .ok { s with jobs := s.jobs ++ racers.map Job.sweep }

inductive Event where
  /-- The promise that a pollable was made with is fulfilled or rejected. -/
  | settles (pollable : Nat)
  /-- The first job runs. -/
  | job
deriving DecidableEq, Repr

def perform (s : State) : Event → Option State
  | .settles p =>
    if (s.pollables p).promise = some false ∧ Job.settled p ∉ s.jobs then
      some { s with jobs := s.jobs ++ [.settled p] }
    else none
  | .job =>
    match s.jobs with
    | [] => none
    | .settled p :: jobs => some ({ s with jobs := jobs }.settle p)
    | .sweep i :: jobs => some ({ s with jobs := jobs }.sweep i)
    | .race indices :: jobs => some ({ s with jobs := jobs }.race indices)

def next : Action Event State := computed perform

/-! ## What a poll has to answer -/

/-- Distinct indices of the list, and exactly those of what was ready then. -/
structure Exact (list : List Nat) (r : Return) : Prop where
  nonempty : r.indices ≠ []
  nodup : r.indices.Nodup
  ready_iff : ∀ i, i ∈ r.indices ↔ ∃ p, list[i]? = some p ∧ (r.pollables p).ready = true

/-- At a time of the poll: what it returned is exact, it has returned once something is ready
and no job is left, and a `block()` that is fulfilled belongs to a pollable that is ready. -/
structure Right (list : List Nat) (s : State) : Prop where
  exact : ∀ r, s.returned = some r → Exact list r
  returns : s.jobs = [] → (∃ p ∈ list, (s.pollables p).ready = true) → s.returned ≠ none
  blocked : ∀ p ∈ list, (s.pollables p).blocked = true → (s.pollables p).ready = true

structure Inv (list : List Nat) (s : State) : Prop where
  list_eq : s.list = list
  proper : ∀ p ∈ list, ¬ (s.pollables p).Bare
  /-- A racer is queued only for what is ready. -/
  queued : s.returned = none → ∀ i, Job.sweep i ∈ s.jobs → s.readyAt i = true
  /-- And for all that is ready. -/
  racing : s.returned = none → ∀ i, s.readyAt i = true →
    Job.sweep i ∈ s.jobs ∨ ∃ indices, Job.race indices ∈ s.jobs
  /-- What is not ready will be before the first racer, or there is nothing else. -/
  prompt : s.returned = none → ∀ p ∈ list, (s.pollables p).ready = false →
    Job.settled p ∈ s.jobs.takeWhile Job.isSettled ∨ ∀ q ∈ list, q = p
  /-- An answer is that all is ready. -/
  answered : s.returned = none → ∀ indices, Job.race indices ∈ s.jobs →
    (∀ p ∈ list, (s.pollables p).ready = true) ∧ Exact list ⟨indices, s.pollables⟩
  exact : ∀ r, s.returned = some r → Exact list r

section

variable {s s' : State} {list : List Nat} {i j p : Nat}

theorem State.readyAt_iff :
    s.readyAt i = true ↔ ∃ p, s.list[i]? = some p ∧ (s.pollables p).ready = true := by
  unfold State.readyAt
  cases s.list[i]? <;> simp

theorem State.ready_settle {q : Nat} (hq : (s.pollables q).ready = true) :
    ((s.settle p).pollables q).ready = true := by
  by_cases hqp : q = p
  · simp [State.settle, hqp, Pollable.settled]
  · simpa [State.settle, Function.update_of_ne hqp] using hq

/-- An answer stays exact once all is ready. -/
theorem Exact.settle {indices : List Nat} (hall : ∀ q ∈ list, (s.pollables q).ready = true)
    (h : Exact list ⟨indices, s.pollables⟩) : Exact list ⟨indices, (s.settle p).pollables⟩ where
  nonempty := h.nonempty
  nodup := h.nodup
  ready_iff j := by
    rw [h.ready_iff]
    refine exists_congr fun q => and_congr_right fun hq => ?_
    have hready := hall q (mem_of_getElem? hq)
    exact iff_of_true hready (State.ready_settle hready)

theorem Inv.right (hinv : Inv list s) : Right list s where
  exact := hinv.exact
  returns hjobs hready hnone := by
    rcases hready with ⟨p, hp, hready⟩
    rcases List.getElem?_of_mem hp with ⟨i, hi⟩
    have hracing := hinv.racing hnone i (State.readyAt_iff.2 ⟨p, hinv.list_eq ▸ hi, hready⟩)
    simp [hjobs] at hracing
  blocked p hp := Pollable.blocked_ready (hinv.proper p hp)

end

end Jco.Preview2.BrowserPoll

import Mathlib.Logic.Function.Basic
import Jco.Lib.Run
import Jco.Preview3.WorkerError

/-! # Calls of a resource worker

`ResourceWorker.run` and `runSync` post a message to the worker, whose `Router`
runs the handler and posts one reply: the result, or the serialised error. A call
of `runSync` blocks the main thread until the worker has set the lock; nothing
else of the main thread happens meanwhile. `terminate` ends the worker.

A handler that ends is one step, with the reply and the notification; its outcome
is any value it returns or throws.
-/

namespace Jco.Preview3

open Jco.Lib Option

/-- How a handler ends. An unknown operation and a hook that throws end the same
way as a handler that throws. -/
inductive Outcome (V : Type*) where
  | returns (v : V)
  | throws (e : V)

/-- The message `{ result, error }` as it arrives. -/
inductive Message (V : Type*) where
  | result (v : V)
  | error (e : Serialized V)

/-- How a caller settles; `none` for a call that resolves with `undefined`
although its message has no result. -/
inductive Settled (V : Type*) where
  | resolved (v : Option V)
  | rejected (e : Received V)

namespace Engine

variable {V : Type*} (js : Engine V)

/-- The reply that is posted, `none` where serialising or posting throws. -/
def reply : Outcome V → Option (Message V)
  | .returns v =>
    match js.outcome v with
    | .ok (result, transfer) => (js.structuredClone result transfer).map .result
    | .error e => (js.arrival js.stackDepth e).map .error
  | .throws e => (js.arrival js.stackDepth e).map .error

/-- `if (error)` -/
def errorTruthy : Serialized V → Bool
  | .absent => false
  | .value v => js.truthy v
  | .record _ _ _ _ _ => true

/-- What the caller makes of the message. -/
def receive : Message V → Settled V
  | .result v => .resolved (some v)
  | .error e => if js.errorTruthy e then .rejected (js.deserializeError e) else .resolved none

/-- The caller is told what the handler did: the result, or the error it threw. -/
def Right : Outcome V → Settled V → Prop
  | .returns v, settled => ∃ result transfer w, js.outcome v = .ok (result, transfer) ∧
      js.structuredClone result transfer = some w ∧ settled = .resolved (some w)
  | .throws e, settled =>
    ∃ r, settled = .rejected r ∧ (js.thrown e ≠ .other → js.Same e r)

/-- The outcomes of which the caller is told: a result that can be posted, an
error that is carried, or a thrown value that can be cloned and is not falsy. -/
def Told : Outcome V → Prop
  | .returns v => ∃ result transfer w, js.outcome v = .ok (result, transfer) ∧
      js.structuredClone result transfer = some w
  | .throws e =>
    (js.thrown e = .other → ∃ w, js.clone e = some w ∧ js.truthy w = true) ∧
      (js.thrown e ≠ .other → js.Carried js.stackDepth e)

end Engine

/-! ## Runs -/

structure Call (V : Type*) where
  sync : Bool
  outcome : Option (Outcome V) := none
  replies : List (Message V) := []
  /-- The lock of a synchronous call is set. -/
  released : Bool := false
  settled : List (Settled V) := []
  /-- The worker that was called is gone. -/
  terminated : Bool := false

structure Host (V : Type*) where
  worker : Bool
  calls : Nat → Option (Call V)
  count : Nat

inductive HostEvent (V : Type*) where
  /-- `run` or `runSync` posts a message. -/
  | send (sync : Bool)
  | finish (i : Nat) (o : Outcome V)
  /-- The reply reaches the caller. -/
  | deliver (i : Nat)
  | terminate

namespace Host

variable {V : Type*} (js : Engine V)

def fresh : Host V where
  worker := false
  calls _ := none
  count := 0

/-- A synchronous call waits. -/
def blocked (s : Host V) : Bool :=
  (List.range s.count).any fun i => (s.calls i).any fun c => c.sync && c.settled.isEmpty

/-- The caller is there to read its reply: woken by the lock, or in the event loop. -/
def reads (s : Host V) (c : Call V) : Bool := if c.sync then c.released else !s.blocked

def setCall (s : Host V) (i : Nat) (c : Call V) : Host V :=
  { s with calls := Function.update s.calls i (some c) }

def perform (s : Host V) : HostEvent V → Option (Host V)
  | .send sync =>
    if s.blocked then
      none
    else
      some { s.setCall s.count { sync } with worker := true, count := s.count + 1 }
  | .finish i o =>
    match s.calls i with
    | some c =>
      if c.outcome.isSome ∨ c.terminated = true then
        none
      else
        let reply := js.reply o
        some (s.setCall i { c with
          outcome := some o
          replies := reply.toList
          released := c.sync && reply.isSome })
    | none => none
  | .deliver i =>
    match s.calls i with
    | some c =>
      match c.replies, c.settled with
      | [m], [] =>
        if s.reads c then
          some (s.setCall i { c with settled := [js.receive m] })
        else
          none
      | _, _ => none
    | none => none
  | .terminate =>
    if s.blocked then
      none
    else if s.worker then
      some { s with
        worker := false
        calls := fun i => (s.calls i).map fun c => { c with terminated := true } }
    else
      some s

def next : Action (HostEvent V) (Host V) := computed (perform js)

/-- What is promised of a call: a handler that has ended is answered by one reply
that tells the caller what it did, and releases the caller that waits; a caller
settles at most once, by the reply (the step `deliver` settles it); and none is left
behind by `terminate`. -/
structure AnsweredCall (c : Call V) : Prop where
  replied : ∀ o, c.outcome = some o →
    ∃ m, c.replies = [m] ∧ js.Right o (js.receive m) ∧ (c.sync = true → c.released = true)
  once : c.settled = [] ∨ ∃ m, c.replies = [m] ∧ c.settled = [js.receive m]
  ended : c.terminated = true → c.replies ≠ []

def Answered (s : Host V) : Prop := ∀ i c, s.calls i = some c → AnsweredCall js c

/-- The steps that keep the calls answered. -/
def Kept : HostEvent V → Host V → Prop
  | .finish _ o, _ => js.Told o
  | .terminate, s => s.worker = true → ∀ i c, s.calls i = some c → c.outcome ≠ none
  | _, _ => True

/-- A call whose handler runs has no reply and no settlement. -/
def Inv (s : Host V) : Prop :=
  ∀ i c, s.calls i = some c → c.outcome = none → c.replies = [] ∧ c.settled = []

end Host

/-! ## One reply -/

namespace Engine

variable {V : Type*} {js : Engine V}

/-- What arrives of an error is a record, so the caller rejects. -/
theorem truthy_of_same {e : V} (he : js.thrown e ≠ .other) {c : Serialized V}
    (hsame : js.Same e (js.deserializeError c)) : js.errorTruthy c = true := by
  cases c with
  | absent => exact absurd hsame id
  | value v =>
    unfold deserializeError at hsame
    split at hsame
    · exact absurd hsame id
    · exact absurd hsame.1 he
  | record => rfl

theorem reply_throws (e : V) :
    js.reply (.throws e) = (js.arrival js.stackDepth e).map Message.error := rfl

theorem told_throws (e : V) :
    js.Told (.throws e) ↔ (js.thrown e = .other → ∃ w, js.clone e = some w ∧ js.truthy w = true) ∧
      (js.thrown e ≠ .other → js.Carried js.stackDepth e) := Iff.rfl

theorem throws_iff (e : V) :
    (∃ m, js.reply (.throws e) = some m ∧ js.Right (.throws e) (js.receive m)) ↔
      js.Told (.throws e) := by
  by_cases he : js.thrown e = .other
  · -- a value that is no error is told of by its truthiness
    have harrival : js.arrival js.stackDepth e = (js.clone e).map .value := by
      unfold arrival
      rw [serializeError_other js.stackDepth he]
      rfl
    rw [reply_throws, told_throws, harrival]
    constructor
    · rintro ⟨m, hm, r, hr, -⟩
      refine ⟨fun _ => ?_, fun hne => absurd he hne⟩
      rw [map_map, map_eq_some_iff] at hm
      obtain ⟨w, hw, rfl⟩ := hm
      refine ⟨w, hw, ?_⟩
      by_contra hfalsy
      have hresolved : js.receive (.error (.value w)) = .resolved none := if_neg hfalsy
      exact absurd (hresolved.symm.trans hr) nofun
    · rintro ⟨htold, -⟩
      obtain ⟨w, hw, htruthy⟩ := htold he
      rw [hw]
      exact ⟨.error (.value w), rfl, js.deserializeError (.value w), if_pos htruthy,
        fun hne => absurd he hne⟩
  · rw [reply_throws, told_throws, ← same_arrival_iff]
    constructor
    · rintro ⟨m, hm, r, hr, hsame⟩
      obtain ⟨c, hc, rfl⟩ := map_eq_some_iff.1 hm
      refine ⟨fun h => absurd h he, fun _ => ⟨c, hc, ?_⟩⟩
      unfold receive at hr
      dsimp only at hr
      split at hr
      · rw [Settled.rejected.inj hr]
        exact hsame he
      · cases hr
    · rintro ⟨-, htold⟩
      obtain ⟨c, hc, hsame⟩ := htold he
      refine ⟨.error c, map_eq_some_iff.2 ⟨c, hc, rfl⟩, js.deserializeError c, ?_,
        fun _ => hsame⟩
      exact if_pos (truthy_of_same he hsame)

theorem returns_iff (v : V) :
    (∃ m, js.reply (.returns v) = some m ∧ js.Right (.returns v) (js.receive m)) ↔
      js.Told (.returns v) := by
  constructor
  · rintro ⟨m, -, result, transfer, w, houtcome, hclone, -⟩
    exact ⟨result, transfer, w, houtcome, hclone⟩
  · rintro ⟨result, transfer, w, houtcome, hclone⟩
    refine ⟨.result w, ?_, result, transfer, w, houtcome, hclone, rfl⟩
    unfold reply
    simp only [houtcome, hclone, map_some]

/-- Exactly which outcomes the caller is told of. -/
theorem told_iff (o : Outcome V) :
    (∃ m, js.reply o = some m ∧ js.Right o (js.receive m)) ↔ js.Told o := by
  cases o with
  | returns v => exact returns_iff v
  | throws e => exact throws_iff e

end Engine

/-! ## Every interleaving -/

namespace Host

variable {V : Type*} {js : Engine V} {s s' : Host V}

/-- A change of one call. -/
theorem setCall_forall {P : Call V → Prop} {i : Nat} {c : Call V} :
    (∀ j c', (s.setCall i c).calls j = some c' → P c') ↔
      P c ∧ ∀ j c', j ≠ i → s.calls j = some c' → P c' := by
  constructor
  · intro h
    refine ⟨h i c (by simp [setCall]), fun j c' hj hc' => h j c' ?_⟩
    simpa [setCall, hj] using hc'
  · rintro ⟨hc, hrest⟩ j c' hc'
    by_cases hj : j = i
    · subst hj
      have heq : c = c' := by simpa [setCall] using hc'
      exact heq ▸ hc
    · exact hrest j c' hj (by simpa [setCall, hj] using hc')

/-- The other calls are as they were. -/
theorem answered_setCall {i : Nat} {c : Call V} (hs : Answered js s) :
    Answered js (s.setCall i c) ↔ AnsweredCall js c :=
  setCall_forall.trans (and_iff_left fun j c' _ hc' => hs j c' hc')

theorem inv_setCall {i : Nat} {c : Call V} (hinv : s.Inv)
    (hc : c.outcome = none → c.replies = [] ∧ c.settled = []) : (s.setCall i c).Inv :=
  setCall_forall.2 ⟨hc, fun j c' _ hc' => hinv j c' hc'⟩

theorem step_send {sync : Bool} (h : s.perform js (.send sync) = some s') (hinv : s.Inv)
    (hs : Answered js s) : s'.Inv ∧ Answered js s' := by
  rcases ite_none_left_eq_some.1 h with ⟨-, h⟩
  cases h
  have hnew : AnsweredCall js { sync } := ⟨nofun, Or.inl rfl, nofun⟩
  exact ⟨inv_setCall hinv fun _ => ⟨rfl, rfl⟩, (answered_setCall hs).2 hnew⟩

/-- The reply is posted, and the waiting caller released, in the step in which
the handler ends. -/
theorem step_finish {i : Nat} {o : Outcome V} (h : s.perform js (.finish i o) = some s')
    (hinv : s.Inv) (hs : Answered js s) : s'.Inv ∧ (Answered js s' ↔ js.Told o) := by
  unfold perform at h
  dsimp only at h
  split at h
  case h_1 c hc =>
    rcases ite_none_left_eq_some.1 h with ⟨hrunning, h⟩
    cases h
    rw [not_or] at hrunning
    have hnone : c.outcome = none := by simpa using hrunning.1
    have hempty := hinv i c hc hnone
    refine ⟨inv_setCall hinv nofun, (answered_setCall hs).trans ?_⟩
    rw [← Engine.told_iff]
    constructor
    · intro hanswered
      obtain ⟨m, hm, hright, -⟩ := hanswered.replied o rfl
      exact ⟨m, toList_eq_singleton_iff.1 hm, hright⟩
    · rintro ⟨m, hm, hright⟩
      refine ⟨fun o' ho' => ?_, Or.inl hempty.2, fun hterminated => absurd hterminated hrunning.2⟩
      cases ho'
      refine ⟨m, toList_eq_singleton_iff.2 hm, hright, fun hsync => ?_⟩
      have hsync : c.sync = true := hsync
      rw [hsync, hm]
      rfl
  case h_2 => cases h

theorem step_deliver {i : Nat} (h : s.perform js (.deliver i) = some s') (hinv : s.Inv)
    (hs : Answered js s) : s'.Inv ∧ Answered js s' := by
  unfold perform at h
  dsimp only at h
  split at h
  case h_1 c hc =>
    split at h
    case h_1 m hreplies hsettled =>
      rcases ite_none_right_eq_some.1 h with ⟨-, h⟩
      cases h
      have hbefore := hs i c hc
      refine ⟨inv_setCall hinv fun hnone => ?_, (answered_setCall hs).2
        ⟨hbefore.replied, Or.inr ⟨m, hreplies, rfl⟩, hbefore.ended⟩⟩
      -- a reply is posted only when the handler ends
      have hempty := (hinv i c hc hnone).1
      rw [hreplies] at hempty
      cases hempty
    case h_2 => cases h
  case h_2 => cases h

/-- `terminate` settles nobody: the callers it finds must have their replies. -/
theorem step_terminate (h : s.perform js .terminate = some s') (hinv : s.Inv)
    (hs : Answered js s) : s'.Inv ∧ (Answered js s' ↔ Kept js .terminate s) := by
  rcases ite_none_left_eq_some.1 h with ⟨-, h⟩
  split at h
  case isTrue hworker =>
    cases h
    have hat : ∀ i c, s.calls i = some c →
        (s.calls i).map (fun c => { c with terminated := true }) =
          some { c with terminated := true } := fun i c hc => by rw [hc]; rfl
    refine ⟨fun i c' hc' => ?_, fun h _ i c hc hnone => ?_, fun hkept i c' hc' => ?_⟩
    · obtain ⟨c, hc, rfl⟩ := map_eq_some_iff.1 hc'
      exact hinv i c hc
    · have hreplies := (h i _ (hat i c hc)).ended rfl
      exact hreplies (hinv i c hc hnone).1
    · obtain ⟨c, hc, rfl⟩ := map_eq_some_iff.1 hc'
      have hbefore := hs i c hc
      refine ⟨hbefore.replied, hbefore.once, fun _ => ?_⟩
      obtain ⟨o, ho⟩ := ne_none_iff_exists'.1 (hkept hworker i c hc)
      obtain ⟨m, hm, -⟩ := hbefore.replied o ho
      rw [hm]
      exact nofun
  case isFalse hworker =>
    cases h
    exact ⟨hinv, iff_of_true hs fun h => absurd h hworker⟩

theorem step_answered {e : HostEvent V} (h : next js e s s') (hinv : s.Inv)
    (hs : Answered js s) : s'.Inv ∧ (Answered js s' ↔ Kept js e s) := by
  cases e with
  | send sync =>
    have hstep := step_send h hinv hs
    exact ⟨hstep.1, iff_of_true hstep.2 trivial⟩
  | finish i o => exact step_finish h hinv hs
  | deliver i =>
    have hstep := step_deliver h hinv hs
    exact ⟨hstep.1, iff_of_true hstep.2 trivial⟩
  | terminate => exact step_terminate h hinv hs

/-- The steps after which every call is answered as promised. -/
def answering (js : Engine V) : Action (HostEvent V) (Host V) :=
  fun e s s' => next js e s s' ∧ Answered js s'

/-- In a run from the start all calls are answered as promised in every state
exactly if its steps are kept. -/
theorem answered_run_iff (js : Engine V) {es : List (HostEvent V)} {s : Host V} :
    Run (answering js) fresh es s ↔ Run (guarded (Kept js) (next js)) fresh es s := by
  have hiff : ∀ (e : HostEvent V) (s s' : Host V), s.Inv ∧ Answered js s →
      (answering js e s s' ↔ guarded (Kept js) (next js) e s s') := by
    intro e s s' hs
    constructor
    · intro hstep
      exact ⟨(step_answered hstep.1 hs.1 hs.2).2.1 hstep.2, hstep.1⟩
    · intro hstep
      exact ⟨hstep.2, (step_answered hstep.2 hs.1 hs.2).2.2 hstep.1⟩
  have hkeep : ∀ (e : HostEvent V) (s s' : Host V), answering js e s s' → s.Inv ∧ Answered js s →
      s'.Inv ∧ Answered js s' := by
    intro e s s' hstep hs
    exact ⟨(step_answered hstep.1 hs.1 hs.2).1, hstep.2⟩
  exact Run.iff_of_invariant hiff hkeep ⟨fun _ _ => nofun, fun _ _ => nofun⟩

/-- Strings and `undefined`, none of them an error. -/
def strings : Engine (Option String) where
  truthy v := v.any fun s => s ≠ ""
  isTrue _ := false
  thrown _ := .other
  structuredClone v _ := some v
  messageOf v := some (v.getD "")
  ownStack := some "Error"
  flagged _ := false
  outcome v := .ok (v, [])
  stackDepth := 0

/-- A handler that throws `undefined` is reported to have succeeded. -/
theorem throwUndefined_not_answered :
    ∃ s, Run (next strings) fresh [.send false, .finish 0 (.throws none)] s ∧
      ¬ Answered strings s := by
  refine ⟨_, run_performAll rfl, fun hs => ?_⟩
  obtain ⟨m, hm, ⟨r, hr, -⟩, -⟩ := (hs 0 _ rfl).replied (.throws none) rfl
  cases hm
  cases hr

end Host

end Jco.Preview3

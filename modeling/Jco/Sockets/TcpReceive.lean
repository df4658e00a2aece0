import Mathlib.Data.List.Basic
import Mathlib.Tactic.Common
import Jco.Lib.Run

/-!
# Receiving from a connection

`tcp-receive` of the preview3 worker writes what a connection receives to the stream of the
guest. The chunks are chained on one promise, so that a write begins when the one before it is
over, and the connection is paused while a chunk is on its way. Four things settle the
operation: the end of the connection, its failure, a write that fails and the closing of the
stream.

1. The handler, its connection and its stream as one state, and what happens to it.
2. What is promised, and the invariant.
3. One lemma for each event.
4. Runs.
-/

namespace Jco.Sockets.TcpReceive

open Jco.Lib List Option Bool

/-- What is chained on `pending`. -/
inductive Job (δ ε : Type*) where
  | write (chunk : δ)
  | close
  | fail (err : ε)
deriving DecidableEq

/-- The chunk that a job is to write. -/
def Job.chunk {δ ε : Type*} : Job δ ε → Option δ
  | write chunk => some chunk
  | _ => none

/-- What the connection has done (`received`, `ended`, `failed`) is history: it is recorded with
the event, whatever the handler makes of it. -/
structure State (δ ε : Type*) where
  received : List δ := []
  ended : Bool := false
  failed : Option ε := none
  /-- The jobs that have not begun. -/
  jobs : List (Job δ ε) := []
  /-- The write or close that is awaited, and whether the writer could be used when it
  began. -/
  running : Option (Job δ ε × Bool) := none
  /-- The stream has failed: the guest has dropped it, or a write has been refused. -/
  gone : Bool := false
  closed : Bool := false
  /-- `writer.releaseLock()` -/
  released : Bool := false
  /-- The reaction to `writer.closed` has run. -/
  reacted : Bool := false
  /-- What the stream has taken. -/
  written : List δ := []
  /-- How the operation was settled, each time that it was; `none` is success. -/
  settlements : List (Option ε) := []
  paused : Bool := false
  pauses : Nat := 0
  /-- The resumes after a write. -/
  resumes : Nat := 0
deriving DecidableEq

inductive Event (δ ε : Type*) where
  | data (chunk : δ)
  /-- The `end` event. -/
  | eof
  | error (err : ε)
  /-- The guest drops the stream. -/
  | drop
  /-- The next job begins. -/
  | begin
  /-- The promise that is awaited is resolved or rejected. -/
  | promise (resolved : Bool)
  | closedReaction
  | releaseLock
deriving DecidableEq

section Steps

variable {δ ε : Type*}

namespace State

/-- Until the operation is settled the handler hears the connection. -/
def listening (s : State δ ε) : Bool := s.settlements.isEmpty

/-- A connection that has ended or failed gives no more data. -/
def finished (s : State δ ε) : Bool := s.ended || s.failed.isSome

def usable (s : State δ ε) : Bool := !s.gone && !s.released && !s.closed

/-- `settle(err)` -/
def settle (s : State δ ε) (err : Option ε) : State δ ε :=
  { s with
    settlements := match s.settlements with
      | [] => [err]
      | settlements => settlements }

def onData (s : State δ ε) (chunk : δ) : State δ ε :=
  { s with
    paused := true
    pauses := s.pauses + 1
    jobs := s.jobs ++ [.write chunk] }

def onEnd (s : State δ ε) : State δ ε := { s with jobs := s.jobs ++ [.close] }

def onError (s : State δ ε) (err : ε) : State δ ε := { s with jobs := s.jobs ++ [.fail err] }

def record (s : State δ ε) : Event δ ε → State δ ε
  | .data chunk => { s with received := s.received ++ [chunk] }
  | .eof => { s with ended := true }
  | .error err => { s with failed := some err }
  | _ => s

/-- The connection emits an event, which is heard until the operation is settled. -/
def emit (s : State δ ε) (e : Event δ ε) (handler : State δ ε → State δ ε) : State δ ε :=
  if s.listening then handler (s.record e) else s.record e

/-- A job begins; to settle with the error takes no waiting. -/
def beginJob (s : State δ ε) : Job δ ε → State δ ε
  | .fail err => s.settle (some err)
  | job => { s with running := some (job, s.usable) }

/-- The `finally` of a write. -/
def resume (s : State δ ε) : State δ ε := { s with paused := false, resumes := s.resumes + 1 }

/-- What was awaited has failed; if the writer could be used, the stream is gone now. -/
def refuse (s : State δ ε) (usable : Bool) : State δ ε :=
  { s with running := none, gone := s.gone || usable }

/-- A job goes on after its await. -/
def finishJob (s : State δ ε) (usable resolved : Bool) : Job δ ε → Option (State δ ε)
  | .write chunk =>
    if resolved then some { s with running := none, written := s.written ++ [chunk] }.resume
    else some ((s.refuse usable).settle none).resume
  | .close =>
    if resolved then some ({ s with running := none, closed := true }.settle none)
    else some ((s.refuse usable).settle none)
  | .fail _ => none

/-- One event; `none` where it cannot happen. -/
def perform (s : State δ ε) : Event δ ε → Option (State δ ε)
  | .data chunk =>
    if s.finished then none else some (s.emit (.data chunk) (·.onData chunk))
  | .eof => if s.finished then none else some (s.emit .eof onEnd)
  | .error err =>
    if s.failed.isSome then none else some (s.emit (.error err) (·.onError err))
  | .drop => if s.closed then none else some { s with gone := true }
  | .begin =>
    match s.running, s.jobs with
    | none, job :: rest => some ({ s with jobs := rest }.beginJob job)
    | _, _ => none
  | .promise resolved =>
    match s.running with
    | none => none
    | some (job, usable) =>
      if resolved && !usable then none else s.finishJob usable resolved job
  | .closedReaction =>
    if (s.gone || s.closed || s.released) && !s.reacted then
      some ({ s with reacted := true }.settle none)
    else none
  | .releaseLock =>
    if s.listening || s.released then none else some { s with released := true }

/-- The chunks that are on their way, in order. -/
def pending (s : State δ ε) : List δ :=
  (s.running.bind fun r => r.1.chunk).toList ++ s.jobs.filterMap Job.chunk

/-- Something has happened that settles the operation. -/
def Over (s : State δ ε) : Prop := s.ended = true ∨ s.failed.isSome = true ∨ s.gone = true

end State

def next : Action (Event δ ε) (State δ ε) := computed State.perform

/-- The events that follow of themselves: what runs, and the stream that answers. -/
def Internal : Event δ ε → Prop
  | .begin | .promise _ | .closedReaction | .releaseLock => True
  | _ => False

/-- What goes on when nothing more happens to the connection and the stream. -/
def follow : Action (Event δ ε) (State δ ε) := guarded (fun e _ => Internal e) next

/-- Nothing is left to run. -/
def Quiet (s : State δ ε) : Prop := ∀ e s', ¬ follow e s s'

/-! ## What an event can do -/

/-- Everything that one event can do, with what it found. -/
inductive Step : Event δ ε → State δ ε → State δ ε → Prop where
  | data {s : State δ ε} (chunk : δ) :
      s.finished = false → Step (.data chunk) s (s.emit (.data chunk) (·.onData chunk))
  | eof {s : State δ ε} : Step .eof s (s.emit .eof State.onEnd)
  | error {s : State δ ε} (err : ε) :
      s.failed = none → Step (.error err) s (s.emit (.error err) (·.onError err))
  | drop {s : State δ ε} : Step .drop s { s with gone := true }
  | begin {s : State δ ε} (job : Job δ ε) (rest : List (Job δ ε)) :
      s.running = none → s.jobs = job :: rest →
        Step .begin s (({ s with jobs := rest } : State δ ε).beginJob job)
  | promise {s s' : State δ ε} (job : Job δ ε) (usable resolved : Bool) :
      s.running = some (job, usable) → (resolved && !usable) = false →
        s.finishJob usable resolved job = some s' → Step (.promise resolved) s s'
  | react {s : State δ ε} : s.gone = true ∨ s.closed = true ∨ s.released = true →
      s.reacted = false →
        Step .closedReaction s (({ s with reacted := true } : State δ ε).settle none)
  | release {s : State δ ε} : s.settlements ≠ [] → s.released = false →
      Step .releaseLock s { s with released := true }

theorem step_of_perform {e : Event δ ε} {s s' : State δ ε} (h : s.perform e = some s') :
    Step e s s' := by
  cases e with
  | data chunk =>
    rcases ite_none_left_eq_some.1 h with ⟨hover, hs'⟩
    cases hs'
    exact .data chunk (not_eq_true _ ▸ hover)
  | eof =>
    cases (ite_none_left_eq_some.1 h).2
    exact .eof
  | error err =>
    rcases ite_none_left_eq_some.1 h with ⟨hfailed, hs'⟩
    cases hs'
    exact .error err (not_isSome_iff_eq_none.1 hfailed)
  | drop =>
    cases (ite_none_left_eq_some.1 h).2
    exact .drop
  | begin =>
    rcases s with ⟨received, ended, failed, jobs, running⟩
    cases running with
    | some r => cases h
    | none =>
      cases jobs with
      | nil => cases h
      | cons job rest =>
        cases h
        exact .begin job rest rfl rfl
  | promise resolved =>
    rcases s with ⟨received, ended, failed, jobs, running⟩
    cases running with
    | none => cases h
    | some r =>
      rcases ite_none_left_eq_some.1 h with ⟨husable, hfinish⟩
      exact .promise r.1 r.2 resolved rfl (not_eq_true _ ▸ husable) hfinish
  | closedReaction =>
    rcases ite_none_right_eq_some.1 h with ⟨hcond, hs'⟩
    cases hs'
    rcases and_eq_true_iff.1 hcond with ⟨hclosed, hreacted⟩
    refine .react ?_ (not_eq_true' _ ▸ hreacted)
    rcases or_eq_true_iff.1 hclosed with hor | hreleased
    · exact (or_eq_true_iff.1 hor).imp_right .inl
    · exact .inr (.inr hreleased)
  | releaseLock =>
    rcases ite_none_left_eq_some.1 h with ⟨hcond, hs'⟩
    cases hs'
    rw [not_eq_true, or_eq_false_iff] at hcond
    refine .release ?_ hcond.2
    intro hnone
    exact Bool.noConfusion (hcond.1.symm.trans (isEmpty_iff.2 hnone))

/-! ## What is promised -/

/-- The chunks are delivered in order, all of them as long as the stream is there; it is
closed after all of them; there is at most one settlement, with an error only if the
connection has failed and no chunk is on its way; and every pause has its resume when no
chunk is on its way. -/
structure Right (s : State δ ε) : Prop where
  order : s.written <+: s.received
  whole : s.gone = false → s.written ++ s.pending = s.received
  closing : ∀ usable, s.running = some (.close, usable) → s.ended = true ∧ s.pending = []
  closed : s.closed = true → s.ended = true ∧ s.written = s.received
  once : s.settlements.length ≤ 1
  error : ∀ err, some err ∈ s.settlements → s.failed = some err ∧ s.pending = []
  resumes : s.pauses = s.resumes + s.pending.length
  paused : s.paused = true → s.pending ≠ []

/-- A job that writes comes before those that do not. -/
def Before (a b : Job δ ε) : Prop := b.chunk.isSome = true → a.chunk.isSome = true

/-- The part of the invariant that is about chunks. -/
structure Chunks (s : State δ ε) : Prop where
  jobs : s.jobs.Pairwise Before
  writes : s.finished = false → ∀ job ∈ s.jobs, job.chunk.isSome = true
  whole : s.gone = false → s.written ++ s.pending = s.received
  order : s.written <+: s.received
  usable : ∀ chunk, s.running = some (.write chunk, true) → s.written ++ [chunk] <+: s.received
  unusable : ∀ chunk, s.running = some (.write chunk, false) → s.gone = true
  ending : .close ∈ s.jobs → s.ended = true
  closing : ∀ usable, s.running = some (.close, usable) → s.ended = true ∧ s.pending = [] ∧
    (usable = true → s.written = s.received)
  closed : s.closed = true → s.ended = true ∧ s.written = s.received ∧ s.pending = []
  resumes : s.pauses = s.resumes + s.pending.length
  paused : s.paused = true → s.pending ≠ []

/-- The part that is about the settlement. -/
structure Settled (s : State δ ε) : Prop where
  once : s.settlements.length ≤ 1
  finished : s.settlements ≠ [] → s.Over
  error : ∀ err, some err ∈ s.settlements → s.failed = some err ∧ s.pending = []
  pending : s.settlements ≠ [] → s.gone = false → s.pending = []
  running : ∀ err usable, s.running ≠ some (.fail err, usable)
  failing : ∀ err, .fail err ∈ s.jobs → s.failed = some err
  ended : s.ended = true → s.settlements ≠ [] ∨ .close ∈ s.jobs ∨
    ∃ usable, s.running = some (.close, usable)
  failed : ∀ err, s.failed = some err → s.settlements ≠ [] ∨ .fail err ∈ s.jobs
  reacted : s.reacted = true → s.settlements ≠ []
  released : s.released = true → s.settlements ≠ []

structure Inv (s : State δ ε) : Prop where
  chunks : Chunks s
  settled : Settled s

/-! ## Chunks on their way -/

variable {s s' : State δ ε} {e : Event δ ε}

namespace State

theorem pending_idle (hrunning : s.running = none) :
    s.pending = s.jobs.filterMap Job.chunk := by
  unfold pending
  rw [hrunning]
  rfl

theorem pending_write {chunk : δ} {usable : Bool}
    (hrunning : s.running = some (.write chunk, usable)) :
    s.pending = chunk :: s.jobs.filterMap Job.chunk := by
  unfold pending
  rw [hrunning]
  rfl

theorem pending_close {usable : Bool} (hrunning : s.running = some (.close, usable)) :
    s.pending = s.jobs.filterMap Job.chunk := by
  unfold pending
  rw [hrunning]
  rfl

theorem pending_record (e : Event δ ε) : (s.record e).pending = s.pending := by
  cases e <;> rfl

theorem pending_onData (chunk : δ) : (s.onData chunk).pending = s.pending ++ [chunk] := by
  unfold pending onData
  rw [filterMap_append, append_assoc]
  rfl

theorem pending_onEnd : s.onEnd.pending = s.pending := by
  unfold pending onEnd
  rw [filterMap_append]
  exact congrArg _ (append_nil _)

theorem pending_onError (err : ε) : (s.onError err).pending = s.pending := by
  unfold pending onError
  rw [filterMap_append]
  exact congrArg _ (append_nil _)

/-- The state in which the first job awaits the stream. -/
def awaiting (s : State δ ε) (job : Job δ ε) (rest : List (Job δ ε)) : State δ ε :=
  { s with jobs := rest, running := some (job, s.usable) }

theorem pending_awaiting {job : Job δ ε} {rest : List (Job δ ε)} (hrunning : s.running = none)
    (hjobs : s.jobs = job :: rest) : (s.awaiting job rest).pending = s.pending := by
  unfold pending awaiting
  rw [hrunning, hjobs]
  cases job <;> rfl

/-- Jobs behind one that does not write do not write. -/
theorem filterMap_chunk_eq_nil {job : Job δ ε} {rest : List (Job δ ε)}
    (hjobs : (job :: rest).Pairwise Before) (hjob : job.chunk = none) :
    rest.filterMap Job.chunk = [] := by
  rw [filterMap_eq_nil_iff]
  intro later hlater
  have hbefore := (pairwise_cons.1 hjobs).1 later hlater
  cases hchunk : later.chunk with
  | none => rfl
  | some chunk =>
    have hwrites := hbefore (by rw [hchunk]; rfl)
    rw [hjob] at hwrites
    exact Bool.noConfusion hwrites

/-! ## Settling -/

theorem settlements_settle_nil (err : Option ε) (hs : s.settlements = []) :
    (s.settle err).settlements = [err] := by
  unfold settle
  rw [hs]

theorem settlements_settle (err : Option ε) (hs : s.settlements ≠ []) :
    (s.settle err).settlements = s.settlements := by
  unfold settle
  cases h : s.settlements with
  | nil => exact absurd h hs
  | cons x rest => rfl

theorem settle_ne_nil (err : Option ε) : (s.settle err).settlements ≠ [] := by
  by_cases hs : s.settlements = []
  · rw [settlements_settle_nil err hs]
    exact cons_ne_nil _ _
  · rw [settlements_settle err hs]
    exact hs

/-- A settlement is there already or, where there was none, it is the new one. -/
theorem mem_settle {err x : Option ε} (hx : x ∈ (s.settle err).settlements) :
    x ∈ s.settlements ∨ x = err := by
  by_cases hs : s.settlements = []
  · rw [settlements_settle_nil err hs] at hx
    exact .inr (mem_singleton.1 hx)
  · rw [settlements_settle err hs] at hx
    exact .inl hx

theorem length_settle {err : Option ε} (honce : s.settlements.length ≤ 1) :
    (s.settle err).settlements.length ≤ 1 := by
  by_cases hs : s.settlements = []
  · rw [settlements_settle_nil err hs]
    exact Nat.le_refl 1
  · rw [settlements_settle err hs]
    exact honce

end State

/-! ## The chunks through one event -/

namespace Chunks

/-- To settle touches no chunk. -/
theorem settle (h : Chunks s) (err : Option ε) : Chunks (s.settle err) := { h with }

/-- Behind the jobs there are, a chunk is chained to them or what does not write. -/
theorem chain {jobs : List (Job δ ε)} {job : Job δ ε} (h : jobs.Pairwise Before)
    (hjob : job.chunk.isSome = true → ∀ first ∈ jobs, first.chunk.isSome = true) :
    (jobs ++ [job]).Pairwise Before := by
  refine pairwise_append.2 ⟨h, pairwise_singleton _ _, ?_⟩
  intro first hfirst last hlast hwrites
  rw [mem_singleton.1 hlast] at hwrites
  exact hjob hwrites first hfirst

theorem not_ended (hover : s.finished = false) : s.ended ≠ true := by
  intro hended
  rw [State.finished, hended] at hover
  exact Bool.noConfusion hover

theorem onData (h : Chunks s) (hover : s.finished = false) (chunk : δ) :
    Chunks ((s.record (.data chunk)).onData chunk) := by
  have hended := not_ended hover
  have hgrow : s.received <+: s.received ++ [chunk] := prefix_append _ _
  have hpending : ((s.record (.data chunk)).onData chunk).pending = s.pending ++ [chunk] := by
    rw [State.pending_onData, State.pending_record]
  -- one more chunk is on its way, and the connection is paused for it
  refine { h with
    jobs := chain h.jobs fun _ => h.writes hover
    writes := ?_, whole := ?_, ending := ?_, resumes := ?_, paused := ?_
    order := h.order.trans hgrow
    usable := fun first hrunning => (h.usable first hrunning).trans hgrow
    closing := fun usable hrunning => absurd (h.closing usable hrunning).1 hended
    closed := fun hclosed => absurd (h.closed hclosed).1 hended }
  · intro _ job hjob
    rcases mem_append.1 hjob with hold | hnew
    · exact h.writes hover job hold
    · rw [mem_singleton.1 hnew]
      rfl
  · intro hgone
    rw [hpending, ← append_assoc]
    exact congrArg (· ++ [chunk]) (h.whole hgone)
  · intro hclose
    rcases mem_append.1 hclose with hold | hnew
    · exact h.ending hold
    · cases mem_singleton.1 hnew
  · have hcount := h.resumes
    rw [hpending, length_append, length_singleton]
    show s.pauses + 1 = s.resumes + (s.pending.length + 1)
    omega
  · intro _
    rw [hpending]
    exact append_ne_nil_of_right_ne_nil _ (cons_ne_nil _ _)

/-- A chunk that is not heard comes when the stream is gone. -/
theorem unheardData (h : Chunks s) (hover : s.finished = false) (hgone : s.gone = true)
    (chunk : δ) : Chunks (s.record (.data chunk)) := by
  have hended := not_ended hover
  have hgrow : s.received <+: s.received ++ [chunk] := prefix_append _ _
  exact { h with
    whole := fun hkept => Bool.noConfusion (hkept.symm.trans hgone)
    order := h.order.trans hgrow
    usable := fun first hrunning => (h.usable first hrunning).trans hgrow
    closing := fun usable hrunning => absurd (h.closing usable hrunning).1 hended
    closed := fun hclosed => absurd (h.closed hclosed).1 hended }

theorem eof (h : Chunks s) : Chunks (s.record .eof) :=
  { h with
    writes := fun hover => Bool.noConfusion hover
    ending := fun _ => rfl
    closing := fun usable hrunning => ⟨rfl, (h.closing usable hrunning).2⟩
    closed := fun hclosed => ⟨rfl, (h.closed hclosed).2⟩ }

theorem onEnd (h : Chunks s) (hended : s.ended = true) : Chunks s.onEnd := by
  have hsame : s.onEnd.pending = s.pending := State.pending_onEnd
  refine { h with
    jobs := chain h.jobs fun hclose => Bool.noConfusion hclose
    writes := fun hover => absurd hended (not_ended hover)
    ending := fun _ => hended
    whole := ?_, closing := ?_, closed := ?_, resumes := ?_, paused := ?_ }
  all_goals rw [hsame]
  · exact h.whole
  · exact h.closing
  · exact h.closed
  · exact h.resumes
  · exact h.paused

theorem fail (h : Chunks s) (err : ε) : Chunks (s.record (.error err)) := by
  refine { h with writes := ?_ }
  intro hover
  rw [State.finished, State.record, isSome_some, Bool.or_true] at hover
  exact Bool.noConfusion hover

theorem onError (h : Chunks s) {err : ε} (hfailed : s.failed = some err) :
    Chunks (s.onError err) := by
  have hsame : (s.onError err).pending = s.pending := State.pending_onError err
  refine { h with
    jobs := chain h.jobs fun hfail => Bool.noConfusion hfail
    writes := ?_, ending := ?_
    whole := hsame ▸ h.whole
    closing := hsame ▸ h.closing
    closed := hsame ▸ h.closed
    resumes := hsame ▸ h.resumes
    paused := hsame ▸ h.paused }
  · intro hover
    change s.finished = false at hover
    rw [State.finished, hfailed, isSome_some, Bool.or_true] at hover
    exact Bool.noConfusion hover
  · intro hclose
    rcases mem_append.1 hclose with hold | hnew
    · exact h.ending hold
    · cases mem_singleton.1 hnew

/-- The guest drops the stream. -/
theorem drop (h : Chunks s) : Chunks { s with gone := true } :=
  { h with
    whole := Bool.noConfusion
    unusable := fun _ _ => rfl }

section Begin

variable {job : Job δ ε} {rest : List (Job δ ε)}

theorem gone_of_usable (husable : s.usable = true) : s.gone = false := by
  cases hgone : s.gone with
  | false => rfl
  | true =>
    rw [State.usable, hgone] at husable
    exact Bool.noConfusion husable

/-- A chunk on its way finds the stream unusable only where it is gone. -/
theorem gone_of_unusable (h : Chunks s) (hsettled : Settled s) (hpending : s.pending ≠ [])
    (husable : s.usable = false) : s.gone = true := by
  by_contra hgone
  rw [not_eq_true] at hgone
  have hreleased : s.released = false := by
    by_contra hreleased
    rw [not_eq_false] at hreleased
    exact hpending (hsettled.pending (hsettled.released hreleased) hgone)
  have hclosed : s.closed = false := by
    by_contra hclosed
    rw [not_eq_false] at hclosed
    exact hpending (h.closed hclosed).2.2
  rw [State.usable, hgone, hreleased, hclosed] at husable
  exact Bool.noConfusion husable

/-- A job that does not write begins when all chunks have had their turn. -/
theorem pending_eq_nil (h : Chunks s) (hrunning : s.running = none)
    (hjobs : s.jobs = job :: rest) (hjob : job.chunk = none) : s.pending = [] := by
  rw [State.pending_idle hrunning, hjobs, filterMap_cons_none hjob]
  have hpairs := h.jobs
  rw [hjobs] at hpairs
  exact State.filterMap_chunk_eq_nil hpairs hjob

/-- The first job is taken from the chain. -/
theorem take (h : Chunks s) (hjobs : s.jobs = job :: rest) :
    rest.Pairwise Before ∧
      (s.finished = false → ∀ later ∈ rest, later.chunk.isSome = true) ∧
      (.close ∈ rest → s.ended = true) := by
  have hpairs := h.jobs
  rw [hjobs] at hpairs
  have hlater : ∀ {later}, later ∈ rest → later ∈ s.jobs := by
    intro later hlater
    rw [hjobs]
    exact mem_cons_of_mem _ hlater
  exact ⟨(pairwise_cons.1 hpairs).2, fun hover later hmem => h.writes hover later (hlater hmem),
    fun hclose => h.ending (hlater hclose)⟩

theorem await (h : Chunks s) (hsettled : Settled s) (hrunning : s.running = none)
    (hjobs : s.jobs = job :: rest) : Chunks (s.awaiting job rest) := by
  have hsame : (s.awaiting job rest).pending = s.pending := State.pending_awaiting hrunning hjobs
  rcases h.take hjobs with ⟨hpairs, hwrites, hending⟩
  refine { h with
    jobs := hpairs, writes := hwrites, ending := hending
    usable := ?_, unusable := ?_, closing := ?_
    whole := hsame ▸ h.whole
    closed := hsame ▸ h.closed
    resumes := hsame ▸ h.resumes
    paused := hsame ▸ h.paused }
  · intro chunk hwriting
    rcases Prod.mk.inj (Option.some.inj hwriting) with ⟨hwrite, husable⟩
    have hhead : s.pending = chunk :: rest.filterMap Job.chunk := by
      rw [State.pending_idle hrunning, hjobs, hwrite]
      rfl
    refine ⟨rest.filterMap Job.chunk, ?_⟩
    show s.written ++ [chunk] ++ rest.filterMap Job.chunk = s.received
    rw [← h.whole (gone_of_usable husable), hhead, append_assoc]
    rfl
  · intro chunk hwriting
    rcases Prod.mk.inj (Option.some.inj hwriting) with ⟨hwrite, husable⟩
    refine h.gone_of_unusable hsettled ?_ husable
    rw [State.pending_idle hrunning, hjobs, hwrite]
    exact cons_ne_nil _ _
  · intro usable hclosing
    rcases Prod.mk.inj (Option.some.inj hclosing) with ⟨hclose, husable⟩
    rw [hclose] at hjobs
    have hnone := h.pending_eq_nil hrunning hjobs rfl
    refine ⟨h.ending (hjobs ▸ mem_cons_self), hsame.trans hnone, ?_⟩
    intro hyes
    have hwhole := h.whole (gone_of_usable (husable.trans hyes))
    rw [hnone, append_nil] at hwhole
    exact hwhole

/-- The job that settles with the error has run. -/
theorem failed (h : Chunks s) {err : ε} (hjobs : s.jobs = .fail err :: rest) :
    Chunks ({ s with jobs := rest } : State δ ε) := by
  have hsame : ({ s with jobs := rest } : State δ ε).pending = s.pending := by
    unfold State.pending
    rw [hjobs]
    rfl
  rcases h.take hjobs with ⟨hpairs, hwrites, hending⟩
  exact { h with
    jobs := hpairs, writes := hwrites, ending := hending
    whole := hsame ▸ h.whole
    closing := hsame ▸ h.closing
    closed := hsame ▸ h.closed
    resumes := hsame ▸ h.resumes
    paused := hsame ▸ h.paused }

end Begin

section Finish

variable {chunk : δ} {usable : Bool}

/-- A write is over: its chunk is on its way no longer, and the connection is resumed. -/
theorem writeOver (h : Chunks s) (hrunning : s.running = some (.write chunk, usable))
    {written : List δ} {gone : Bool} (horder : written <+: s.received)
    (hwhole : gone = false → s.gone = false ∧ written = s.written ++ [chunk]) :
    Chunks ({ s with running := none, written := written, gone := gone } :
      State δ ε).resume := by
  have hhead := State.pending_write hrunning
  refine { h with
    order := horder
    usable := fun first hfirst => by cases hfirst
    unusable := fun first hfirst => by cases hfirst
    closing := fun usable hclosing => by cases hclosing
    paused := Bool.noConfusion
    whole := ?_, closed := ?_, resumes := ?_ }
  · intro hkept
    rcases hwhole hkept with ⟨hgone, rfl⟩
    rw [← h.whole hgone, hhead]
    exact append_assoc _ _ _
  · intro hclosed
    have hnone := (h.closed hclosed).2.2
    rw [hhead] at hnone
    cases hnone
  · have hcount := h.resumes
    rw [hhead, length_cons] at hcount
    show s.pauses = s.resumes + 1 + (s.jobs.filterMap Job.chunk).length
    omega

/-- A write that is refused leaves the stream gone. -/
theorem gone_of_refused (h : Chunks s) (hrunning : s.running = some (.write chunk, usable)) :
    (s.gone || usable) = true := by
  cases usable with
  | false => rw [h.unusable chunk hrunning, Bool.true_or]
  | true => exact or_true _

/-- The close is over, well or not. -/
theorem closeOver (h : Chunks s) (hrunning : s.running = some (.close, usable))
    {gone closed : Bool} (hgone : gone = false → s.gone = false)
    (hclosed : closed = true → s.closed = true ∨ usable = true) :
    Chunks ({ s with running := none, gone := gone, closed := closed } : State δ ε) := by
  have hsame : ({ s with running := none, gone := gone, closed := closed } : State δ ε).pending =
      s.pending := (State.pending_close hrunning).symm
  rcases h.closing usable hrunning with ⟨hended, hnone, hall⟩
  refine { h with
    usable := fun first hfirst => by cases hfirst
    unusable := fun first hfirst => by cases hfirst
    closing := fun usable hclosing => by cases hclosing
    whole := fun hkept => hsame ▸ h.whole (hgone hkept)
    resumes := hsame ▸ h.resumes
    paused := hsame ▸ h.paused
    closed := ?_ }
  intro hyes
  refine ⟨hended, ?_, hsame.trans hnone⟩
  rcases hclosed hyes with hbefore | husable
  · exact (h.closed hbefore).2.1
  · exact hall husable

end Finish

end Chunks

/-! ## The settlement through one event -/

namespace Settled

/-- A chained job leaves what is there: a settlement, or a job that settles. -/
theorem onData (h : Settled s) (hnone : s.settlements = []) (chunk : δ) :
    Settled ((s.record (.data chunk)).onData chunk) := by
  refine { h with
    pending := fun hsome => absurd hnone hsome
    ended := fun hended => (h.ended hended).imp_right (.imp_left (mem_append_left _))
    failed := fun err hfailed => (h.failed err hfailed).imp_right (mem_append_left _)
    error := ?_, failing := ?_ }
  · intro err herr
    change some err ∈ s.settlements at herr
    rw [hnone] at herr
    cases herr
  · intro err herr
    rcases mem_append.1 herr with hold | hnew
    · exact h.failing err hold
    · cases mem_singleton.1 hnew

theorem onEnd (h : Settled s) : Settled (s.record .eof).onEnd := by
  have hsame : (s.record .eof).onEnd.pending = s.pending := State.pending_onEnd
  refine { h with
    finished := fun _ => .inl rfl
    error := hsame ▸ h.error
    pending := hsame ▸ h.pending
    ended := fun _ => .inr (.inl (mem_append_right _ mem_cons_self))
    failed := fun err hfailed => (h.failed err hfailed).imp_right (mem_append_left _)
    failing := ?_ }
  intro err herr
  rcases mem_append.1 herr with hold | hnew
  · exact h.failing err hold
  · cases mem_singleton.1 hnew

theorem onError (h : Settled s) (hnone : s.settlements = []) (hfailed : s.failed = none)
    (err : ε) : Settled ((s.record (.error err)).onError err) := by
  refine { h with
    finished := fun _ => .inr (.inl rfl)
    pending := fun hsome => absurd hnone hsome
    ended := fun hended => (h.ended hended).imp_right (.imp_left (mem_append_left _))
    error := ?_, failing := ?_, failed := ?_ }
  · intro old hold
    change some old ∈ s.settlements at hold
    rw [hnone] at hold
    cases hold
  · intro other hother
    rcases mem_append.1 hother with hold | hnew
    · have hbefore := h.failing other hold
      rw [hfailed] at hbefore
      cases hbefore
    · cases mem_singleton.1 hnew
      rfl
  · intro other hother
    cases hother
    exact .inr (mem_append_right _ mem_cons_self)

theorem unheardData (h : Settled s) (chunk : δ) : Settled (s.record (.data chunk)) := { h with }

theorem unheardEnd (h : Settled s) (hsome : s.settlements ≠ []) : Settled (s.record .eof) :=
  { h with
    finished := fun _ => .inl rfl
    ended := fun _ => .inl hsome }

theorem unheardError (h : Settled s) (hsome : s.settlements ≠ []) (hfailed : s.failed = none)
    (err : ε) : Settled (s.record (.error err)) := by
  have hnot : ∀ {old}, s.failed ≠ some old := by
    intro old hold
    rw [hfailed] at hold
    cases hold
  exact { h with
    finished := fun _ => .inr (.inl rfl)
    error := fun old hold => absurd (h.error old hold).1 hnot
    failing := fun old hold => absurd (h.failing old hold) hnot
    failed := fun _ _ => .inl hsome }

theorem drop (h : Settled s) : Settled { s with gone := true } :=
  { h with
    finished := fun _ => .inr (.inr rfl)
    pending := fun _ hgone => Bool.noConfusion hgone }

theorem releaseLock (h : Settled s) (hsome : s.settlements ≠ []) :
    Settled { s with released := true } :=
  { h with released := fun _ => hsome }

/-- A write or a close begins. -/
theorem await {job : Job δ ε} {rest : List (Job δ ε)} (h : Settled s)
    (hrunning : s.running = none) (hjobs : s.jobs = job :: rest)
    (hjob : ∀ err, job ≠ .fail err) : Settled (s.awaiting job rest) := by
  have hsame : (s.awaiting job rest).pending = s.pending :=
    State.pending_awaiting hrunning hjobs
  refine { h with
    error := hsame ▸ h.error
    pending := hsame ▸ h.pending
    running := fun err usable hfail => hjob err (Prod.mk.inj (Option.some.inj hfail)).1
    failing := fun err herr => h.failing err (hjobs ▸ mem_cons_of_mem _ herr)
    ended := ?_, failed := ?_ }
  · intro hended
    rcases h.ended hended with hsettled | hmem | ⟨usable, hclosing⟩
    · exact .inl hsettled
    · rw [hjobs] at hmem
      rcases mem_cons.1 hmem with hhead | hrest
      · exact .inr (.inr ⟨s.usable, hhead ▸ rfl⟩)
      · exact .inr (.inl hrest)
    · rw [hrunning] at hclosing
      cases hclosing
  · intro err hfailed
    rcases h.failed err hfailed with hsettled | hmem
    · exact .inl hsettled
    · rw [hjobs] at hmem
      rcases mem_cons.1 hmem with hhead | hrest
      · exact absurd hhead.symm (hjob err)
      · exact .inr hrest

/-- The operation is settled: with an error only if the connection has failed so, and not
before the chunks have had their turn or the stream is gone. -/
theorem settle {err : Option ε} (honce : s.settlements.length ≤ 1) (hover : s.Over)
    (herror : ∀ x, some x ∈ s.settlements ∨ some x = err → s.failed = some x ∧ s.pending = [])
    (hpending : s.gone = false → s.pending = [])
    (hrunning : ∀ x usable, s.running ≠ some (.fail x, usable))
    (hfailing : ∀ x, .fail x ∈ s.jobs → s.failed = some x) : Settled (s.settle err) where
  once := State.length_settle honce
  finished := fun _ => hover
  error := fun x hx => herror x (State.mem_settle hx)
  pending := fun _ hgone => hpending hgone
  running := hrunning
  failing := hfailing
  ended := fun _ => .inl (State.settle_ne_nil _)
  failed := fun _ _ => .inl (State.settle_ne_nil _)
  reacted := fun _ => State.settle_ne_nil _
  released := fun _ => State.settle_ne_nil _

/-- The job that settles with the error. -/
theorem fail {rest : List (Job δ ε)} (h : Settled s) (hchunks : Chunks s)
    (hrunning : s.running = none) {err : ε} (hjobs : s.jobs = .fail err :: rest) :
    Settled (({ s with jobs := rest } : State δ ε).settle (some err)) := by
  have hrest : ({ s with jobs := rest } : State δ ε).pending = [] := by
    rw [← hchunks.pending_eq_nil hrunning hjobs rfl, State.pending_idle hrunning, hjobs]
    exact State.pending_idle hrunning
  have hfailed := h.failing err (hjobs ▸ mem_cons_self)
  have hover : ({ s with jobs := rest } : State δ ε).Over :=
    .inr (.inl (isSome_iff_exists.2 ⟨err, hfailed⟩))
  refine settle h.once hover ?_ (fun _ => hrest) h.running ?_
  · intro x hx
    refine ⟨?_, hrest⟩
    rcases hx with hold | hnew
    · exact (h.error x hold).1
    · cases hnew
      exact hfailed
  · intro x hx
    exact h.failing x (hjobs ▸ mem_cons_of_mem _ hx)

section Finish

variable {chunk : δ} {usable : Bool}

theorem resume (h : Settled s) : Settled s.resume := { h with }

/-- While a chunk is on its way nothing has been settled with an error. -/
theorem unsettled (h : Settled s) (hrunning : s.running = some (.write chunk, usable)) :
    (∀ err, some err ∉ s.settlements) ∧ (s.settlements ≠ [] → s.gone = false → False) := by
  have hsome : s.pending ≠ [] := by
    rw [State.pending_write hrunning]
    exact cons_ne_nil _ _
  exact ⟨fun err herr => hsome (h.error err herr).2,
    fun hsettled hgone => hsome (h.pending hsettled hgone)⟩

theorem written (h : Settled s) (hrunning : s.running = some (.write chunk, usable)) :
    Settled ({ s with running := none, written := s.written ++ [chunk] } : State δ ε).resume := by
  rcases h.unsettled hrunning with ⟨hunsettled, hgone⟩
  refine { h with
    error := fun err herr => absurd herr (hunsettled err)
    pending := fun hsettled hkept => (hgone hsettled hkept).elim
    running := fun err usable hfail => by cases hfail
    ended := ?_ }
  intro hended
  rcases h.ended hended with hsettled | hjob | ⟨usable, hclosing⟩
  · exact .inl hsettled
  · exact .inr (.inl hjob)
  · rw [hrunning] at hclosing
    cases hclosing

theorem refused (h : Settled s) (hchunks : Chunks s)
    (hrunning : s.running = some (.write chunk, usable)) :
    Settled ((s.refuse usable).settle none).resume := by
  have hgone := hchunks.gone_of_refused hrunning
  refine (settle (s := s.refuse usable) h.once (.inr (.inr hgone)) ?_ ?_ ?_ h.failing).resume
  · intro err herr
    rcases herr with hold | hnew
    · exact absurd hold ((h.unsettled hrunning).1 err)
    · cases hnew
  · intro hkept
    exact Bool.noConfusion (hkept.symm.trans hgone)
  · intro err usable hfail
    cases hfail

theorem closeOver (h : Settled s) (hchunks : Chunks s)
    (hrunning : s.running = some (.close, usable)) (gone closed : Bool) :
    Settled (({ s with running := none, gone := gone, closed := closed } :
      State δ ε).settle none) := by
  have hnone : ({ s with running := none, gone := gone, closed := closed } :
      State δ ε).pending = [] :=
    (State.pending_close hrunning).symm.trans (hchunks.closing usable hrunning).2.1
  refine settle h.once (.inl (hchunks.closing usable hrunning).1) ?_ (fun _ => hnone) ?_ h.failing
  · intro err herr
    rcases herr with hold | hnew
    · exact ⟨(h.error err hold).1, hnone⟩
    · cases hnew
  · intro err usable hfail
    cases hfail

/-- The reaction to `writer.closed`. -/
theorem react (h : Settled s) (hchunks : Chunks s)
    (hclosed : s.gone = true ∨ s.closed = true ∨ s.released = true) :
    Settled (({ s with reacted := true } : State δ ε).settle none) := by
  have hover : s.Over := by
    rcases hclosed with hyes | hyes | hyes
    · exact .inr (.inr hyes)
    · exact .inl (hchunks.closed hyes).1
    · exact h.finished (h.released hyes)
  refine settle h.once hover ?_ ?_ h.running h.failing
  · intro err herr
    rcases herr with hold | hnew
    · exact h.error err hold
    · cases hnew
  · intro hgone
    change s.gone = false at hgone
    rcases hclosed with hyes | hyes | hyes
    · exact Bool.noConfusion (hgone.symm.trans hyes)
    · exact (hchunks.closed hyes).2.2
    · exact h.pending (h.released hyes) hgone

end Finish

end Settled

/-! ## One event -/

namespace Inv

theorem initial : Inv ({} : State δ ε) where
  chunks := {
    jobs := .nil
    writes := fun _ job hjob => by cases hjob
    whole := fun _ => rfl
    order := prefix_refl _
    usable := fun chunk hrunning => by cases hrunning
    unusable := fun chunk hrunning => by cases hrunning
    ending := fun hclose => by cases hclose
    closing := fun usable hclosing => by cases hclosing
    closed := Bool.noConfusion
    resumes := rfl
    paused := Bool.noConfusion }
  settled := {
    once := Nat.zero_le 1
    finished := fun hsome => absurd rfl hsome
    error := fun err herr => by cases herr
    pending := fun _ _ => rfl
    running := fun err usable hfail => by cases hfail
    failing := fun err herr => by cases herr
    ended := Bool.noConfusion
    failed := fun err hfailed => by cases hfailed
    reacted := Bool.noConfusion
    released := Bool.noConfusion }

/-- A job begins. -/
theorem begin {job : Job δ ε} {rest : List (Job δ ε)} (h : Inv s) (hrunning : s.running = none)
    (hjobs : s.jobs = job :: rest) : Inv (({ s with jobs := rest } : State δ ε).beginJob job) := by
  have hawait : (∀ err, job ≠ .fail err) → Inv (s.awaiting job rest) := fun hjob =>
    ⟨h.chunks.await h.settled hrunning hjobs, h.settled.await hrunning hjobs hjob⟩
  cases job with
  | write chunk =>
    refine hawait ?_
    intro err hfail
    cases hfail
  | close =>
    refine hawait ?_
    intro err hfail
    cases hfail
  | fail err =>
    exact ⟨(h.chunks.failed hjobs).settle _, h.settled.fail h.chunks hrunning hjobs⟩

/-- What was awaited is over. -/
theorem promise {job : Job δ ε} {usable resolved : Bool} (h : Inv s)
    (hrunning : s.running = some (job, usable)) (husable : (resolved && !usable) = false)
    (hstep : s.finishJob usable resolved job = some s') : Inv s' := by
  cases job with
  | write chunk =>
    cases resolved with
    | true =>
      -- only a writer that can be used takes a chunk
      have hyes : usable = true := by simpa using husable
      subst hyes
      cases hstep
      exact ⟨h.chunks.writeOver hrunning (h.chunks.usable chunk hrunning)
          fun hgone => ⟨hgone, rfl⟩,
        h.settled.written hrunning⟩
    | false =>
      cases hstep
      have hgone := h.chunks.gone_of_refused hrunning
      exact ⟨(h.chunks.writeOver hrunning h.chunks.order fun hkept =>
          Bool.noConfusion (hkept.symm.trans hgone)).settle none,
        h.settled.refused h.chunks hrunning⟩
  | close =>
    cases resolved with
    | true =>
      have hyes : usable = true := by simpa using husable
      cases hstep
      exact ⟨(h.chunks.closeOver hrunning id fun _ => .inr hyes).settle none,
        h.settled.closeOver h.chunks hrunning s.gone true⟩
    | false =>
      cases hstep
      exact ⟨(h.chunks.closeOver hrunning (fun hkept => (or_eq_false_iff.1 hkept).1)
          .inl).settle none,
        h.settled.closeOver h.chunks hrunning (s.gone || usable) s.closed⟩
  | fail err => exact absurd hrunning (h.settled.running err usable)

/-- What the connection emits is heard, or the operation is settled. -/
theorem emit {handler : State δ ε → State δ ε}
    (hheard : s.settlements = [] → Inv (handler (s.record e)))
    (hunheard : s.settlements ≠ [] → Inv (s.record e)) : Inv (s.emit e handler) := by
  unfold State.emit State.listening
  split
  case isTrue hempty => exact hheard (isEmpty_iff.1 hempty)
  case isFalse hempty => exact hunheard fun hnone => hempty (isEmpty_iff.2 hnone)

/-- A connection that goes on after the settlement has lost the stream. -/
theorem gone_of_settled (h : Inv s) (hover : s.finished = false) (hsome : s.settlements ≠ []) :
    s.gone = true := by
  rw [State.finished, or_eq_false_iff] at hover
  rcases h.settled.finished hsome with hended | hfailed | hgone
  · exact Bool.noConfusion (hover.1.symm.trans hended)
  · exact Bool.noConfusion (hover.2.symm.trans hfailed)
  · exact hgone

theorem step (h : Inv s) (hstep : Step e s s') : Inv s' := by
  cases hstep with
  | data chunk hover =>
    refine emit (fun hnone => ?_) (fun hsome => ?_)
    · exact ⟨h.chunks.onData hover chunk, h.settled.onData hnone chunk⟩
    · exact ⟨h.chunks.unheardData hover (h.gone_of_settled hover hsome) chunk,
        h.settled.unheardData chunk⟩
  | eof =>
    refine emit (fun _ => ?_) (fun hsome => ?_)
    · exact ⟨h.chunks.eof.onEnd rfl, h.settled.onEnd⟩
    · exact ⟨h.chunks.eof, h.settled.unheardEnd hsome⟩
  | error err hfailed =>
    refine emit (fun hnone => ?_) (fun hsome => ?_)
    · exact ⟨(h.chunks.fail err).onError rfl, h.settled.onError hnone hfailed err⟩
    · exact ⟨h.chunks.fail err, h.settled.unheardError hsome hfailed err⟩
  | drop => exact ⟨h.chunks.drop, h.settled.drop⟩
  | begin job rest hrunning hjobs => exact h.begin hrunning hjobs
  | promise job usable resolved hrunning husable hfinish =>
    exact h.promise hrunning husable hfinish
  | react hclosed =>
    exact ⟨{ h.chunks with }, h.settled.react h.chunks hclosed⟩
  | release hsome =>
    exact ⟨{ h.chunks with }, h.settled.releaseLock hsome⟩

theorem run {trace : List (Event δ ε)} (hrun : Run next s trace s') (h : Inv s) : Inv s' :=
  hrun.invariant (fun _ _ _ hstep (hinv : Inv _) => hinv.step (step_of_perform hstep)) h

theorem right (h : Inv s) : Right s where
  order := h.chunks.order
  whole := h.chunks.whole
  closing := fun usable hclosing =>
    ⟨(h.chunks.closing usable hclosing).1, (h.chunks.closing usable hclosing).2.1⟩
  closed := fun hclosed => ⟨(h.chunks.closed hclosed).1, (h.chunks.closed hclosed).2.1⟩
  once := h.settled.once
  error := h.settled.error
  resumes := h.chunks.resumes
  paused := h.chunks.paused

end Inv

/-! ## Coming to an end -/

end Steps

end Jco.Sockets.TcpReceive

import Mathlib.Data.List.Basic
import Mathlib.Tactic.Common
import Jco.Js.Bytes
import Jco.Lib.Run

/-!
# Response bodies in the browser

The body of a `fetch` response comes in chunks. The incoming body keeps the one chunk that
it has taken from the reader and not returned yet, how much of it was returned, and the
promise of the next one.

A blocking read that finds nothing waits for that promise and looks once more when it is
settled; other calls may come in between. The chunks of a body and how it ends are fixed,
the time at which each arrives is not.
-/

namespace Jco.Http.BrowserBody

open Js Lib List

/-- What `fetchResponse.body` delivers: its chunks, and then its end or a failure. -/
structure Body where
  chunks : List Bytes
  fails : Bool
deriving DecidableEq, Repr

structure State where
  /-- `fetchResponse.body` -/
  body : Option Body
  /-- How many results of the reader have arrived; its end and its failure count. -/
  arrived : Nat := 0
  buffer : Option Bytes := none
  bufferOffset : Nat := 0
  done : Bool := false
  /-- The number of the promise that is not settled. -/
  readPromise : Option Nat := none
  promiseCnt : Nat := 0
  /-- The blocking reads that wait: their lengths, and the promise they wait for. -/
  waiting : List (Nat × Option Nat) := []
  /-- What the calls have returned, in order. The code does not look at it. -/
  returned : Bytes := []
deriving DecidableEq, Repr

inductive Event where
  | read (len : Nat)
  | blockingRead (len : Nat)
  | subscribe
  /-- The reader's result arrives. -/
  | arrive
  /-- The first blocking read that waits looks again. -/
  | resume
deriving DecidableEq, Repr

inductive Answer where
  | bytes (b : Bytes)
  | closed
  | wouldBlock
  /-- A blocking read waits, or nothing was asked. -/
  | none
  /-- A pollable that is ready, or one of the promise. -/
  | pollable (promise : Option Nat)
deriving DecidableEq, Repr

namespace State

/-- What is left of the chunk. -/
def remaining (s : State) : Bytes :=
  match s.buffer with
  | .none => []
  | some buffer => buffer.drop s.bufferOffset

def startRead (s : State) : State :=
  if s.readPromise.isSome ∨ s.done then s
  else
    match s.body with
    | .none => { s with done := true }
    | some _ => { s with readPromise := some s.promiseCnt, promiseCnt := s.promiseCnt + 1 }

/-- The next bytes of the chunk; a chunk that has been returned whole makes room for the
next one. -/
def slice (s : State) (len : Nat) : State × Answer :=
  match s.buffer with
  | .none => (s, .none)
  | some buffer =>
    let available := buffer.length - s.bufferOffset
    let toRead := min len available
    let slice := (buffer.drop s.bufferOffset).take toRead
    let offset := s.bufferOffset + toRead
    if buffer.length ≤ offset then
      let s₁ := { s with buffer := .none, bufferOffset := 0 }
      (if s₁.done then s₁ else s₁.startRead, .bytes slice)
    else ({ s with bufferOffset := offset }, .bytes slice)

/-- `buffer !== null && bufferOffset < buffer.byteLength` -/
def hasBytes (s : State) : Bool := s.buffer.any fun buffer => s.bufferOffset < buffer.length

/-- What every read begins with; `otherwise` comes where there is nothing yet. -/
def attempt (s : State) (len : Nat) (otherwise : State × Answer) : State × Answer :=
  if s.done ∧ ¬ s.hasBytes then (s, .closed)
  else if s.hasBytes then s.slice len
  else otherwise

def blockingRead (s : State) (len : Nat) : State × Answer :=
  let s₁ := s.startRead
  s.attempt len ({ s₁ with waiting := s₁.waiting ++ [(len, s₁.readPromise)] }, .none)

def subscribe (s : State) : State × Answer :=
  if s.done ∨ s.hasBytes then (s, .pollable .none)
  else
    let s₁ := s.startRead
    (s₁, .pollable s₁.readPromise)

/-- The callbacks of `reader.read()`. A failure counts as the end. -/
def arrive (s : State) : Option State :=
  match s.readPromise, s.body with
  | some _, some body =>
    let s₁ := { s with readPromise := .none, arrived := s.arrived + 1 }
    match body.chunks[s.arrived]? with
    | some chunk => some { s₁ with buffer := some chunk, bufferOffset := 0 }
    | .none => some { s₁ with done := true }
  | _, _ => .none

/-- Once its promise is settled a blocking read looks again, and takes nothing for the end. -/
def resume (s : State) : Option (State × Answer) :=
  match s.waiting with
  | [] => .none
  | (len, promise) :: rest =>
    if promise.isSome ∧ promise = s.readPromise then .none
    else
      let s₁ := { s with waiting := rest }
      some (s₁.attempt len (s₁, .closed))

/-- One event; `none` where it cannot happen. -/
def step (s : State) : Event → Option (State × Answer)
  | .read len => some (s.attempt len (s, .wouldBlock))
  | .blockingRead len => some (s.blockingRead len)
  | .subscribe => some s.subscribe
  | .arrive => s.arrive.map fun s₁ => (s₁, .none)
  | .resume => s.resume

/-- What an answer adds to what has been returned. -/
def record (s : State) : Answer → State
  | .bytes b => { s with returned := s.returned ++ b }
  | _ => s

end State

/-- `IncomingBody._create` -/
def create (body : Option Body) : State := State.startRead { body }

def next : Action Event State :=
  computed fun s e => (s.step e).map fun outcome => outcome.1.record outcome.2

/-! ## What is promised -/

/-- The bytes of the body. -/
def State.whole (s : State) : Bytes := (s.body.elim [] Body.chunks).flatten

/-- The body has ended, and not with a failure. -/
def State.Ended (s : State) : Prop :=
  match s.body with
  | none => True
  | some body => body.fails = false ∧ body.chunks.length < s.arrived

/-- What is promised of an answer. A body that failed is not reported as closed. -/
def Right (s : State) (a : Answer) : Prop :=
  match a with
  | .bytes b => s.returned ++ b <+: s.whole
  | .closed => s.Ended ∧ s.returned = s.whole
  | _ => True

/-- The body has failed. -/
def State.failed (s : State) : Bool := s.done && s.body.any Body.fails

/-- The body has not failed; and a blocking read that looks again finds bytes or the end. -/
def Ok (e : Event) (s : State) : Prop :=
  match e with
  | .read _ | .blockingRead _ => s.failed = false
  | .resume => s.remaining ≠ [] ∨ s.done = true ∧ s.failed = false
  | _ => True

/-- Nothing is lost: what was returned, what is left of the chunk and what has not arrived
are the body. -/
structure Inv (s : State) : Prop where
  whole : s.returned ++ (s.remaining ++ ((s.body.elim [] Body.chunks).drop s.arrived).flatten) =
    s.whole
  done : s.done = true → s.remaining = [] ∧
    ∀ body, s.body = some body → body.chunks.length < s.arrived
  undone : s.done = false → ∀ body, s.body = some body → s.arrived ≤ body.chunks.length
  pending : s.readPromise.isSome = true → s.remaining = [] ∧ s.done = false
  absent : s.body = none → s.done = true

/-! ## Reading on -/

section Steps

variable {s s' : State} {e : Event} {a : Answer} {len : Nat} {otherwise : State × Answer}

@[simp] theorem remaining_startRead (s : State) : s.startRead.remaining = s.remaining := by
  unfold State.startRead
  by_cases hidle : s.readPromise.isSome = true ∨ s.done = true
  · rw [if_pos hidle]
  · rw [if_neg hidle]
    cases hbody : s.body with
    | none => rfl
    | some body => rfl

/-- What an answer records has nothing to do with the next chunk. -/
theorem record_startRead (s : State) (a : Answer) :
    s.startRead.record a = (s.record a).startRead := by
  cases a with
  | bytes b =>
    unfold State.startRead State.record
    by_cases hidle : s.readPromise.isSome = true ∨ s.done = true
    · rw [if_pos hidle, if_pos hidle]
    · rw [if_neg hidle, if_neg hidle]
      cases hbody : s.body with
      | none => rfl
      | some body => rfl
  | closed => rfl
  | wouldBlock => rfl
  | none => rfl
  | pollable promise => rfl

/-- The next chunk is asked for once the last one has been returned. -/
theorem Inv.startRead (hinv : Inv s) (hrem : s.remaining = []) : Inv s.startRead := by
  by_cases hidle : s.readPromise.isSome = true ∨ s.done = true
  · have hstart : s.startRead = s := if_pos hidle
    rw [hstart]
    exact hinv
  · have hdone : s.done = false := by
      cases hd : s.done with
      | false => rfl
      | true => exact absurd (.inr hd) hidle
    cases hbody : s.body with
    | none =>
      have habsent := hinv.absent hbody
      rw [hdone] at habsent
      cases habsent
    | some body =>
      have hstart : s.startRead =
          { s with readPromise := some s.promiseCnt, promiseCnt := s.promiseCnt + 1 } := by
        unfold State.startRead
        rw [if_neg hidle, hbody]
      rw [hstart]
      refine ⟨hinv.whole, hinv.done, hinv.undone, ?_, hinv.absent⟩
      intro _
      exact ⟨hrem, hdone⟩

theorem hasBytes_iff : s.hasBytes = true ↔ s.remaining ≠ [] := by
  unfold State.hasBytes State.remaining
  cases s.buffer with
  | none => simp
  | some buffer => simp

theorem Inv.undone_of_remaining (hinv : Inv s) (hrem : s.remaining ≠ []) : s.done = false := by
  cases hdone : s.done with
  | false => rfl
  | true => exact absurd (hinv.done hdone).1 hrem

theorem remaining_of_some {buffer : Bytes} (hbuffer : s.buffer = some buffer) :
    s.remaining = buffer.drop s.bufferOffset := by
  unfold State.remaining
  rw [hbuffer]

/-- The rest of a chunk is returned, and the next one is asked for. -/
theorem slice_rest (hrem : s.remaining ≠ []) (hdone : s.done = false)
    (hlen : s.remaining.length ≤ len) :
    s.slice len =
      (State.startRead { s with buffer := none, bufferOffset := 0 }, .bytes s.remaining) := by
  cases hbuffer : s.buffer with
  | none =>
    unfold State.remaining at hrem
    rw [hbuffer] at hrem
    exact absurd rfl hrem
  | some buffer =>
    rw [remaining_of_some hbuffer] at hrem hlen ⊢
    rw [length_drop] at hlen
    have hmin : min len (buffer.length - s.bufferOffset) = buffer.length - s.bufferOffset := by
      omega
    have hall : buffer.length ≤ s.bufferOffset + (buffer.length - s.bufferOffset) := by omega
    have htake : (buffer.drop s.bufferOffset).take (buffer.length - s.bufferOffset) =
        buffer.drop s.bufferOffset := by
      apply take_of_length_le
      rw [length_drop]
    unfold State.slice
    simp only [hbuffer, hmin, if_pos hall, hdone, Bool.false_eq_true, if_false, htake]

/-- The chunk has more than is asked for. -/
theorem slice_part {buffer : Bytes} (hbuffer : s.buffer = some buffer)
    (hlen : len < s.remaining.length) :
    s.slice len =
      ({ s with bufferOffset := s.bufferOffset + len }, .bytes (s.remaining.take len)) := by
  rw [remaining_of_some hbuffer] at hlen ⊢
  rw [length_drop] at hlen
  have hmin : min len (buffer.length - s.bufferOffset) = len := by omega
  have hmore : ¬ buffer.length ≤ s.bufferOffset + len := by omega
  unfold State.slice
  simp only [hbuffer, hmin, if_neg hmore]

/-- What a slice takes from the chunk it returns. -/
theorem slice_spec (hinv : Inv s) (hrem : s.remaining ≠ []) (len : Nat) :
    ∃ s' b, s.slice len = (s', .bytes b) ∧ Inv (s'.record (.bytes b)) ∧ b <+: s.remaining := by
  have hdone := hinv.undone_of_remaining hrem
  have hidle : ¬ s.readPromise.isSome = true := fun hsome => hrem (hinv.pending hsome).1
  have hundone {P : Prop} (htrue : s.done = true) : P := by
    rw [hdone] at htrue
    cases htrue
  by_cases hlen : s.remaining.length ≤ len
  · refine ⟨_, _, slice_rest hrem hdone hlen, ?_, prefix_refl _⟩
    rw [record_startRead]
    refine Inv.startRead ⟨?_, hundone, hinv.undone, ?_, hinv.absent⟩ rfl
    · have hwhole := hinv.whole
      rw [← append_assoc] at hwhole
      exact hwhole
    · intro hsome
      exact absurd hsome hidle
  · cases hbuffer : s.buffer with
    | none =>
      unfold State.remaining at hrem
      rw [hbuffer] at hrem
      exact absurd rfl hrem
    | some buffer =>
      have hrest : State.remaining { s with bufferOffset := s.bufferOffset + len } =
          s.remaining.drop len := by
        rw [remaining_of_some hbuffer, drop_drop]
        exact remaining_of_some hbuffer
      refine ⟨_, _, slice_part hbuffer (by omega), ?_, take_prefix ..⟩
      refine ⟨?_, hundone, hinv.undone, ?_, hinv.absent⟩
      · have hwhole := hinv.whole
        rw [← take_append_drop len s.remaining, ← hrest, append_assoc,
          ← append_assoc] at hwhole
        exact hwhole
      · intro hsome
        exact absurd hsome hidle

theorem Inv.right_bytes (hinv : Inv s) {b : Bytes} (hb : b <+: s.remaining) :
    Right s (.bytes b) := by
  rcases hb with ⟨rest, hrest⟩
  have hwhole := hinv.whole
  rw [← hrest, append_assoc, ← append_assoc] at hwhole
  exact ⟨_, hwhole⟩

/-- With nothing at hand, closed is right once the body has ended. -/
theorem Inv.right_closed_iff (hinv : Inv s) (hrem : s.remaining = []) :
    Right s .closed ↔ s.done = true ∧ s.failed = false := by
  have hwhole := hinv.whole
  rw [hrem, nil_append] at hwhole
  unfold Right State.Ended State.failed
  cases hbody : s.body with
  | none =>
    have hdone := hinv.absent hbody
    rw [hbody] at hwhole
    have hreturned : s.returned = s.whole := by simpa using hwhole
    simp [hdone, hreturned]
  | some body =>
    rw [hbody] at hwhole
    cases hdone : s.done with
    | false =>
      have hle := hinv.undone hdone body hbody
      refine iff_of_false ?_ ?_
      · rintro ⟨⟨_, hlt⟩, _⟩
        omega
      · rintro ⟨htrue, _⟩
        cases htrue
    | true =>
      have hlt := (hinv.done hdone).2 body hbody
      have hreturned : s.returned = s.whole := by
        rw [← hwhole]
        simp [drop_eq_nil_of_le (Nat.le_of_lt hlt)]
      simp [hlt, hreturned]

/-- What a read comes to. -/
theorem attempt_cases (hinv : Inv s) (len : Nat) (otherwise : State × Answer) :
    s.attempt len otherwise = (s, .closed) ∧ s.done = true ∧ s.remaining = [] ∨
      (∃ s' b, s.attempt len otherwise = (s', .bytes b) ∧ Inv (s'.record (.bytes b)) ∧
        Right s (.bytes b) ∧ s.remaining ≠ []) ∨
      s.attempt len otherwise = otherwise ∧ s.done = false ∧ s.remaining = [] := by
  unfold State.attempt
  by_cases hrem : s.remaining = []
  · have hnone : ¬ s.hasBytes = true := fun hsome => hasBytes_iff.1 hsome hrem
    cases hdone : s.done with
    | true =>
      rw [if_pos ⟨rfl, hnone⟩]
      exact .inl ⟨rfl, rfl, hrem⟩
    | false =>
      rw [if_neg (by simp), if_neg hnone]
      exact .inr (.inr ⟨rfl, rfl, hrem⟩)
  · have hsome := hasBytes_iff.2 hrem
    rw [if_neg (by simp [hsome]), if_pos hsome]
    rcases slice_spec hinv hrem len with ⟨s', b, hslice, hinv', hb⟩
    exact .inr (.inl ⟨s', b, hslice, hinv', hinv.right_bytes hb, hrem⟩)

theorem failed_of_undone (hdone : s.done = false) : s.failed = false := by
  unfold State.failed
  rw [hdone]
  rfl

end Steps

/-! ## One event -/

section Events

variable {s s' : State} {e : Event} {a : Answer} {len : Nat}

/-- A call that reads: it is right unless the body has failed, provided that what it does
where nothing is at hand is right. -/
theorem attempt_spec (hinv : Inv s) (len : Nat) {otherwise : State × Answer}
    (hother : s.done = false → s.remaining = [] →
      Inv (otherwise.1.record otherwise.2) ∧ Right s otherwise.2) :
    Inv ((s.attempt len otherwise).1.record (s.attempt len otherwise).2) ∧
      (Right s (s.attempt len otherwise).2 ↔ s.failed = false) := by
  rcases attempt_cases hinv len otherwise with
    ⟨hclosed, hdone, hrem⟩ | ⟨s', b, hbytes, hinv', hright, hrem⟩ | ⟨hwait, hdone, hrem⟩
  · rw [hclosed]
    refine ⟨hinv, ?_⟩
    rw [hinv.right_closed_iff hrem]
    exact and_iff_right hdone
  · rw [hbytes]
    exact ⟨hinv', iff_of_true hright (failed_of_undone (hinv.undone_of_remaining hrem))⟩
  · rw [hwait]
    rcases hother hdone hrem with ⟨hinv', hright⟩
    exact ⟨hinv', iff_of_true hright (failed_of_undone hdone)⟩

theorem arrive_inv (hinv : Inv s) (h : s.arrive = some s') : Inv s' := by
  cases hpromise : s.readPromise with
  | none =>
    unfold State.arrive at h
    rw [hpromise] at h
    cases h
  | some promise =>
    rcases hinv.pending (by rw [hpromise]; rfl) with ⟨hrem, hdone⟩
    cases hbody : s.body with
    | none =>
      cases hdone.symm.trans (hinv.absent hbody)
    | some body =>
      have hwhole := hinv.whole
      rw [hrem, nil_append] at hwhole
      have hchunks : s.body.elim [] Body.chunks = body.chunks := by
        rw [hbody]
        rfl
      have hle := hinv.undone hdone body hbody
      cases hchunk : body.chunks[s.arrived]? with
      | some chunk =>
        -- the chunk goes from what is to come to the buffer
        have harrive : s.arrive = some { s with
            readPromise := none
            arrived := s.arrived + 1
            buffer := some chunk
            bufferOffset := 0 } := by
          unfold State.arrive
          simp only [hpromise, hbody, hchunk]
        cases harrive.symm.trans h
        rcases List.getElem?_eq_some_iff.1 hchunk with ⟨hlt, hget⟩
        refine ⟨?_, ?_, ?_, ?_, hinv.absent⟩
        · rw [hchunks, drop_eq_getElem_cons hlt, hget, flatten_cons, ← hchunks] at hwhole
          exact hwhole
        · intro htrue
          cases hdone.symm.trans htrue
        · intro _ body' hbody'
          cases hbody.symm.trans hbody'
          exact hlt
        · intro hsome
          cases hsome
      | none =>
        have harrive : s.arrive = some { s with
            readPromise := none
            arrived := s.arrived + 1
            done := true } := by
          unfold State.arrive
          simp only [hpromise, hbody, hchunk]
        cases harrive.symm.trans h
        have hend := List.getElem?_eq_none_iff.1 hchunk
        refine ⟨?_, ?_, ?_, ?_, fun _ => rfl⟩
        · rw [hchunks, drop_eq_nil_of_le hend] at hwhole
          change s.returned ++ (s.remaining ++
            ((s.body.elim [] Body.chunks).drop (s.arrived + 1)).flatten) = s.whole
          rw [hrem, hchunks, drop_eq_nil_of_le (Nat.le_succ_of_le hend)]
          exact hwhole
        · intro _
          refine ⟨hrem, ?_⟩
          intro body' hbody'
          cases hbody.symm.trans hbody'
          exact Nat.lt_succ_of_le hend
        · intro hfalse
          cases hfalse
        · intro hsome
          cases hsome

/-- That a blocking read waits is no matter of the body. -/
theorem Inv.waiting (hinv : Inv s) (waiting : List (Nat × Option Nat)) :
    Inv { s with waiting } := { hinv with }

/-- A blocking read that looks again answers closed wherever nothing is at hand. -/
theorem resume_spec (hinv : Inv s) {outcome : State × Answer} (h : s.resume = some outcome) :
    Inv (outcome.1.record outcome.2) ∧ (Right s outcome.2 ↔ Ok .resume s) := by
  unfold State.resume at h
  cases hwaiting : s.waiting with
  | nil =>
    rw [hwaiting] at h
    cases h
  | cons first rest =>
    rcases first with ⟨len, promise⟩
    simp only [hwaiting] at h
    by_cases hunsettled : promise.isSome = true ∧ promise = s.readPromise
    · rw [if_pos hunsettled] at h
      cases h
    · rw [if_neg hunsettled] at h
      have hinv₁ := hinv.waiting rest
      have hclosed (hrem : s.remaining = []) : Right s .closed ↔ Ok .resume s := by
        rw [hinv.right_closed_iff hrem]
        exact (or_iff_right fun hsome => hsome hrem).symm
      rcases attempt_cases hinv₁ len ({ s with waiting := rest }, .closed) with
        ⟨hattempt, _, hrem⟩ | ⟨s', b, hattempt, hinv', hright, hrem⟩ | ⟨hattempt, _, hrem⟩
      · rw [hattempt] at h
        cases h
        exact ⟨hinv₁, hclosed hrem⟩
      · rw [hattempt] at h
        cases h
        exact ⟨hinv', iff_of_true hright (.inl hrem)⟩
      · rw [hattempt] at h
        cases h
        exact ⟨hinv₁, hclosed hrem⟩

theorem step_spec (hinv : Inv s) {outcome : State × Answer} (h : s.step e = some outcome) :
    Inv (outcome.1.record outcome.2) ∧ (Right s outcome.2 ↔ Ok e s) := by
  cases e with
  | read len =>
    rcases Option.some.inj h
    exact attempt_spec hinv len fun _ _ => ⟨hinv, trivial⟩
  | blockingRead len =>
    rcases Option.some.inj h
    refine attempt_spec hinv len ?_
    intro _ hrem
    exact ⟨(hinv.startRead hrem).waiting _, trivial⟩
  | subscribe =>
    rcases Option.some.inj h
    by_cases hready : s.done = true ∨ s.hasBytes = true
    · have hsub : s.subscribe = (s, .pollable none) := if_pos hready
      rw [hsub]
      exact ⟨hinv, Iff.rfl⟩
    · have hsub : s.subscribe = (s.startRead, .pollable s.startRead.readPromise) := if_neg hready
      have hrem : s.remaining = [] := by
        by_contra hrem
        exact hready (.inr (hasBytes_iff.2 hrem))
      rw [hsub]
      exact ⟨hinv.startRead hrem, Iff.rfl⟩
  | arrive =>
    rcases Option.map_eq_some_iff.1 h with ⟨s₁, harrive, hout⟩
    subst hout
    exact ⟨arrive_inv hinv harrive, Iff.rfl⟩
  | resume => exact resume_spec hinv h

theorem inv_create (body : Option Body) : Inv (create body) := by
  cases body with
  | none =>
    refine ⟨rfl, ?_, ?_, ?_, fun _ => rfl⟩
    · intro _
      exact ⟨rfl, fun _ hbody => by cases hbody⟩
    · intro _ _ hbody
      cases hbody
    · intro hsome
      cases hsome
  | some body =>
    refine ⟨rfl, ?_, ?_, fun _ => ⟨rfl, rfl⟩, ?_⟩
    · intro htrue
      cases htrue
    · intro _ _ _
      exact Nat.zero_le _
    · intro hnone
      cases hnone

end Events

/-- A step that goes as promised. -/
def Good (e : Event) (s s' : State) : Prop :=
  ∃ outcome, s.step e = some outcome ∧ s' = outcome.1.record outcome.2 ∧ Right s outcome.2

theorem good_iff {s s' : State} {e : Event} (hinv : Inv s) (h : next e s s') :
    Good e s s' ↔ Ok e s := by
  rcases Option.map_eq_some_iff.1 h with ⟨outcome, hstep, hs'⟩
  have hspec := (step_spec hinv hstep).2
  constructor
  · rintro ⟨outcome', hstep', _, hright⟩
    rcases Option.some.inj (hstep.symm.trans hstep')
    exact hspec.1 hright
  · intro hok
    exact ⟨outcome, hstep, hs'.symm, hspec.2 hok⟩

/-- The runs in which the body is delivered as promised are those in which no call comes
after a failure, and no blocking read is woken by an empty chunk or finds its bytes taken. -/
theorem delivered_iff (body : Option Body) (es : List Event) (s' : State) :
    Run (fun e s s' => next e s s' ∧ Good e s s') (create body) es s' ↔
      Run (guarded Ok next) (create body) es s' := by
  refine Run.good_iff_guarded ?_ ?_ (inv_create body)
  · intro e s s' hinv hnext
    exact good_iff hinv hnext
  · rintro e s s' hinv _ ⟨outcome, hstep, hs', _⟩
    rw [hs']
    exact (step_spec hinv hstep).1

/-- A chunk of no bytes ends the body for the blocking read that waits for it. -/
theorem empty_chunk_closed : ∃ s',
    Run next (create (some ⟨[[], [1]], false⟩)) [.blockingRead 1, .arrive, .resume] s' ∧
      ¬ Run (fun e s s' => next e s s' ∧ Good e s s') (create (some ⟨[[], [1]], false⟩))
        [.blockingRead 1, .arrive, .resume] s' := by
  refine ⟨_, run_performAll rfl, ?_⟩
  intro hrun
  cases hrun with
  | cons hfirst hrun =>
    rcases Option.some.inj hfirst.1
    cases hrun with
    | cons hsecond hrun =>
      rcases Option.some.inj hsecond.1
      cases hrun with
      | cons hthird _ =>
        rcases hthird.2 with ⟨outcome, hstep, _, hright⟩
        rcases Option.some.inj hstep
        -- closed, with one chunk more to come
        exact absurd hright.2 (by decide)

end Jco.Http.BrowserBody

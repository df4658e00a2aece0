import Jco.Stream.Meeting

/-! # The copies that have no result yet

Whoever holds the two ends of a stream, each end has at most one copy without a
result. Events are about these copies and the pending buffer is of one of them, so
that elements move only from the buffer of the open write to that of the open read.
-/

namespace Jco.Stream

open Jco.Js Function StreamState List

variable {α : Type}

/-! ## The state of the copies -/

/-- The pending buffer is not one of `side`. -/
def StreamState.NotPending (s : StreamState α) (side : Side) : Prop :=
  ∀ p, s.pendingBufferMeta = some p → p.onCopyFn.streamEnd ≠ side

/-- `o` tells for each end the buffer of its copy without a result. -/
structure OpenCopies (s : StreamState α) (o : Side → Option Nat) : Prop where
  dropped : s.dropped = true → s.pendingBufferMeta = none
  fresh : ∀ side b, o side = some b → b < s.copies
  pending : ∀ p, s.pendingBufferMeta = some p →
    o p.onCopyFn.streamEnd = some p.buffer ∧ p.onCopyFn.buffer = p.buffer ∧
      p.onCopyDoneFn = some p.onCopyFn
  event : ∀ side b result reclaim rejectedLength,
    (s.ends side).pendingEventFn = some (.processFn b result reclaim rejectedLength) →
      o side = some b ∧ (reclaim = false → s.NotPending side) ∧
        (reclaim = true → ¬ s.NotPending side)

/-- An end that is idle has no open copy. -/
def IdleEnds (s : StreamState α) (o : Side → Option Nat) : Prop :=
  ∀ side, (s.ends side).copyState = .idle → o side = none

/-! ## The elements that moved -/

namespace StreamState

def takenOf (s : StreamState α) (b : Nat) : List (Entry α) := s.taken.filter (·.buffer = b)

def placedIn (s : StreamState α) (b : Nat) : List (Entry α) := s.placed.filter (·.buffer = b)

end StreamState

/-- Every buffer counts what moved through it; what is taken comes from one write after
the other, from each of them in its order. -/
structure Accounts (s : StreamState α) (o : Side → Option Nat) : Prop where
  known : ∀ x ∈ s.taken ++ s.placed, x.buffer < s.copies
  counted : ∀ b, (s.takenOf b).length + (s.placedIn b).length = (s.buffers b).processed
  reads : ∀ b, o .read = some b → s.takenOf b = [] ∧ ∀ x ∈ s.placed, x.buffer ≤ b
  writes : ∀ b, o .write = some b → s.placedIn b = [] ∧ ∀ x ∈ s.taken, x.buffer ≤ b
  ordered : s.taken.Pairwise (·.buffer ≤ ·.buffer)
  indexed : ∀ b, (s.takenOf b).map (·.index) = List.range (s.takenOf b).length

/-! ## Changes that are none -/

/-- The buffers agree but for the string encoding of their elements. -/
def ManagedBuffer.Recoded (b b' : ManagedBuffer α) : Prop :=
  ∃ stringEncoding, b' = { b with elemMeta := { b.elemMeta with stringEncoding } }

/-- The buffers may have got a string encoding. -/
structure Recoded (s s' : StreamState α) : Prop where
  ends : s'.ends = s.ends
  pending : s'.pendingBufferMeta = s.pendingBufferMeta
  dropped : s'.dropped = s.dropped
  copies : s'.copies = s.copies
  taken : s'.taken = s.taken
  placed : s'.placed = s.placed
  elemMeta : s'.elemMeta = s.elemMeta
  buffers : ∀ b, (s.buffers b).Recoded (s'.buffers b)

theorem ManagedBuffer.Recoded.refl (b : ManagedBuffer α) : b.Recoded b :=
  ⟨b.elemMeta.stringEncoding, rfl⟩

theorem Recoded.refl (s : StreamState α) : Recoded s s where
  ends := rfl
  pending := rfl
  dropped := rfl
  copies := rfl
  taken := rfl
  placed := rfl
  elemMeta := rfl
  buffers b := .refl (s.buffers b)

variable {s s' : StreamState α} {o : Side → Option Nat} {side : Side} {b : Nat}

/-- Only ends that are as they were count. -/
theorem OpenCopies.congr (h : OpenCopies s o)
    (hends : ∀ side, (s'.ends side).pendingEventFn = (s.ends side).pendingEventFn)
    (hpending : s'.pendingBufferMeta = s.pendingBufferMeta) (hdropped : s'.dropped = s.dropped)
    (hcopies : s.copies ≤ s'.copies) : OpenCopies s' o where
  dropped hd := hpending.trans (h.dropped (hdropped.symm.trans hd))
  fresh side b ho := Nat.lt_of_lt_of_le (h.fresh side b ho) hcopies
  pending p hp := h.pending p (hpending.symm.trans hp)
  event side b result reclaim rejectedLength he := by
    have hevent := h.event side b result reclaim rejectedLength ((hends side).symm.trans he)
    unfold StreamState.NotPending at hevent ⊢
    rw [hpending]
    exact hevent

theorem Accounts.congr (h : Accounts s o) (htaken : s'.taken = s.taken)
    (hplaced : s'.placed = s.placed) (hcopies : s.copies ≤ s'.copies)
    (hbuffers : ∀ b, (s'.buffers b).processed = (s.buffers b).processed) : Accounts s' o where
  known x hx := by
    rw [htaken, hplaced] at hx
    exact Nat.lt_of_lt_of_le (h.known x hx) hcopies
  counted b := by
    unfold takenOf placedIn
    rw [htaken, hplaced, hbuffers]
    exact h.counted b
  reads b ho := by
    unfold takenOf
    rw [htaken, hplaced]
    exact h.reads b ho
  writes b ho := by
    unfold placedIn
    rw [htaken, hplaced]
    exact h.writes b ho
  ordered := by
    rw [htaken]
    exact h.ordered
  indexed b := by
    unfold takenOf
    rw [htaken]
    exact h.indexed b

/-- An end with a result is not counted any more. -/
theorem Accounts.close (h : Accounts s o) (side : Side) :
    Accounts s (update o side none) where
  known := h.known
  counted := h.counted
  reads b ho := by
    cases side with
    | read =>
      rw [update_self] at ho
      cases ho
    | write =>
      rw [update_of_ne (by decide)] at ho
      exact h.reads b ho
  writes b ho := by
    cases side with
    | write =>
      rw [update_self] at ho
      cases ho
    | read =>
      rw [update_of_ne (by decide)] at ho
      exact h.writes b ho
  ordered := h.ordered
  indexed := h.indexed

theorem ManagedBuffer.Recoded.processed {b b' : ManagedBuffer α} (h : b.Recoded b') :
    b'.processed = b.processed := by
  obtain ⟨enc, rfl⟩ := h
  rfl

theorem ManagedBuffer.Recoded.remaining {b b' : ManagedBuffer α} (h : b.Recoded b') :
    b'.remaining = b.remaining := by
  obtain ⟨enc, rfl⟩ := h
  rfl

theorem Recoded.openCopies (hs : Recoded s s') (h : OpenCopies s o) : OpenCopies s' o :=
  h.congr (fun side => by rw [hs.ends]) hs.pending hs.dropped (Nat.le_of_eq hs.copies.symm)

theorem Recoded.accounts (hs : Recoded s s') (h : Accounts s o) : Accounts s' o :=
  h.congr hs.taken hs.placed (Nat.le_of_eq hs.copies.symm) fun b => (hs.buffers b).processed

/-! ## Events -/

namespace StreamState

/-- An end whose event has been taken. -/
def closed (s : StreamState α) (side : Side) (result : CopyResult) (reclaim : Bool) :
    StreamState α :=
  { s with
    ends := Function.update s.ends side { s.ends side with
      pendingEventFn := none, copyState := if result = .dropped then .done else .idle }
    pendingBufferMeta := if reclaim then none else s.pendingBufferMeta }

/-- There is no result for an end. -/
def Unreported (s : StreamState α) (side : Side) : Prop :=
  ∀ b result reclaim rejectedLength,
    (s.ends side).pendingEventFn ≠ some (.processFn b result reclaim rejectedLength)

theorem getPendingEvent_none (h : (s.ends side).pendingEventFn = none) :
    s.getPendingEvent side = .ok none s := by
  unfold getPendingEvent
  rw [h]

@[simp] theorem setEnd_self (s : StreamState α) (side : Side) (x : StreamEnd) :
    (s.setEnd side x).ends side = x := update_self ..

theorem setEnd_ne (s : StreamState α) {side side' : Side} (x : StreamEnd) (h : side' ≠ side) :
    (s.setEnd side x).ends side' = s.ends side' := update_of_ne h ..

theorem closed_self (s : StreamState α) (side : Side) (result : CopyResult) (reclaim : Bool) :
    (s.closed side result reclaim).ends side = { s.ends side with
      pendingEventFn := none, copyState := if result = .dropped then .done else .idle } :=
  update_self ..

theorem closed_ne (s : StreamState α) {side side' : Side} (result : CopyResult) (reclaim : Bool)
    (h : side' ≠ side) : (s.closed side result reclaim).ends side' = s.ends side' :=
  update_of_ne h ..

/-- A result is reported unless the buffer is full up to the last element. -/
theorem getPendingEvent_processFn {result : CopyResult} {reclaim : Bool}
    {rejectedLength : Option Nat}
    (h : (s.ends side).pendingEventFn = some (.processFn b result reclaim rejectedLength)) :
    s.getPendingEvent side =
      if MAX_LENGTH ≤ (s.buffers b).processed then .error .engine (s.closed side result reclaim)
      else .ok (some ⟨side.eventCode, (s.ends side).waitableIdx,
        packResult (s.buffers b).processed result, rejectedLength⟩)
        (s.closed side result reclaim) := by
  have hclosed : ((if reclaim then
      (s.setEnd side { s.ends side with pendingEventFn := none }).resetPendingBufferMeta
      else s.setEnd side { s.ends side with pendingEventFn := none }).setCopyState side
        (if result = .dropped then .done else .idle)) = s.closed side result reclaim := by
    cases reclaim <;> simp [setCopyState, setEnd, resetPendingBufferMeta, closed]
  unfold getPendingEvent
  rw [h]
  unfold processFn
  dsimp only
  rw [hclosed]
  have hidx : ((s.closed side result reclaim).ends side).waitableIdx =
      (s.ends side).waitableIdx := by
    rw [closed_self]
  rw [hidx]
  by_cases hmax : MAX_LENGTH ≤ (s.buffers b).processed
  · have hmax' : MAX_LENGTH ≤ ((s.closed side result reclaim).buffers b).processed := hmax
    rw [if_pos hmax, if_pos hmax']
  · have hmax' : ¬ MAX_LENGTH ≤ ((s.closed side result reclaim).buffers b).processed := hmax
    rw [if_neg hmax, if_neg hmax']
    rfl

end StreamState

open StreamState

theorem OpenCopies.unreported (h : OpenCopies s o) (ho : o side = none) : s.Unreported side := by
  intro b result reclaim rejectedLength he
  have hopen := (h.event side b result reclaim rejectedLength he).1
  rw [ho] at hopen
  cases hopen

theorem OpenCopies.notPending (h : OpenCopies s o) (ho : o side = none) : s.NotPending side := by
  intro p hp hside
  have hopen := (h.pending p hp).1
  rw [hside, ho] at hopen
  cases hopen

/-- Changing an end without an event of a copy. -/
theorem OpenCopies.setEnd (h : OpenCopies s o) {x : StreamEnd}
    (hx : x.pendingEventFn = none ∨ x.pendingEventFn = (s.ends side).pendingEventFn ∨
      ∃ err, x.pendingEventFn = some (.throwFn err)) : OpenCopies (s.setEnd side x) o where
  dropped := h.dropped
  fresh := h.fresh
  pending := h.pending
  event side' b result reclaim rejectedLength he := by
    refine h.event side' b result reclaim rejectedLength ?_
    by_cases hside : side' = side
    · subst hside
      rw [setEnd_self] at he
      rcases hx with hx | hx | ⟨err, hx⟩
      · rw [hx] at he
        cases he
      · rw [← hx]
        exact he
      · rw [hx] at he
        cases he
    · rw [setEnd_ne s x hside] at he
      exact he

theorem OpenCopies.setCopyState (h : OpenCopies s o) (side : Side) (copyState : CopyState) :
    OpenCopies (s.setCopyState side copyState) o := h.setEnd (.inr (.inl rfl))

/-- The copy whose result is taken is not open any more. -/
theorem OpenCopies.closed {result : CopyResult} {reclaim : Bool} {rejectedLength : Option Nat}
    (h : OpenCopies s o)
    (he : (s.ends side).pendingEventFn = some (.processFn b result reclaim rejectedLength)) :
    OpenCopies (s.closed side result reclaim) (update o side none) := by
  obtain ⟨ho, hkept, hreclaimed⟩ := h.event side b result reclaim rejectedLength he
  -- what is pending afterwards belongs to the other end
  have hother : ∀ p, (s.closed side result reclaim).pendingBufferMeta = some p →
      s.pendingBufferMeta = some p ∧ p.onCopyFn.streamEnd ≠ side := by
    intro p hp
    cases reclaim with
    | true => cases hp
    | false => exact ⟨hp, hkept rfl p hp⟩
  constructor
  case dropped =>
    intro hd
    cases reclaim with
    | true => rfl
    | false => exact h.dropped hd
  case fresh =>
    intro side' b' ho'
    by_cases hside : side' = side
    · subst hside
      rw [update_self] at ho'
      cases ho'
    · rw [update_of_ne hside] at ho'
      exact h.fresh side' b' ho'
  case pending =>
    intro p hp
    obtain ⟨hp, hside⟩ := hother p hp
    rw [update_of_ne hside]
    exact h.pending p hp
  case event =>
    intro side' b' result' reclaim' rejectedLength' he'
    by_cases hside : side' = side
    · subst hside
      rw [closed_self] at he'
      cases he'
    · rw [closed_ne s result reclaim hside] at he'
      obtain ⟨ho', hkept', hreclaimed'⟩ :=
        h.event side' b' result' reclaim' rejectedLength' he'
      rw [update_of_ne hside]
      refine ⟨ho', fun hr p hp => hkept' hr p (hother p hp).1, fun hr hnot => ?_⟩
      -- the two ends do not both have the pending buffer
      refine hreclaimed' hr fun p hp hend => ?_
      cases reclaim with
      | true =>
        refine hreclaimed rfl fun p' hp' hend' => ?_
        cases hp.symm.trans hp'
        exact hside (hend.symm.trans hend')
      | false => exact hnot p hp hend

/-! ## Results for open copies -/

/-- An open copy whose buffer is not pending gets its result. -/
theorem OpenCopies.tell (h : OpenCopies s o) (ho : o side = some b) (hnot : s.NotPending side)
    (result : CopyResult) (rejectedLength : Option Nat) :
    OpenCopies (s.onCopyDoneFn ⟨side, b⟩ result rejectedLength) o where
  dropped := h.dropped
  fresh := h.fresh
  pending := h.pending
  event side' b' result' reclaim' rejectedLength' he := by
    unfold onCopyDoneFn at he
    by_cases hside : side' = side
    · subst hside
      rw [setPendingEvent_self] at he
      cases he
      exact ⟨ho, fun _ => hnot, fun hr => by cases hr⟩
    · rw [setPendingEvent_ne s _ hside] at he
      exact h.event side' b' result' reclaim' rejectedLength' he

/-- Elements have moved through the pending buffer. -/
theorem OpenCopies.tellPending (h : OpenCopies s o) {p : PendingBufferMeta}
    (hp : s.pendingBufferMeta = some p) : OpenCopies (s.onCopyFn p.onCopyFn) o where
  dropped := h.dropped
  fresh := h.fresh
  pending := h.pending
  event side' b' result' reclaim' rejectedLength' he := by
    unfold onCopyFn at he
    by_cases hside : side' = p.onCopyFn.streamEnd
    · rw [hside] at he ⊢
      rw [setPendingEvent_self] at he
      obtain ⟨hopen, hbuffer, -⟩ := h.pending p hp
      cases he
      rw [hbuffer]
      exact ⟨hopen, (nomatch ·), fun _ hnot => hnot p hp rfl⟩
    · rw [setPendingEvent_ne s _ hside] at he
      exact h.event side' b' result' reclaim' rejectedLength' he

/-- The pending buffer is given back. -/
theorem OpenCopies.notify (h : OpenCopies s o) {p : PendingBufferMeta}
    (hp : s.pendingBufferMeta = some p) (result : CopyResult) (rejectedLength : Option Nat) :
    OpenCopies (s.resetPendingBufferMeta.onCopyDoneFn p.onCopyFn result rejectedLength) o where
  dropped _ := rfl
  fresh := h.fresh
  pending p hp := by cases hp
  event side' b' result' reclaim' rejectedLength' he := by
    obtain ⟨hopen, hbuffer, -⟩ := h.pending p hp
    have hnot : (s.resetPendingBufferMeta.onCopyDoneFn p.onCopyFn result
        rejectedLength).NotPending side' := fun p' hp' => by cases hp'
    unfold onCopyDoneFn at he
    by_cases hside : side' = p.onCopyFn.streamEnd
    · rw [hside] at he
      rw [setPendingEvent_self] at he
      cases he
      rw [hside, hbuffer]
      exact ⟨hopen, fun _ => hside ▸ hnot, fun hr => by cases hr⟩
    · rw [setPendingEvent_ne _ _ hside] at he
      obtain ⟨ho', -, hreclaimed⟩ := h.event side' b' result' reclaim' rejectedLength' he
      refine ⟨ho', fun _ => hnot, fun hr => ?_⟩
      -- the event of the other end has not reclaimed a buffer that is not its own
      refine absurd (fun p' hp' hend => ?_) (hreclaimed hr)
      cases hp.symm.trans hp'
      exact hside hend.symm

theorem OpenCopies.resetAndNotifyPending_eq (h : OpenCopies s o) {p : PendingBufferMeta}
    (hp : s.pendingBufferMeta = some p) (result : CopyResult) :
    s.resetAndNotifyPending result =
      s.resetPendingBufferMeta.onCopyDoneFn p.onCopyFn result none := by
  unfold resetAndNotifyPending
  rw [hp, Option.bind_some, (h.pending p hp).2.2]

theorem resetAndNotifyPending_none (hp : s.pendingBufferMeta = none) (result : CopyResult) :
    s.resetAndNotifyPending result = s := by
  unfold resetAndNotifyPending resetPendingBufferMeta
  rw [hp]
  dsimp only [Option.bind_none]
  rw [← hp]

/-- An open copy without a result waits with its buffer. -/
theorem OpenCopies.wait (h : OpenCopies s o) (hnone : s.pendingBufferMeta = none)
    (hdropped : s.dropped = false) (ho : o side = some b) (hunreported : s.Unreported side)
    (c : Int) (rejectLength : Option Nat) :
    OpenCopies (s.setPendingBufferMeta ⟨c, b, ⟨side, b⟩, some ⟨side, b⟩, rejectLength⟩) o where
  dropped hd := by
    rw [show (s.setPendingBufferMeta _).dropped = s.dropped from rfl, hdropped] at hd
    cases hd
  fresh := h.fresh
  pending p hp := by
    cases hp
    exact ⟨ho, rfl, rfl⟩
  event side' b' result' reclaim' rejectedLength' he := by
    have hside : side' ≠ side := by
      intro hside
      rw [hside] at he
      exact hunreported _ _ _ _ he
    obtain ⟨ho', -, hreclaimed⟩ := h.event side' b' result' reclaim' rejectedLength' he
    refine ⟨ho', fun _ p hp => ?_, fun hr => ?_⟩
    · cases hp
      exact hside.symm
    · refine absurd (fun p hp => ?_) (hreclaimed hr)
      rw [hnone] at hp
      cases hp

/-- A new copy gets a buffer that no other copy has. -/
theorem OpenCopies.open (h : OpenCopies s o) (ho : o side = none) (hb : b < s.copies) :
    OpenCopies s (update o side (some b)) where
  dropped := h.dropped
  fresh side' b' ho' := by
    by_cases hside : side' = side
    · subst hside
      rw [update_self] at ho'
      cases ho'
      exact hb
    · rw [update_of_ne hside] at ho'
      exact h.fresh side' b' ho'
  pending p hp := by
    rw [update_of_ne (h.notPending ho p hp)]
    exact h.pending p hp
  event side' b' result' reclaim' rejectedLength' he := by
    have hside : side' ≠ side := by
      intro hside
      rw [hside] at he
      exact h.unreported ho _ _ _ _ he
    rw [update_of_ne hside]
    exact h.event side' b' result' reclaim' rejectedLength' he

/-! ## Moving elements -/

section

variable [StreamValue α] [DecidableEq α]

/-- A buffer that a write may take its elements from. -/
def ManagedBuffer.Backed (b : ManagedBuffer α) : Prop :=
  b.elemMeta.isNone = true ∨ b.memory.isSome = true ∨ b.hostOnlyData.length = b.remaining

omit [DecidableEq α] in
/-- A successful `read` gives as many values as it was asked for. -/
theorem lifted_ok {b b' : ManagedBuffer α} {m : Memory} {n : Nat} {values : List (Int × α)}
    (h : b.lifted m n = .ok (values, b')) (hbacked : b.Backed) (hn : n ≤ b.remaining) :
    values.length = n ∧ b' = { b with ptr := b'.ptr, hostOnlyData := b'.hostOnlyData } ∧
      ({ b' with processed := b.processed + n } : ManagedBuffer α).Backed ∧
      (b.elemMeta.isNone = true → ∀ v ∈ values, v.2 = StreamValue.null) := by
  unfold ManagedBuffer.lifted at h
  split at h
  · rename_i hnone
    cases h
    refine ⟨length_replicate, rfl, .inl hnone, fun _ v hv => ?_⟩
    rw [eq_of_mem_replicate hv]
  rename_i hnone
  split at h
  · rename_i hmemory
    cases h
    have hdata : b.hostOnlyData.length = b.remaining := by
      rcases hbacked with hnone' | hsome | hdata
      · exact absurd hnone' hnone
      · rw [Option.isNone_iff_eq_none] at hmemory
        rw [hmemory] at hsome
        cases hsome
      · exact hdata
    refine ⟨?_, rfl, .inr (.inr ?_), fun hnone' => absurd hnone' hnone⟩
    · rw [length_map, length_take, hdata]
      exact Nat.min_eq_left hn
    · show (b.hostOnlyData.drop n).length = b.capacity - (b.processed + n)
      rw [length_drop, hdata]
      unfold ManagedBuffer.remaining
      omega
  rename_i hmemory
  have hguest : b.memory.isSome = true := by
    rw [Option.isNone_iff_eq_none] at hmemory
    exact Option.isSome_iff_ne_none.2 hmemory
  split at h
  · split at h
    · cases h
    · rename_i hview
      cases h
      refine ⟨?_, rfl, .inr (.inl hguest), fun hnone' => absurd hnone' hnone⟩
      rw [length_mapIdx]
      exact ManagedBuffer.length_view hview
  split at h
  · cases h
  split at h
  · cases h
  · rename_i hlift
    cases h
    exact ⟨ManagedBuffer.liftEach_length hlift, rfl, .inr (.inl hguest),
      fun hnone' => absurd hnone' hnone⟩

omit [DecidableEq α] in
/-- `ManagedBuffer.read` throws without a change, or takes the elements. -/
theorem bufferRead_cases {n : Nat} (hn : n ≤ (s.buffers b).remaining)
    (hbacked : (s.buffers b).Backed) :
    (∃ err, bufferRead b n s = .error err s) ∨
    ∃ values : List (Int × α), ∃ b', values.length = n ∧
      ((s.buffers b).elemMeta.isNone = true → ∀ v ∈ values, v.2 = StreamValue.null) ∧
      b' = { s.buffers b with
        ptr := b'.ptr, hostOnlyData := b'.hostOnlyData
        processed := (s.buffers b).processed + n } ∧ b'.Backed ∧
      bufferRead b n s = .ok (values.map (·.2)) { s with
        buffers := update s.buffers b b'
        taken := s.taken ++ entries b (s.buffers b).processed values } := by
  unfold bufferRead
  dsimp only
  split
  · exact .inl ⟨_, rfl⟩
  split
  · exact .inl ⟨_, rfl⟩
  cases hlift : (s.buffers b).lifted (s.memoryOf (s.buffers b)) n with
  | error err => exact .inl ⟨err, rfl⟩
  | ok r =>
    obtain ⟨values, b'⟩ := r
    obtain ⟨hlength, hb', hbacked', hnulls⟩ := lifted_ok hlift hbacked hn
    refine .inr ⟨values, _, hlength, hnulls, ?_, hbacked', rfl⟩
    rw [hb']

/-- `ManagedBuffer.write` throws when it has changed the memory at most, or puts all of
the values into the buffer. A buffer of the host takes whatever fits. -/
theorem bufferWrite_cases (s : StreamState α) (b : Nat) (values : List α) :
    (∃ err memories, bufferWrite b values s = .error err { s with memories } ∧
      ((s.buffers b).remaining < values.length ∨ (s.buffers b).memory.isSome = true ∨
        (s.buffers b).elemMeta.isNone = true ∧ ∃ v ∈ values, v ≠ StreamValue.null)) ∨
    ∃ memories, ∃ ptrs : List Int, ∃ b', ptrs.length = values.length ∧
      b' = { s.buffers b with
        ptr := b'.ptr, hostOnlyData := b'.hostOnlyData
        processed := (s.buffers b).processed + values.length } ∧
      ((s.buffers b).memory = none → (s.buffers b).elemMeta.isNone = false →
        b'.hostOnlyData = (s.buffers b).hostOnlyData ++ values) ∧
      bufferWrite b values s = .ok () { s with
        memories
        buffers := update s.buffers b b'
        placed := s.placed ++
          entries b (s.buffers b).processed (ptrs.zip values) } := by
  unfold bufferWrite
  dsimp only
  split
  · rename_i hrem
    exact .inl ⟨_, s.memories, rfl, .inl hrem⟩
  obtain ⟨m, r, hlower⟩ : ∃ m r, (s.buffers b).lowered (s.memoryOf (s.buffers b)) values = (m, r) :=
    ⟨_, _, rfl⟩
  rw [hlower]
  cases r with
  | error err =>
    refine .inl ⟨err, _, rfl, .inr ?_⟩
    unfold ManagedBuffer.lowered at hlower
    split at hlower
    · rename_i hnone
      split at hlower
      · cases hlower
      · rename_i hnulls
        refine .inr ⟨hnone, ?_⟩
        by_contra hall
        push Not at hall
        exact hnulls (all_eq_true.2 fun v hv => decide_eq_true (hall v hv))
    split at hlower
    · cases hlower
    · rename_i hmemory
      rw [Option.isNone_iff_eq_none] at hmemory
      exact .inl (Option.isSome_iff_ne_none.2 hmemory)
  | ok r =>
    obtain ⟨ptrs, b'⟩ := r
    obtain ⟨hlength, hb'⟩ := ManagedBuffer.lowered_ok (congrArg Prod.snd hlower)
    refine .inr ⟨_, ptrs, _, hlength, ?_, fun hmemory hnone => ?_, rfl⟩
    · rw [hb']
    · unfold ManagedBuffer.lowered at hlower
      simp only [hnone, Bool.false_eq_true, if_false, hmemory, Option.isNone_none, if_true] at hlower
      cases hlower
      rfl

/-- What a transfer of `values` out of the buffer `w` into the buffer `r` does. When it
throws half way, the elements are taken and not placed. -/
structure Moved (w r : Nat) (values : List (Int × α)) (s s' : StreamState α) (placed : Bool) :
    Prop where
  ends : s'.ends = s.ends
  pending : s'.pendingBufferMeta = s.pendingBufferMeta
  dropped : s'.dropped = s.dropped
  copies : s'.copies = s.copies
  elemMeta : s'.elemMeta = s.elemMeta
  nulls : (s.buffers w).elemMeta.isNone = true → ∀ v ∈ values, v.2 = StreamValue.null
  other : ∀ b, b ≠ w → b ≠ r → s'.buffers b = s.buffers b
  source : ∃ ptr data, s'.buffers w = { s.buffers w with
    ptr, hostOnlyData := data, processed := (s.buffers w).processed + values.length }
  backed : (s'.buffers w).Backed
  target : ∃ ptr data, s'.buffers r = { s.buffers r with
      ptr, hostOnlyData := data
      processed := (s.buffers r).processed + if placed then values.length else 0 } ∧
    (placed = true → (s.buffers r).memory = none → (s.buffers r).elemMeta.isNone = false →
      data = (s.buffers r).hostOnlyData ++ values.map (·.2))
  taken : s'.taken = s.taken ++ StreamState.entries w (s.buffers w).processed values
  placed : if placed then ∃ ptrs : List Int, ptrs.length = values.length ∧ s'.placed = s.placed ++
      StreamState.entries r (s.buffers r).processed (ptrs.zip (values.map (·.2)))
    else s'.placed = s.placed

/-- A transfer throws without a change, or takes all elements and places them or not. -/
theorem transfer_moved {w r n : Nat} (hne : r ≠ w) (hn : n ≤ (s.buffers w).remaining)
    (hbacked : (s.buffers w).Backed) :
    (∃ err, transfer w r n s = .error err s) ∨
    ∃ values : List (Int × α), values.length = n ∧
      ((∃ err s', transfer w r n s = .error err s' ∧ Moved w r values s s' false ∧
          ((s.buffers r).remaining < n ∨ (s.buffers r).memory.isSome = true ∨
            (s.buffers r).elemMeta.isNone = true ∧ (s.buffers w).elemMeta.isNone = false)) ∨
        ∃ s', transfer w r n s = .ok () s' ∧ Moved w r values s s' true) := by
  unfold transfer
  rcases bufferRead_cases hn hbacked with
    ⟨err, hread⟩ | ⟨values, b', hlength, hnulls, hb', hbacked', hread⟩
  · exact .inl ⟨err, by rw [hread]⟩
  rw [hread]
  refine .inr ⟨values, hlength, ?_⟩
  rw [← hlength] at hb'
  have hown : (update s.buffers w b') w = b' := update_self ..
  have hsame : (update s.buffers w b') r = s.buffers r := update_of_ne hne ..
  rcases bufferWrite_cases { s with
      buffers := update s.buffers w b'
      taken := s.taken ++ entries w (s.buffers w).processed values } r
      (values.map (·.2)) with
    ⟨err, memories, hwrite, hwhy⟩ | ⟨memories, ptrs, b'', hptrs, hb'', hdata, hwrite⟩
  · dsimp only at hwhy
    rw [hsame, length_map, hlength] at hwhy
    refine .inl ⟨err, _, hwrite, ?_, ?_⟩
    · constructor
      case ends => rfl
      case pending => rfl
      case dropped => rfl
      case copies => rfl
      case elemMeta => rfl
      case nulls => exact hnulls
      case other =>
        intro b hw _
        exact update_of_ne hw ..
      case source => exact ⟨b'.ptr, b'.hostOnlyData, hown.trans hb'⟩
      case backed =>
        show ((update s.buffers w b') w).Backed
        rw [hown]
        exact hbacked'
      case target => exact ⟨_, _, hsame, (nomatch ·)⟩
      case taken => rfl
      case placed => rfl
    · rcases hwhy with hrem | hmemory | ⟨hnone, v, hv, hne⟩
      · exact .inl hrem
      · exact .inr (.inl hmemory)
      · refine .inr (.inr ⟨hnone, ?_⟩)
        -- units are read from a buffer of units only
        by_contra hunit
        obtain ⟨x, hx, rfl⟩ := mem_map.1 hv
        exact hne (hnulls (Bool.eq_true_of_not_eq_false hunit) x hx)
  · dsimp only at hb'' hdata hwrite
    rw [hsame] at hb'' hdata hwrite
    rw [length_map] at hptrs hb''
    refine .inr ⟨_, hwrite, ?_⟩
    have hupdated : ∀ b, b ≠ r → (update (update s.buffers w b') r b'') b =
        (update s.buffers w b') b := fun b hb => update_of_ne hb ..
    constructor
    case ends => rfl
    case pending => rfl
    case dropped => rfl
    case copies => rfl
    case elemMeta => rfl
    case nulls => exact hnulls
    case other =>
      intro b hw hr
      exact (hupdated b hr).trans (update_of_ne hw ..)
    case source => exact ⟨b'.ptr, b'.hostOnlyData, ((hupdated w hne.symm).trans hown).trans hb'⟩
    case backed =>
      show ((update (update s.buffers w b') r b'') w).Backed
      rw [hupdated w hne.symm, hown]
      exact hbacked'
    case target =>
      exact ⟨b''.ptr, b''.hostOnlyData, (update_self ..).trans hb'', fun _ => hdata⟩
    case taken => rfl
    case placed => exact ⟨ptrs, hptrs, rfl⟩

end

variable {w r : Nat} {values : List (Int × α)} {placed : Bool}

theorem Moved.openCopies [StreamValue α] (hm : Moved w r values s s' placed) (h : OpenCopies s o) : OpenCopies s' o :=
  h.congr (fun side => by rw [hm.ends]) hm.pending hm.dropped (Nat.le_of_eq hm.copies.symm)

/-- The entries of a part of a copy are of its buffer, with the next indices. -/
theorem buffer_of_mem_entries {b k : Nat} {values : List (Int × α)} {x : Entry α}
    (h : x ∈ entries b k values) : x.buffer = b := by
  obtain ⟨i, -, rfl⟩ := mem_mapIdx.1 h
  rfl

theorem length_entries (b k : Nat) (values : List (Int × α)) :
    (entries b k values).length = values.length := length_mapIdx

theorem index_entries (b k : Nat) (values : List (Int × α)) :
    (entries b k values).map (·.index) = (List.range values.length).map (k + ·) := by
  apply ext_getElem
  · rw [length_map, length_entries, length_map, length_range]
  · intro i _ _
    simp [entries]

theorem filter_entries_self (b k : Nat) (values : List (Int × α)) :
    (entries b k values).filter (·.buffer = b) = entries b k values := by
  apply filter_eq_self.2
  intro x hx
  exact decide_eq_true (buffer_of_mem_entries hx)

theorem filter_entries_ne {b b' : Nat} (hne : b' ≠ b) (k : Nat) (values : List (Int × α)) :
    (entries b k values).filter (·.buffer = b') = [] := by
  apply filter_eq_nil_iff.2
  intro x hx hb
  exact hne ((of_decide_eq_true hb).symm.trans (buffer_of_mem_entries hx))

/-- What a list of entries has of a buffer when entries of another one come to it. -/
theorem filter_append_entries (l : List (Entry α)) (b b' k : Nat) (values : List (Int × α)) :
    (l ++ entries b k values).filter (·.buffer = b') =
      l.filter (·.buffer = b') ++ if b' = b then entries b k values else [] := by
  rw [filter_append]
  split
  · rename_i hb
    rw [hb, filter_entries_self]
  · rename_i hb
    rw [filter_entries_ne hb]

/-- Elements move from the open write to the open read. -/
theorem Moved.accounts [StreamValue α] (hm : Moved w r values s s' placed)
    (h : Accounts s o) (hcopies : OpenCopies s o) (hw : o .write = some w) (hr : o .read = some r)
    (hne : r ≠ w) : Accounts s' o := by
  have htaken := hm.taken
  have hplaced := hm.placed
  obtain ⟨ptr, data, hsource⟩ := hm.source
  obtain ⟨ptr', data', htarget, -⟩ := hm.target
  obtain ⟨hplacedw, hlatest⟩ := h.writes w hw
  obtain ⟨htakenr, hlatest'⟩ := h.reads r hr
  -- the entries that are placed, if any
  obtain ⟨entries, hentries, hplaced'⟩ : ∃ entries : List (Int × α),
      entries.length = (if placed then values.length else 0) ∧
        s'.placed = s.placed ++ StreamState.entries r (s.buffers r).processed entries := by
    cases placed with
    | false => exact ⟨[], rfl, by rw [show s'.placed = s.placed from hplaced]; simp [entries]⟩
    | true =>
      obtain ⟨ptrs, hptrs, hplaced⟩ := hplaced
      refine ⟨ptrs.zip (values.map (·.2)), ?_, hplaced⟩
      rw [length_zip, length_map, hptrs, Nat.min_self]
      rfl
  have htakenOf : ∀ b, s'.takenOf b = s.takenOf b ++
      if b = w then StreamState.entries w (s.buffers w).processed values else [] := by
    intro b
    unfold StreamState.takenOf
    rw [htaken, filter_append_entries]
  have hplacedIn : ∀ b, s'.placedIn b = s.placedIn b ++
      if b = r then StreamState.entries r (s.buffers r).processed entries else [] := by
    intro b
    unfold StreamState.placedIn
    rw [hplaced', filter_append_entries]
  -- nothing has been placed in the buffer of the write
  have hprocessed : (s.buffers w).processed = (s.takenOf w).length := by
    have hcounted := h.counted w
    rw [hplacedw, length_nil, Nat.add_zero] at hcounted
    exact hcounted.symm
  constructor
  case known =>
    intro x hx
    rw [hm.copies]
    rw [htaken, hplaced'] at hx
    rcases mem_append.1 hx with hx | hx
    · rcases mem_append.1 hx with hx | hx
      · exact h.known x (mem_append_left _ hx)
      · rw [buffer_of_mem_entries hx]
        exact hcopies.fresh .write w hw
    · rcases mem_append.1 hx with hx | hx
      · exact h.known x (mem_append_right _ hx)
      · rw [buffer_of_mem_entries hx]
        exact hcopies.fresh .read r hr
  case counted =>
    intro b
    have hcounted := h.counted b
    rw [htakenOf, hplacedIn]
    by_cases hbw : b = w
    · subst hbw
      rw [if_pos rfl, if_neg hne.symm, hsource, append_nil, length_append, length_entries]
      dsimp only
      omega
    · rw [if_neg hbw]
      by_cases hbr : b = r
      · subst hbr
        rw [if_pos rfl, htarget, append_nil, length_append, length_entries, hentries]
        dsimp only
        omega
      · rw [if_neg hbr, hm.other b hbw hbr, append_nil, append_nil]
        exact hcounted
  case reads =>
    intro b hb
    obtain rfl : r = b := Option.some.inj (hr.symm.trans hb)
    refine ⟨?_, fun x hx => ?_⟩
    · rw [htakenOf, if_neg hne, append_nil]
      exact htakenr
    · rw [hplaced'] at hx
      rcases mem_append.1 hx with hx | hx
      · exact hlatest' x hx
      · exact Nat.le_of_eq (buffer_of_mem_entries hx)
  case writes =>
    intro b hb
    obtain rfl : w = b := Option.some.inj (hw.symm.trans hb)
    refine ⟨?_, fun x hx => ?_⟩
    · rw [hplacedIn, if_neg hne.symm, append_nil]
      exact hplacedw
    · rw [htaken] at hx
      rcases mem_append.1 hx with hx | hx
      · exact hlatest x hx
      · exact Nat.le_of_eq (buffer_of_mem_entries hx)
  case ordered =>
    rw [htaken]
    refine pairwise_append.2 ⟨h.ordered, ?_, fun x hx y hy => ?_⟩
    · refine pairwise_of_forall_mem_list fun x hx y hy => ?_
      rw [buffer_of_mem_entries hx, buffer_of_mem_entries hy]
    · rw [buffer_of_mem_entries hy]
      exact hlatest x hx
  case indexed =>
    intro b
    rw [htakenOf]
    by_cases hbw : b = w
    · subst hbw
      rw [if_pos rfl, map_append, length_append, h.indexed, index_entries,
        length_entries, hprocessed, range_add]
    · rw [if_neg hbw, append_nil]
      exact h.indexed b

end Jco.Stream

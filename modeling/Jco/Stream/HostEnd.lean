import Jco.Stream.HostFed
import Jco.Stream.Conservation

/-! # The two ends of a host-fed stream

What the stream itself does when the host writes to one end and a guest reads
from the other. Each side of the stream is in one of a few situations; the
lemmas say how reads, injected writes, events, cancellation and the end of the
source change them, and which values move.
-/

namespace Jco.Stream

open Jco.Js ManagedBuffer StreamState Function Option Nat

variable {α : Type}

/-! ## Buffers of the host -/

theorem ElemMeta.Like.isNone {e e' : ElemMeta α} (h : e'.Like e) : e'.isNone = e.isNone :=
  (ElemMeta.mk.inj h).2.1

theorem ElemMeta.Like.payloadTypeName {e e' : ElemMeta α} (h : e'.Like e) :
    e'.payloadTypeName = e.payloadTypeName :=
  (ElemMeta.mk.inj h).1

theorem ElemMeta.Like.asElement [StreamValue α] {e e' : ElemMeta α} (h : e'.Like e) :
    e'.asElement = e.asElement := by
  unfold ElemMeta.asElement
  rw [h.isNone]

/-- A buffer that the host made for a write. -/
structure HostBuffer [StreamValue α] (e : ElemMeta α) (b : ManagedBuffer α) : Prop where
  like : b.elemMeta.Like e
  encoding : b.elemMeta.stringEncoding.isSome
  memory : b.memory = none
  rest : b.rest.length = b.remaining

theorem rest_new [StreamValue α] (c : Int) (e : ElemMeta α) (data : List α) :
    (⟨c, none, e, 0, data.length, 0, data⟩ : ManagedBuffer α).rest = data.map e.asElement := by
  unfold ManagedBuffer.rest ElemMeta.asElement
  cases e.isNone
  · simp
  · simp [ManagedBuffer.remaining, List.map_const']

/-- Reading from a buffer of the host takes the first of its values. -/
theorem HostBuffer.lifted [StreamValue α] {e : ElemMeta α} {b : ManagedBuffer α}
    (h : HostBuffer e b) (m : Memory) {n : Nat} (hn : n ≤ b.remaining) :
    ∃ values b', b.lifted m n = .ok (values, b') ∧ values.map (·.2) = b.rest.take n ∧
      HostBuffer e { b' with processed := b.processed + n } ∧
      ({ b' with processed := b.processed + n } : ManagedBuffer α).rest = b.rest.drop n := by
  have hrest := h.rest
  have hremaining : b.capacity - (b.processed + n) = b.remaining - n := by
    unfold ManagedBuffer.remaining
    omega
  unfold ManagedBuffer.lifted
  by_cases hnone : b.elemMeta.isNone
  · rw [if_pos hnone]
    refine ⟨_, _, rfl, ?_, ⟨h.like, h.encoding, h.memory, ?_⟩, ?_⟩
    · unfold ManagedBuffer.rest
      rw [if_pos hnone, List.map_replicate, List.take_replicate, min_eq_left hn]
    · simp [ManagedBuffer.rest, hnone]
    · simp [ManagedBuffer.rest, hnone, ManagedBuffer.remaining, hremaining]
  · have hdata : b.rest = b.hostOnlyData := by
      unfold ManagedBuffer.rest
      rw [if_neg hnone]
    rw [if_neg hnone, if_pos (by rw [h.memory]; rfl)]
    rw [hdata] at hrest ⊢
    refine ⟨_, _, rfl, ?_, ⟨h.like, h.encoding, h.memory, ?_⟩, ?_⟩
    · rw [List.map_map]
      exact List.map_id _
    · unfold ManagedBuffer.rest
      rw [if_neg hnone]
      show (b.hostOnlyData.drop n).length = b.capacity - (b.processed + n)
      rw [List.length_drop, hrest, hremaining]
    · unfold ManagedBuffer.rest
      rw [if_neg hnone]

/-! ## Moving the host's values -/

/-- What a transfer of `n` elements out of a buffer of the host leaves. -/
structure Fed [StreamValue α] (e : ElemMeta α) (source target n : Nat) (s s' : StreamState α) :
    Prop where
  ends : s'.ends = s.ends
  pending : s'.pendingBufferMeta = s.pendingBufferMeta
  dropped : s'.dropped = s.dropped
  copies : s'.copies = s.copies
  elemMeta : s'.elemMeta = s.elemMeta
  other : ∀ i, i ≠ source → i ≠ target → s'.buffers i = s.buffers i
  host : HostBuffer e (s'.buffers source)
  rest : (s'.buffers source).rest = (s.buffers source).rest.drop n
  hostProcessed : (s'.buffers source).processed = (s.buffers source).processed + n
  guest : ∃ ptr data, s'.buffers target = { s.buffers target with
    ptr, hostOnlyData := data, processed := (s.buffers target).processed + n }
  placed : ∃ moved, s'.placed = s.placed ++ moved ∧
    moved.map Entry.value = (s.buffers source).rest.take n ∧ ∀ x ∈ moved, x.buffer = target

theorem transfer_fed [StreamValue α] [DecidableEq α] {e : ElemMeta α} {source target n : Nat}
    {s : StreamState α} (hhost : HostBuffer e (s.buffers source)) (hne : target ≠ source)
    (hn : 0 < n) (hsource : n ≤ (s.buffers source).remaining)
    (htarget : n ≤ (s.buffers target).remaining)
    (hlowers : ∃ r, ((s.buffers target).lowered (s.memoryOf (s.buffers target))
      ((s.buffers source).rest.take n)).2 = .ok r) :
    ∃ s', transfer source target n s = .ok () s' ∧ Fed e source target n s s' := by
  obtain ⟨values, b', hlift, hvalues, hhost', hrest'⟩ :=
    hhost.lifted (s.memoryOf (s.buffers source)) hsource
  have hcapacity : ¬(s.buffers source).capacity < n := by
    unfold ManagedBuffer.remaining at hsource
    omega
  have hlength : (values.map (·.2)).length = n := by
    rw [hvalues, List.length_take, hhost.rest, min_eq_left hsource]
  -- what is read from the host's buffer
  let s₁ : StreamState α := { s with
    buffers := update s.buffers source
      { b' with processed := (s.buffers source).processed + n }
    taken := s.taken ++ entries source (s.buffers source).processed values }
  have hread : bufferRead source n s = .ok (values.map (·.2)) s₁ := by
    unfold bufferRead
    simp only [if_neg (ne_of_gt hn), if_neg hcapacity, hlift]
    rfl
  have hown : s₁.buffers source = { b' with processed := (s.buffers source).processed + n } :=
    update_self ..
  -- and then written to the target
  have hsame : s₁.buffers target = s.buffers target := update_of_ne hne _ _
  obtain ⟨⟨ptrs, t'⟩, hlower⟩ := hlowers
  rw [← hvalues] at hlower
  obtain ⟨hptrs, ht'⟩ := lowered_ok hlower
  obtain ⟨m, hlower'⟩ : ∃ m, (s.buffers target).lowered (s.memoryOf (s.buffers target))
      (values.map (·.2)) = (m, .ok (ptrs, t')) := ⟨_, Prod.ext rfl hlower⟩
  have hwrite : bufferWrite target (values.map (·.2)) s₁ = .ok () { s₁ with
      memories := (s.buffers target).memory.elim s.memories (update s.memories · m)
      buffers := update s₁.buffers target
        { t' with processed := (s.buffers target).processed + n }
      placed := s.placed ++ entries target (s.buffers target).processed
        (ptrs.zip (values.map (·.2))) } := by
    unfold bufferWrite
    simp only [hsame, hlength, if_neg (not_lt.2 htarget)]
    have hmemory : s₁.memoryOf (s.buffers target) = s.memoryOf (s.buffers target) := rfl
    rw [hmemory, hlower']
  refine ⟨_, by unfold transfer; rw [hread]; exact hwrite, ?_⟩
  have hupdated : ∀ i, i ≠ target → update s₁.buffers target
      { t' with processed := (s.buffers target).processed + n } i = s₁.buffers i :=
    fun i hi => update_of_ne hi _ _
  constructor
  case ends => rfl
  case pending => rfl
  case dropped => rfl
  case copies => rfl
  case elemMeta => rfl
  case other =>
    intro i hs ht
    exact (hupdated i ht).trans (update_of_ne hs _ _)
  case host =>
    show HostBuffer e (update s₁.buffers target _ source)
    rw [hupdated source hne.symm, hown]
    exact hhost'
  case rest =>
    show (update s₁.buffers target _ source).rest = _
    rw [hupdated source hne.symm, hown]
    exact hrest'
  case hostProcessed =>
    show (update s₁.buffers target _ source).processed = _
    rw [hupdated source hne.symm, hown]
  case guest =>
    refine ⟨t'.ptr, t'.hostOnlyData, ?_⟩
    show update s₁.buffers target _ target = _
    rw [update_self, ht']
  case placed =>
    refine ⟨_, rfl, ?_, ?_⟩
    · rw [entries_value, List.map_snd_zip (by rw [hptrs]), hvalues]
    · intro x hx
      obtain ⟨i, -, rfl⟩ := List.mem_mapIdx.1 hx
      rfl

/-! ## The situations of the two sides -/

theorem Side.read_ne_write : Side.read ≠ .write := Side.noConfusion

theorem Side.write_ne_read : Side.write ≠ .read := Side.noConfusion

/-- A read without a result, into `buffer`. -/
structure ReadOpen (e : ElemMeta α) (s : StreamState α) (buffer : Nat) : Prop where
  awaits : Awaits s.pendingBufferMeta (s.ends .read).pendingEventFn .read buffer
  fresh : buffer < s.copies
  like : (s.buffers buffer).elemMeta.Like e
  encoding : (s.buffers buffer).elemMeta.stringEncoding.isSome
  capacity : (s.buffers buffer).capacity ≤ MAX_LENGTH
  processed_le : (s.buffers buffer).processed ≤ (s.buffers buffer).capacity
  processed_ne : (s.buffers buffer).processed ≠ MAX_LENGTH
  untouched : (s.ends .read).pendingEventFn = none → (s.buffers buffer).processed = 0
  valuesIn : (s.valuesIn buffer).length = (s.buffers buffer).processed

variable {b : Nat}

theorem ReadOpen.processed_lt {e : ElemMeta α} {s : StreamState α} (h : ReadOpen e s b) :
    (s.buffers b).processed < MAX_LENGTH :=
  lt_of_le_of_ne (le_trans h.processed_le h.capacity) h.processed_ne

/-- The open read keeps its buffer when only its side of the stream changes. -/
theorem ReadOpen.congr {e : ElemMeta α} {s s' : StreamState α} (h : ReadOpen e s b)
    (hawaits : Awaits s'.pendingBufferMeta (s'.ends .read).pendingEventFn .read b)
    (hbuffer : s'.buffers b = s.buffers b) (hcopies : s.copies ≤ s'.copies)
    (huntouched : (s'.ends .read).pendingEventFn = none → (s.ends .read).pendingEventFn = none)
    (hplaced : s'.placed = s.placed) : ReadOpen e s' b where
  awaits := hawaits
  fresh := lt_of_lt_of_le h.fresh hcopies
  like := hbuffer ▸ h.like
  encoding := hbuffer ▸ h.encoding
  capacity := hbuffer ▸ h.capacity
  processed_le := hbuffer ▸ h.processed_le
  processed_ne := hbuffer ▸ h.processed_ne
  untouched hevent := by
    rw [hbuffer]
    exact h.untouched (huntouched hevent)
  valuesIn := by
    unfold StreamState.valuesIn
    rw [hplaced, hbuffer]
    exact h.valuesIn

/-- An open read of which `n` values have been placed. -/
theorem ReadOpen.filled {e : ElemMeta α} {s : StreamState α} {b n : Nat}
    (buffer : ManagedBuffer α) (hbuffer : s.buffers b = { buffer with processed := n })
    (hawaits : Awaits s.pendingBufferMeta (s.ends .read).pendingEventFn .read b)
    (hfresh : b < s.copies) (hlike : buffer.elemMeta.Like e)
    (hencoding : buffer.elemMeta.stringEncoding.isSome) (hcapacity : buffer.capacity ≤ MAX_LENGTH)
    (hle : n ≤ buffer.capacity) (hne : n ≠ MAX_LENGTH)
    (huntouched : (s.ends .read).pendingEventFn = none → n = 0)
    (hvalues : (s.valuesIn b).length = n) : ReadOpen e s b := by
  constructor <;> try rw [hbuffer]
  · exact hawaits
  · exact hfresh
  · exact hlike
  · exact hencoding
  · exact hcapacity
  · exact hle
  · exact hne
  · exact huntouched
  · exact hvalues

inductive ReadSide (e : ElemMeta α) (s : StreamState α) : Option Nat → Prop where
  | closed (hevent : (s.ends .read).pendingEventFn = none)
      (hnot : NotOwner s.pendingBufferMeta .read) : ReadSide e s none
  | opened {buffer : Nat} (h : ReadOpen e s buffer) : ReadSide e s (some buffer)

/-- The pending buffer of a write of the host. -/
def hostMeta (w : Nat) : PendingBufferMeta := ⟨-1, w, ⟨.write, w⟩, some ⟨.write, w⟩, none⟩

/-- The side of the host, and the values that its pending buffer holds: no write
is on its way; a write waits for a read; or a read has met all of it. -/
inductive WriteSide [StreamValue α] (e : ElemMeta α) (s : StreamState α) : List α → Prop where
  | idle (hstate : (s.ends .write).copyState = .idle)
      (hevent : (s.ends .write).pendingEventFn = none)
      (hnot : NotOwner s.pendingBufferMeta .write) : WriteSide e s []
  | waiting {w : Nat} {l : List α} (hpending : s.pendingBufferMeta = some (hostMeta w))
      (hevent : (s.ends .write).pendingEventFn = none) (hfresh : w < s.copies)
      (hbuffer : HostBuffer e (s.buffers w)) (hprocessed : (s.buffers w).processed = 0)
      (hrest : (s.buffers w).rest = l) (hsome : l ≠ []) : WriteSide e s l
  | met {w : Nat} {result : CopyResult} {reclaim : Bool} {rejectedLength : Option Nat}
      (hevent : (s.ends .write).pendingEventFn =
        some (.processFn w result reclaim rejectedLength))
      (hresult : result ≠ .dropped) (hfresh : w < s.copies)
      (hprocessed : (s.buffers w).processed < MAX_LENGTH)
      (hpending : s.pendingBufferMeta = none ∨
        s.pendingBufferMeta = some (hostMeta w) ∧ reclaim = true ∧ (s.buffers w).rest = []) :
      WriteSide e s []

/-- The side of the host when its end and its buffer stay as they are. -/
theorem WriteSide.congr [StreamValue α] {e : ElemMeta α} {s s' : StreamState α} {l : List α}
    (h : WriteSide e s l) (hpending : s'.pendingBufferMeta = s.pendingBufferMeta)
    (hstate : (s'.ends .write).copyState = (s.ends .write).copyState)
    (hwrite : (s'.ends .write).pendingEventFn = (s.ends .write).pendingEventFn)
    (hbuffers : ∀ i < s.copies, s'.buffers i = s.buffers i) (hcopies : s.copies ≤ s'.copies) :
    WriteSide e s' l := by
  rcases h with ⟨hidle, hevent, hnot⟩ |
    ⟨hpend, hevent, hfresh, hbuffer, hprocessed, hrest, hsome⟩ |
    ⟨hevent, hresult, hfresh, hprocessed, hpend⟩
  · exact .idle (hstate.trans hidle) (hwrite ▸ hevent) (hpending ▸ hnot)
  · have hb := hbuffers _ hfresh
    exact .waiting (hpending.trans hpend) (hwrite ▸ hevent) (lt_of_lt_of_le hfresh hcopies)
      (hb ▸ hbuffer) (hb ▸ hprocessed) (hb ▸ hrest) hsome
  · have hb := hbuffers _ hfresh
    exact .met (hwrite ▸ hevent) hresult (lt_of_lt_of_le hfresh hcopies) (hb ▸ hprocessed)
      (hpending ▸ hb ▸ hpend)

/-- The side of the reader when a buffer of the host is not pending any more. -/
theorem ReadSide.released {e : ElemMeta α} {s : StreamState α} {o : Option Nat}
    (h : ReadSide e s o) (hnot : NotOwner s.pendingBufferMeta .read) {ends : Side → StreamEnd}
    (hread : ends .read = s.ends .read) :
    ReadSide e { s with pendingBufferMeta := none, ends } o := by
  rcases h with ⟨hevent, -⟩ | ⟨hopen⟩
  · exact .closed ((congrArg _ hread).trans hevent) (notOwner_none _)
  · refine .opened (hopen.congr ?_ rfl (le_refl _) (fun he => hread ▸ he) rfl)
    show Awaits none (ends .read).pendingEventFn .read _
    rw [hread]
    rcases hopen.awaits with ⟨hp, -⟩ | ⟨-, he⟩
    · exact absurd rfl (hnot _ hp)
    · exact .notified (notOwner_none _) he

/-- A copy of such elements can be set up. -/
structure ElemMeta.Usable (e : ElemMeta α) : Prop where
  encoding : e.stringEncoding.isSome
  align32 : e.align32.isSome
  isBorrowed : e.isBorrowed = false

/-- The invariant of the stream: the read without a result, and the values that
the host has written in vain so far. -/
structure StreamInv [StreamValue α] (e : ElemMeta α) (s : StreamState α) (o : Option Nat)
    (l : List α) : Prop where
  like : s.elemMeta.Like e
  usable : s.pendingBufferMeta.isSome → s.elemMeta.Usable
  read : ReadSide e s o
  write : WriteSide e s l
  dropped : s.dropped = true → s.pendingBufferMeta = none
  placed : ∀ x ∈ s.placed, x.buffer < s.copies

variable [StreamValue α] {e : ElemMeta α} {s s' : StreamState α} {o : Option Nat} {l : List α}

/-- The pending buffer belongs to the open read, or to the host. -/
theorem StreamInv.pending_cases (h : StreamInv e s o l) {p : PendingBufferMeta}
    (hp : s.pendingBufferMeta = some p) :
    (∃ c b, o = some b ∧ l = [] ∧ p = ⟨c, b, ⟨.read, b⟩, some ⟨.read, b⟩, none⟩ ∧
      ReadOpen e s b ∧ (s.ends .write).copyState = .idle ∧
      (s.ends .write).pendingEventFn = none) ∨
    ∃ w, p = hostMeta w ∧ (s.buffers w).rest = l := by
  rcases h.write with ⟨hstate, hevent, hnot⟩ | ⟨hpending, -, -, -, -, hrest, -⟩ |
    ⟨hevent, -, -, -, hnone | ⟨hpending, -, hrest⟩⟩
  · left
    rcases h.read with ⟨-, hnot'⟩ | ⟨hopen⟩
    · have howner : p.onCopyFn.streamEnd = .write := Side.eq_other (hnot' p hp)
      exact absurd howner (hnot p hp)
    · rcases hopen.awaits with ⟨hpending, -⟩ | ⟨hnot', -⟩
      · cases hp.symm.trans hpending
        exact ⟨_, _, rfl, rfl, rfl, hopen, hstate, hevent⟩
      · have howner : p.onCopyFn.streamEnd = .write := Side.eq_other (hnot' p hp)
        exact absurd howner (hnot p hp)
  · right
    exact ⟨_, Option.some.inj (hp.symm.trans hpending), hrest⟩
  · rw [hnone] at hp
    cases hp
  · right
    exact ⟨_, Option.some.inj (hp.symm.trans hpending), hrest⟩

/-- A pending buffer of a reader is that of the open read, and the host is idle. -/
theorem StreamInv.pending_read (h : StreamInv e s o l) {c : Int} {b : Nat}
    (hp : s.pendingBufferMeta = some ⟨c, b, ⟨.read, b⟩, some ⟨.read, b⟩, none⟩) :
    o = some b ∧ l = [] ∧ ReadOpen e s b ∧ (s.ends .write).copyState = .idle ∧
      (s.ends .write).pendingEventFn = none := by
  rcases h.pending_cases hp with ⟨c', b', ho, hl, heq, hopen, hhost⟩ | ⟨w, heq, -⟩
  · cases heq
    exact ⟨ho, hl, hopen, hhost⟩
  · cases heq

theorem StreamInv.hostHeld (h : StreamInv e s o l) : s.hostHeld = l := by
  unfold StreamState.hostHeld
  cases hp : s.pendingBufferMeta with
  | none =>
    rcases h.write with ⟨-, -, -⟩ | ⟨hpending, -⟩ | ⟨-, -, -, -, -⟩
    · rfl
    · rw [hp] at hpending
      cases hpending
    · rfl
  | some p =>
    rcases h.pending_cases hp with ⟨c, b, -, rfl, rfl, -⟩ | ⟨w, rfl, hrest⟩
    · rfl
    · exact hrest

/-- Nothing that the invariant is about has changed. -/
theorem StreamInv.congr (h : StreamInv e s o l) (hlike : s'.elemMeta.Like e)
    (husable : s.elemMeta.Usable → s'.elemMeta.Usable)
    (hpending : s'.pendingBufferMeta = s.pendingBufferMeta)
    (hread : (s'.ends .read).pendingEventFn = (s.ends .read).pendingEventFn)
    (hstate : (s'.ends .write).copyState = (s.ends .write).copyState)
    (hwrite : (s'.ends .write).pendingEventFn = (s.ends .write).pendingEventFn)
    (hbuffers : ∀ i < s.copies, s'.buffers i = s.buffers i)
    (hcopies : s.copies ≤ s'.copies) (hdropped : s'.dropped = s.dropped)
    (hplaced : s'.placed = s.placed) : StreamInv e s' o l := by
  constructor
  case like => exact hlike
  case usable =>
    intro hp
    rw [hpending] at hp
    exact husable (h.usable hp)
  case read =>
    rcases h.read with ⟨hevent, hnot⟩ | ⟨hopen⟩
    · exact .closed (hread.trans hevent) (hpending ▸ hnot)
    · refine .opened ?_
      exact hopen.congr (hpending ▸ hread ▸ hopen.awaits) (hbuffers _ hopen.fresh) hcopies
        (fun hevent => hread ▸ hevent) hplaced
  case write => exact h.write.congr hpending hstate hwrite hbuffers hcopies
  case dropped =>
    rw [hdropped, hpending]
    exact h.dropped
  case placed =>
    intro x hx
    rw [hplaced] at hx
    exact lt_of_lt_of_le (h.placed x hx) hcopies

/-- A transfer out of a buffer of the host, after which the ends may have changed. -/
theorem StreamInv.fed (h : StreamInv e s o l) {source target n : Nat} {t : StreamState α}
    (hfed : Fed e source target n s t) (htarget : target < s.copies)
    (hends : s' = { t with ends := s'.ends }) {o' : Option Nat} {l' : List α}
    (hread : ReadSide e s' o') (hwrite : WriteSide e s' l') : StreamInv e s' o' l' := by
  have hmeta : s'.elemMeta = s.elemMeta := hends ▸ hfed.elemMeta
  have hpending : s'.pendingBufferMeta = s.pendingBufferMeta := hends ▸ hfed.pending
  obtain ⟨moved, hplaced, -, hbuffer⟩ := hfed.placed
  refine ⟨hmeta ▸ h.like, ?_, hread, hwrite, ?_, ?_⟩
  · rw [hmeta, hpending]
    exact h.usable
  · rw [hpending, show s'.dropped = s.dropped from hends ▸ hfed.dropped]
    exact h.dropped
  · have hall : s'.placed = s.placed ++ moved := (congrArg StreamState.placed hends).trans hplaced
    rw [hall, show s'.copies = s.copies from hends ▸ hfed.copies]
    intro x hx
    rcases List.mem_append.1 hx with hx | hx
    · exact h.placed x hx
    · exact hbuffer x hx ▸ htarget

/-! ## Events -/

/-- The state after the event of `side` with `result` has been delivered. -/
def StreamState.eventTaken (s : StreamState α) (side : Side) (result : CopyResult)
    (reclaim : Bool) : StreamState α :=
  { s with
    pendingBufferMeta := if reclaim then none else s.pendingBufferMeta
    ends := Function.update s.ends side { s.ends side with
      pendingEventFn := none
      copyState := if result = .dropped then .done else .idle } }

section

omit [StreamValue α]

@[simp] theorem eventTaken_event (s : StreamState α) (side : Side) (result : CopyResult)
    (reclaim : Bool) : ((s.eventTaken side result reclaim).ends side).pendingEventFn = none := by
  simp [eventTaken]

@[simp] theorem eventTaken_copyState (s : StreamState α) (side : Side) (result : CopyResult)
    (reclaim : Bool) : ((s.eventTaken side result reclaim).ends side).copyState =
      if result = .dropped then .done else .idle := by
  simp [eventTaken]

theorem eventTaken_ne (s : StreamState α) {side side' : Side} (result : CopyResult)
    (reclaim : Bool) (h : side' ≠ side) :
    (s.eventTaken side result reclaim).ends side' = s.ends side' := by
  simp [eventTaken, h]

theorem getPendingEvent_of_none {s : StreamState α} {side : Side}
    (h : (s.ends side).pendingEventFn = none) : s.getPendingEvent side = .ok none s := by
  unfold getPendingEvent
  rw [h]

theorem getPendingEvent_of_processFn {s : StreamState α} {side : Side} {buffer : Nat}
    {result : CopyResult} {reclaim : Bool} {rejectedLength : Option Nat}
    (h : (s.ends side).pendingEventFn = some (.processFn buffer result reclaim rejectedLength))
    (hlt : (s.buffers buffer).processed < MAX_LENGTH) :
    s.getPendingEvent side = .ok (some ⟨side.eventCode, (s.ends side).waitableIdx,
      packResult (s.buffers buffer).processed result, rejectedLength⟩)
      (s.eventTaken side result reclaim) := by
  unfold getPendingEvent
  rw [h]
  cases reclaim <;>
    simp [processFn, setEnd, setCopyState,
      resetPendingBufferMeta, not_le.2 hlt, eventTaken]

theorem hasPendingEvent_eq_false {s : StreamState α} {side : Side} :
    s.hasPendingEvent side = false ↔ (s.ends side).pendingEventFn = none := by
  unfold hasPendingEvent
  rw [isSome_eq_false_iff, isNone_iff_eq_none]

end

/-- An event of the read end reports all that was placed for it, and closes the
read. -/
theorem StreamInv.getReadEvent (h : StreamInv e s o l)
    (hsome : s.hasPendingEvent .read = true) :
    ∃ b event s', o = some b ∧ s.getPendingEvent .read = .ok (some event) s' ∧
      (∃ result reclaim rejectedLength,
        (s.ends .read).pendingEventFn = some (.processFn b result reclaim rejectedLength)) ∧
      event.code = Side.read.eventCode ∧ event.payload0 = (s'.ends .read).waitableIdx ∧
      progress event.payload1 = (s.buffers b).processed ∧ (s'.ends .read).isCopying = false ∧
      StreamInv e s' none l ∧ s'.placed = s.placed ∧ s'.dropped = s.dropped ∧
      s'.copies = s.copies ∧ s'.elemMeta = s.elemMeta ∧ s'.ends .write = s.ends .write := by
  unfold hasPendingEvent at hsome
  rcases h.read with ⟨hevent, -⟩ | @⟨b, hopen⟩
  · rw [hevent] at hsome
    cases hsome
  -- an event that reclaims the buffer belongs to the owner of the pending one
  obtain ⟨result, reclaim, rejectedLength, hfn, hnot, hkept⟩ :
      ∃ result reclaim rejectedLength,
        (s.ends .read).pendingEventFn = some (.processFn b result reclaim rejectedLength) ∧
        NotOwner (if reclaim then none else s.pendingBufferMeta) .read ∧
        (reclaim = true → ∃ p, s.pendingBufferMeta = some p ∧ p.onCopyFn.streamEnd = .read) := by
    rcases hopen.awaits with ⟨hp, he⟩ | ⟨hnot, he⟩
    · rcases he with he | he
      · rw [he] at hsome
        cases hsome
      · exact ⟨_, _, _, he, notOwner_none _, fun _ => ⟨_, hp, rfl⟩⟩
    · refine ⟨_, _, _, he, hnot, ?_⟩
      intro hfalse
      cases hfalse
  have hpack := progress_packResult (n := (s.buffers b).processed)
    (lt_trans hopen.processed_lt (by unfold MAX_LENGTH; omega)) result
  have hwrite : (s.eventTaken .read result reclaim).ends .write = s.ends .write :=
    eventTaken_ne s result reclaim Side.write_ne_read
  refine ⟨b, _, s.eventTaken .read result reclaim, rfl,
    getPendingEvent_of_processFn hfn hopen.processed_lt, ⟨result, reclaim, rejectedLength, hfn⟩,
    rfl, ?_, hpack, ?_, ?_, rfl, rfl, rfl, rfl, hwrite⟩
  · simp [eventTaken]
  · unfold StreamEnd.isCopying
    rw [eventTaken_copyState]
    by_cases hr : result = .dropped
    · rw [if_pos hr]
    · rw [if_neg hr]
  · constructor
    case like => exact h.like
    case usable =>
      intro hp
      refine h.usable ?_
      cases reclaim
      · exact hp
      · cases hp
    case read => exact .closed (eventTaken_event ..) hnot
    case write =>
      cases reclaim with
      | false =>
        exact h.write.congr rfl (congrArg _ hwrite) (congrArg _ hwrite) (fun _ _ => rfl)
          (le_refl _)
      | true =>
        -- the pending buffer is the reader's, so that the host's side is idle
        obtain ⟨p, hp, howner⟩ := hkept rfl
        rcases h.pending_cases hp with ⟨c, b', -, rfl, -, -, hstate, hevent⟩ | ⟨w, rfl, -⟩
        · exact .idle (hwrite ▸ hstate) (hwrite ▸ hevent) (notOwner_none _)
        · cases howner
    case dropped =>
      intro hd
      have hnone := h.dropped hd
      show (if reclaim then none else s.pendingBufferMeta) = none
      rw [hnone, ite_self]
    case placed => exact h.placed

/-- The host's end becomes idle, and a write that a read has met is over. -/
theorem StreamInv.getWriteEvent (h : StreamInv e s o l) :
    ∃ res s', s.getPendingEvent .write = .ok res s' ∧ StreamInv e s' o l ∧
      (s'.ends .write).pendingEventFn = none ∧ s'.placed = s.placed ∧ s'.dropped = s.dropped ∧
      s'.copies = s.copies ∧ s'.elemMeta = s.elemMeta ∧ s'.ends .read = s.ends .read ∧
      ((s.ends .write).pendingEventFn = none → s' = s) := by
  by_cases hnone : (s.ends .write).pendingEventFn = none
  · exact ⟨none, s, getPendingEvent_of_none hnone, h, hnone, rfl, rfl, rfl, rfl, rfl, fun _ => rfl⟩
  rcases h.write with ⟨-, hevent, -⟩ | ⟨-, hevent, -⟩ |
    @⟨w, result, reclaim, rejectedLength, hevent, hresult, hfresh, hprocessed, hpend⟩
  · exact absurd hevent hnone
  · exact absurd hevent hnone
  have hread : (s.eventTaken .write result reclaim).ends .read = s.ends .read :=
    eventTaken_ne s result reclaim Side.read_ne_write
  -- the write is not pending any more
  have hgone : (s.eventTaken .write result reclaim).pendingBufferMeta = none := by
    show (if reclaim then none else s.pendingBufferMeta) = none
    rcases hpend with hpend | ⟨-, hreclaim, -⟩
    · rw [hpend, ite_self]
    · rw [if_pos hreclaim]
  have hnot : NotOwner s.pendingBufferMeta .read := by
    rcases hpend with hpend | ⟨hpend, -⟩
    · rw [hpend]
      exact notOwner_none _
    · rw [hpend]
      exact notOwner_some Side.write_ne_read
  refine ⟨_, s.eventTaken .write result reclaim, getPendingEvent_of_processFn hevent hprocessed, ?_,
    eventTaken_event .., rfl, rfl, rfl, rfl, hread, fun hnone' => absurd hnone' hnone⟩
  constructor
  case like => exact h.like
  case usable =>
    intro hp
    rw [hgone] at hp
    cases hp
  case read =>
    have hfree := h.read.released hnot hread
    rw [← hgone] at hfree
    exact hfree
  case write =>
    refine .idle ?_ (eventTaken_event ..) (hgone ▸ notOwner_none _)
    rw [eventTaken_copyState, if_neg hresult]
  case dropped => exact fun _ => hgone
  case placed => exact h.placed

theorem StreamInv.resetWriteEndToIdle (h : StreamInv e s o l) :
    ∃ s', s.resetWriteEndToIdle = .ok () s' ∧ StreamInv e s' o l ∧
      (s'.ends .write).pendingEventFn = none ∧ s'.placed = s.placed ∧ s'.dropped = s.dropped ∧
      s.copies ≤ s'.copies ∧ s'.elemMeta = s.elemMeta ∧ s'.ends .read = s.ends .read := by
  obtain ⟨res, s', hget, hinv, hnone, hplaced, hdropped, hcopies, hmeta, hends, -⟩ :=
    h.getWriteEvent
  unfold StreamState.resetWriteEndToIdle
  by_cases hp : s.hasPendingEvent .write
  · rw [if_pos hp, hget]
    exact ⟨s', rfl, hinv, hnone, hplaced, hdropped, le_of_eq hcopies.symm, hmeta, hends⟩
  · rw [if_neg hp]
    exact ⟨s, rfl, h, hasPendingEvent_eq_false.1 (Bool.eq_false_of_not_eq_true hp), rfl, rfl,
      le_refl _, rfl, rfl⟩

/-! ## The end of a pending read -/

omit [StreamValue α] in
theorem resetAndNotifyPending_of_none (h : s.pendingBufferMeta = none) (result : CopyResult) :
    s.resetAndNotifyPending result = s := by
  unfold resetAndNotifyPending resetPendingBufferMeta
  rw [h, bind_none]
  rw [← h]

omit [StreamValue α] in
theorem resetAndNotifyPending_of_some {p : PendingBufferMeta} {f : Callback}
    (hp : s.pendingBufferMeta = some p) (hf : p.onCopyDoneFn = some f) (result : CopyResult) :
    s.resetAndNotifyPending result = { s with
      pendingBufferMeta := none
      ends := update s.ends f.streamEnd { s.ends f.streamEnd with
        pendingEventFn := some (.processFn f.buffer result false none) } } := by
  unfold resetAndNotifyPending
  rw [hp, bind_some, hf]
  rfl

variable {c : Int}

/-- The pending read gets a result, for what it has received so far. -/
theorem StreamInv.notifyReader (h : StreamInv e s o l)
    (hp : s.pendingBufferMeta = some ⟨c, b, ⟨.read, b⟩, some ⟨.read, b⟩, none⟩)
    (result : CopyResult) :
    StreamInv e (s.resetAndNotifyPending result) o l ∧
      (s.resetAndNotifyPending result).ends .write = s.ends .write ∧
      ((s.resetAndNotifyPending result).ends .read).copyState = (s.ends .read).copyState ∧
      ((s.resetAndNotifyPending result).ends .read).pendingEventFn =
        some (.processFn b result false none) := by
  obtain ⟨rfl, rfl, hopen, hstate, hevent⟩ := h.pending_read hp
  rw [resetAndNotifyPending_of_some hp rfl]
  refine ⟨?_, rfl, rfl, rfl⟩
  constructor
  case like => exact h.like
  case usable =>
    intro hp'
    cases hp'
  case read =>
    refine .opened (hopen.congr (.notified (notOwner_none _) rfl) rfl (le_refl _) ?_ rfl)
    intro hnone
    cases hnone
  case write => exact .idle hstate hevent (notOwner_none _)
  case dropped => exact fun _ => rfl
  case placed => exact h.placed

variable {result : CopyResult}

/-- A cancellation gives the pending read its result, if there is one; a write
that has been met is over as well. -/
theorem StreamInv.notify (h : StreamInv e s o []) (hne : result ≠ .dropped) :
    StreamInv e (s.resetAndNotifyPending result) o [] ∧
      (s.resetAndNotifyPending result).placed = s.placed ∧
      (s.resetAndNotifyPending result).dropped = s.dropped ∧
      (s.resetAndNotifyPending result).elemMeta = s.elemMeta ∧
      (s.resetAndNotifyPending result).copies = s.copies ∧
      ((s.resetAndNotifyPending result).ends .read).copyState = (s.ends .read).copyState ∧
      (((s.resetAndNotifyPending result).ends .write).pendingEventFn ≠ none →
        (s.ends .write).pendingEventFn ≠ none) ∧
      ((s.ends .read).pendingEventFn ≠ none →
        ((s.resetAndNotifyPending result).ends .read).pendingEventFn ≠ none) := by
  cases hp : s.pendingBufferMeta with
  | none =>
    rw [resetAndNotifyPending_of_none hp]
    exact ⟨h, rfl, rfl, rfl, rfl, rfl, id, id⟩
  | some p =>
    rcases h.pending_cases hp with ⟨c, b, -, -, rfl, -⟩ | ⟨w, rfl, hrest⟩
    · obtain ⟨hinv, hwrite, hstate, hread⟩ := h.notifyReader hp result
      rw [hwrite]
      rw [resetAndNotifyPending_of_some hp rfl] at hinv hstate hread ⊢
      exact ⟨hinv, rfl, rfl, rfl, rfl, hstate, id, fun _ => hread ▸ some_ne_none _⟩
    · rw [resetAndNotifyPending_of_some hp rfl]
      -- a write that still waited would hold values
      rcases h.write with ⟨-, -, hnot'⟩ | ⟨hpend, -, -, -, -, hrest', hsome⟩ |
        @⟨w', result', reclaim, rejectedLength, hevent, hresult, hfresh, hprocessed, hpend⟩
      · exact absurd rfl (hnot' _ hp)
      · exact absurd rfl hsome
      have hw : w' = w := by
        rcases hpend with hpend | ⟨hpend, -⟩
        · rw [hp] at hpend
          cases hpend
        · rw [hp] at hpend
          cases hpend
          rfl
      subst hw
      refine ⟨?_, rfl, rfl, rfl, rfl, rfl, ?_, id⟩
      · constructor
        case like => exact h.like
        case usable =>
          intro hp'
          cases hp'
        case read => exact h.read.released (hp ▸ notOwner_some Side.write_ne_read) rfl
        case write => exact .met rfl hne hfresh hprocessed (.inl rfl)
        case dropped => exact fun _ => rfl
        case placed => exact h.placed
      · intro _
        rw [hevent]
        exact some_ne_none _

/-- The host drops its end while a read waits. -/
theorem StreamInv.drop (h : StreamInv e s o l) (hd : s.dropped = false)
    (hp : s.pendingBufferMeta = some ⟨c, b, ⟨.read, b⟩, some ⟨.read, b⟩, none⟩) :
    ∃ s', s.drop .write = .ok () s' ∧ StreamInv e s' o l ∧ s'.dropped = true ∧
      s'.placed = s.placed ∧ s'.copies = s.copies ∧ s'.ends .write = s.ends .write ∧
      (s'.ends .read).copyState = (s.ends .read).copyState ∧
      (s'.ends .read).pendingEventFn ≠ none := by
  obtain ⟨rfl, rfl, hopen, hstate, hevent⟩ := h.pending_read hp
  unfold drop
  rw [hd, if_neg Bool.false_ne_true, hasPendingEvent_eq_false.2 hevent, if_neg Bool.false_ne_true]
  dsimp only
  generalize (if 0 < (s.pendingBufferMeta.map fun p => (s.buffers p.buffer).processed).getD 0
    then CopyResult.completed else .dropped) = result
  obtain ⟨hinv, hwrite, hstate', hread⟩ := h.notifyReader hp result
  rw [resetAndNotifyPending_of_some hp rfl] at hinv hwrite hstate' hread
  have hp' : ({ s with dropped := true } : StreamState α).pendingBufferMeta = some _ := hp
  rw [resetAndNotifyPending_of_some hp' rfl]
  refine ⟨_, rfl, ?_, rfl, rfl, rfl, hwrite, hstate', hread ▸ some_ne_none _⟩
  constructor
  case like => exact hinv.like
  case usable => exact hinv.usable
  case read =>
    rcases hinv.read with ⟨hevent', hnot⟩ | ⟨hopen'⟩
    exact .opened (hopen'.congr hopen'.awaits rfl (le_refl _) id rfl)
  case write => exact .idle (hwrite ▸ hstate) (hwrite ▸ hevent) (notOwner_none _)
  case dropped => exact fun _ => rfl
  case placed => exact hinv.placed

/-! ## Writes of the host -/

variable [DecidableEq α]

/-- The buffer of a write of the host. -/
def writeBuffer (e : ElemMeta α) (values : List α) : ManagedBuffer α :=
  ⟨-1, none, e, 0, values.length, 0, values⟩

/-- The stream with the buffer of the next write of the host. -/
def StreamState.withWrite (s : StreamState α) (values : List α) : StreamState α :=
  { s with
    copies := s.copies + 1
    buffers := Function.update s.buffers s.copies (writeBuffer s.elemMeta values) }

omit [DecidableEq α] in
theorem StreamInv.withWrite (h : StreamInv e s o l) (values : List α) :
    StreamInv e (s.withWrite values) o l := by
  refine h.congr h.like id rfl rfl rfl rfl ?_ (le_succ _) rfl rfl
  intro i hi
  exact update_of_ne (Nat.ne_of_lt hi) _ _

/-- What `writeMany` calls `copy` with. -/
def writeArgs (s : StreamState α) (values : List α) : CopyArgs α :=
  ⟨s.copies, true, none, -1, 0, values.length, none, none, values⟩

omit [StreamValue α] [DecidableEq α] in
theorem setupCopy_of_idle {side : Side} {args : CopyArgs α} {b : ManagedBuffer α}
    (hstate : (s.ends side).copyState = .idle) (hborrowed : s.elemMeta.isBorrowed = false)
    (hnew : ManagedBuffer.new args.componentIdx args.memory s.elemMeta args.ptr args.count
      args.data = .ok b) :
    setupCopy side args s = .ok ⟨side, args.buffer⟩
      { s with buffers := update s.buffers args.buffer b } := by
  have hcopying : ¬(s.ends side).isCopying = true := by
    unfold StreamEnd.isCopying
    rw [hstate]
    exact Bool.false_ne_true
  unfold setupCopy
  rw [if_neg hcopying, if_neg (not_not.2 hstate), hborrowed, if_neg Bool.false_ne_true, hnew]

/-- A copy without a string encoding of its own keeps that of the stream. -/
theorem copyStart_of_none {side : Side} {args : CopyArgs α} (s : StreamState α)
    (hencoding : args.stringEncoding = none) (hdropped : s.dropped = false) :
    copyStart side args s = match setupCopy side args s with
      | .error err s => .error err s
      | .ok own s => started <| match side with
          | .write => _write own args.componentIdx s
          | .read => _read own args.componentIdx args.rejectLength s := by
  have heta : ({ s with elemMeta := { s.elemMeta with
      stringEncoding := s.elemMeta.stringEncoding.or args.stringEncoding } } : StreamState α) = s := by
    rw [hencoding, or_none]
  have hnodrop : ¬s.dropped = true := by
    rw [hdropped]
    exact Bool.false_ne_true
  have hunset : ¬ (args.stringEncoding.isSome = true ∧
      s.elemMeta.stringEncoding.or args.stringEncoding ≠ args.stringEncoding) := by
    rw [hencoding]
    exact fun h => Bool.false_ne_true h.1
  refine (if_neg hunset).trans ((if_neg hnodrop).trans ?_)
  rewrite [heta]
  cases setupCopy side args s with
  | error err s' => rfl
  | ok own s' => cases side <;> rfl

/-- What the write becomes when its buffer has met the pending one. -/
def finishWrite : EStateM.Result JsError (StreamState α) Unit →
    EStateM.Result JsError (StreamState α) Unit
  | .error err s => if s.hasPendingEvent .write then .ok () s else .error err s
  | .ok () s =>
    match StreamState.copyFinish .write true s with
    | .ok _ s => .ok () s
    | .error err s => if s.hasPendingEvent .write then .ok () s else .error err s

variable {values : List α}

theorem writeMany_meeting (h : StreamInv e s o l)
    (hp : s.pendingBufferMeta = some ⟨c, b, ⟨.read, b⟩, some ⟨.read, b⟩, none⟩)
    (hmax : values.length ≤ MAX_LENGTH) :
    ∃ r, Meeting .write ⟨.write, s.copies⟩ (-1) (s.withWrite values) r ∧
      writeMany values s = finishWrite r := by
  obtain ⟨hencoding, halign, hborrowed⟩ := h.usable (by rw [hp]; rfl)
  have hdropped : s.dropped = false := by
    by_contra hd
    have hnone := h.dropped (by simpa using hd)
    rw [hp] at hnone
    cases hnone
  obtain ⟨-, -, -, hstate, -⟩ := h.pending_read hp
  obtain ⟨align32, halign⟩ := isSome_iff_exists.1 halign
  have hnew : ManagedBuffer.new (-1) none s.elemMeta 0 values.length values =
      .ok (writeBuffer s.elemMeta values) := by
    unfold ManagedBuffer.new
    rw [if_neg (not_lt.2 hmax), halign]
    simp [writeBuffer]
  refine ⟨_, _write_meeting (s := s.withWrite values) hdropped ?_, ?_⟩
  · intro p hp'
    cases hp.symm.trans hp'
    rfl
  · have hsetup : setupCopy .write (writeArgs s values)
        { s with copies := s.copies + 1 } = .ok ⟨.write, s.copies⟩ (s.withWrite values) :=
      setupCopy_of_idle hstate hborrowed hnew
    unfold writeMany
    dsimp only
    rw [hnew]
    unfold copy
    rw [copyStart_of_none { s with copies := s.copies + 1 } rfl hdropped]
    unfold writeArgs at hsetup
    rw [hsetup]
    dsimp only
    unfold started finishWrite
    cases _write ⟨.write, s.copies⟩ (-1) (s.withWrite values) with
    | error err s' => rfl
    | ok _ s' => rfl

omit [StreamValue α] [DecidableEq α] in
/-- A copy with an event consumes it. -/
theorem copyFinish_of_processFn {side : Side} {isAsync : Bool} {buffer : Nat}
    {reclaim : Bool} {rejectedLength : Option Nat}
    (h : (s.ends side).pendingEventFn = some (.processFn buffer result reclaim rejectedLength))
    (hlt : (s.buffers buffer).processed < MAX_LENGTH) :
    copyFinish side isAsync s =
      .ok (.packed (packResult (s.buffers buffer).processed result))
        (s.eventTaken side result reclaim) := by
  have hsome : s.hasPendingEvent side = true := by
    unfold hasPendingEvent
    rw [h]
    rfl
  unfold copyFinish copyEvent
  rw [if_pos hsome, getPendingEvent_of_processFn h hlt]
  simp [eventTaken]

omit [StreamValue α] [DecidableEq α] in
theorem finishWrite_of_processFn {buffer : Nat} {reclaim : Bool}
    {rejectedLength : Option Nat}
    (h : (s.ends .write).pendingEventFn = some (.processFn buffer result reclaim rejectedLength))
    (hlt : (s.buffers buffer).processed < MAX_LENGTH) :
    finishWrite (.ok () s) = .ok () (s.eventTaken .write result reclaim) := by
  unfold finishWrite
  dsimp only
  rw [copyFinish_of_processFn h hlt]

omit [StreamValue α] [DecidableEq α] in
theorem valuesIn_append {s s' : StreamState α} {moved : List (Entry α)}
    (hplaced : s'.placed = s.placed ++ moved) (hmoved : ∀ x ∈ moved, x.buffer = b) :
    s'.valuesIn b = s.valuesIn b ++ moved.map Entry.value := by
  have hall : moved.filter (·.buffer = b) = moved := by
    refine List.filter_eq_self.2 ?_
    intro x hx
    exact decide_eq_true (hmoved x hx)
  unfold valuesIn
  rw [hplaced, List.filter_append, hall, List.map_append]

/-- What a write of the host to the read into `b` leaves: `moved` went into the
read's buffer, and `l` waits for the next read. -/
structure Written (e : ElemMeta α) (s s' : StreamState α) (b : Nat) (values moved l : List α) :
    Prop where
  inv : StreamInv e s' (some b) l
  values : moved ++ l = values.map e.asElement
  placed : s'.placed.map Entry.value = s.placed.map Entry.value ++ moved
  valuesIn : s'.valuesIn b = s.valuesIn b ++ moved
  event : (s'.ends .write).pendingEventFn = none
  copyState : (s'.ends .read).copyState = (s.ends .read).copyState
  dropped : s'.dropped = s.dropped
  copies : s.copies ≤ s'.copies

omit [StreamValue α] [DecidableEq α] in
theorem withWrite_own {values : List α} :
    (s.withWrite values).buffers s.copies = writeBuffer s.elemMeta values :=
  update_self ..

omit [DecidableEq α] in
theorem StreamInv.rest_writeBuffer (h : StreamInv e s o l) (values : List α) :
    (writeBuffer s.elemMeta values).rest = values.map e.asElement := by
  rw [← h.like.asElement]
  exact rest_new (-1) s.elemMeta values

omit [DecidableEq α] in
/-- A write of no values. -/
theorem StreamInv.writesNothing (h : StreamInv e s (some b) [])
    (hstate : (s.ends .write).copyState = .idle) (hnone : (s.ends .write).pendingEventFn = none) :
    ∃ s', finishWrite (.ok () ((s.withWrite []).onCopyDoneFn ⟨.write, s.copies⟩ .completed none)) =
        .ok () s' ∧ Written e s s' b [] [] [] := by
  have hfn : (((s.withWrite []).onCopyDoneFn ⟨.write, s.copies⟩ .completed none).ends
      .write).pendingEventFn = some (.processFn s.copies .completed false none) :=
    setPendingEvent_self _ _ _
  have hprocessed : (((s.withWrite []).onCopyDoneFn ⟨.write, s.copies⟩ .completed none).buffers
      s.copies).processed < MAX_LENGTH := by
    show ((s.withWrite []).buffers s.copies).processed < _
    rw [withWrite_own]
    show 0 < MAX_LENGTH
    decide
  refine ⟨_, finishWrite_of_processFn hfn hprocessed, ?_⟩
  constructor
  case inv =>
    refine (h.withWrite []).congr h.like id rfl ?_ ?_ ?_ (fun _ _ => rfl) (le_refl _) rfl rfl
    · rw [eventTaken_ne _ _ _ Side.read_ne_write]
      exact congrArg _ (setPendingEvent_ne _ _ Side.read_ne_write)
    · rw [eventTaken_copyState]
      exact hstate.symm
    · rw [eventTaken_event]
      exact hnone.symm
  case values => rfl
  case placed => exact (List.append_nil _).symm
  case valuesIn => exact (List.append_nil _).symm
  case event => exact eventTaken_event ..
  case copyState =>
    rw [eventTaken_ne _ _ _ Side.read_ne_write]
    exact setPendingEvent_copyState _ _ _ _
  case dropped => rfl
  case copies => exact le_succ _

omit [DecidableEq α] in
/-- A write to a read of no elements waits for the next read. -/
theorem StreamInv.writesLater (h : StreamInv e s (some b) [])
    (hp : s.pendingBufferMeta = some ⟨c, b, ⟨.read, b⟩, some ⟨.read, b⟩, none⟩)
    (hnone : (s.ends .write).pendingEventFn = none) (hsome : values ≠ []) :
    ∃ s', finishWrite (.ok () (((s.withWrite values).resetAndNotifyPending
          .completed).setPendingBufferMeta (hostMeta s.copies))) = .ok () s' ∧
      Written e s s' b values [] (values.map e.asElement) := by
  have hrest := h.rest_writeBuffer values
  have hp' : (s.withWrite values).pendingBufferMeta = some _ := hp
  obtain ⟨hinv, hwrite, hstate, hread⟩ := (h.withWrite values).notifyReader hp' .completed
  have husable := h.usable (by rw [hp]; rfl)
  -- the read has its event, and nothing is pending
  obtain ⟨t, ht⟩ : ∃ t, t = (s.withWrite values).resetAndNotifyPending .completed := ⟨_, rfl⟩
  obtain ⟨hbuffers, hcopies, hmeta, hplaced, hdropped⟩ :
      t.buffers s.copies = writeBuffer s.elemMeta values ∧ t.copies = s.copies + 1 ∧
      t.elemMeta = s.elemMeta ∧ t.placed = s.placed ∧ t.dropped = s.dropped := by
    rw [ht, resetAndNotifyPending_of_some hp' rfl]
    exact ⟨withWrite_own, rfl, rfl, rfl, rfl⟩
  rw [← ht] at hinv hwrite hstate hread ⊢
  have hevent : (t.ends .write).pendingEventFn = none := (congrArg _ hwrite).trans hnone
  -- the write finds no event, so that it blocks
  have hfinish : finishWrite (.ok () (t.setPendingBufferMeta (hostMeta s.copies))) =
      .ok () ((t.setPendingBufferMeta (hostMeta s.copies)).setCopyState .write .asyncCopying) := by
    unfold finishWrite copyFinish
    dsimp only
    have hfalse : (t.setPendingBufferMeta (hostMeta s.copies)).hasPendingEvent .write = false :=
      hasPendingEvent_eq_false.2 hevent
    rw [hfalse, if_neg Bool.false_ne_true, if_pos rfl]
  refine ⟨_, hfinish, ?_⟩
  rcases hinv.read with ⟨-, -⟩ | ⟨hopen⟩
  have hread' : ((t.setPendingBufferMeta (hostMeta s.copies)).setCopyState .write
      .asyncCopying).ends .read = t.ends .read := by
    simp [setCopyState, setEnd, setPendingBufferMeta]
  have hwrite' : (((t.setPendingBufferMeta (hostMeta s.copies)).setCopyState .write
      .asyncCopying).ends .write).pendingEventFn = none := by
    simp only [setCopyState, setEnd, update_self]
    exact hevent
  constructor
  case inv =>
    constructor
    case like => exact hinv.like
    case usable =>
      intro _
      show t.elemMeta.Usable
      rw [hmeta]
      exact husable
    case read =>
      refine .opened (hopen.congr ?_ rfl (le_refl _) ?_ rfl)
      · rw [hread', hread]
        exact .notified (notOwner_some Side.write_ne_read) rfl
      · rw [hread']
        exact id
    case write =>
      refine .waiting rfl hwrite' ?_ ?_ ?_ ?_ ?_
      · show s.copies < t.copies
        rw [hcopies]
        exact lt_succ_self _
      · show HostBuffer e (t.buffers s.copies)
        rw [hbuffers]
        refine ⟨h.like, husable.encoding, rfl, ?_⟩
        rw [hrest, List.length_map]
        rfl
      · show (t.buffers s.copies).processed = 0
        rw [hbuffers]
        rfl
      · show (t.buffers s.copies).rest = _
        rw [hbuffers, hrest]
      · rw [Ne, List.map_eq_nil_iff]
        exact hsome
    case dropped =>
      intro hd
      have hnone' := h.dropped (hdropped ▸ hd)
      rw [hp] at hnone'
      cases hnone'
    case placed => exact hinv.placed
  case values => rfl
  case placed => exact (congrArg _ hplaced).trans (List.append_nil _).symm
  case valuesIn =>
    rw [List.append_nil]
    show (t.placed.filter _).map _ = (s.placed.filter _).map _
    rw [hplaced]
  case event => exact hwrite'
  case copyState =>
    rw [hread']
    exact hstate
  case dropped => exact hdropped
  case copies =>
    show s.copies ≤ t.copies
    rw [hcopies]
    exact le_succ _

omit [DecidableEq α] in
/-- A write to a read that has room for all of its values. -/
theorem StreamInv.writesNow {t : StreamState α}
    (h : StreamInv e s (some b) [])
    (hp : s.pendingBufferMeta = some ⟨c, b, ⟨.read, b⟩, some ⟨.read, b⟩, none⟩)
    (hzero : (s.buffers b).processed = 0) (hle : values.length ≤ (s.buffers b).remaining)
    (hmax : values.length ≠ MAX_LENGTH)
    (hfed : Fed e s.copies b values.length (s.withWrite values) t) :
    ∃ s', finishWrite (.ok () ((t.onCopyFn ⟨.read, b⟩).onCopyDoneFn ⟨.write, s.copies⟩ .completed
          none)) = .ok () s' ∧
      Written e s s' b values (values.map e.asElement) [] := by
  rcases h.read with ⟨-, -⟩ | ⟨hopen⟩
  have hne : b ≠ s.copies := Nat.ne_of_lt hopen.fresh
  have hrest := h.rest_writeBuffer values
  have hread : (s.withWrite values).buffers b = s.buffers b := update_of_ne hne _ _
  have hlt : values.length < MAX_LENGTH := by
    have hcapacity := hopen.capacity
    unfold ManagedBuffer.remaining at hle
    omega
  have hprocessed : (t.buffers s.copies).processed = values.length := by
    rw [hfed.hostProcessed, withWrite_own]
    exact zero_add _
  obtain ⟨ptr, data, hguest⟩ := hfed.guest
  rw [hread, hzero, zero_add] at hguest
  -- What the read has taken is what the write offers.
  obtain ⟨moved, hplaced, hmoved, hbuffer⟩ := hfed.placed
  rw [withWrite_own, hrest, List.take_of_length_le (by rw [List.length_map])] at hmoved
  have hvaluesIn := valuesIn_append hplaced hbuffer
  have hbefore : (s.valuesIn b).length = 0 := hopen.valuesIn.trans hzero
  have hfn : (((t.onCopyFn ⟨.read, b⟩).onCopyDoneFn ⟨.write, s.copies⟩ .completed none).ends
      .write).pendingEventFn = some (.processFn s.copies .completed false none) :=
    setPendingEvent_self _ _ _
  -- The event of the read waits, that of the write is taken at once.
  have hevent : ((eventTaken ((t.onCopyFn ⟨.read, b⟩).onCopyDoneFn ⟨.write, s.copies⟩
      .completed none) .write .completed false).ends .read).pendingEventFn =
      some (.processFn b .completed true none) := by
    rw [eventTaken_ne _ _ _ Side.read_ne_write]
    refine (congrArg _ (setPendingEvent_ne _ _ Side.read_ne_write)).trans ?_
    exact setPendingEvent_self _ _ _
  refine ⟨_, finishWrite_of_processFn hfn (hprocessed ▸ hlt), ?_⟩
  constructor
  case inv =>
    refine (h.withWrite values).fed hfed (lt_succ_of_lt hopen.fresh) rfl (.opened ?_) ?_
    · refine .filled { s.buffers b with ptr, hostOnlyData := data } hguest ?_ ?_ hopen.like
        hopen.encoding hopen.capacity ?_ hmax ?_ ?_
      · rw [hevent]
        exact .pending (hfed.pending.trans hp) (.inr rfl)
      · exact hfed.copies ▸ lt_succ_of_lt hopen.fresh
      · exact le_trans hle (sub_le _ _)
      · rw [hevent]
        intro hnone
        cases hnone
      · show (t.valuesIn b).length = values.length
        rw [hvaluesIn, List.length_append, hmoved, List.length_map]
        show (s.valuesIn b).length + _ = _
        rw [hbefore, zero_add]
    · refine .idle ?_ (eventTaken_event ..) ?_
      · rw [eventTaken_copyState]
        rfl
      · show NotOwner t.pendingBufferMeta .write
        rw [hfed.pending]
        exact hp ▸ notOwner_some Side.read_ne_write
  case values => exact List.append_nil _
  case placed =>
    show t.placed.map _ = s.placed.map _ ++ _
    rw [hplaced, List.map_append, hmoved]
    rfl
  case valuesIn =>
    show t.valuesIn b = _
    rw [hvaluesIn, hmoved]
    rfl
  case event => exact eventTaken_event ..
  case copyState =>
    rw [eventTaken_ne _ _ _ Side.read_ne_write]
    refine (setPendingEvent_copyState _ _ _ _).trans ?_
    refine (setPendingEvent_copyState _ _ _ _).trans ?_
    rw [hfed.ends]
    rfl
  case dropped => exact hfed.dropped
  case copies =>
    show s.copies ≤ t.copies
    rw [hfed.copies]
    exact le_succ _

/-- An accepted write succeeds at once and keeps all of its values. -/
theorem StreamInv.writeMany (h : StreamInv e s (some b) l)
    (hp : s.pendingBufferMeta = some ⟨c, b, ⟨.read, b⟩, some ⟨.read, b⟩, none⟩)
    (hevent : (s.ends .read).pendingEventFn = none) (hmax : values.length ≤ MAX_LENGTH)
    (haccepts : (s.buffers b).Accepts (s.memoryOf (s.buffers b)) values) :
    l = [] ∧ ∃ s' moved l', writeMany values s = .ok () s' ∧
      Written e s s' b values moved l' := by
  obtain ⟨r, hmeet, hwrite⟩ := writeMany_meeting h hp hmax
  rw [hwrite]
  obtain ⟨-, rfl, hopen, hstate, hnone⟩ := h.pending_read hp
  refine ⟨rfl, ?_⟩
  have hne : b ≠ s.copies := Nat.ne_of_lt hopen.fresh
  have hzero := hopen.untouched hevent
  -- the two buffers that meet
  have hown : (s.withWrite values).buffers s.copies = writeBuffer s.elemMeta values :=
    withWrite_own
  have hread : (s.withWrite values).buffers b = s.buffers b := update_of_ne hne _ _
  have hremaining : (writeBuffer s.elemMeta values).remaining = values.length := rfl
  have hrest := h.rest_writeBuffer values
  have hpending : ∀ p, (s.withWrite values).pendingBufferMeta = some p →
      p = ⟨c, b, ⟨.read, b⟩, some ⟨.read, b⟩, none⟩ := by
    intro p hp'
    exact Option.some.inj (hp'.symm.trans hp)
  -- with room in both buffers, everything is accepted and moves
  have hmoves : ∀ n, 0 < n → n = min values.length (s.buffers b).remaining →
      n = values.length ∧ values.length ≤ (s.buffers b).remaining ∧ values.length ≠ MAX_LENGTH ∧
      ∃ t, transfer s.copies b n (s.withWrite values) = .ok () t ∧
        Fed e s.copies b n (s.withWrite values) t := by
    intro n hn hmin
    have hsome : values ≠ [] := by
      intro hnil
      subst hnil
      rw [List.length_nil, zero_min] at hmin
      omega
    obtain ⟨hlength, hroom⟩ := haccepts hsome
    rcases hroom with hroom | ⟨hle, hlowers⟩
    · rw [hroom, min_zero] at hmin
      omega
    · rw [min_eq_left hle] at hmin
      subst hmin
      refine ⟨rfl, hle, hlength, ?_⟩
      refine transfer_fed (hown ▸ ⟨h.like, (h.usable (by rw [hp]; rfl)).encoding, rfl, ?_⟩) hne hn ?_ ?_ ?_
      · rw [hrest, List.length_map, hremaining]
      · rw [hown, hremaining]
      · rw [hread]
        exact hle
      · rw [hown, hread, hrest, List.take_of_length_le (by rw [List.length_map]),
          ← hopen.like.asElement]
        exact hlowers
  cases hmeet with
  | fails err hp' hbad =>
    exfalso
    obtain rfl := hpending _ hp'
    rw [hown, hread] at hbad
    rcases hbad with hbad | hbad
    · rw [hopen.like.payloadTypeName] at hbad
      exact hbad h.like.payloadTypeName.symm
    · unfold sameComponent writeBuffer at hbad
      simp at hbad
  | waits hp' => cases hp.symm.trans hp'
  | completes hp' hnothing =>
    rw [hown, hremaining, List.length_eq_zero_iff] at hnothing
    subst hnothing
    obtain ⟨s', hfinish, hwritten⟩ := h.writesNothing hstate hnone
    exact ⟨s', [], [], hfinish, hwritten⟩
  | displaces hp' hfull hunit =>
    obtain rfl := hpending _ hp'
    rw [hread] at hfull
    have hsome : values ≠ [] := by
      intro hnil
      refine hunit rfl ⟨?_, ?_⟩
      · rw [hown, hnil]
        rfl
      · rw [hread]
        unfold ManagedBuffer.remaining at hfull
        omega
    obtain ⟨s', hfinish, hwritten⟩ := h.writesLater hp hnone hsome
    exact ⟨s', [], _, hfinish, hwritten⟩
  | tears hp' hn hmin ht =>
    obtain rfl := hpending _ hp'
    rw [hown, hread, hremaining] at hmin
    obtain ⟨-, -, -, t, hok, -⟩ := hmoves _ hn hmin
    cases ht.symm.trans hok
  | moves hp' hn hmin ht =>
    obtain rfl := hpending _ hp'
    rw [hown, hread, hremaining] at hmin
    obtain ⟨hlength, hle, hlimit, t, hok, hfed⟩ := hmoves _ hn hmin
    obtain ⟨-, rfl⟩ := EStateM.Result.ok.inj (ht.symm.trans hok)
    rw [hlength] at hfed
    obtain ⟨s', hfinish, hwritten⟩ := h.writesNow hp hzero hle hlimit hfed
    exact ⟨s', _, [], hfinish, hwritten⟩

/-! ## Reads of the guest -/

/-- The buffer of a read. -/
def readBuffer (e : ElemMeta α) (ctx : StreamCtx) (ptr count : Int) : ManagedBuffer α :=
  ⟨ctx.componentIdx, some ctx.memory,
    { e with stringEncoding := e.stringEncoding.or (some ctx.stringEncoding) }, ptr,
    clampCount count, 0, []⟩

omit [StreamValue α] [DecidableEq α] in
theorem readBuffer_encoding (e : ElemMeta α) (ctx : StreamCtx) (ptr count : Int) :
    (readBuffer e ctx ptr count).elemMeta.stringEncoding.isSome := by
  simp [readBuffer]

/-- The stream with the buffer of the next read. -/
def StreamState.withRead (s : StreamState α) (ctx : StreamCtx) (ptr count : Int) : StreamState α :=
  { s with
    elemMeta := (readBuffer s.elemMeta ctx ptr count).elemMeta
    copies := s.copies + 1
    buffers := Function.update s.buffers s.copies (readBuffer s.elemMeta ctx ptr count) }

/-- The stream when a copy with these options has been called. -/
def StreamState.withEncoding (s : StreamState α) (enc : StringEncoding) : StreamState α :=
  { s with
    elemMeta := { s.elemMeta with stringEncoding := s.elemMeta.stringEncoding.or (some enc) }
    copies := s.copies + 1 }

section

omit [DecidableEq α]

omit [StreamValue α] in
theorem ElemMeta.Usable.encoded {e : ElemMeta α} (h : e.Usable) (enc : StringEncoding) :
    ElemMeta.Usable { e with stringEncoding := e.stringEncoding.or (some enc) } := by
  exact ⟨by simp, h.align32, h.isBorrowed⟩

theorem StreamInv.withEncoding (h : StreamInv e s o l) (enc : StringEncoding) :
    StreamInv e (s.withEncoding enc) o l :=
  h.congr h.like (fun hu => hu.encoded enc) rfl rfl rfl rfl (fun _ _ => rfl) (le_succ _) rfl rfl

theorem StreamInv.withRead (h : StreamInv e s o l) (ctx : StreamCtx) (ptr count : Int) :
    StreamInv e (s.withRead ctx ptr count) o l := by
  refine h.congr h.like (fun hu => hu.encoded _) rfl rfl rfl rfl ?_ (le_succ _) rfl rfl
  intro i hi
  exact update_of_ne (Nat.ne_of_lt hi) _ _

/-- Without an event of the host, a pending buffer of the host waits. -/
theorem StreamInv.pending_waits (h : StreamInv e s none l)
    (hnone : (s.ends .write).pendingEventFn = none) {p : PendingBufferMeta}
    (hp : s.pendingBufferMeta = some p) :
    ∃ w, p = hostMeta w ∧ w < s.copies ∧ HostBuffer e (s.buffers w) ∧
      (s.buffers w).processed = 0 ∧ (s.buffers w).rest = l ∧ l ≠ [] := by
  rcases h.write with ⟨-, -, hnot⟩ | ⟨hpending, -, hfresh, hbuffer, hprocessed, hrest, hsome⟩ |
    ⟨hevent, -⟩
  · rcases h.pending_cases hp with ⟨_, _, hb, _⟩ | ⟨w, rfl, -⟩
    · cases hb
    · exact absurd rfl (hnot _ hp)
  · exact ⟨_, Option.some.inj (hp.symm.trans hpending), hfresh, hbuffer, hprocessed, hrest, hsome⟩
  · rw [hnone] at hevent
    cases hevent

/-- Nobody has placed anything in a buffer that does not exist yet. -/
theorem StreamInv.valuesIn_fresh (h : StreamInv e s o l) : s.valuesIn s.copies = [] := by
  unfold valuesIn
  rw [List.map_eq_nil_iff, List.filter_eq_nil_iff]
  intro x hx heq
  exact Nat.ne_of_lt (h.placed x hx) (of_decide_eq_true heq)

end

/-- What a read leaves: it has received `moved`, and `l` is what the host has
written beyond. It waits, or it has its event. -/
structure Reads (e : ElemMeta α) (s s' : StreamState α) (ctx : StreamCtx) (ptr count : Int)
    (moved l : List α) : Prop where
  inv : StreamInv e s' (some s.copies) l
  placed : s'.placed.map Entry.value = s.placed.map Entry.value ++ moved
  valuesIn : s'.valuesIn s.copies = moved
  copyState : ∀ side, (s'.ends side).copyState = (s.ends side).copyState
  dropped : s'.dropped = s.dropped
  waits : (s'.ends .read).pendingEventFn = none →
    moved = [] ∧ s.pendingBufferMeta = none ∧ (s'.ends .write).pendingEventFn = none ∧
    s'.pendingBufferMeta = some ⟨ctx.componentIdx, s.copies, ⟨.read, s.copies⟩,
      some ⟨.read, s.copies⟩, none⟩ ∧
    s'.buffers s.copies = readBuffer s.elemMeta ctx ptr count ∧ s'.memories = s.memories

section

variable {ctx : StreamCtx} {ptr count : Int}

omit [DecidableEq α] in
/-- The open read of a buffer that nothing has been placed in. -/
theorem ReadOpen.new {t : StreamState α} (h : StreamInv e s none l)
    (hmax : clampCount count ≤ MAX_LENGTH)
    (hbuffer : t.buffers s.copies = readBuffer s.elemMeta ctx ptr count)
    (hcopies : t.copies = s.copies + 1) (hplaced : t.placed = s.placed)
    (hawaits : Awaits t.pendingBufferMeta (t.ends .read).pendingEventFn .read s.copies) :
    ReadOpen e t s.copies := by
  refine .filled _ hbuffer hawaits ?_ h.like (readBuffer_encoding ..) hmax (zero_le _) (by decide)
    (fun _ => rfl) ?_
  · rw [hcopies]
    exact lt_succ_self _
  · have hfresh := h.valuesIn_fresh
    unfold StreamState.valuesIn at hfresh ⊢
    rw [hplaced, hfresh]
    rfl

omit [StreamValue α] [DecidableEq α] in
theorem withRead_own : (s.withRead ctx ptr count).buffers s.copies =
    readBuffer s.elemMeta ctx ptr count :=
  update_self ..

omit [DecidableEq α] in
/-- A read that finds nothing pending waits. -/
theorem StreamInv.readWaits (h : StreamInv e s none l)
    (hevent : (s.ends .read).pendingEventFn = none)
    (hnone : (s.ends .write).pendingEventFn = none) (hmax : clampCount count ≤ MAX_LENGTH)
    (hdropped : s.dropped = false) (halign : s.elemMeta.align32.isSome)
    (hborrowed : s.elemMeta.isBorrowed = false) (hp : s.pendingBufferMeta = none) :
    l = [] ∧ Reads e s ((s.withRead ctx ptr count).setPendingBufferMeta
      ⟨ctx.componentIdx, s.copies, ⟨.read, s.copies⟩, some ⟨.read, s.copies⟩, none⟩)
      ctx ptr count [] [] := by
  have hinv := h.withRead ctx ptr count
  have hl : l = [] := by
    rw [← h.hostHeld]
    unfold StreamState.hostHeld
    rw [hp]
  subst hl
  refine ⟨rfl, ?_⟩
  constructor
  case inv =>
    constructor
    case like => exact hinv.like
    case usable =>
      exact fun _ => ⟨readBuffer_encoding s.elemMeta ctx ptr count, halign, hborrowed⟩
    case read => exact .opened (.new h hmax withRead_own rfl rfl (.pending rfl (.inl hevent)))
    case write =>
      rcases h.write with ⟨hstate, -, -⟩ | ⟨hpending, -⟩ | ⟨hwrite, -⟩
      · exact .idle hstate hnone (notOwner_some Side.read_ne_write)
      · rw [hp] at hpending
        cases hpending
      · rw [hnone] at hwrite
        cases hwrite
    case dropped =>
      intro hd
      exact absurd (hd.symm.trans hdropped) (by decide)
    case placed => exact hinv.placed
  case placed => exact (List.append_nil _).symm
  case valuesIn => exact h.valuesIn_fresh
  case copyState => exact fun _ => rfl
  case dropped => rfl
  case waits => exact fun _ => ⟨rfl, hp, hnone, rfl, withRead_own, rfl⟩

omit [DecidableEq α] in
/-- A read of no elements leaves the pending write where it is. -/
theorem StreamInv.readsNothing (h : StreamInv e s none l) {w : Nat}
    (hp : s.pendingBufferMeta = some (hostMeta w)) (hmax : clampCount count ≤ MAX_LENGTH) :
    Reads e s ((s.withRead ctx ptr count).onCopyDoneFn ⟨.read, s.copies⟩ .completed none)
      ctx ptr count [] l := by
  have hinv := h.withRead ctx ptr count
  have hevent : (((s.withRead ctx ptr count).onCopyDoneFn ⟨.read, s.copies⟩ .completed none).ends
      .read).pendingEventFn = some (.processFn s.copies .completed false none) :=
    setPendingEvent_self _ _ _
  have hwrite : ((s.withRead ctx ptr count).onCopyDoneFn ⟨.read, s.copies⟩ .completed none).ends
      .write = s.ends .write :=
    setPendingEvent_ne _ _ Side.write_ne_read
  constructor
  case inv =>
    constructor
    case like => exact hinv.like
    case usable => exact hinv.usable
    case read =>
      refine .opened (.new h hmax withRead_own rfl rfl ?_)
      rw [hevent]
      refine .notified ?_ rfl
      exact hp ▸ notOwner_some Side.write_ne_read
    case write =>
      exact hinv.write.congr rfl (congrArg _ hwrite) (congrArg _ hwrite) (fun _ _ => rfl)
        (le_refl _)
    case dropped => exact hinv.dropped
    case placed => exact hinv.placed
  case placed => exact (List.append_nil _).symm
  case valuesIn => exact h.valuesIn_fresh
  case copyState => exact fun side => setPendingEvent_copyState _ _ side _
  case dropped => rfl
  case waits =>
    rw [hevent]
    intro hnone
    cases hnone

omit [DecidableEq α] in
/-- A read takes all that a pending write holds. -/
theorem StreamInv.readsAll (h : StreamInv e s none l) {w : Nat} {t : StreamState α}
    (hp : s.pendingBufferMeta = some (hostMeta w)) (hw : w < s.copies)
    (hzero : (s.buffers w).processed = 0) (hrest : (s.buffers w).rest = l)
    (hmax : clampCount count ≤ MAX_LENGTH) (hle : l.length ≤ clampCount count)
    (hlimit : l.length ≠ MAX_LENGTH)
    (hfed : Fed e w s.copies l.length (s.withRead ctx ptr count) t) :
    Reads e s ((t.onCopyFn ⟨.write, w⟩).onCopyDoneFn ⟨.read, s.copies⟩ .completed none)
      ctx ptr count l [] := by
  have hinv := h.withRead ctx ptr count
  have hheld : (s.withRead ctx ptr count).buffers w = s.buffers w :=
    update_of_ne (Nat.ne_of_lt hw) _ _
  have hlt : l.length < MAX_LENGTH := lt_of_le_of_ne (le_trans hle hmax) hlimit
  obtain ⟨ptr', data, hguest⟩ := hfed.guest
  rw [withRead_own, show (readBuffer s.elemMeta ctx ptr count).processed = 0 from rfl,
    zero_add] at hguest
  have hwritten : (t.buffers w).processed = l.length := by
    rw [hfed.hostProcessed, hheld, hzero, zero_add]
  have hempty : (t.buffers w).rest = [] := by
    rw [hfed.rest, hheld, hrest, List.drop_length]
  obtain ⟨moved, hplaced, hmoved, hbuffer⟩ := hfed.placed
  rw [hheld, hrest, List.take_length] at hmoved
  have hvaluesIn : t.valuesIn s.copies = l := by
    rw [valuesIn_append hplaced hbuffer, hmoved]
    exact congrArg (· ++ l) h.valuesIn_fresh
  -- both ends have an event
  have hevent : (((t.onCopyFn ⟨.write, w⟩).onCopyDoneFn ⟨.read, s.copies⟩ .completed none).ends
      .read).pendingEventFn = some (.processFn s.copies .completed false none) :=
    setPendingEvent_self _ _ _
  have hwrite : (((t.onCopyFn ⟨.write, w⟩).onCopyDoneFn ⟨.read, s.copies⟩ .completed none).ends
      .write).pendingEventFn = some (.processFn w .completed true none) := by
    refine (congrArg _ (setPendingEvent_ne _ _ Side.write_ne_read)).trans ?_
    exact setPendingEvent_self _ _ _
  have hpending : t.pendingBufferMeta = some (hostMeta w) := hfed.pending.trans hp
  constructor
  case inv =>
    refine hinv.fed hfed (lt_succ_self _) rfl (.opened ?_) ?_
    · refine .filled { readBuffer s.elemMeta ctx ptr count with ptr := ptr', hostOnlyData := data }
        hguest ?_ (hfed.copies ▸ lt_succ_self _) h.like
        (readBuffer_encoding _ _ ptr count) hmax hle hlimit ?_ (congrArg _ hvaluesIn)
      · rw [hevent]
        exact .notified (hpending ▸ notOwner_some Side.write_ne_read) rfl
      · rw [hevent]
        intro hnone
        cases hnone
    · refine .met hwrite (by decide) ?_ ?_ (.inr ⟨hpending, rfl, hempty⟩)
      · exact hfed.copies ▸ lt_succ_of_lt hw
      · show (t.buffers w).processed < _
        rw [hwritten]
        exact hlt
  case placed =>
    show t.placed.map _ = s.placed.map _ ++ _
    rw [hplaced, List.map_append, hmoved]
    rfl
  case valuesIn => exact hvaluesIn
  case copyState =>
    intro side
    refine (setPendingEvent_copyState _ _ side _).trans ?_
    refine (setPendingEvent_copyState _ _ side _).trans ?_
    rw [hfed.ends]
    rfl
  case dropped => exact hfed.dropped
  case waits =>
    rw [hevent]
    intro hnone
    cases hnone

/-- What a read becomes when it meets a write that waits, or finds none. -/
theorem StreamInv.readMeets {r : EStateM.Result JsError (StreamState α) Unit}
    (h : StreamInv e s none l) (hevent : (s.ends .read).pendingEventFn = none)
    (hnone : (s.ends .write).pendingEventFn = none) (hmax : clampCount count ≤ MAX_LENGTH)
    (hdropped : s.dropped = false) (halign : s.elemMeta.align32.isSome)
    (hborrowed : s.elemMeta.isBorrowed = false)
    (hfits : Fits (.copy .read ctx ptr count, .done) s)
    (hroom : l.length ≤ clampCount count ∨ clampCount count = 0)
    (hmeet : Meeting .read ⟨.read, s.copies⟩ ctx.componentIdx (s.withRead ctx ptr count) r) :
    (∃ err, r = .error err (s.withRead ctx ptr count)) ∨
    ∃ s' moved l', r = .ok () s' ∧ moved ++ l' = l ∧ Reads e s s' ctx ptr count moved l' := by
  have hremaining : ((s.withRead ctx ptr count).buffers s.copies).remaining = clampCount count := by
    rw [withRead_own]
    rfl
  -- what is pending is a write of the host that waits
  have hwaits : ∀ p, (s.withRead ctx ptr count).pendingBufferMeta = some p →
      ∃ w, p = hostMeta w ∧ w < s.copies ∧ (s.withRead ctx ptr count).buffers w = s.buffers w ∧
        HostBuffer e (s.buffers w) ∧ (s.buffers w).processed = 0 ∧ (s.buffers w).rest = l ∧
        l ≠ [] ∧ (s.buffers w).remaining = l.length := by
    intro p hp
    obtain ⟨w, rfl, hw, hbuffer, hzero, hrest, hsome⟩ := h.pending_waits hnone hp
    refine ⟨w, rfl, hw, update_of_ne (Nat.ne_of_lt hw) _ _, hbuffer, hzero, hrest, hsome, ?_⟩
    rw [← hbuffer.rest, hrest]
  -- with room in both buffers, everything moves
  have hmoves : ∀ p n, (s.withRead ctx ptr count).pendingBufferMeta = some p → 0 < n →
      n = min (clampCount count) ((s.withRead ctx ptr count).buffers p.buffer).remaining →
      ∃ w t, p = hostMeta w ∧ w < s.copies ∧ (s.buffers w).processed = 0 ∧
        (s.buffers w).rest = l ∧ l.length ≤ clampCount count ∧ l.length ≠ MAX_LENGTH ∧
        transfer w s.copies n (s.withRead ctx ptr count) = .ok () t ∧
        Fed e w s.copies l.length (s.withRead ctx ptr count) t := by
    intro p n hp hn hmin
    obtain ⟨w, rfl, hw, hsame, hbuffer, hzero, hrest, hsome, hlength⟩ := hwaits p hp
    have hsame' : (s.withRead ctx ptr count).buffers (hostMeta w).buffer = s.buffers w := hsame
    rw [hsame', hlength] at hmin
    have hle : l.length ≤ clampCount count := by
      rcases hroom with hroom | hroom
      · exact hroom
      · rw [hroom, zero_min] at hmin
        omega
    have hfits' := hfits (s.buffers w) (readBuffer s.elemMeta ctx ptr count)
      (min (s.buffers w).remaining (clampCount count)) (by
        unfold moving
        rw [show s.pendingBufferMeta = some (hostMeta w) from hp]
        rfl)
    rw [hlength, min_comm, ← hmin] at hfits'
    rw [min_eq_right hle] at hmin
    subst hmin
    obtain ⟨hlimit, hlowers⟩ := hfits'
    obtain ⟨values, source', hlift, hvalues, -, -⟩ :=
      hbuffer.lifted (s.memoryOf (s.buffers w)) (n := l.length) (by rw [hlength])
    obtain ⟨r, hr⟩ := hlowers values source' hlift
    rw [hvalues] at hr
    obtain ⟨t, hok, hfed⟩ : ∃ t,
        transfer w s.copies l.length (s.withRead ctx ptr count) = .ok () t ∧
        Fed e w s.copies l.length (s.withRead ctx ptr count) t :=
      transfer_fed (hsame ▸ hbuffer) (ne_of_gt hw) hn (by rw [hsame, hlength])
        (by rw [hremaining]; exact hle) ⟨r, by rw [withRead_own, hsame]; exact hr⟩
    exact ⟨w, t, rfl, hw, hzero, hrest, hle, hlimit, hok, hfed⟩
  cases hmeet with
  | fails err hp hbad => exact .inl ⟨err, rfl⟩
  | waits hp =>
    obtain ⟨hl, hreads⟩ : l = [] ∧ Reads e s _ ctx ptr count [] [] :=
      h.readWaits hevent hnone hmax hdropped halign hborrowed hp
    subst hl
    exact .inr ⟨_, [], [], rfl, rfl, hreads⟩
  | completes hp hnothing =>
    obtain ⟨w, rfl, -⟩ := hwaits _ hp
    exact .inr ⟨_, [], l, rfl, rfl, h.readsNothing hp hmax⟩
  | displaces hp hfull hunit =>
    obtain ⟨w, rfl, hw, hsame, hbuffer, hzero, hrest, hsome, hlength⟩ := hwaits _ hp
    have hsame' : (s.withRead ctx ptr count).buffers (hostMeta w).buffer = s.buffers w := hsame
    rw [hsame', hlength] at hfull
    exact absurd (List.length_eq_zero_iff.1 hfull) hsome
  | tears hp hn hmin ht =>
    rw [hremaining] at hmin
    obtain ⟨w, t, rfl, -, -, -, -, -, hok, -⟩ := hmoves _ _ hp hn hmin
    cases ht.symm.trans hok
  | moves hp hn hmin ht =>
    rw [hremaining] at hmin
    obtain ⟨w, t, rfl, hw, hzero, hrest, hle, hlimit, hok, hfed⟩ := hmoves _ _ hp hn hmin
    obtain ⟨-, rfl⟩ := EStateM.Result.ok.inj (ht.symm.trans hok)
    exact .inr ⟨_, l, [], rfl, List.append_nil _,
      h.readsAll hp hw hzero hrest hmax hle hlimit hfed⟩

omit [StreamValue α] [DecidableEq α] in
theorem setupCopy_usable {side : Side} {args : CopyArgs α} {own : Callback}
    (h : setupCopy side args s = .ok own s') :
    s.elemMeta.isBorrowed = false ∧ s.elemMeta.align32.isSome := by
  unfold setupCopy at h
  split at h
  case isTrue => cases h
  split at h
  case isTrue => cases h
  split at h
  case isTrue => cases h
  case isFalse hborrowed =>
    refine ⟨by simpa using hborrowed, ?_⟩
    cases halign : s.elemMeta.align32 with
    | some align32 => rfl
    | none =>
      unfold ManagedBuffer.new at h
      rw [halign] at h
      split at h
      case h_1 => cases h
      case h_2 hnew =>
        split at hnew
        case isTrue => cases hnew
        case isFalse => cases hnew

/-- A read fails and changes nothing, finds the stream dropped, or meets the
host's side. -/
theorem StreamInv.copyStartRead (h : StreamInv e s o l)
    (hidle : (s.ends .read).copyState = .idle → o = none)
    (hnone : (s.ends .write).pendingEventFn = none)
    (hfits : Fits (.copy .read ctx ptr count, .done) s)
    (hroom : l.length ≤ clampCount count ∨ clampCount count = 0)
    {res : EStateM.Result JsError (StreamState α) (Option CopyAnswer)}
    (hres : StreamState.copyStart .read (ctx.copyArgs s.copies ptr count)
      { s with copies := s.copies + 1 } = res) :
    (∃ err s', res = .error err s' ∧ StreamInv e s' o l ∧ s'.placed = s.placed ∧
      s'.ends = s.ends ∧ s'.dropped = s.dropped ∧ s.copies ≤ s'.copies) ∨
    (∃ answer s', res = .ok (some answer) s' ∧ StreamInv e s' o l ∧ s'.placed = s.placed ∧
      (s'.ends .read).copyState = .done ∧ s'.ends .write = s.ends .write ∧
      s'.dropped = s.dropped ∧ s.copies ≤ s'.copies) ∨
    ∃ s' moved l', res = .ok none s' ∧ o = none ∧ moved ++ l' = l ∧ s.dropped = false ∧
      (s.ends .read).copyState = .idle ∧ Reads e s s' ctx ptr count moved l' := by
  have henc := h.withEncoding ctx.stringEncoding
  unfold StreamState.copyStart at hres
  dsimp only at hres
  split at hres
  case isTrue => exact .inl ⟨_, _, hres.symm, henc, rfl, rfl, rfl, le_succ _⟩
  split at hres
  case isTrue hd =>
    have hpending := h.dropped hd
    rw [StreamState.notifyDropped_of_none] at hres
    swap
    · exact hpending
    refine .inr (.inl ⟨_, _, hres.symm, ?_, rfl, ?_, ?_, rfl, le_succ _⟩)
    · refine henc.congr henc.like id rfl ?_ ?_ ?_ (fun _ _ => rfl) (le_refl _) rfl rfl
      · simp [StreamState.setCopyState, StreamState.setEnd, StreamState.withEncoding]
      · simp [StreamState.setCopyState, StreamState.setEnd, StreamState.withEncoding]
      · simp [StreamState.setCopyState, StreamState.setEnd, StreamState.withEncoding]
    · simp [StreamState.setCopyState, StreamState.setEnd]
    · simp [StreamState.setCopyState, StreamState.setEnd]
  case isFalse hd =>
    have hdropped : s.dropped = false := by simpa using hd
    rcases setupCopy_cases rfl with ⟨err, hsetup⟩ | ⟨hidle', hmax, hsetup⟩
    · rw [hsetup] at hres
      exact .inl ⟨_, _, hres.symm, henc, rfl, rfl, rfl, le_succ _⟩
    obtain ⟨hborrowed, halign⟩ := setupCopy_usable hsetup
    rw [hsetup] at hres
    have ho := hidle hidle'
    subst ho
    have hevent : (s.ends .read).pendingEventFn = none := by
      rcases h.read with ⟨hevent, -⟩
      exact hevent
    -- the encodings of both buffers are known
    have hown : ((s.withRead ctx ptr count).buffers s.copies).elemMeta.stringEncoding.isSome := by
      rw [withRead_own]
      exact readBuffer_encoding ..
    have hpending : ∀ p, (s.withRead ctx ptr count).pendingBufferMeta = some p →
        ((s.withRead ctx ptr count).buffers p.buffer).elemMeta.stringEncoding.isSome := by
      intro p hp
      obtain ⟨w, rfl, hw, hbuffer, -⟩ := h.pending_waits hnone hp
      have hsame : (s.withRead ctx ptr count).buffers w = s.buffers w :=
        update_of_ne (Nat.ne_of_lt hw) _ _
      show ((s.withRead ctx ptr count).buffers w).elemMeta.stringEncoding.isSome
      rw [hsame]
      exact hbuffer.encoding
    have hmeet : Meeting .read ⟨.read, s.copies⟩ ctx.componentIdx (s.withRead ctx ptr count) _ :=
      _read_meeting hdropped hown hpending
    rcases h.readMeets hevent hnone hmax hdropped halign hborrowed hfits hroom hmeet with
      ⟨err, herr⟩ | ⟨s', moved, l', hok, hsplit, hreads⟩
    · refine .inl ⟨err, s.withRead ctx ptr count, ?_, h.withRead ctx ptr count, rfl, rfl, rfl,
        le_succ _⟩
      rw [← hres]
      exact congrArg StreamState.started herr
    · refine .inr (.inr ⟨s', moved, l', ?_, rfl, hsplit, hdropped, hidle', hreads⟩)
      rw [← hres]
      exact congrArg StreamState.started hok

end

end Jco.Stream

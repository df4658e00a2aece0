import Jco.Stream.HostEnd

/-! # Injections keep the source's values in order

The invariant accounts for every value that the source gave: it has been placed
for the guest, waits in a write of the host, is held by one injection, or is in
the queue, in this order. The lemmas follow an injection from one `await` to the
next.
-/

namespace Jco.Stream

open Jco.Js Jco.Lib HostFed List Nat

variable {α : Type}

/-! ## The invariant -/

/-- The values of an injection fit its await: only the loop holds values while
it waits, and no injection fails. -/
def Injection.Ok (inj : Injection α) : Prop :=
  match inj.await with
  | .source false _ => 0 < inj.count ∧ inj.values.length + inj.count ≤ MAX_LENGTH
  | .source true _ | .write none | .returned _ => inj.values = []
  | .write (some _) | .failed _ => False

/-- Every value of the source is accounted for; `held` are those that one
injection has. -/
structure Accounted [StreamValue α] (e : ElemMeta α) (s : HostFed α) (o : Option Nat)
    (l held : List α) : Prop where
  stream : StreamInv e s.stream o l
  kept : s.stream.placed.map Entry.value ++ l ++ (held ++ s.queue.contents).map e.asElement =
    s.fromSource
  reported : s.stream.placed.map Entry.value = s.delivered ++ o.elim [] s.stream.valuesIn
  unreported : ∀ r ∈ s.reports, r.buffer < s.stream.copies ∧ o ≠ some r.buffer
  bounded : ∀ r ∈ s.reports, r.values.length = r.progress ∧ r.progress ≤ r.count
  exhausted : s.done = true → s.sourceReadPromise ≠ some none
  ended : s.stream.dropped = true →
    s.done = true ∧ s.stream.placed.map Entry.value = s.fromSource

/-- A read that answered or was cancelled is over; as long as it is on its way,
it takes care of the event of the host. -/
structure CallInv (s : HostFed α) (o : Option Nat) : Prop where
  met : (s.stream.ends .write).pendingEventFn ≠ none → ∃ k < s.injected,
    (s.injections k).caller = .awaiting ∧ (s.injections k).await = .returned true
  idle : (s.stream.ends .read).copyState = .idle → o = none ∨
    (s.stream.ends .read).pendingEventFn ≠ none ∧ ∃ k < s.injected,
      (s.injections k).caller = .awaiting

structure HostInv [StreamValue α] (e : ElemMeta α) (s : HostFed α) (o : Option Nat) (l : List α)
    (h : Nat) : Prop where
  accounted : Accounted e s o l (s.injections h).values
  holder : s.OnlyHolder h
  fresh : ∀ j, s.injected ≤ j → (s.injections j).values = []
  ok : ∀ j, j < s.injected → (s.injections j).Ok
  call : CallInv s o

section

variable [StreamValue α] {e : ElemMeta α} {s : HostFed α} {o : Option Nat} {l held : List α}

/-- Nothing that the accounts are about has changed. -/
theorem Accounted.congr {s' : HostFed α} (h : Accounted e s o l held)
    (hstream : s'.stream = s.stream) (hqueue : s'.queue = s.queue) (hdone : s'.done = s.done)
    (hpromise : s'.sourceReadPromise = s.sourceReadPromise)
    (hsource : s'.fromSource = s.fromSource) (hreports : s'.reports = s.reports) :
    Accounted e s' o l held := by
  have hdelivered : s'.delivered = s.delivered := by
    unfold delivered
    rw [hreports]
  constructor
  case stream => exact hstream ▸ h.stream
  case kept =>
    rw [hstream, hqueue, hsource]
    exact h.kept
  case reported =>
    rw [hstream, hdelivered]
    exact h.reported
  case unreported =>
    rw [hstream, hreports]
    exact h.unreported
  case bounded =>
    rw [hreports]
    exact h.bounded
  case exhausted =>
    rw [hdone, hpromise]
    exact h.exhausted
  case ended =>
    rw [hstream, hdone, hsource]
    exact h.ended

/-- The values move between an injection and the queue. -/
theorem Accounted.moveQueue {held' : List α} {queue : PendingValueQueue α}
    (h : Accounted e s o l held) (hsame : held' ++ queue.contents = held ++ s.queue.contents) :
    Accounted e { s with queue } o l held' := by
  constructor
  case stream => exact h.stream
  case kept =>
    rw [hsame]
    exact h.kept
  case reported => exact h.reported
  case unreported => exact h.unreported
  case bounded => exact h.bounded
  case exhausted => exact h.exhausted
  case ended => exact h.ended

end

/-! ## Steps of an injection -/

namespace HostFed

@[simp] theorem setInjection_self (s : HostFed α) (k : Nat) (inj : Injection α) :
    (s.setInjection k inj).injections k = inj := by
  simp [setInjection]

theorem setInjection_ne (s : HostFed α) {k j : Nat} (inj : Injection α) (h : j ≠ k) :
    (s.setInjection k inj).injections j = s.injections j := by
  simp [setInjection, h]

@[simp] theorem leave_self (s : HostFed α) (k : Nat) (await : Await) :
    (s.leave k await).injections k = { s.injections k with await, values := [] } := by
  simp [leave]

theorem leave_ne (s : HostFed α) {k j : Nat} (await : Await) (h : j ≠ k) :
    (s.leave k await).injections j = s.injections j :=
  setInjection_ne s _ h

/-- What `drainPendingValues` changes. -/
theorem drainPendingValues_eq (s : HostFed α) (k : Nat) :
    ∃ queue : PendingValueQueue α,
      queue.contents = s.queue.contents.drop (s.injections k).count ∧
      s.drainPendingValues k = { s with queue }.setInjection k { s.injections k with
        values := (s.injections k).values ++ s.queue.contents.take (s.injections k).count
        count := (s.injections k).count -
          (s.queue.contents.take (s.injections k).count).length } := by
  unfold drainPendingValues
  rcases hdrain : s.queue.drainInto (s.injections k).count with ⟨taken, queue⟩
  obtain ⟨rfl, hleft⟩ := PendingValueQueue.drainInto_eq hdrain
  exact ⟨queue, hleft, by simp only [hdrain]⟩

end HostFed

/-- What a part of the injection `k` leaves: the accounts are right again, and
only the injection's own state and the host's end have changed. -/
structure Segment [StreamValue α] (e : ElemMeta α) (s s' : HostFed α) (k : Nat) (o : Option Nat) :
    Prop where
  inv : ∃ l h, Accounted e s' o l (s'.injections h).values ∧ s'.OnlyHolder h
  own : (s'.injections k).Ok
  caller : (s'.injections k).caller = (s.injections k).caller
  other : ∀ j, j ≠ k → s'.injections j = s.injections j
  injected : s'.injected = s.injected
  copyState : (s'.stream.ends .read).copyState = (s.stream.ends .read).copyState
  event : (s'.stream.ends .write).pendingEventFn ≠ none →
    (s.stream.ends .write).pendingEventFn ≠ none
  notified : (s.stream.ends .read).pendingEventFn ≠ none →
    (s'.stream.ends .read).pendingEventFn ≠ none

/-- An injection other than `k` has `held`, and no third one has values. -/
def HeldElsewhere (s : HostFed α) (k : Nat) (held : List α) : Prop :=
  ∃ h, (h = k → held = []) ∧ (h ≠ k → held = (s.injections h).values) ∧
    ∀ j, j ≠ h → j ≠ k → (s.injections j).values = []

theorem HostFed.OnlyHolder.elsewhere {s : HostFed α} {k : Nat} (h : s.OnlyHolder k) :
    HeldElsewhere s k [] :=
  ⟨k, fun _ => rfl, fun hne => absurd rfl hne, fun j _ hj => h j hj⟩

section

variable [StreamValue α] {e : ElemMeta α} {s t : HostFed α} {o : Option Nat} {l held : List α}
  {k : Nat}

/-- An injection goes to an `await` without values. -/
theorem Segment.leaves {await : Await} (hacc : Accounted e t o l held)
    (helse : HeldElsewhere s k held) (hok : await = .write none ∨ ∃ resets, await = .returned resets)
    (hcaller : (t.injections k).caller = (s.injections k).caller)
    (hother : ∀ j, j ≠ k → t.injections j = s.injections j) (hinjected : t.injected = s.injected)
    (hstate : (t.stream.ends .read).copyState = (s.stream.ends .read).copyState)
    (hevent : (t.stream.ends .write).pendingEventFn ≠ none →
      (s.stream.ends .write).pendingEventFn ≠ none)
    (hnotified : (s.stream.ends .read).pendingEventFn ≠ none →
      (t.stream.ends .read).pendingEventFn ≠ none) :
    Segment e s (t.leave k await) k o := by
  obtain ⟨h, hown, helsewhere, hnone⟩ := helse
  have hvalues : ((t.leave k await).injections h).values = held := by
    by_cases hk : h = k
    · rw [hk, leave_self, hown hk]
    · rw [leave_ne _ _ hk, hother h hk, helsewhere hk]
  constructor
  case inv =>
    refine ⟨l, h, ?_, ?_⟩
    · rw [hvalues]
      exact hacc.congr rfl rfl rfl rfl rfl rfl
    · intro j hj
      by_cases hk : j = k
      · rw [hk, leave_self]
      · rw [leave_ne _ _ hk, hother j hk]
        exact hnone j hj hk
  case own =>
    rw [leave_self]
    rcases hok with rfl | ⟨resets, rfl⟩
    · rfl
    · rfl
  case caller =>
    rw [leave_self]
    exact hcaller
  case other =>
    intro j hj
    rw [leave_ne _ _ hj]
    exact hother j hj
  case injected => exact hinjected
  case copyState => exact hstate
  case event => exact hevent
  case notified => exact hnotified

/-- The values of an injection that gives up go back to the queue. -/
theorem Segment.bail {h : Nat} (hacc : Accounted e s o l (s.injections h).values)
    (honly : s.OnlyHolder h) : Segment e s (s.bail k) k o := by
  have hleaves : ∀ held', Accounted e
      { s with queue := s.queue.prepend (s.injections k).values } o l held' →
      HeldElsewhere s k held' → Segment e s
        (({ s with queue := s.queue.prepend (s.injections k).values } : HostFed α).leave k
          (.returned false)) k o := by
    intro held' hacc' helse
    exact Segment.leaves hacc' helse (.inr ⟨false, rfl⟩) rfl (fun _ _ => rfl) rfl rfl id id
  by_cases hk : h = k
  · subst hk
    refine hleaves [] (hacc.moveQueue ?_) honly.elsewhere
    rw [PendingValueQueue.contents_prepend]
    rfl
  · have hempty : (s.injections k).values = [] := honly k (Ne.symm hk)
    refine hleaves (s.injections h).values (hacc.moveQueue ?_)
      ⟨h, fun heq => absurd heq hk, fun _ => rfl, fun j hj _ => honly j hj⟩
    rw [PendingValueQueue.contents_prepend, hempty]
    rfl

variable {p : PendingBufferMeta}

/-- The pending buffer is that of the open read. -/
theorem StreamInv.reader {s : StreamState α} (h : StreamInv e s o l)
    (hp : s.pendingBufferMeta = some p) (howner : p.onCopyFn.streamEnd = .read) :
    ∃ c b, o = some b ∧ l = [] ∧ p = ⟨c, b, ⟨.read, b⟩, some ⟨.read, b⟩, none⟩ ∧
      s.dropped = false ∧ (s.ends .write).pendingEventFn = none := by
  rcases h.pending_cases hp with ⟨c, b, rfl, rfl, rfl, -, -, hevent⟩ | ⟨w, rfl, -⟩
  · refine ⟨c, b, rfl, rfl, rfl, ?_, hevent⟩
    by_contra hd
    have hnone := h.dropped (by simpa using hd)
    rw [hp] at hnone
    cases hnone
  · cases howner

variable [DecidableEq α]

/-- Values that the pending read accepts are written, and the injection awaits
the promise of the write. -/
theorem Segment.writeValues {values : List α}
    (hacc : Accounted e t o l (values ++ held)) (helse : HeldElsewhere s k held)
    (hp : t.stream.pendingBufferMeta = some p) (howner : p.onCopyFn.streamEnd = .read)
    (hnone : (t.stream.ends .read).pendingEventFn = none) (hmax : values.length ≤ MAX_LENGTH)
    (haccepts : (t.stream.buffers p.buffer).Accepts
      (t.stream.memoryOf (t.stream.buffers p.buffer)) values)
    (hcaller : (t.injections k).caller = (s.injections k).caller)
    (hother : ∀ j, j ≠ k → t.injections j = s.injections j) (hinjected : t.injected = s.injected)
    (hstream : t.stream = s.stream) :
    Segment e s (t.writeValues k values) k o := by
  obtain ⟨c, b, rfl, rfl, rfl, hdropped, -⟩ := hacc.stream.reader hp howner
  obtain ⟨-, t', moved, l', hwrite, hwritten⟩ := hacc.stream.writeMany hp hnone hmax haccepts
  have hfalse : t'.hasPendingEvent .write = false := hasPendingEvent_eq_false.2 hwritten.event
  unfold writeValues
  simp only [hwrite, hfalse, Bool.false_eq_true, if_false]
  refine Segment.leaves (l := l') ?_ helse (.inl rfl) hcaller hother hinjected
    (hwritten.copyState.trans (by rw [hstream])) (fun h => absurd hwritten.event h)
    (fun h => absurd (hstream ▸ hnone) h)
  constructor
  case stream => exact hwritten.inv
  case kept =>
    show t'.placed.map _ ++ l' ++ (held ++ t.queue.contents).map _ = t.fromSource
    rw [hwritten.placed, ← hacc.kept]
    simp only [map_append, ← hwritten.values, append_assoc, nil_append]
  case reported =>
    show t'.placed.map _ = t.delivered ++ t'.valuesIn b
    rw [hwritten.placed, hwritten.valuesIn, hacc.reported, append_assoc]
    rfl
  case unreported =>
    intro r hr
    obtain ⟨hlt, hne⟩ := hacc.unreported r hr
    exact ⟨lt_of_lt_of_le hlt hwritten.copies, hne⟩
  case bounded => exact hacc.bounded
  case exhausted => exact hacc.exhausted
  case ended =>
    intro hd
    have hd' : t'.dropped = true := hd
    rw [hwritten.dropped, hdropped] at hd'
    cases hd'

omit [DecidableEq α] in
/-- The stream ends when nothing is left. -/
theorem Segment.endStream (hacc : Accounted e t o l [])
    (hnobody : s.OnlyHolder k) (hempty : t.queue.contents = [])
    (hdone : t.done = true) (hp : t.stream.pendingBufferMeta = some p)
    (howner : p.onCopyFn.streamEnd = .read)
    (hcaller : (t.injections k).caller = (s.injections k).caller)
    (hother : ∀ j, j ≠ k → t.injections j = s.injections j) (hinjected : t.injected = s.injected)
    (hstream : t.stream = s.stream) :
    Segment e s (t.endStream k) k o := by
  obtain ⟨c, b, rfl, rfl, rfl, hdropped, hnone⟩ := hacc.stream.reader hp howner
  obtain ⟨t', hdrop, hinv, hdropped', hplaced, hcopies, hwrite, hstate', hread⟩ :=
    hacc.stream.drop hdropped hp
  have hsource : t.stream.placed.map Entry.value = t.fromSource := by
    have hkept := hacc.kept
    rw [hempty] at hkept
    simpa using hkept
  have hvaluesIn : t'.valuesIn b = t.stream.valuesIn b := by
    unfold StreamState.valuesIn
    rw [hplaced]
  unfold endStream
  rw [getPendingEvent_of_none hnone]
  dsimp only
  rw [hdrop]
  refine Segment.leaves (l := []) ?_ hnobody.elsewhere (.inr ⟨false, rfl⟩) hcaller
    hother hinjected (hstate'.trans (by rw [hstream])) ?_ (fun _ => hread)
  · constructor
    case stream => exact hinv
    case kept =>
      show t'.placed.map _ ++ [] ++ ([] ++ t.queue.contents).map _ = t.fromSource
      rw [hplaced]
      exact hacc.kept
    case reported =>
      show t'.placed.map _ = t.delivered ++ t'.valuesIn b
      rw [hplaced, hvaluesIn]
      exact hacc.reported
    case unreported =>
      intro r hr
      rw [hcopies]
      exact hacc.unreported r hr
    case bounded => exact hacc.bounded
    case exhausted => exact hacc.exhausted
    case ended =>
      intro _
      refine ⟨hdone, ?_⟩
      show t'.placed.map _ = t.fromSource
      rw [hplaced]
      exact hsource
  · intro h
    have h' : (t'.ends .write).pendingEventFn ≠ none := h
    rw [hwrite] at h'
    exact absurd hnone h'

/-- What an injection does behind its loop, or when it does not enter it. -/
theorem Segment.finishInjection
    (hacc : Accounted e t o l ((t.injections k).values ++ held)) (helse : HeldElsewhere s k held)
    (hnobody : (t.injections k).values ≠ [] ∨ t.done = true → held = [] ∧ s.OnlyHolder k)
    (hqueue : (t.injections k).values = [] → t.queue.contents = [])
    (hp : t.stream.pendingBufferMeta = some p) (howner : p.onCopyFn.streamEnd = .read)
    (hnone : (t.stream.ends .read).pendingEventFn = none)
    (hmax : (t.injections k).values.length ≤ MAX_LENGTH)
    (haccepts : (t.stream.buffers p.buffer).Accepts
      (t.stream.memoryOf (t.stream.buffers p.buffer)) (t.injections k).values)
    (hcaller : (t.injections k).caller = (s.injections k).caller)
    (hother : ∀ j, j ≠ k → t.injections j = s.injections j) (hinjected : t.injected = s.injected)
    (hstream : t.stream = s.stream) :
    Segment e s (t.finishInjection k) k o := by
  have hpending : t.hasPendingReadBuffer = true := by
    unfold HostFed.hasPendingReadBuffer
    rw [hp]
    rfl
  -- nothing is left in the queue for the second `drainPendingValues`
  have hnodrain : ¬(t.done = true ∧ (t.injections k).values = [] ∧ 0 < t.queue.length ∧
      t.hasPendingReadBuffer = true) := by
    rintro ⟨-, hvalues, hlength, -⟩
    rw [PendingValueQueue.contents_eq_nil.1 (hqueue hvalues)] at hlength
    exact lt_irrefl _ hlength
  unfold HostFed.finishInjection
  rw [if_neg hnodrain]
  by_cases hend : t.done = true ∧ (t.injections k).values = []
  · rw [if_pos hend]
    obtain ⟨hheld, honly⟩ := hnobody (.inr hend.1)
    rw [hheld, hend.2] at hacc
    exact Segment.endStream hacc honly (hqueue hend.2) hend.1 hp howner hcaller hother hinjected
      hstream
  · rw [if_neg hend, if_neg (not_not.2 hpending)]
    exact Segment.writeValues hacc helse hp howner hnone hmax haccepts hcaller hother hinjected
      hstream

omit [StreamValue α] [DecidableEq α] in
/-- Waiting for the source changes nobody's values. -/
theorem values_readSource (t : HostFed α) (k j : Nat) (zero : Bool) :
    ((t.readSource k zero).injections j).values = (t.injections j).values := by
  unfold readSource
  by_cases hj : j = k
  · rw [hj, setInjection_self]
  · rw [setInjection_ne _ _ hj]

omit [DecidableEq α] in
/-- An injection waits for the source, and keeps its values. -/
theorem Segment.readSource {h : Nat} {zero : Bool}
    (hacc : Accounted e t o l (t.injections h).values) (honly : t.OnlyHolder h)
    (hdone : ¬t.done = true) (hok : ({ t.injections k with await := .source zero none } : Injection α).Ok)
    (hcaller : (t.injections k).caller = (s.injections k).caller)
    (hother : ∀ j, j ≠ k → t.injections j = s.injections j) (hinjected : t.injected = s.injected)
    (hstream : t.stream = s.stream) :
    Segment e s (t.readSource k zero) k o := by
  constructor
  case inv =>
    refine ⟨l, h, ?_, ?_⟩
    · rw [values_readSource]
      constructor
      case stream => exact hacc.stream
      case kept => exact hacc.kept
      case reported => exact hacc.reported
      case unreported => exact hacc.unreported
      case bounded => exact hacc.bounded
      case exhausted => exact fun hd => absurd hd hdone
      case ended => exact hacc.ended
    · intro j hj
      rw [values_readSource]
      exact honly j hj
  case own =>
    unfold HostFed.readSource
    rw [HostFed.setInjection_self]
    exact hok
  case caller =>
    unfold HostFed.readSource
    rw [HostFed.setInjection_self]
    exact hcaller
  case other =>
    intro j hj
    unfold HostFed.readSource
    rw [HostFed.setInjection_ne _ _ hj]
    exact hother j hj
  case injected => exact hinjected
  case copyState =>
    show (t.stream.ends .read).copyState = _
    rw [hstream]
  case event =>
    show (t.stream.ends .write).pendingEventFn ≠ none → _
    rw [hstream]
    exact id
  case notified =>
    show _ → (t.stream.ends .read).pendingEventFn ≠ none
    rw [hstream]
    exact id

/-- An injection enters its loop, or leaves it at once. -/
theorem Segment.loop
    (hacc : Accounted e t o l ((t.injections k).values ++ held)) (helse : HeldElsewhere s k held)
    (hnobody : (t.injections k).values ≠ [] ∨ t.done = true → held = [] ∧ s.OnlyHolder k)
    (hqueue : (t.injections k).values = [] → t.queue.contents = [])
    (hnone : (t.stream.ends .read).pendingEventFn = none)
    (hmax : (t.injections k).values.length + (t.injections k).count ≤ MAX_LENGTH)
    (hfinish : (t.injections k).count = 0 ∨ t.done = true → ∃ p,
      t.stream.pendingBufferMeta = some p ∧ p.onCopyFn.streamEnd = .read ∧
      (t.stream.buffers p.buffer).Accepts
        (t.stream.memoryOf (t.stream.buffers p.buffer)) (t.injections k).values)
    (hcaller : (t.injections k).caller = (s.injections k).caller)
    (hother : ∀ j, j ≠ k → t.injections j = s.injections j) (hinjected : t.injected = s.injected)
    (hstream : t.stream = s.stream) :
    Segment e s (t.loop k) k o := by
  unfold HostFed.loop
  by_cases hwait : 0 < (t.injections k).count ∧ ¬t.done = true
  · rw [if_pos hwait]
    have hok : ({ t.injections k with await := .source false none } : Injection α).Ok :=
      ⟨hwait.1, hmax⟩
    by_cases hvalues : (t.injections k).values = []
    · -- it holds nothing, and another one may
      obtain ⟨h, hown, helsewhere, hnone'⟩ := helse
      have hheld : (t.injections h).values = held := by
        by_cases hk : h = k
        · rw [hk, hvalues, hown hk]
        · rw [hother h hk, helsewhere hk]
      rw [hvalues, nil_append, ← hheld] at hacc
      refine Segment.readSource hacc ?_ hwait.2 hok hcaller hother hinjected hstream
      intro j hj
      by_cases hk : j = k
      · rw [hk]
        exact hvalues
      · rw [hother j hk]
        exact hnone' j hj hk
    · obtain ⟨hheld, honly⟩ := hnobody (.inl hvalues)
      rw [hheld, append_nil] at hacc
      refine Segment.readSource hacc ?_ hwait.2 hok hcaller hother hinjected hstream
      intro j hj
      rw [hother j hj]
      exact honly j hj
  · rw [if_neg hwait]
    have hstop : (t.injections k).count = 0 ∨ t.done = true := by
      by_cases hd : t.done = true
      · exact .inr hd
      · exact .inl (Nat.eq_zero_of_not_pos fun hpos => hwait ⟨hpos, hd⟩)
    obtain ⟨p, hp, howner, haccepts⟩ := hfinish hstop
    exact Segment.finishInjection hacc helse hnobody hqueue hp howner hnone
      (le_trans (le_add_right _ _) hmax) haccepts hcaller hother hinjected hstream

omit [StreamValue α] [DecidableEq α] in
theorem accepts_nil [StreamValue α] [DecidableEq α] (b : ManagedBuffer α) (m : Memory) :
    b.Accepts m [] := fun h => absurd rfl h

/-- A read of no elements takes one value for the next read. -/
theorem Segment.injectReady
    (hacc : Accounted e t o l held) (helse : HeldElsewhere s k held)
    (hready : t.queue.contents ≠ [] ∨ t.done = true → held = [] ∧ s.OnlyHolder k ∧ ∃ p,
      t.stream.pendingBufferMeta = some p ∧ p.onCopyFn.streamEnd = .read ∧
      (t.stream.buffers p.buffer).Accepts
        (t.stream.memoryOf (t.stream.buffers p.buffer)) (t.queue.contents.take 1))
    (hnone : (t.stream.ends .read).pendingEventFn = none)
    (hcaller : (t.injections k).caller = (s.injections k).caller)
    (hother : ∀ j, j ≠ k → t.injections j = s.injections j) (hinjected : t.injected = s.injected)
    (hstream : t.stream = s.stream) :
    Segment e s (t.injectReady k) k o := by
  unfold HostFed.injectReady
  by_cases hlength : 0 < t.queue.length
  · rw [if_pos hlength]
    have hsome : t.queue.contents ≠ [] := by
      intro hnil
      rw [PendingValueQueue.contents_eq_nil.1 hnil] at hlength
      exact lt_irrefl _ hlength
    obtain ⟨rfl, honly, p, hp, howner, haccepts⟩ := hready (.inl hsome)
    rcases hdrain : t.queue.drainInto 1 with ⟨readyValues, queue⟩
    obtain ⟨rfl, hleft⟩ := PendingValueQueue.drainInto_eq hdrain
    dsimp only
    refine Segment.writeValues (hacc.moveQueue ?_) honly.elsewhere hp howner hnone ?_
      haccepts hcaller hother hinjected hstream
    · rw [hleft, append_nil, take_append_drop]
      rfl
    · refine le_trans (length_take_le _ _) ?_
      decide
  · rw [if_neg hlength]
    have hempty : t.queue.contents = [] :=
      PendingValueQueue.contents_eq_nil.2 (Nat.eq_zero_of_not_pos hlength)
    by_cases hdone : t.done = true
    · rw [if_pos hdone]
      obtain ⟨rfl, honly, p, hp, howner, -⟩ := hready (.inr hdone)
      exact Segment.endStream hacc honly hempty hdone hp howner hcaller hother hinjected hstream
    · rw [if_neg hdone]
      exact Segment.leaves hacc helse (.inr ⟨false, rfl⟩) hcaller hother hinjected
        (by rw [hstream]) (by rw [hstream]; exact id) (by rw [hstream]; exact id)

omit [DecidableEq α] in
/-- The values of the injection `k`, and those of another one. -/
theorem HostInv.split {h : Nat} (hinv : HostInv e s o l h) (k : Nat) :
    ∃ held, Accounted e s o l ((s.injections k).values ++ held) ∧ HeldElsewhere s k held ∧
      (s.OnlyHolder k → held = []) := by
  by_cases hk : h = k
  · subst hk
    refine ⟨[], ?_, hinv.holder.elsewhere, fun _ => rfl⟩
    rw [append_nil]
    exact hinv.accounted
  · have hempty : (s.injections k).values = [] := hinv.holder k (Ne.symm hk)
    refine ⟨(s.injections h).values, ?_, ?_, fun honly => honly h hk⟩
    · rw [hempty]
      exact hinv.accounted
    · exact ⟨h, fun heq => absurd heq hk, fun _ => rfl, fun j hj _ => hinv.holder j hj⟩

/-- An injection for a read of no elements goes on. -/
theorem HostInv.resumeZero {h appended : Nat} (hinv : HostInv e s o l h) (hk : k < s.injected)
    {answer : StreamAnswer} (hsafe : Safe (.resume k, answer) s)
    (hawait : (s.injections k).await = .source true (some appended)) :
    Segment e s (s.resumeZero k) k o := by
  obtain ⟨held, hacc, helse, honly⟩ := hinv.split k
  have hempty : (s.injections k).values = [] := by
    have hok := hinv.ok k hk
    unfold Injection.Ok at hok
    rw [hawait] at hok
    exact hok
  rw [hempty, nil_append] at hacc
  unfold HostFed.resumeZero
  by_cases hleave : s.stream.hasPendingEvent .read = true ∨ ¬s.hasPendingReadBuffer = true
  · rw [if_pos hleave]
    exact Segment.leaves hacc helse (.inr ⟨false, rfl⟩) rfl (fun _ _ => rfl) rfl rfl id id
  · rw [if_neg hleave]
    rw [not_or, not_not, Bool.not_eq_true] at hleave
    obtain ⟨hholder, haccepts⟩ := hsafe true appended hawait hleave.1 hleave.2
    have htaking : s.taking k true = s.queue.contents.take 1 := by
      unfold HostFed.taking
      rw [hempty, if_pos rfl]
      rfl
    rw [htaking] at hholder haccepts
    refine Segment.injectReady hacc helse ?_ (hasPendingEvent_eq_false.1 hleave.1) rfl
      (fun _ _ => rfl) rfl rfl
    intro hready
    have hready' : s.queue.contents.take 1 ≠ [] ∨ s.done = true := by
      rcases hready with hsome | hdone
      · left
        rw [Ne, take_eq_nil_iff]
        simpa using hsome
      · exact .inr hdone
    have hho := hholder hready'
    exact ⟨honly hho, hho, haccepts (hready'.imp_right .inl)⟩

/-- An injection goes on in its loop. -/
theorem HostInv.resumeLoop {h appended : Nat} (hinv : HostInv e s o l h) (hk : k < s.injected)
    {answer : StreamAnswer} (hsafe : Safe (.resume k, answer) s)
    (hawait : (s.injections k).await = .source false (some appended)) :
    Segment e s (s.resumeLoop k appended) k o := by
  obtain ⟨hcount, hmax⟩ : 0 < (s.injections k).count ∧
      (s.injections k).values.length + (s.injections k).count ≤ MAX_LENGTH := by
    have hok := hinv.ok k hk
    unfold Injection.Ok at hok
    rw [hawait] at hok
    exact hok
  unfold HostFed.resumeLoop
  by_cases hevent : s.stream.hasPendingEvent .read = true
  · rw [if_pos hevent]
    exact Segment.bail hinv.accounted hinv.holder
  rw [if_neg hevent]
  by_cases hpending : s.hasPendingReadBuffer = true
  swap
  · rw [if_pos hpending]
    exact Segment.bail hinv.accounted hinv.holder
  rw [if_neg (not_not.2 hpending)]
  have hfalse : s.stream.hasPendingEvent .read = false := Bool.eq_false_of_not_eq_true hevent
  have hnone := hasPendingEvent_eq_false.1 hfalse
  obtain ⟨hholder, haccepts⟩ := hsafe false appended hawait hfalse hpending
  obtain ⟨held, hacc, helse, honly⟩ := hinv.split k
  -- the injection drains the queue
  obtain ⟨queue, hleft, hdrain⟩ := s.drainPendingValues_eq k
  have htaking : s.taking k false = (s.injections k).values ++
      s.queue.contents.take (s.injections k).count := by
    unfold HostFed.taking
    rw [if_neg Bool.false_ne_true]
  obtain ⟨t, ht⟩ : ∃ t, t = s.drainPendingValues k := ⟨_, rfl⟩
  have hinj : t.injections k = { s.injections k with
      values := s.taking k false
      count := (s.injections k).count -
        (s.queue.contents.take (s.injections k).count).length } := by
    rw [ht, hdrain, HostFed.setInjection_self, htaking]
  have hothers : ∀ j, j ≠ k → t.injections j = s.injections j := by
    intro j hj
    rw [ht, hdrain, HostFed.setInjection_ne _ _ hj]
  have hframe : t.stream = s.stream ∧ t.queue = queue ∧ t.done = s.done ∧
      t.injected = s.injected ∧ t.sourceReadPromise = s.sourceReadPromise ∧
      t.fromSource = s.fromSource ∧ t.reports = s.reports := by
    rw [ht, hdrain]
    exact ⟨rfl, rfl, rfl, rfl, rfl, rfl, rfl⟩
  obtain ⟨hstream, hqueue, hdone, hinjected, hpromise, hsource, hreports⟩ := hframe
  have hheld : s.taking k false ≠ [] ∨ s.done = true → held = [] ∧ s.OnlyHolder k :=
    fun hready => ⟨honly (hholder hready), hholder hready⟩
  have hacc' : Accounted e t o l (s.taking k false ++ held) := by
    have hmoved : Accounted e { s with queue } o l (s.taking k false ++ held) := by
      refine hacc.moveQueue ?_
      rw [hleft, htaking]
      by_cases hsome : s.taking k false = []
      · -- nothing is taken, so that there is nothing in the queue
        rw [htaking, append_eq_nil_iff, take_eq_nil_iff] at hsome
        have hnil : s.queue.contents = [] := hsome.2.resolve_left (ne_of_gt hcount)
        rw [hnil]
        simp
      · rw [(hheld (.inl hsome)).1]
        simp
    exact hmoved.congr hstream hqueue hdone hpromise hsource hreports
  have hempty : s.taking k false = [] → queue.contents = [] := by
    intro hnil
    rw [htaking, append_eq_nil_iff, take_eq_nil_iff] at hnil
    rw [hleft, hnil.2.resolve_left (ne_of_gt hcount), drop_nil]
  have hlength : (s.taking k false).length ≤ MAX_LENGTH := by
    rw [htaking, length_append]
    exact Nat.le_trans (Nat.add_le_add_left (length_take_le _ _) _) hmax
  have hvalues : (t.injections k).values = s.taking k false := by rw [hinj]
  rw [← ht]
  dsimp only
  by_cases hsome : 0 < (t.injections k).values.length
  · rw [if_pos hsome]
    have hne : s.taking k false ≠ [] := hvalues ▸ length_pos_iff.1 hsome
    obtain ⟨p, hp, howner, haccepts'⟩ := haccepts (.inl hne)
    refine Segment.finishInjection (p := p) (hvalues ▸ hacc') helse ?_ ?_ ?_ howner ?_
      (hvalues ▸ hlength) ?_ ?_ hothers hinjected ?_
    · rw [hvalues, hdone]
      exact hheld
    · rw [hvalues, hqueue]
      exact hempty
    · rw [hstream]
      exact hp
    · rw [hstream]
      exact hnone
    · rw [hvalues, hstream]
      exact haccepts'
    · rw [hinj]
    · rw [hstream]
  · rw [if_neg hsome]
    have hnil : s.taking k false = [] :=
      hvalues ▸ length_eq_zero_iff.1 (Nat.eq_zero_of_not_pos hsome)
    have htake : s.queue.contents.take (s.injections k).count = [] := by
      rw [htaking, append_eq_nil_iff] at hnil
      exact hnil.2
    rw [htake, length_nil, Nat.sub_zero, hnil] at hinj
    -- an empty chunk uses up one of the turns
    obtain ⟨t', ht', hinj', hothers', hframe'⟩ : ∃ t', t' = (if appended = 0 ∧ ¬t.done = true then
        t.setInjection k { t.injections k with count := (t.injections k).count - 1 } else t) ∧
        (∃ count, t'.injections k = { s.injections k with values := [], count } ∧
          count ≤ (s.injections k).count ∧
          (count = 0 → appended = 0 ∧ (s.injections k).count = 1)) ∧
        (∀ j, j ≠ k → t'.injections j = s.injections j) ∧
        t'.stream = s.stream ∧ t'.queue = queue ∧ t'.done = s.done ∧ t'.injected = s.injected ∧
        Accounted e t' o l ([] ++ held) := by
      refine ⟨_, rfl, ?_⟩
      by_cases hturn : appended = 0 ∧ ¬t.done = true
      · rw [if_pos hturn]
        refine ⟨⟨(s.injections k).count - 1, ?_, sub_le _ _, ?_⟩, ?_, hstream, hqueue, hdone,
          hinjected, (hnil ▸ hacc').congr rfl rfl rfl rfl rfl rfl⟩
        · rw [HostFed.setInjection_self, hinj]
        · intro hzero
          exact ⟨hturn.1, by omega⟩
        · intro j hj
          rw [HostFed.setInjection_ne _ _ hj]
          exact hothers j hj
      · rw [if_neg hturn]
        refine ⟨⟨(s.injections k).count, hinj, le_refl _, ?_⟩, hothers, hstream, hqueue, hdone,
          hinjected, hnil ▸ hacc'⟩
        intro hzero
        exact absurd hzero (ne_of_gt hcount)
    obtain ⟨count, hinj', hle, hlast⟩ := hinj'
    obtain ⟨hstream', hqueue', hdone', hinjected', hacc''⟩ := hframe'
    have hloop : (if t'.done = true then t'.finishInjection k else t'.loop k) = t'.loop k := by
      by_cases hd : t'.done = true
      · rw [if_pos hd]
        unfold HostFed.loop
        rw [if_neg fun h => h.2 hd]
      · rw [if_neg hd]
    rw [← ht', hloop]
    have hvalues' : (t'.injections k).values = [] := by rw [hinj']
    refine Segment.loop (hvalues'.symm ▸ hacc'') helse ?_ ?_ ?_ ?_ ?_ ?_ hothers'
      hinjected' hstream'
    · rw [hvalues', hdone']
      rintro (hne | hd)
      · exact absurd rfl hne
      · exact hheld (.inr hd)
    · rw [hqueue']
      exact fun _ => hempty hnil
    · rw [hstream']
      exact hnone
    · rw [hinj']
      exact Nat.le_trans (Nat.add_le_add (Nat.zero_le _) hle) hmax
    · rw [hinj', hdone', hstream']
      intro hstop
      have hacts : s.taking k false ≠ [] ∨ s.done = true ∨
          false = false ∧ appended = 0 ∧ (s.injections k).count = 1 := by
        rcases hstop with hzero | hd
        · exact .inr (.inr ⟨rfl, hlast hzero⟩)
        · exact .inr (.inl hd)
      obtain ⟨p, hp, howner, -⟩ := haccepts hacts
      exact ⟨p, hp, howner, accepts_nil _ _⟩
    · rw [hinj']

/-- A new injection, up to its first `await`. -/
theorem Segment.inject (hacc : Accounted e t o l held) (helse : HeldElsewhere t k held)
    (hvalues : (t.injections k).values = []) (hmax : (t.injections k).count ≤ MAX_LENGTH)
    (hready : (t.stream.ends .read).pendingEventFn = none → ∃ p,
      t.stream.pendingBufferMeta = some p ∧ p.onCopyFn.streamEnd = .read ∧
      (t.stream.buffers p.buffer).remaining = (t.injections k).count ∧
      (t.queue.contents ≠ [] ∨ t.done = true → held = [] ∧ t.OnlyHolder k ∧
        (t.stream.buffers p.buffer).Accepts (t.stream.memoryOf (t.stream.buffers p.buffer))
          (t.queue.contents.take (t.injections k).count))) :
    Segment e t (t.inject k) k o := by
  unfold HostFed.inject
  by_cases hevent : t.stream.hasPendingEvent .read = true
  · rw [if_pos hevent]
    exact Segment.leaves hacc helse (.inr ⟨true, rfl⟩) rfl (fun _ _ => rfl) rfl rfl id id
  rw [if_neg hevent]
  have hnone := hasPendingEvent_eq_false.1 (Bool.eq_false_of_not_eq_true hevent)
  obtain ⟨p, hp, howner, hremaining, hready⟩ := hready hnone
  by_cases hstate : (t.stream.ends .write).copyState = .done
  · rw [if_pos hstate]
    exact Segment.leaves hacc helse (.inr ⟨false, rfl⟩) rfl (fun _ _ => rfl) rfl rfl id id
  rw [if_neg hstate]
  -- the injection has set the function for cancellations
  obtain ⟨t', ht'⟩ : ∃ t' : HostFed α, t' = { t with hasHostCancelFn := true } := ⟨_, rfl⟩
  have hacc' : Accounted e t' o l held := by
    rw [ht']
    exact hacc.congr rfl rfl rfl rfl rfl rfl
  have hframe : t'.stream = t.stream ∧ t'.queue = t.queue ∧ t'.done = t.done ∧
      t'.injected = t.injected ∧ t'.injections = t.injections := by
    rw [ht']
    exact ⟨rfl, rfl, rfl, rfl, rfl⟩
  obtain ⟨hstream, hqueue, hdone, hinjected, hinjections⟩ := hframe
  have hpending : t'.hasPendingReadBuffer = true := by
    unfold HostFed.hasPendingReadBuffer
    rw [hstream, hp]
    rfl
  rw [← ht']
  rw [if_neg (not_not.2 hpending), hinjections]
  have hothers : ∀ j, j ≠ k → t'.injections j = t.injections j := fun j _ => congrFun hinjections j
  by_cases hzero : (t.injections k).count = 0
  · rw [if_pos hzero]
    by_cases hwait : t'.queue.length = 0 ∧ ¬t'.done = true
    · rw [if_pos hwait]
      obtain ⟨h, hown, helsewhere, hnone'⟩ := helse
      have hheld : (t'.injections h).values = held := by
        rw [hinjections]
        by_cases hk : h = k
        · rw [hk, hvalues, hown hk]
        · exact (helsewhere hk).symm
      rw [← hheld] at hacc'
      refine Segment.readSource hacc' ?_ hwait.2 ?_ (congrArg Injection.caller (congrFun hinjections k))
        hothers hinjected hstream
      · intro j hj
        rw [hinjections]
        by_cases hk : j = k
        · rw [hk]
          exact hvalues
        · exact hnone' j hj hk
      · rw [hinjections]
        exact hvalues
    · rw [if_neg hwait]
      refine Segment.injectReady hacc' helse ?_ (by rw [hstream]; exact hnone)
        (congrArg Injection.caller (congrFun hinjections k)) hothers hinjected hstream
      rw [hqueue, hdone, hstream]
      intro hsome
      obtain ⟨hheld, honly, -⟩ := hready hsome
      refine ⟨hheld, honly, p, hp, howner, ?_⟩
      -- a buffer of no elements accepts everything
      intro _
      refine ⟨?_, .inl (hremaining.trans hzero)⟩
      have hle := length_take_le 1 t.queue.contents
      unfold MAX_LENGTH
      omega
  · rw [if_neg hzero]
    obtain ⟨queue, hleft, hdrain⟩ := t'.drainPendingValues_eq k
    rw [hinjections, hqueue] at hleft hdrain
    rw [hvalues, nil_append] at hdrain
    have hheld : t.queue.contents.take (t.injections k).count ≠ [] ∨ t.done = true →
        held = [] ∧ t.OnlyHolder k := by
      intro hsome
      refine ⟨(hready ?_).1, (hready ?_).2.1⟩ <;>
        exact hsome.imp_left fun hne hnil => hne (by rw [hnil, take_nil])
    have hnil : t.queue.contents.take (t.injections k).count = [] → t.queue.contents = [] := by
      intro htake
      exact (take_eq_nil_iff.1 htake).resolve_left hzero
    rw [hdrain]
    refine Segment.loop (l := l) ?_ helse ?_ ?_ (by rw [← hnone, ← hstream]; rfl) ?_
      ?_ ?_ ?_ hinjected hstream
    · rw [HostFed.setInjection_self]
      have hmoved : Accounted e { t' with queue } o l
          (t.queue.contents.take (t.injections k).count ++ held) := hacc'.moveQueue ?_
      · exact hmoved.congr rfl rfl rfl rfl rfl rfl
      rw [hleft, hqueue]
      by_cases htake : t.queue.contents.take (t.injections k).count = []
      · rw [hnil htake]
        simp
      · rw [(hheld (.inl htake)).1]
        simp
    · rw [HostFed.setInjection_self]
      rw [hdone]
      exact hheld
    · rw [HostFed.setInjection_self]
      intro htake
      show queue.contents = []
      rw [hleft, hnil htake, drop_nil]
    · rw [HostFed.setInjection_self]
      show (List.take _ _).length + (_ - (List.take _ _).length) ≤ _
      have hle := length_take_le (t.injections k).count t.queue.contents
      omega
    · rw [HostFed.setInjection_self]
      intro _
      refine ⟨p, ?_, howner, ?_⟩
      · rw [hstream]
        exact hp
      · rw [hstream]
        by_cases hcontents : t.queue.contents = []
        · rw [hcontents, take_nil]
          exact accepts_nil _ _
        · exact (hready (.inl hcontents)).2.2
    · rw [HostFed.setInjection_self]
    · intro j hj
      exact HostFed.setInjection_ne _ _ hj

end

end Jco.Stream

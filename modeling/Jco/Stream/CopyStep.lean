import Jco.Stream.OpenCopies

/-! # What a copy does to the books

A copy that starts is refused, finds the stream dropped, or meets what is pending. In
each case the books are right again afterwards, with the new copy among the open ones
when it has started.
-/

namespace Jco.Stream

open Jco.Js StreamState Function Nat

variable {α : Type} {s s' : StreamState α} {o : Side → Option Nat} {side : Side} {b : Nat}
  {w r : Nat} {values : List (Int × α)} {placed : Bool}

/-! ## What a step keeps -/

/-- The books of a stream: its open copies and what moved. -/
structure Sound (s : StreamState α) (o : Side → Option Nat) : Prop where
  copies : OpenCopies s o
  accounts : Accounts s o
  backed : ∀ b, o .write = some b → (s.buffers b).Backed
  distinct : ∀ b, o .read = some b → o .write ≠ some b

/-- The end has an event, or its buffer is pending. -/
def Attended (s : StreamState α) (side : Side) : Prop :=
  (s.ends side).pendingEventFn ≠ none ∨ ¬ s.NotPending side

/-- Ends change by results that they get. -/
structure EndsKept (s s' : StreamState α) : Prop where
  copyState : ∀ side, (s'.ends side).copyState = (s.ends side).copyState
  waitableIdx : ∀ side, (s'.ends side).waitableIdx = (s.ends side).waitableIdx
  inTable : ∀ side, (s'.ends side).inTable = (s.ends side).inTable
  event : ∀ side, (s'.ends side).pendingEventFn = (s.ends side).pendingEventFn ∨
    ∃ b result reclaim rejectedLength,
      (s'.ends side).pendingEventFn = some (.processFn b result reclaim rejectedLength)

/-- What a step does to the elements: nothing, or it moves some from the open write to the
open read. -/
inductive Shifts [StreamValue α] (o : Side → Option Nat) (s s' : StreamState α) : Prop where
  | still (htaken : s'.taken = s.taken) (hplaced : s'.placed = s.placed)
      (hbuffers : ∀ b, (s.buffers b).Recoded (s'.buffers b))
  | moved {s₁ s₂ : StreamState α} {w r : Nat} {values : List (Int × α)} {placed : Bool}
      (hs : Recoded s s₁) (hm : Moved w r values s₁ s₂ placed) (hw : o .write = some w)
      (hr : o .read = some r) (hpending : s.pendingBufferMeta ≠ none)
      (hroom : values.length ≤ min (s₁.buffers w).remaining (s₁.buffers r).remaining)
      (hwhy : placed = false → (s₁.buffers r).memory.isSome = true ∨
        (s₁.buffers r).elemMeta.isNone = true ∧ (s₁.buffers w).elemMeta.isNone = false)
      (htaken : s'.taken = s₂.taken) (hplaced : s'.placed = s₂.placed)
      (hbuffers : s'.buffers = s₂.buffers)

theorem EndsKept.trans {s'' : StreamState α} (h : EndsKept s s') (h' : EndsKept s' s'') :
    EndsKept s s'' where
  copyState side := (h'.copyState side).trans (h.copyState side)
  waitableIdx side := (h'.waitableIdx side).trans (h.waitableIdx side)
  inTable side := (h'.inTable side).trans (h.inTable side)
  event side := by
    rcases h'.event side with hsame | hevent
    · rw [hsame]
      exact h.event side
    · exact .inr hevent

theorem EndsKept.of_ends (h : s'.ends = s.ends) : EndsKept s s' where
  copyState side := by rw [h]
  waitableIdx side := by rw [h]
  inTable side := by rw [h]
  event side := .inl (by rw [h])

theorem EndsKept.setPendingEvent (s : StreamState α) (side : Side) {b : Nat} {result : CopyResult}
    {reclaim : Bool} {rejectedLength : Option Nat} :
    EndsKept s (s.setPendingEvent side (.processFn b result reclaim rejectedLength)) where
  copyState side' := s.setPendingEvent_copyState side side' _
  waitableIdx side' := by
    by_cases hside : side' = side
    · subst hside
      unfold StreamState.setPendingEvent
      rw [setEnd_self]
    · rw [s.setPendingEvent_ne _ hside]
  inTable side' := by
    by_cases hside : side' = side
    · subst hside
      unfold StreamState.setPendingEvent
      rw [setEnd_self]
    · rw [s.setPendingEvent_ne _ hside]
  event side' := by
    by_cases hside : side' = side
    · subst hside
      exact .inr ⟨b, result, reclaim, rejectedLength, s.setPendingEvent_self side' _⟩
    · rw [s.setPendingEvent_ne _ hside]
      exact .inl rfl

/-- An event does not get lost. -/
theorem EndsKept.hasEvent (h : EndsKept s s') (he : (s.ends side).pendingEventFn ≠ none) :
    (s'.ends side).pendingEventFn ≠ none := by
  rcases h.event side with hsame | ⟨b, result, reclaim, rejectedLength, hevent⟩
  · rw [hsame]
    exact he
  · rw [hevent]
    exact (nomatch ·)

/-- The elements are those of another state. -/
theorem Shifts.congr [StreamValue α] {s'' : StreamState α} (h : Shifts o s s') (htaken : s''.taken = s'.taken)
    (hplaced : s''.placed = s'.placed) (hbuffers : s''.buffers = s'.buffers) : Shifts o s s'' := by
  cases h with
  | still ht hp hb => exact .still (htaken.trans ht) (hplaced.trans hp) fun b => hbuffers ▸ hb b
  | moved hs hm hw hr hpending hroom hwhy ht hp hb =>
    exact .moved hs hm hw hr hpending hroom hwhy (htaken.trans ht) (hplaced.trans hp)
      (hbuffers.trans hb)

theorem Recoded.shifts [StreamValue α] (h : Recoded s s') : Shifts o s s' := .still h.taken h.placed h.buffers

theorem ManagedBuffer.Recoded.backed {b b' : ManagedBuffer α} (h : b.Recoded b') (hb : b.Backed) :
    b'.Backed := by
  obtain ⟨enc, rfl⟩ := h
  exact hb

theorem Recoded.sound (hs : Recoded s s') (h : Sound s o) : Sound s' o where
  copies := hs.openCopies h.copies
  accounts := hs.accounts h.accounts
  backed b hb := (hs.buffers b).backed (h.backed b hb)
  distinct := h.distinct

theorem Moved.sound [StreamValue α] (hm : Moved w r values s s' placed) (h : Sound s o)
    (hw : o .write = some w) (hr : o .read = some r) : Sound s' o where
  copies := hm.openCopies h.copies
  accounts := hm.accounts h.accounts h.copies hw hr fun heq => h.distinct r hr (heq ▸ hw)
  backed b hb := by
    obtain rfl : w = b := Option.some.inj (hw.symm.trans hb)
    exact hm.backed
  distinct := h.distinct

/-- Only ends, the pending buffer and the flag have changed. -/
theorem Sound.of_copies (h : Sound s o) (hcopies : OpenCopies s' o) (htaken : s'.taken = s.taken)
    (hplaced : s'.placed = s.placed) (hbuffers : s'.buffers = s.buffers)
    (hle : s.copies ≤ s'.copies) : Sound s' o where
  copies := hcopies
  accounts := h.accounts.congr htaken hplaced hle fun b => by rw [hbuffers]
  backed b hb := hbuffers ▸ h.backed b hb
  distinct := h.distinct

/-! ## What a copy meets -/

section

variable [StreamValue α] [DecidableEq α]

/-- What `_read` and `_write` do as long as nothing is dropped. -/
inductive Met (side : Side) (own : Nat) (s : StreamState α) :
    EStateM.Result JsError (StreamState α) Unit → Prop where
  | fails (err : JsError) {s' : StreamState α} (hs : Recoded s s') : Met side own s (.error err s')
  | waits (c : Int) (rejectLength : Option Nat) (hp : s.pendingBufferMeta = none) :
      Met side own s (.ok () (s.setPendingBufferMeta
        ⟨c, own, ⟨side, own⟩, some ⟨side, own⟩, rejectLength⟩))
  | completes {s' : StreamState α} (hs : Recoded s s') {p : PendingBufferMeta}
      (hp : s.pendingBufferMeta = some p) (hnothing : (s.buffers own).remaining = 0) :
      Met side own s (.ok () (s'.onCopyDoneFn ⟨side, own⟩ .completed none))
  | displaces {s' : StreamState α} (hs : Recoded s s') {p : PendingBufferMeta}
      (hp : s.pendingBufferMeta = some p) (hfull : (s.buffers p.buffer).remaining = 0) (c : Int)
      (rejectLength : Option Nat) :
      Met side own s (.ok ()
        ((s'.resetPendingBufferMeta.onCopyDoneFn p.onCopyFn .completed none).setPendingBufferMeta
          ⟨c, own, ⟨side, own⟩, some ⟨side, own⟩, rejectLength⟩))
  | rejects {s' : StreamState α} (hs : Recoded s s') {p : PendingBufferMeta}
      (hp : s.pendingBufferMeta = some p) (told heard : Option Nat)
      (hreject : told ≠ none ∨ heard ≠ none) :
      Met side own s (.ok ()
        ((s'.resetPendingBufferMeta.onCopyDoneFn p.onCopyFn .dropped told).onCopyDoneFn
          ⟨side, own⟩ .dropped heard))
  | tears {s' s'' : StreamState α} (hs : Recoded s s') {p : PendingBufferMeta} {n : Nat}
      {err : JsError} (hp : s.pendingBufferMeta = some p) (hn : 0 < n)
      (hmin : n = min (s.buffers own).remaining (s.buffers p.buffer).remaining)
      (ht : transferOf side own p.buffer n s' = .error err s'') : Met side own s (.error err s'')
  | moves {s' s'' : StreamState α} (hs : Recoded s s') {p : PendingBufferMeta} {n : Nat}
      (hp : s.pendingBufferMeta = some p) (hn : 0 < n)
      (hmin : n = min (s.buffers own).remaining (s.buffers p.buffer).remaining)
      (ht : transferOf side own p.buffer n s' = .ok () s'') :
      Met side own s
        (.ok () ((s''.onCopyFn p.onCopyFn).onCopyDoneFn ⟨side, own⟩ .completed none))

theorem _write_met {own : Nat} {c : Int} (hdropped : s.dropped = false)
    (hown : ∀ p, s.pendingBufferMeta = some p → p.onCopyDoneFn = some p.onCopyFn) :
    Met .write own s (StreamState._write ⟨.write, own⟩ c s) := by
  unfold StreamState._write
  simp only [hdropped, Bool.false_eq_true, if_false]
  cases hp : s.pendingBufferMeta with
  | none => exact .waits c none hp
  | some p =>
    have hcallback := hown p hp
    dsimp only
    split
    · exact .fails _ (.refl s)
    split
    · exact .fails _ (.refl s)
    split
    · -- units are not copied
      rename_i hunit
      refine .completes (.refl s) hp ?_
      unfold ManagedBuffer.remaining
      omega
    split
    · rename_i hfull
      have hreset : s.resetAndNotifyPending .completed =
          s.resetPendingBufferMeta.onCopyDoneFn p.onCopyFn .completed none := by
        unfold StreamState.resetAndNotifyPending
        rw [hp, Option.bind_some, hcallback]
      rw [hreset]
      exact .displaces (.refl s) hp hfull c none
    rename_i hpending
    split
    · rename_i hrem
      split
      · rw [hcallback]
        exact .rejects (.refl s) hp _ none (.inl (by simp))
      · have hn : 0 < min (s.buffers own).remaining (s.buffers p.buffer).remaining :=
          Nat.lt_min.2 ⟨hrem, Nat.pos_of_ne_zero hpending⟩
        cases ht : StreamState.transfer own p.buffer
            (min (s.buffers own).remaining (s.buffers p.buffer).remaining) s with
        | error err s' => exact .tears (.refl s) hp hn rfl ht
        | ok _ s' => exact .moves (.refl s) hp hn rfl ht
    · rename_i hnothing
      exact .completes (.refl s) hp (Nat.eq_zero_of_not_pos hnothing)

omit [StreamValue α] [DecidableEq α] in
/-- Agreeing on an encoding changes nothing else. -/
theorem shareEncoding_recoded (buffer pending : Nat) :
    (∃ err, s.shareEncoding buffer pending = .error err s) ∨
    ∃ s', s.shareEncoding buffer pending = .ok () s' ∧ Recoded s s' := by
  unfold StreamState.shareEncoding
  dsimp only
  split
  · exact .inr ⟨s, rfl, .refl s⟩
  split
  · exact .inl ⟨_, rfl⟩
  rename_i enc _
  refine .inr ⟨_, rfl, rfl, rfl, rfl, rfl, rfl, rfl, rfl, fun b => ?_⟩
  show (s.buffers b).Recoded (update (update s.buffers buffer _) pending _ b)
  by_cases hpending : b = pending
  · subst hpending
    rw [update_self]
    refine ⟨some enc, ?_⟩
    by_cases hbuffer : b = buffer
    · subst hbuffer
      rw [update_self]
    · rw [update_of_ne hbuffer]
  · rw [update_of_ne hpending]
    by_cases hbuffer : b = buffer
    · subst hbuffer
      rw [update_self]
      exact ⟨some enc, rfl⟩
    · rw [update_of_ne hbuffer]
      exact .refl _

theorem _read_met {own : Nat} {c : Int} {rejectLength : Option Nat} (hdropped : s.dropped = false)
    (hown : ∀ p, s.pendingBufferMeta = some p → p.onCopyDoneFn = some p.onCopyFn) :
    Met .read own s (StreamState._read ⟨.read, own⟩ c rejectLength s) := by
  unfold StreamState._read
  simp only [hdropped, Bool.false_eq_true, if_false]
  cases hp : s.pendingBufferMeta with
  | none => exact .waits c rejectLength hp
  | some p =>
    have hcallback := hown p hp
    dsimp only
    split
    · exact .fails _ (.refl s)
    rcases shareEncoding_recoded (s := s) own p.buffer with
      ⟨err, hshare⟩ | ⟨s', hshare, hs⟩
    · rw [hshare]
      exact .fails _ (.refl s)
    rw [hshare]
    have hp' : s'.pendingBufferMeta = some p := hs.pending.trans hp
    have hreset : ∀ result, s'.resetAndNotifyPending result =
        s'.resetPendingBufferMeta.onCopyDoneFn p.onCopyFn result none := by
      intro result
      unfold StreamState.resetAndNotifyPending
      rw [hp', Option.bind_some, hcallback]
    dsimp only
    rw [(hs.buffers own).remaining, (hs.buffers p.buffer).remaining, hreset, hreset]
    split
    · exact .fails _ hs
    split
    · rename_i hpending
      split
      · exact .rejects hs hp none _ (.inr (by simp))
      split
      · rename_i hrem
        have hn : 0 < min (s.buffers p.buffer).remaining (s.buffers own).remaining :=
          Nat.lt_min.2 ⟨hpending, hrem⟩
        cases ht : StreamState.transfer p.buffer own
            (min (s.buffers p.buffer).remaining (s.buffers own).remaining) s' with
        | error err s'' => exact .tears hs hp hn (min_comm _ _) ht
        | ok _ s'' => exact .moves hs hp hn (min_comm _ _) ht
      · rename_i hnothing
        exact .completes hs hp (Nat.eq_zero_of_not_pos hnothing)
    · rename_i hfull
      exact .displaces hs hp (Nat.eq_zero_of_not_pos hfull) c rejectLength

end

section

variable [StreamValue α] [DecidableEq α] {own : Nat}
  {res : EStateM.Result JsError (StreamState α) Unit}

/-- What is kept when the copy of `side` meets what is pending. -/
structure Meets (side : Side) (o : Side → Option Nat) (s s' : StreamState α) : Prop where
  sound : Sound s' o
  shifts : Shifts o s s'
  kept : EndsKept s s'
  copies : s'.copies = s.copies
  dropped : s'.dropped = s.dropped
  elemMeta : s'.elemMeta = s.elemMeta
  attended : ∀ side', side' ≠ side → Attended s side' → Attended s' side'

omit [DecidableEq α] in
theorem Recoded.meets (hs : Recoded s s') (h : Sound s o) (side : Side) : Meets side o s s' where
  sound := hs.sound h
  shifts := hs.shifts
  kept := .of_ends hs.ends
  copies := hs.copies
  dropped := hs.dropped
  elemMeta := hs.elemMeta
  attended side' _ hatt := by
    unfold Attended StreamState.NotPending at hatt ⊢
    rw [hs.ends, hs.pending]
    exact hatt

/-- The transfer between the copy of `side` and the pending one goes from the open write
to the open read. -/
theorem transferOf_moved {s₀ : StreamState α} {p : PendingBufferMeta} {n : Nat}
    (hs : Recoded s₀ s) (hsound : Sound s₀ o) (ho : o side = some own)
    (hp : s₀.pendingBufferMeta = some p) (hnot : s₀.NotPending side)
    (hn : n = min (s₀.buffers own).remaining (s₀.buffers p.buffer).remaining) :
    (∃ err, transferOf side own p.buffer n s = .error err s) ∨
    ∃ w r, ∃ values : List (Int × α), o .write = some w ∧ o .read = some r ∧
      values.length ≤ min (s.buffers w).remaining (s.buffers r).remaining ∧
      ((∃ err s', transferOf side own p.buffer n s = .error err s' ∧ Moved w r values s s' false ∧
          ((s.buffers r).memory.isSome = true ∨
            (s.buffers r).elemMeta.isNone = true ∧ (s.buffers w).elemMeta.isNone = false)) ∨
        ∃ s', transferOf side own p.buffer n s = .ok () s' ∧ Moved w r values s s' true) := by
  have h := hs.sound hsound
  have hother := Side.eq_other (hnot p hp)
  have hopen := (hsound.copies.pending p hp).1
  rw [← (hs.buffers own).remaining, ← (hs.buffers p.buffer).remaining] at hn
  rw [hother] at hopen
  have hle := le_of_eq hn
  rw [Nat.le_min] at hle
  -- the room of the read is not what makes a transfer fail
  have hwhy : ∀ {r : Nat} {P : Prop}, n ≤ (s.buffers r).remaining →
      (s.buffers r).remaining < n ∨ P → P := fun hle h => h.resolve_left (not_lt.2 hle)
  cases side with
  | write =>
    have hne : p.buffer ≠ own := fun heq => h.distinct p.buffer hopen (heq ▸ ho)
    rcases transfer_moved hne hle.1 (h.backed own ho) with herr | ⟨values, hlength, hmoved⟩
    · exact .inl herr
    · refine .inr ⟨own, p.buffer, values, ho, hopen, Nat.le_min.2 (hlength ▸ hle), ?_⟩
      rcases hmoved with ⟨err, s', ht, hm, hreason⟩ | ⟨s', ht, hm⟩
      · exact .inl ⟨err, s', ht, hm, hwhy hle.2 hreason⟩
      · exact .inr ⟨s', ht, hm⟩
  | read =>
    have hne : own ≠ p.buffer := fun heq => h.distinct own ho (heq ▸ hopen)
    rcases transfer_moved hne hle.2 (h.backed p.buffer hopen) with herr | ⟨values, hlength, hmoved⟩
    · exact .inl herr
    · refine .inr ⟨p.buffer, own, values, hopen, ho, Nat.le_min.2 (hlength ▸ hle.symm), ?_⟩
      rcases hmoved with ⟨err, s', ht, hm, hreason⟩ | ⟨s', ht, hm⟩
      · exact .inl ⟨err, s', ht, hm, hwhy hle.1 hreason⟩
      · exact .inr ⟨s', ht, hm⟩

omit [DecidableEq α] in
theorem Moved.meets (hs : Recoded s s') {s'' : StreamState α}
    (hm : Moved w r values s' s'' placed) (h : Sound s o) (hw : o .write = some w)
    (hr : o .read = some r) (hpending : s.pendingBufferMeta ≠ none)
    (hroom : values.length ≤ min (s'.buffers w).remaining (s'.buffers r).remaining)
    (hwhy : placed = false → (s'.buffers r).memory.isSome = true ∨
      (s'.buffers r).elemMeta.isNone = true ∧ (s'.buffers w).elemMeta.isNone = false)
    (side : Side) : Meets side o s s'' where
  sound := hm.sound (hs.sound h) hw hr
  shifts := .moved hs hm hw hr hpending hroom hwhy rfl rfl rfl
  kept := .of_ends (hm.ends.trans hs.ends)
  copies := hm.copies.trans hs.copies
  dropped := hm.dropped.trans hs.dropped
  elemMeta := hm.elemMeta.trans hs.elemMeta
  attended side' _ hatt := by
    unfold Attended StreamState.NotPending at hatt ⊢
    rw [hm.ends, hm.pending, hs.ends, hs.pending]
    exact hatt

omit [DecidableEq α] in
/-- Telling an open copy its result. -/
theorem Meets.tell (h : Meets side o s s') (ho : o side = some own) (hnot : s'.NotPending side)
    (result : CopyResult) (rejectedLength : Option Nat) :
    Meets side o s (s'.onCopyDoneFn ⟨side, own⟩ result rejectedLength) where
  sound := h.sound.of_copies (h.sound.copies.tell ho hnot result rejectedLength) rfl rfl rfl
    (le_refl _)
  shifts := h.shifts.congr rfl rfl rfl
  kept := h.kept.trans (.setPendingEvent s' side)
  copies := h.copies
  dropped := h.dropped
  elemMeta := h.elemMeta
  attended side' hside hatt := by
    rcases h.attended side' hside hatt with hevent | hpending
    · refine .inl ?_
      unfold StreamState.onCopyDoneFn
      rw [s'.setPendingEvent_ne _ hside]
      exact hevent
    · exact .inr hpending

omit [DecidableEq α] in
/-- The pending copy of the other end gets its buffer back, with its result. -/
theorem Meets.notify (h : Meets side o s s') {p : PendingBufferMeta}
    (hp : s'.pendingBufferMeta = some p) (result : CopyResult) (rejectedLength : Option Nat) :
    Meets side o s (s'.resetPendingBufferMeta.onCopyDoneFn p.onCopyFn result rejectedLength) where
  sound := h.sound.of_copies (h.sound.copies.notify hp result rejectedLength) rfl rfl rfl
    (le_refl _)
  shifts := h.shifts.congr rfl rfl rfl
  kept := by
    have hreset : EndsKept s s'.resetPendingBufferMeta := h.kept.trans (.of_ends rfl)
    exact hreset.trans (.setPendingEvent _ p.onCopyFn.streamEnd)
  copies := h.copies
  dropped := h.dropped
  elemMeta := h.elemMeta
  attended side' hside hatt := by
    refine .inl ?_
    unfold StreamState.onCopyDoneFn
    by_cases hend : side' = p.onCopyFn.streamEnd
    · subst hend
      rw [setPendingEvent_self]
      exact (nomatch ·)
    · rw [StreamState.setPendingEvent_ne _ _ hend]
      rcases h.attended side' hside hatt with hevent | hpending
      · exact hevent
      · refine absurd (fun p' hp' hend' => ?_) hpending
        cases hp.symm.trans hp'
        exact hend hend'.symm

omit [DecidableEq α] in
/-- Elements have moved through the pending buffer of the other end. -/
theorem Meets.tellPending (h : Meets side o s s') {p : PendingBufferMeta}
    (hp : s'.pendingBufferMeta = some p) : Meets side o s (s'.onCopyFn p.onCopyFn) where
  sound := h.sound.of_copies (h.sound.copies.tellPending hp) rfl rfl rfl (le_refl _)
  shifts := h.shifts.congr rfl rfl rfl
  kept := h.kept.trans (.setPendingEvent s' p.onCopyFn.streamEnd)
  copies := h.copies
  dropped := h.dropped
  elemMeta := h.elemMeta
  attended side' hside hatt := by
    rcases h.attended side' hside hatt with hevent | hpending
    · refine .inl ?_
      exact (EndsKept.setPendingEvent s' p.onCopyFn.streamEnd).hasEvent hevent
    · exact .inr hpending

omit [DecidableEq α] in
/-- The open copy waits with its buffer. -/
theorem Meets.wait (h : Meets side o s s') (hnone : s'.pendingBufferMeta = none)
    (hdropped : s.dropped = false) (ho : o side = some own) (hunreported : s'.Unreported side)
    (hevents : ∀ side', side' ≠ side → Attended s' side' →
      (s'.ends side').pendingEventFn ≠ none) (c : Int) (rejectLength : Option Nat) :
    Meets side o s (s'.setPendingBufferMeta
      ⟨c, own, ⟨side, own⟩, some ⟨side, own⟩, rejectLength⟩) where
  sound := h.sound.of_copies (h.sound.copies.wait hnone (h.dropped.trans hdropped) ho hunreported
    c rejectLength) rfl rfl rfl (le_refl _)
  shifts := h.shifts.congr rfl rfl rfl
  kept := h.kept.trans (.of_ends rfl)
  copies := h.copies
  dropped := h.dropped
  elemMeta := h.elemMeta
  attended side' hside hatt := .inl (hevents side' hside (h.attended side' hside hatt))

omit [StreamValue α] [DecidableEq α] in
theorem attended_onCopyDoneFn (s : StreamState α) (side : Side) (own : Nat) (result : CopyResult)
    (rejectedLength : Option Nat) :
    Attended (s.onCopyDoneFn ⟨side, own⟩ result rejectedLength) side := by
  refine .inl ?_
  unfold StreamState.onCopyDoneFn
  rw [setPendingEvent_self]
  exact (nomatch ·)

omit [StreamValue α] [DecidableEq α] in
theorem attended_setPendingBufferMeta (s : StreamState α) (side : Side) (own : Nat) (c : Int)
    (rejectLength : Option Nat) : Attended (s.setPendingBufferMeta
      ⟨c, own, ⟨side, own⟩, some ⟨side, own⟩, rejectLength⟩) side :=
  .inr fun hnot => hnot _ rfl rfl

/-- A copy that meets the stream fails without a result, or it has one, or it waits. -/
theorem Met.leaves (hmet : Met side own s res) (h : Sound s o) (ho : o side = some own)
    (hnot : s.NotPending side) (hunreported : s.Unreported side) (hdropped : s.dropped = false) :
    (∃ err s', res = .error err s' ∧ Meets side o s s' ∧ s'.ends = s.ends ∧
      s'.pendingBufferMeta = s.pendingBufferMeta ∧ s'.placed = s.placed) ∨
    ∃ s', res = .ok () s' ∧ Meets side o s s' ∧ Attended s' side := by
  cases hmet with
  | fails err hs => exact .inl ⟨err, _, rfl, hs.meets h side, hs.ends, hs.pending, hs.placed⟩
  | waits c rejectLength hp =>
    refine .inr ⟨_, rfl, ?_, attended_setPendingBufferMeta ..⟩
    refine ((Recoded.refl s).meets h side).wait hp hdropped ho hunreported ?_ c rejectLength
    intro side' _ hatt
    refine hatt.resolve_right fun hpending => hpending fun p hp' => ?_
    rw [hp] at hp'
    cases hp'
  | completes hs hp _ =>
    refine .inr ⟨_, rfl, (hs.meets h side).tell ho ?_ _ _, attended_onCopyDoneFn ..⟩
    intro p' hp'
    exact hnot p' (hs.pending.symm.trans hp')
  | displaces hs hp hfull c rejectLength =>
    rename_i s₁ p
    -- the copy that is displaced has its event, and this one waits in its place
    have hp' : s₁.pendingBufferMeta = some p := hs.pending.trans hp
    have hnotified := (hs.meets h side).notify hp' .completed none
    have hside : side ≠ p.onCopyFn.streamEnd := (hnot p hp).symm
    have hevents : ∀ side', side' ≠ side →
        ((s₁.resetPendingBufferMeta.onCopyDoneFn p.onCopyFn .completed none).ends
          side').pendingEventFn ≠ none := by
      intro side' hside'
      have hother : side' = p.onCopyFn.streamEnd :=
        (Side.eq_other hside').trans (Side.eq_other hside.symm).symm
      subst hother
      unfold StreamState.onCopyDoneFn
      rw [setPendingEvent_self]
      exact (nomatch ·)
    refine .inr ⟨_, rfl, ?_, attended_setPendingBufferMeta ..⟩
    refine hnotified.wait rfl hdropped ho ?_ (fun side' hside' _ => hevents side' hside') c
      rejectLength
    intro b result reclaim rejectedLength he
    unfold StreamState.onCopyDoneFn at he
    rw [StreamState.setPendingEvent_ne _ _ hside] at he
    refine hunreported b result reclaim rejectedLength ?_
    rw [← hs.ends]
    exact he
  | rejects hs hp told heard hreject =>
    rename_i s₁ p
    have hp' : s₁.pendingBufferMeta = some p := hs.pending.trans hp
    refine .inr ⟨_, rfl, ((hs.meets h side).notify hp' .dropped told).tell ho ?_ .dropped heard,
      attended_onCopyDoneFn ..⟩
    intro p' hp''
    cases hp''
  | tears hs hp hn hmin ht =>
    rename_i s₁ s₂ p n err
    rcases transferOf_moved hs h ho hp hnot hmin with
      ⟨err', hsame⟩ | ⟨w, r, values, hw, hr, hroom, ⟨err', s', herr, hm, hwhy⟩ | ⟨s', hok, -⟩⟩
    · obtain ⟨-, rfl⟩ := EStateM.Result.error.inj (ht.symm.trans hsame)
      exact .inl ⟨_, _, rfl, hs.meets h side, hs.ends, hs.pending, hs.placed⟩
    · obtain ⟨-, rfl⟩ := EStateM.Result.error.inj (ht.symm.trans herr)
      have hplaced : s₂.placed = s₁.placed := hm.placed
      have hmeets := hm.meets hs h hw hr (hp ▸ Option.some_ne_none p) hroom (fun _ => hwhy) side
      exact .inl ⟨_, _, rfl, hmeets, hm.ends.trans hs.ends, hm.pending.trans hs.pending,
        hplaced.trans hs.placed⟩
    · cases ht.symm.trans hok
  | moves hs hp hn hmin ht =>
    rename_i s₁ s₂ p n
    rcases transferOf_moved hs h ho hp hnot hmin with
      ⟨err', hsame⟩ | ⟨w, r, values, hw, hr, hroom, ⟨err', s', herr, -, -⟩ | ⟨s', hok, hm⟩⟩
    · cases ht.symm.trans hsame
    · cases ht.symm.trans herr
    · obtain ⟨-, rfl⟩ := EStateM.Result.ok.inj (ht.symm.trans hok)
      have hp' : s₂.pendingBufferMeta = some p := hm.pending.trans (hs.pending.trans hp)
      have hmeets := hm.meets hs h hw hr (hp ▸ Option.some_ne_none p) hroom (nomatch ·) side
      refine .inr ⟨_, rfl, (hmeets.tellPending hp').tell ho ?_ _ _, attended_onCopyDoneFn ..⟩
      intro p' hpend
      exact hnot p' ((hm.pending.trans hs.pending).symm.trans hpend)

end

/-! ## A copy that starts -/

/-- The stream with the buffer of a new copy. -/
def StreamState.opened (s : StreamState α) (args : CopyArgs α) : StreamState α :=
  let e := { s.elemMeta with stringEncoding := s.elemMeta.stringEncoding.or args.stringEncoding }
  { s with
    copies := s.copies + 1
    elemMeta := e
    buffers := Function.update s.buffers s.copies
      ⟨args.componentIdx, args.memory, e, args.ptr, args.count, 0, args.data⟩ }

theorem opened_self (s : StreamState α) (args : CopyArgs α) :
    (s.opened args).buffers s.copies = ⟨args.componentIdx, args.memory,
      { s.elemMeta with stringEncoding := s.elemMeta.stringEncoding.or args.stringEncoding },
      args.ptr, args.count, 0, args.data⟩ := update_self ..

theorem opened_ne (s : StreamState α) (args : CopyArgs α) (h : b ≠ s.copies) :
    (s.opened args).buffers b = s.buffers b := update_of_ne h ..

/-- The copy of one end is open no more. -/
theorem Sound.ended (h : Sound s o) (hcopies : OpenCopies s' (update o side none))
    (htaken : s'.taken = s.taken) (hplaced : s'.placed = s.placed) (hle : s.copies ≤ s'.copies)
    (hbuffers : s'.buffers = s.buffers) : Sound s' (update o side none) where
  copies := hcopies
  accounts := (h.accounts.close side).congr htaken hplaced hle fun b => by rw [hbuffers]
  backed b hb := by
    cases side with
    | write =>
      rw [update_self] at hb
      cases hb
    | read =>
      rw [update_of_ne (by decide)] at hb
      rw [hbuffers]
      exact h.backed b hb
  distinct b hb := by
    cases side with
    | write =>
      rw [update_self]
      exact (nomatch ·)
    | read =>
      rw [update_self] at hb
      cases hb

/-- A copy that is open but has neither event nor pending buffer has ended. -/
theorem Sound.forget (h : Sound s o) (hnot : s.NotPending side) (hunreported : s.Unreported side) :
    Sound s (update o side none) := by
  refine h.ended ?_ rfl rfl (le_refl _) rfl
  constructor
  case dropped => exact h.copies.dropped
  case fresh =>
    intro side' b ho
    by_cases hside : side' = side
    · subst hside
      rw [update_self] at ho
      cases ho
    · rw [update_of_ne hside] at ho
      exact h.copies.fresh side' b ho
  case pending =>
    intro p hp
    rw [update_of_ne (hnot p hp)]
    exact h.copies.pending p hp
  case event =>
    intro side' b result reclaim rejectedLength he
    have hside : side' ≠ side := by
      intro hside
      rw [hside] at he
      exact hunreported _ _ _ _ he
    rw [update_of_ne hside]
    exact h.copies.event side' b result reclaim rejectedLength he

theorem Sound.closed {result : CopyResult} {reclaim : Bool} {rejectedLength : Option Nat}
    (h : Sound s o)
    (he : (s.ends side).pendingEventFn = some (.processFn b result reclaim rejectedLength)) :
    Sound (s.closed side result reclaim) (update o side none) :=
  h.ended (h.copies.closed he) rfl rfl (le_refl _) rfl

theorem Accounts.of_fresh (h : Accounts s o) (hb : s.copies ≤ b) :
    s.takenOf b = [] ∧ s.placedIn b = [] := by
  have hne : ∀ x ∈ s.taken ++ s.placed, x.buffer ≠ b :=
    fun x hx => Nat.ne_of_lt (Nat.lt_of_lt_of_le (h.known x hx) hb)
  constructor
  · refine List.filter_eq_nil_iff.2 fun x hx heq => ?_
    exact hne x (List.mem_append_left _ hx) (of_decide_eq_true heq)
  · refine List.filter_eq_nil_iff.2 fun x hx heq => ?_
    exact hne x (List.mem_append_right _ hx) (of_decide_eq_true heq)

theorem Sound.opened (h : Sound s o) (ho : o side = none) {args : CopyArgs α}
    (hargs : side = .write → args.memory.isSome = true ∨ args.data.length = args.count) :
    Sound (s.opened args) (update o side (some s.copies)) := by
  have hcopies : OpenCopies (s.opened args) o :=
    h.copies.congr (fun _ => rfl) rfl rfl (le_succ _)
  have hothers : ∀ side' b, o side' = some b → b ≠ s.copies :=
    fun side' b hb => Nat.ne_of_lt (h.copies.fresh side' b hb)
  obtain ⟨htaken, hplaced⟩ := h.accounts.of_fresh (le_refl s.copies)
  constructor
  case copies => exact hcopies.open ho (lt_succ_self _)
  case accounts =>
    constructor
    case known => exact fun x hx => lt_succ_of_lt (h.accounts.known x hx)
    -- the new buffer counts from 0, the others are not touched
    case counted =>
      intro b
      by_cases hb : b = s.copies
      · subst hb
        rw [opened_self]
        show (s.takenOf s.copies).length + (s.placedIn s.copies).length = 0
        rw [htaken, hplaced]
        rfl
      · rw [opened_ne s args hb]
        exact h.accounts.counted b
    case reads =>
      intro b hb
      by_cases hside : side = .read
      · subst hside
        rw [update_self] at hb
        cases hb
        refine ⟨htaken, fun x hx => le_of_lt ?_⟩
        exact h.accounts.known x (List.mem_append_right _ hx)
      · rw [update_of_ne (Ne.symm hside)] at hb
        exact h.accounts.reads b hb
    case writes =>
      intro b hb
      by_cases hside : side = .write
      · subst hside
        rw [update_self] at hb
        cases hb
        refine ⟨hplaced, fun x hx => le_of_lt ?_⟩
        exact h.accounts.known x (List.mem_append_left _ hx)
      · rw [update_of_ne (Ne.symm hside)] at hb
        exact h.accounts.writes b hb
    case ordered => exact h.accounts.ordered
    case indexed => exact h.accounts.indexed
  case backed =>
    intro b hb
    by_cases hside : side = .write
    · rw [hside, update_self] at hb
      cases hb
      rw [opened_self]
      rcases hargs hside with hmemory | hdata
      · exact .inr (.inl hmemory)
      · exact .inr (.inr hdata)
    · rw [update_of_ne (Ne.symm hside)] at hb
      rw [opened_ne s args (hothers .write b hb)]
      exact h.backed b hb
  -- one side has the new buffer, the other an earlier one
  case distinct =>
    intro b hr hw
    cases side with
    | read =>
      rw [update_self] at hr
      rw [update_of_ne (by decide)] at hw
      cases hr
      exact hothers .write s.copies hw rfl
    | write =>
      rw [update_self] at hw
      rw [update_of_ne (by decide)] at hr
      cases hw
      exact hothers .read s.copies hr rfl

section

variable [StreamValue α] [DecidableEq α]

/-- The first part of a copy: it is refused, it finds the stream dropped, or it meets what
is pending. -/
theorem copyStart_cases (h : Sound s o) {args : CopyArgs α} (hbuffer : args.buffer = s.copies)
    {res : EStateM.Result JsError (StreamState α) (Option CopyAnswer)}
    (hres : StreamState.copyStart side args { s with copies := s.copies + 1 } = res) :
    (∃ err elemMeta, elemMeta.Like s.elemMeta ∧
      res = .error err { s with copies := s.copies + 1, elemMeta }) ∨
    (∃ elemMeta, elemMeta.Like s.elemMeta ∧ s.dropped = true ∧
      res = .ok (some (.packed CopyResult.dropped.code))
        (({ s with copies := s.copies + 1, elemMeta } : StreamState α).setCopyState side .done)) ∨
    ∃ res', s.dropped = false ∧ (s.ends side).copyState = .idle ∧ args.count ≤ MAX_LENGTH ∧
      Met side s.copies (s.opened args) res' ∧ res = StreamState.started res' := by
  have hlike : ({ s.elemMeta with
      stringEncoding := s.elemMeta.stringEncoding.or args.stringEncoding } : ElemMeta α).Like
      s.elemMeta := rfl
  unfold StreamState.copyStart at hres
  dsimp only at hres
  split at hres
  · exact .inl ⟨_, _, hlike, hres.symm⟩
  split at hres
  · rename_i hdropped
    have hnone : ({ s with
        copies := s.copies + 1
        elemMeta := { s.elemMeta with
          stringEncoding := s.elemMeta.stringEncoding.or args.stringEncoding } } :
        StreamState α).pendingBufferMeta = none := h.copies.dropped hdropped
    rw [notifyDropped_of_none hnone] at hres
    exact .inr (.inl ⟨_, hlike, hdropped, hres.symm⟩)
  rename_i hdropped
  have hdropped' : s.dropped = false := Bool.eq_false_of_not_eq_true hdropped
  obtain ⟨setup, hsetup⟩ : ∃ setup, StreamState.setupCopy side args { s with
      copies := s.copies + 1
      elemMeta := { s.elemMeta with
        stringEncoding := s.elemMeta.stringEncoding.or args.stringEncoding } } = setup := ⟨_, rfl⟩
  rw [hsetup] at hres
  rcases setupCopy_cases hsetup with ⟨err, rfl⟩ | ⟨hidle, hcount, rfl⟩
  · exact .inl ⟨err, _, hlike, hres.symm⟩
  · refine .inr (.inr ?_)
    have hown : ∀ p, s.pendingBufferMeta = some p → p.onCopyDoneFn = some p.onCopyFn :=
      fun p hp => (h.copies.pending p hp).2.2
    rw [hbuffer] at hres
    cases side with
    | write => exact ⟨_, hdropped', hidle, hcount, _write_met hdropped' hown, hres.symm⟩
    | read => exact ⟨_, hdropped', hidle, hcount, _read_met hdropped' hown, hres.symm⟩

omit [StreamValue α] [DecidableEq α] in
/-- The last part of a copy takes its result. -/
theorem copyEvent_processFn {result : CopyResult} {reclaim : Bool} {rejectedLength : Option Nat}
    (he : (s.ends side).pendingEventFn = some (.processFn b result reclaim rejectedLength)) :
    StreamState.copyEvent side s =
      if MAX_LENGTH ≤ (s.buffers b).processed then .error .engine (s.closed side result reclaim)
      else .ok (.packed (packResult (s.buffers b).processed result))
        (s.closed side result reclaim) := by
  unfold StreamState.copyEvent
  rw [getPendingEvent_processFn he]
  by_cases hmax : MAX_LENGTH ≤ (s.buffers b).processed
  · rw [if_pos hmax, if_pos hmax]
  · rw [if_neg hmax, if_neg hmax]
    have hidx : (s.ends side).waitableIdx =
        ((s.closed side result reclaim).ends side).waitableIdx := by
      rw [closed_self]
    dsimp only
    rw [if_neg (by
      rintro (hcode | hpayload)
      · exact hcode rfl
      · exact hpayload hidx)]

end

/-! ## What a call on an end does -/

/-- Buffers may have been added. -/
structure Prepared (s t : StreamState α) : Prop where
  taken : t.taken = s.taken
  placed : t.placed = s.placed
  copies : s.copies ≤ t.copies
  buffers : ∀ b < s.copies, t.buffers b = s.buffers b

theorem Prepared.refl (s : StreamState α) : Prepared s s :=
  ⟨rfl, rfl, le_refl _, fun _ _ => rfl⟩

theorem Prepared.opened (s : StreamState α) (args : CopyArgs α) : Prepared s (s.opened args) where
  taken := rfl
  placed := rfl
  copies := le_succ _
  buffers _ hb := opened_ne s args (Nat.ne_of_lt hb)

/-- How an end looks after a call on the other one. -/
structure Untouched (s s' : StreamState α) (side : Side) : Prop where
  copyState : (s'.ends side).copyState = (s.ends side).copyState
  waitableIdx : (s'.ends side).waitableIdx = (s.ends side).waitableIdx
  inTable : (s'.ends side).inTable = (s.ends side).inTable
  event : (s'.ends side).pendingEventFn = (s.ends side).pendingEventFn ∨
    ∃ b result reclaim rejectedLength,
      (s'.ends side).pendingEventFn = some (.processFn b result reclaim rejectedLength)
  attended : Attended s side → Attended s' side

/-- No event is there to throw an error. -/
def NoThrow (s : StreamState α) (side : Side) : Prop :=
  ∀ err, (s.ends side).pendingEventFn ≠ some (.throwFn err)

theorem EndsKept.noThrow (h : EndsKept s s') (hthrow : NoThrow s side) : NoThrow s' side := by
  intro err he
  rcases h.event side with hsame | ⟨b, result, reclaim, rejectedLength, hevent⟩
  · exact hthrow err (hsame.symm.trans he)
  · rw [hevent] at he
    cases he

/-- A call on the end `side` changes its open copies from `o` to `o'`. The elements that move
belong to `c`, where the copy of the call is open even if it fails. -/
structure Acts [StreamValue α] (side : Side) (o c o' : Side → Option Nat) (s t s' : StreamState α) :
    Prop where
  sound : Sound s' o'
  idle : IdleEnds s' o'
  other : o' side.other = o side.other ∧ c side.other = o side.other
  own : o' side = none ∨ o' side = c side
  free : (o side = none → (s.ends side).isCopying = false) → o' side = none →
    (s'.ends side).isCopying = false
  like : s'.elemMeta.Like s.elemMeta
  untouched : Untouched s s' side.other
  attended : (o side ≠ none → Attended s side) → o' side ≠ none → Attended s' side
  prepared : Prepared s t
  shifts : Shifts c t s'
  copies : s.copies ≤ s'.copies
  dropped : s.dropped = true → s'.dropped = true
  noThrow : NoThrow s side → NoThrow s' side

theorem EndsKept.untouched (h : EndsKept s s') (hatt : Attended s side → Attended s' side) :
    Untouched s s' side where
  copyState := h.copyState side
  waitableIdx := h.waitableIdx side
  inTable := h.inTable side
  event := h.event side
  attended := hatt

theorem Untouched.of_end (hends : s'.ends side = s.ends side)
    (hatt : Attended s side → Attended s' side) : Untouched s s' side where
  copyState := by rw [hends]
  waitableIdx := by rw [hends]
  inTable := by rw [hends]
  event := .inl (by rw [hends])
  attended := hatt

theorem Untouched.of_eq (hends : s'.ends side = s.ends side)
    (hpending : s'.pendingBufferMeta = s.pendingBufferMeta) : Untouched s s' side := by
  refine .of_end hends fun h => ?_
  unfold Attended StreamState.NotPending at h ⊢
  rw [hends, hpending]
  exact h

section

variable [StreamValue α]

/-- A call that moves nothing. -/
structure Stays (side : Side) (o o' : Side → Option Nat) (s s' : StreamState α) : Prop where
  acts : Acts side o o o' s s s'
  taken : s'.taken = s.taken
  placed : s'.placed = s.placed
  buffers : s'.buffers = s.buffers

omit [StreamValue α] in
theorem Untouched.trans {s'' : StreamState α} (h : Untouched s s' side)
    (h' : Untouched s' s'' side) : Untouched s s'' side where
  copyState := h'.copyState.trans h.copyState
  waitableIdx := h'.waitableIdx.trans h.waitableIdx
  inTable := h'.inTable.trans h.inTable
  event := by
    rcases h'.event with hsame | hevent
    · rw [hsame]
      exact h.event
    · exact .inr hevent
  attended hatt := h'.attended (h.attended hatt)

theorem Stays.trans {o' o'' : Side → Option Nat} {s'' : StreamState α} (h : Stays side o o' s s')
    (h' : Stays side o' o'' s' s'') : Stays side o o'' s s'' where
  acts := {
    sound := h'.acts.sound
    idle := h'.acts.idle
    other := ⟨h'.acts.other.1.trans h.acts.other.1, rfl⟩
    own := by
      rcases h'.acts.own with hnone | hsame
      · exact .inl hnone
      · rcases h.acts.own with hnone | hsame'
        · exact .inl (hsame.trans hnone)
        · exact .inr (hsame.trans hsame')
    free := fun hfree => h'.acts.free (h.acts.free hfree)
    like := h'.acts.like.trans h.acts.like
    untouched := h.acts.untouched.trans h'.acts.untouched
    attended := fun hatt => h'.acts.attended (h.acts.attended hatt)
    prepared := .refl s
    shifts := .still (h'.taken.trans h.taken) (h'.placed.trans h.placed) fun _ => by
      rw [h'.buffers, h.buffers]
      exact .refl _
    copies := le_trans h.acts.copies h'.acts.copies
    dropped := fun hd => h'.acts.dropped (h.acts.dropped hd)
    noThrow := fun hthrow => h'.acts.noThrow (h.acts.noThrow hthrow) }
  taken := h'.taken.trans h.taken
  placed := h'.placed.trans h.placed
  buffers := h'.buffers.trans h.buffers

/-- Nothing but an end, memories and numbers has changed. -/
theorem Stays.of_end (h : Sound s o) (hidle : IdleEnds s' o)
    (hother : s'.ends side.other = s.ends side.other)
    (hevent : (s'.ends side).pendingEventFn = (s.ends side).pendingEventFn)
    (hpending : s'.pendingBufferMeta = s.pendingBufferMeta) (hdropped : s'.dropped = s.dropped)
    (htaken : s'.taken = s.taken) (hplaced : s'.placed = s.placed)
    (hbuffers : s'.buffers = s.buffers) (hcopies : s.copies ≤ s'.copies)
    (hlike : s'.elemMeta.Like s.elemMeta)
    (hfree : (s.ends side).isCopying = false → (s'.ends side).isCopying = false) :
    Stays side o o s s' := by
  refine ⟨⟨?_, hidle, ⟨rfl, rfl⟩, .inr rfl, fun h ho => hfree (h ho), hlike, .of_eq hother hpending, fun hatt ho => ?_, .refl s,
    .still htaken hplaced fun _ => hbuffers ▸ .refl _, hcopies, fun hd => hdropped.trans hd,
    fun hthrow err he => hthrow err (hevent.symm.trans he)⟩, htaken, hplaced, hbuffers⟩
  · refine h.of_copies (h.copies.congr (fun side' => ?_) hpending hdropped hcopies) htaken hplaced
      hbuffers hcopies
    by_cases hside : side' = side
    · subst hside
      exact hevent
    · rw [Side.eq_other hside, hother]
  · have hs := hatt ho
    unfold Attended StreamState.NotPending at hs ⊢
    rw [hevent, hpending]
    exact hs

omit [StreamValue α] in
/-- Reclaiming the buffer of an end takes none from the other one. -/
theorem attended_closed {result : CopyResult} {reclaim : Bool} {rejectedLength : Option Nat}
    (h : OpenCopies s o)
    (he : (s.ends side).pendingEventFn = some (.processFn b result reclaim rejectedLength))
    (hatt : Attended s side.other) : Attended (s.closed side result reclaim) side.other := by
  have hends := closed_ne s result reclaim (Side.other_ne side)
  rcases hatt with hevent | hpending
  · refine .inl ?_
    rw [hends]
    exact hevent
  · refine .inr fun hnot => hpending fun p hp hend => ?_
    cases reclaim with
    | false => exact hnot p hp hend
    | true =>
      refine ((h.event side b _ _ _ he).2.2 rfl) fun p' hp' hend' => ?_
      cases hp.symm.trans hp'
      exact Side.other_ne side (hend.symm.trans hend')

omit [StreamValue α] in
theorem isCopying_closed (s : StreamState α) (side : Side) (result : CopyResult)
    (reclaim : Bool) : ((s.closed side result reclaim).ends side).isCopying = false := by
  rw [closed_self]
  cases result <;> rfl

omit [StreamValue α] in
theorem isCopying_of_copyState (h : (s'.ends side).copyState = (s.ends side).copyState) :
    (s'.ends side).isCopying = (s.ends side).isCopying := by
  unfold StreamEnd.isCopying
  rw [h]

/-- Taking the event of an end. -/
theorem closed_stays {result : CopyResult} {reclaim : Bool} {rejectedLength : Option Nat}
    (h : Sound s o) (hidle : IdleEnds s o)
    (he : (s.ends side).pendingEventFn = some (.processFn b result reclaim rejectedLength)) :
    Stays side o (update o side none) s (s.closed side result reclaim) := by
  refine ⟨⟨h.closed he, fun side' hside' => ?_, ⟨update_of_ne (Side.other_ne side) .., rfl⟩,
    .inl (update_self ..), fun _ _ => isCopying_closed .., rfl, ?_, fun _ ho => ?_, .refl s, .still rfl rfl fun _ => .refl _, le_refl _, fun hd => hd,
    fun _ err he => ?_⟩, rfl, rfl, rfl⟩
  · by_cases hside : side' = side
    · rw [hside, update_self]
    · rw [update_of_ne hside]
      rw [closed_ne s result reclaim hside] at hside'
      exact hidle side' hside'
  · exact .of_end (closed_ne s result reclaim (Side.other_ne side)) (attended_closed h.copies he)
  · rw [update_self] at ho
    exact absurd rfl ho
  · rw [closed_self] at he
    cases he

/-- The state that is left, whether it throws or not. -/
def resultState {β : Type} : EStateM.Result JsError (StreamState α) β → StreamState α
  | .ok _ s => s
  | .error _ s => s

theorem Stays.refl (h : Sound s o) (hidle : IdleEnds s o) (side : Side) : Stays side o o s s :=
  .of_end h hidle rfl rfl rfl rfl rfl rfl rfl (le_refl _) rfl id

theorem getPendingEvent_stays (h : Sound s o) (hidle : IdleEnds s o) (hthrow : NoThrow s side) :
    ∃ o', Stays side o o' s (resultState (s.getPendingEvent side)) := by
  cases he : (s.ends side).pendingEventFn with
  | none =>
    rw [getPendingEvent_none he]
    exact ⟨o, .refl h hidle side⟩
  | some fn =>
    cases fn with
    | throwFn err => exact absurd he (hthrow err)
    | processFn b result reclaim rejectedLength =>
      rw [getPendingEvent_processFn he]
      refine ⟨update o side none, ?_⟩
      split
      · exact closed_stays h hidle he
      · exact closed_stays h hidle he

/-- Telling the pending copy, whichever end it is of. -/
theorem resetAndNotifyPending_stays (h : Sound s o) (hidle : IdleEnds s o) (side : Side)
    (result : CopyResult) : Stays side o o s (s.resetAndNotifyPending result) := by
  cases hp : s.pendingBufferMeta with
  | none =>
    rw [resetAndNotifyPending_none hp]
    exact .refl h hidle side
  | some p =>
    have hmeets := ((Recoded.refl s).meets h side.other).notify hp result none
    have hmeets' := ((Recoded.refl s).meets h side).notify hp result none
    have hlike : (s.resetPendingBufferMeta.onCopyDoneFn p.onCopyFn result none).elemMeta.Like
        s.elemMeta := rfl
    rw [h.copies.resetAndNotifyPending_eq hp]
    refine ⟨⟨hmeets.sound, fun side' hside' => ?_, ⟨rfl, rfl⟩, .inr rfl,
      fun hfree ho => (isCopying_of_copyState (hmeets.kept.copyState side)).trans (hfree ho),
      hlike, ?_, fun hatt ho => ?_, .refl s, hmeets.shifts, le_of_eq hmeets.copies.symm, fun hd => hmeets.dropped.trans hd,
      hmeets.kept.noThrow⟩, rfl, rfl, rfl⟩
    · rw [hmeets.kept.copyState] at hside'
      exact hidle side' hside'
    · exact hmeets'.kept.untouched (hmeets'.attended side.other (Side.other_ne side))
    · exact hmeets.attended side (Side.other_ne side).symm (hatt ho)

omit [StreamValue α] in
theorem dropped_openCopies (h : OpenCopies s o) (hnone : s.pendingBufferMeta = none) :
    OpenCopies { s with dropped := true } o where
  dropped _ := hnone
  fresh := h.fresh
  pending := h.pending
  event := h.event

/-- Dropping an end tells the pending copy. -/
theorem drop_stays (h : Sound s o) (hidle : IdleEnds s o) (side : Side) :
    Stays side o o s (resultState (StreamState.drop side s)) := by
  unfold StreamState.drop
  split
  · exact .refl h hidle side
  split
  · exact .refl h hidle side
  dsimp only
  generalize (if 0 < ((s.pendingBufferMeta.map fun p => (s.buffers p.buffer).processed).getD 0) then
    CopyResult.completed else .dropped) = result
  have hstays := resetAndNotifyPending_stays h hidle side result
  have hnone : (s.resetAndNotifyPending result).pendingBufferMeta = none := by
    unfold StreamState.resetAndNotifyPending
    split
    · rfl
    · rfl
  -- the flag does not matter for those who are told
  have hswap : ({ s with dropped := true } : StreamState α).resetAndNotifyPending result =
      { s.resetAndNotifyPending result with dropped := true } := by
    unfold StreamState.resetAndNotifyPending
    dsimp only
    split
    · rfl
    · rfl
  show Stays side o o s (({ s with dropped := true } : StreamState α).resetAndNotifyPending result)
  rw [hswap]
  have hacts := hstays.acts
  refine ⟨⟨?_, hacts.idle, hacts.other, hacts.own, hacts.free, hacts.like, ?_,
    hacts.attended, .refl s, hacts.shifts.congr rfl rfl rfl,
    hacts.copies, fun _ => rfl, hacts.noThrow⟩, hstays.taken, hstays.placed, hstays.buffers⟩
  · exact hacts.sound.of_copies (dropped_openCopies hacts.sound.copies hnone) rfl rfl rfl
      (le_refl _)
  · exact { hacts.untouched with }

section

variable {args : CopyArgs α}

/-- Nothing is left of the copy. -/
theorem update_update_none {n : Nat} (ho : o side = none) :
    update (update o side (some n)) side none = o := by
  rw [update_idem, ← ho, update_eq_self]

theorem Meets.untouched
    (hm : Meets side (update o side (some s.copies)) (s.opened args) s') :
    Untouched s s' side.other := by
  have hatt : Attended s side.other → Attended s' side.other :=
    hm.attended side.other (Side.other_ne side)
  exact ⟨hm.kept.copyState side.other, hm.kept.waitableIdx side.other, hm.kept.inTable side.other,
    hm.kept.event side.other, hatt⟩

theorem Meets.le_copies
    (hm : Meets side (update o side (some s.copies)) (s.opened args) s') :
    s.copies ≤ s'.copies :=
  le_of_lt (lt_of_lt_of_eq (lt_succ_self _) hm.copies.symm)

theorem Meets.like
    (hm : Meets side (update o side (some s.copies)) (s.opened args) s') :
    s'.elemMeta.Like s.elemMeta := by
  rw [hm.elemMeta]
  rfl

/-- The copy has failed. -/
theorem Meets.acts_error
    (hm : Meets side (update o side (some s.copies)) (s.opened args) s')
    (ho : o side = none) (hidle : IdleEnds s o) (hnot : s'.NotPending side)
    (hunreported : s'.Unreported side) :
    Acts side o (update o side (some s.copies)) o s (s.opened args) s' where
  sound := by
    have hsound := hm.sound.forget hnot hunreported
    rwa [update_update_none ho] at hsound
  idle side' hside' := hidle side' ((hm.kept.copyState side').symm.trans hside')
  other := ⟨rfl, update_of_ne (Side.other_ne side) ..⟩
  own := .inl ho
  free hfree ho := (isCopying_of_copyState (hm.kept.copyState side)).trans (hfree ho)
  like := hm.like
  untouched := hm.untouched
  attended _ hopen := absurd ho hopen
  prepared := .opened s args
  shifts := hm.shifts
  copies := hm.le_copies
  dropped hd := hm.dropped.trans hd
  noThrow hthrow := hm.kept.noThrow (s := s.opened args) hthrow

/-- The copy waits. -/
theorem Meets.acts_blocked
    (hm : Meets side (update o side (some s.copies)) (s.opened args) s')
    (ho : o side = none) (hidle : IdleEnds s o) (hattended : Attended s' side)
    {copyState : CopyState} (hcopying : copyState ≠ .idle) :
    Acts side o (update o side (some s.copies)) (update o side (some s.copies)) s
      (s.opened args) (s'.setCopyState side copyState) where
  sound := hm.sound.of_copies (hm.sound.copies.setCopyState side copyState) rfl rfl rfl
    (le_refl _)
  idle side' hside' := by
    unfold StreamState.setCopyState at hside'
    by_cases hside : side' = side
    · subst hside
      rw [setEnd_self] at hside'
      exact absurd hside' hcopying
    · rw [setEnd_ne s' _ hside] at hside'
      rw [update_of_ne hside]
      exact hidle side' ((hm.kept.copyState side').symm.trans hside')
  other := ⟨update_of_ne (Side.other_ne side) ..,
    update_of_ne (Side.other_ne side) ..⟩
  own := .inr rfl
  free _ hopen := by
    rw [update_self] at hopen
    cases hopen
  like := hm.like
  untouched := by
    have hends := setEnd_ne s' { s'.ends side with copyState } (Side.other_ne side)
    exact hm.untouched.trans (.of_eq hends rfl)
  attended _ _ := by
    unfold Attended StreamState.setCopyState at *
    rw [setEnd_self]
    exact hattended
  prepared := .opened s args
  shifts := hm.shifts.congr rfl rfl rfl
  copies := hm.le_copies
  dropped hd := hm.dropped.trans hd
  noThrow hthrow err he := by
    unfold StreamState.setCopyState at he
    rw [setEnd_self] at he
    exact hm.kept.noThrow (s := s.opened args) hthrow err he

/-- The copy has taken its result. -/
theorem Meets.acts_closed
    (hm : Meets side (update o side (some s.copies)) (s.opened args) s')
    (ho : o side = none) (hidle : IdleEnds s o) {result : CopyResult} {reclaim : Bool}
    {rejectedLength : Option Nat}
    (he : (s'.ends side).pendingEventFn = some (.processFn b result reclaim rejectedLength)) :
    Acts side o (update o side (some s.copies)) o s (s.opened args)
      (s'.closed side result reclaim) where
  sound := by
    have hsound := hm.sound.closed he
    rwa [update_update_none ho] at hsound
  idle side' hside' := by
    by_cases hside : side' = side
    · rw [hside]
      exact ho
    · rw [closed_ne s' result reclaim hside] at hside'
      exact hidle side' ((hm.kept.copyState side').symm.trans hside')
  other := ⟨rfl, update_of_ne (Side.other_ne side) ..⟩
  own := .inl ho
  free _ _ := isCopying_closed ..
  like := hm.like
  untouched := hm.untouched.trans
    (.of_end (closed_ne s' result reclaim (Side.other_ne side)) (attended_closed hm.sound.copies he))
  attended _ hopen := absurd ho hopen
  prepared := .opened s args
  shifts := hm.shifts.congr rfl rfl rfl
  copies := hm.le_copies
  dropped hd := hm.dropped.trans hd
  noThrow _ err he := by
    rw [closed_self] at he
    cases he

variable [DecidableEq α]

/-- What the rest of a copy does after it met the stream: it fails, takes its result, or
waits. -/
theorem Met.acts {res : EStateM.Result JsError (StreamState α) Unit}
    (hmet : Met side s.copies (s.opened args) res) (h : Sound s o) (hidle : IdleEnds s o)
    (ho : o side = none) (hthrow : NoThrow s side) (hdropped : s.dropped = false)
    (hargs : side = .write → args.memory.isSome = true ∨ args.data.length = args.count)
    (isAsync : Bool) :
    ∃ o', Acts side o (update o side (some s.copies)) o' s (s.opened args)
      (resultState (match StreamState.started res with
        | .error err s => .error err s
        | .ok (some answer) s => .ok answer s
        | .ok none s => StreamState.copyFinish side isAsync s)) := by
  have hopened := h.opened ho hargs
  have hnot : (s.opened args).NotPending side := h.copies.notPending ho
  have hunreported : (s.opened args).Unreported side := h.copies.unreported ho
  rcases hmet.leaves hopened (update_self ..) hnot hunreported hdropped with
    ⟨err, s', rfl, hm, hends, hpending, -⟩ | ⟨s', rfl, hm, hattended⟩
  · refine ⟨o, hm.acts_error ho hidle (fun p hp => ?_) ?_⟩
    · exact hnot p (hpending.symm.trans hp)
    · intro b result reclaim rejectedLength he
      rw [hends] at he
      exact hunreported b result reclaim rejectedLength he
  · unfold StreamState.started StreamState.copyFinish
    dsimp only
    cases he : (s'.ends side).pendingEventFn with
    | none =>
      have hno : s'.hasPendingEvent side = false := by
        unfold StreamState.hasPendingEvent
        rw [he]
        rfl
      rw [hno]
      cases isAsync with
      | true => exact ⟨_, hm.acts_blocked ho hidle hattended CopyState.noConfusion⟩
      | false => exact ⟨_, hm.acts_blocked ho hidle hattended CopyState.noConfusion⟩
    | some fn =>
      have hyes : s'.hasPendingEvent side = true := by
        unfold StreamState.hasPendingEvent
        rw [he]
        rfl
      rw [hyes, if_pos rfl]
      cases fn with
      | throwFn err => exact absurd he (hm.kept.noThrow hthrow err)
      | processFn b result reclaim rejectedLength =>
        rw [copyEvent_processFn he]
        refine ⟨o, ?_⟩
        split
        · exact hm.acts_closed ho hidle he
        · exact hm.acts_closed ho hidle he

omit [DecidableEq α] in
/-- A copy that finds the stream dropped. -/
theorem dropped_stays (h : Sound s o) (hidle : IdleEnds s o) {elemMeta : ElemMeta α}
    (hlike : elemMeta.Like s.elemMeta) :
    Stays side o o s
      (({ s with copies := s.copies + 1, elemMeta } : StreamState α).setCopyState side .done) := by
  let s₁ : StreamState α := { s with copies := s.copies + 1, elemMeta }
  have hother : (s₁.setCopyState side .done).ends side.other = s.ends side.other :=
    setEnd_ne s₁ _ (Side.other_ne side)
  have hown : (s₁.setCopyState side .done).ends side = { s.ends side with copyState := .done } :=
    setEnd_self s₁ side _
  have hdone : ((s₁.setCopyState side .done).ends side).isCopying = false := by
    unfold StreamEnd.isCopying
    rw [hown]
  show Stays side o o s (s₁.setCopyState side .done)
  refine .of_end h (fun side' hside' => ?_) hother (by rw [hown]) rfl rfl rfl rfl rfl
    (le_succ _) hlike fun _ => hdone
  by_cases hside : side' = side
  · rw [hside, hown] at hside'
    cases hside'
  · rw [Side.eq_other hside, hother] at hside'
    rw [Side.eq_other hside]
    exact hidle side.other hside'

/-- A whole copy of an end: everything up to its first wait. -/
theorem copy_acts (h : Sound s o) (hidle : IdleEnds s o) (hthrow : NoThrow s side)
    (hbuffer : args.buffer = s.copies)
    (hargs : side = .write → args.memory.isSome = true ∨ args.data.length = args.count) :
    (∃ o', Stays side o o' s
      (resultState (StreamState.copy side args { s with copies := s.copies + 1 }))) ∨
    ∃ o', Acts side o (update o side (some s.copies)) o' s (s.opened args)
      (resultState (StreamState.copy side args { s with copies := s.copies + 1 })) := by
  unfold StreamState.copy
  rcases copyStart_cases h hbuffer rfl with
    ⟨err, elemMeta, hlike, hres⟩ | ⟨elemMeta, hlike, hdropped, hres⟩ |
    ⟨res', hdropped, hstate, hcount, hmet, hres⟩
  · rw [hres]
    exact .inl ⟨o, .of_end h hidle rfl rfl rfl rfl rfl rfl rfl (le_succ _) hlike id⟩
  · rw [hres]
    exact .inl ⟨o, dropped_stays h hidle hlike⟩
  · rw [hres]
    exact .inr (hmet.acts h hidle (hidle side hstate) hthrow hdropped hargs args.isAsync)

end

end

end Jco.Stream

import Jco.Stream.CopyStep
import Jco.Stream.Rendezvous

/-! # Cancelling a copy

`stream.cancel-read` and `stream.cancel-write` on a stream between guests, or one that a
guest writes and the host reads: nothing is delayed there. A call that finds an event
takes it, and otherwise the pending buffer is given back.
-/

namespace Jco.Stream

open Jco.Js StreamState

variable {α : Type}

namespace StreamState

/-- `cancel` of an end whose other end no host feeds. -/
def cancel (s : StreamState α) : StreamState α :=
  if s.dropped then s
  else
    let processed := (s.pendingBufferMeta.map fun p => (s.buffers p.buffer).processed).getD 0
    s.resetAndNotifyPending (if 0 < processed then .completed else .cancelled)

/-- The last part of the calls. -/
def cancelEvent (side : Side) : StreamM α CopyAnswer := fun s =>
  match s.getPendingEvent side with
  | .error err s => .error err s
  | .ok none s => .error .engine s
  | .ok (some event) s =>
    let e := s.ends side
    if e.isCopying then
      .error (.error s!"stream end (idx [{e.waitableIdx}]) is still in copying state") s
    else if event.code ≠ side.eventCode then
      .error (.error s!"unexpected event code [{event.code}], expected [{side.eventCode}]") s
    else if event.payload0 ≠ e.waitableIdx then
      .error (.error "event index does not match stream end") s
    else .ok (.packed event.payload1) s

/-- `stream.cancel-read` and `stream.cancel-write`, up to their first `await`. -/
def streamCancel (side : Side) (ctx : StreamCtx) : StreamM α CopyAnswer := fun s =>
  let e := s.ends side
  if ¬ctx.mayLeave then .error (.error "component instance is not marked as may leave") s
  else if ¬e.inTable then .error (.error s!"missing stream end with idx [{e.waitableIdx}]") s
  else if ¬e.isCopying then .error (.error "stream end is not copying, cannot cancel") s
  else
    let s := s.setCopyState side .cancellingCopy
    if s.hasPendingEvent side then cancelEvent side s
    else
      let s := s.cancel
      if s.hasPendingEvent side then cancelEvent side s
      else .ok (if ctx.isAsync then .blocked else .suspended) s

end StreamState

/-! ## What the calls of a guest do to the books -/

variable {s s' : StreamState α} {o : Side → Option Nat} {side : Side} {b : Nat}

/-- A cancelled copy answers with its progress, and its end is idle, or done. -/
theorem cancelEvent_processFn {result : CopyResult} {reclaim : Bool} {rejectedLength : Option Nat}
    (he : (s.ends side).pendingEventFn = some (.processFn b result reclaim rejectedLength)) :
    cancelEvent side s =
      if MAX_LENGTH ≤ (s.buffers b).processed then .error .engine (s.closed side result reclaim)
      else .ok (.packed (packResult (s.buffers b).processed result))
        (s.closed side result reclaim) := by
  unfold cancelEvent
  rw [getPendingEvent_processFn he]
  by_cases hmax : MAX_LENGTH ≤ (s.buffers b).processed
  · rw [if_pos hmax, if_pos hmax]
  · rw [if_neg hmax, if_neg hmax]
    have hends := closed_self s side result reclaim
    dsimp only
    rw [isCopying_closed, hends]
    rw [if_neg Bool.false_ne_true, if_neg (not_not.2 rfl), if_neg (not_not.2 rfl)]

theorem noThrow_setCopyState (hthrow : NoThrow s side) (copyState : CopyState) :
    NoThrow (s.setCopyState side copyState) side := by
  unfold NoThrow StreamState.setCopyState
  rw [setEnd_self]
  exact hthrow

theorem noThrow_resetAndNotifyPending (h : OpenCopies s o) (hthrow : NoThrow s side)
    (result : CopyResult) : NoThrow (s.resetAndNotifyPending result) side := by
  intro err he
  cases hp : s.pendingBufferMeta with
  | none =>
    rw [resetAndNotifyPending_none hp] at he
    exact hthrow err he
  | some p =>
    rw [h.resetAndNotifyPending_eq hp] at he
    have hkept : EndsKept s.resetPendingBufferMeta
        (s.resetPendingBufferMeta.onCopyDoneFn p.onCopyFn result none) :=
      .setPendingEvent _ p.onCopyFn.streamEnd
    rcases hkept.event side with hsame | ⟨_, _, _, _, hevent⟩
    · exact hthrow err (hsame.symm.trans he)
    · rw [hevent] at he
      cases he

theorem noThrow_cancel (h : OpenCopies s o) (hthrow : NoThrow s side) : NoThrow s.cancel side := by
  unfold StreamState.cancel
  split
  · exact hthrow
  · exact noThrow_resetAndNotifyPending h hthrow _

variable [StreamValue α]

/-- A copying end stays one. -/
theorem setCopyState_stays (h : Sound s o) (hidle : IdleEnds s o) {copyState : CopyState}
    (hcopying : copyState ≠ .idle) (hbusy : (s.ends side).isCopying = true) :
    Stays side o o s (s.setCopyState side copyState) := by
  have hother := setEnd_ne s { s.ends side with copyState } (Side.other_ne side)
  have hown := setEnd_self s side { s.ends side with copyState }
  have hfree : (s.ends side).isCopying = false →
      ((s.setCopyState side copyState).ends side).isCopying = false :=
    fun hnot => absurd (hnot.symm.trans hbusy) Bool.false_ne_true
  refine .of_end h (fun side' hside' => ?_) hother ?_ rfl rfl rfl rfl rfl (Nat.le_refl _) rfl hfree
  · by_cases hside : side' = side
    · unfold StreamState.setCopyState at hside'
      rw [hside, hown] at hside'
      exact absurd hside' hcopying
    · unfold StreamState.setCopyState at hside'
      rw [Side.eq_other hside, hother] at hside'
      rw [Side.eq_other hside]
      exact hidle side.other hside'
  · unfold StreamState.setCopyState
    rw [hown]

theorem cancel_stays (h : Sound s o) (hidle : IdleEnds s o) (side : Side) :
    Stays side o o s s.cancel := by
  unfold StreamState.cancel
  split
  · exact .refl h hidle side
  · exact resetAndNotifyPending_stays h hidle side _

theorem cancelEvent_stays (h : Sound s o) (hidle : IdleEnds s o) (hthrow : NoThrow s side) :
    ∃ o', Stays side o o' s (resultState (cancelEvent side s)) := by
  cases he : (s.ends side).pendingEventFn with
  | none =>
    unfold cancelEvent
    rw [getPendingEvent_none he]
    exact ⟨o, .refl h hidle side⟩
  | some fn =>
    cases fn with
    | throwFn err => exact absurd he (hthrow err)
    | processFn b result reclaim rejectedLength =>
      rw [cancelEvent_processFn he]
      refine ⟨Function.update o side none, ?_⟩
      split
      · exact closed_stays h hidle he
      · exact closed_stays h hidle he

theorem streamCancel_stays (h : Sound s o) (hidle : IdleEnds s o) (hthrow : NoThrow s side)
    (ctx : StreamCtx) : ∃ o', Stays side o o' s (resultState (streamCancel side ctx s)) := by
  unfold streamCancel
  dsimp only
  split
  · exact ⟨o, .refl h hidle side⟩
  split
  · exact ⟨o, .refl h hidle side⟩
  split
  · exact ⟨o, .refl h hidle side⟩
  rename_i hbusy
  have hcancelling : Stays side o o s (s.setCopyState side .cancellingCopy) :=
    setCopyState_stays h hidle CopyState.noConfusion (not_not.1 hbusy)
  have hthrow' := noThrow_setCopyState hthrow .cancellingCopy
  split
  · obtain ⟨o', hevent⟩ := cancelEvent_stays hcancelling.acts.sound hcancelling.acts.idle hthrow'
    exact ⟨o', hcancelling.trans hevent⟩
  · have hcancel := hcancelling.trans
      (cancel_stays hcancelling.acts.sound hcancelling.acts.idle side)
    split
    · obtain ⟨o', hevent⟩ := cancelEvent_stays hcancel.acts.sound hcancel.acts.idle
        (noThrow_cancel hcancelling.acts.sound.copies hthrow')
      exact ⟨o', hcancel.trans hevent⟩
    · exact ⟨o, hcancel⟩

theorem streamDrop_stays (h : Sound s o) (hidle : IdleEnds s o) (side : Side) :
    Stays side o o s (resultState (streamDrop side s)) := by
  unfold StreamState.streamDrop
  split
  · exact .refl h hidle side
  · have hremoved : Stays side o o s (s.setEnd side { s.ends side with inTable := false }) := by
      have hother := setEnd_ne s { s.ends side with inTable := false } (Side.other_ne side)
      have hown := setEnd_self s side { s.ends side with inTable := false }
      have hfree : (s.ends side).isCopying = false →
          ((s.setEnd side { s.ends side with inTable := false }).ends side).isCopying = false := by
        intro hnot
        rw [hown]
        exact hnot
      refine .of_end h (fun side' hside' => ?_) hother ?_ rfl rfl rfl rfl rfl (Nat.le_refl _) rfl
        hfree
      · by_cases hside : side' = side
        · subst hside
          rw [hown] at hside'
          exact hidle side' hside'
        · rw [Side.eq_other hside, hother] at hside'
          rw [Side.eq_other hside]
          exact hidle side.other hside'
      · rw [hown]
    exact hremoved.trans (drop_stays hremoved.acts.sound hremoved.acts.idle side)

variable [DecidableEq α]

/-- `stream.read` and `stream.write`: the copy is not started, or it acts on its end. -/
theorem streamCopy_acts (h : Sound s o) (hidle : IdleEnds s o) (hthrow : NoThrow s side)
    (ctx : StreamCtx) (ptr count : Int) :
    (∃ o', Stays side o o' s (resultState (streamCopy side ctx ptr count s))) ∨
    ∃ o', Acts side o (Function.update o side (some s.copies)) o' s
      (s.opened (ctx.copyArgs s.copies ptr count))
      (resultState (streamCopy side ctx ptr count s)) := by
  unfold StreamState.streamCopy
  dsimp only
  split
  · exact .inl ⟨o, .of_end h hidle rfl rfl rfl rfl rfl rfl rfl (Nat.le_succ _) rfl id⟩
  split
  · exact .inl ⟨o, .of_end h hidle rfl rfl rfl rfl rfl rfl rfl (Nat.le_succ _) rfl id⟩
  · exact copy_acts h hidle hthrow rfl fun _ => .inl rfl

end Jco.Stream

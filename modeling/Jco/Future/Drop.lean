import Jco.Lib.Run
import Jco.Future.Copy

/-! # Dropping one end of a future

The runs are of both ends: calls of guests and of the host, in any order, the part of
a call after its `await`, events that are taken, and drops. An end has a `dropped` of
its own, which the other end never sees.
-/

namespace Jco.Future

open Jco.Js Jco.Lib Jco.Stream State

variable {α τ : Type} [StreamValue α]

/-! ## Runs -/

inductive Call (α : Type) where
  | beginCopy (side : Side) (a : Args α)
  | endCopy (side : Side) (isAsync : Bool)
  | takeEvent (side : Side)
  | futureDrop (side : Side)

def Call.script : Call α → Js α τ Unit
  | beginCopy side a => Future.beginCopy side a
  | endCopy side isAsync => Future.endCopy side isAsync
  | takeEvent side => getPendingEvent side
  | futureDrop side => Future.futureDrop side

/-- An end is in its tables until it is dropped, and in one call at a time. -/
def Call.Enabled (s : State α τ) : Call α → Prop
  | beginCopy side a =>
    (s.futureEnd side).removed = false ∧ (s.futureEnd side).inFlight = false ∧
      a.buffer.Offers side
  | endCopy side _ => (s.futureEnd side).inFlight = true
  | takeEvent _ => True
  | futureDrop side => (s.futureEnd side).removed = false

def next : Action (Call α) (State α τ) := fun c s s' => c.Enabled s ∧ s' = c.script.leaves s

/-! ## The claim and its condition -/

/-- The canonical ABI traps when an end is dropped that is copying, or a writable end
that is not done. -/
def Droppable (s : State α τ) (side : Side) : Prop :=
  (s.futureEnd side).inFlight = false ∧
    ((s.futureEnd side).reported ≠ [] ∨ side = .read ∧ (s.futureEnd side).copyState = .idle)

/-- A call that traps before it comes to the copy. -/
def State.refuses (s : State α τ) (side : Side) (a : Args α) : Prop :=
  (s.futureEnd side).copyState ≠ .idle ∨ s.elemMeta.refuses a = true

/-- The write has its event, and nothing has been moved. -/
def ToldDropped (s s' : State α τ) : Prop :=
  s'.world = s.world ∧ ∃ n, (s'.futureEnd .write).pendingEvent = some ⟨.dropped, n⟩

/-- What the drop of one end means: it succeeds, a write that is pending is told, and
so is every later write. -/
def Kept (c : Call α) (s s' : State α τ) : Prop :=
  match c with
  | .futureDrop side =>
    Droppable s side → (futureDrop side).threw s = false ∧
      ∀ pending, s.pendingBufferMeta = some pending → side = .read → pending.side = .write →
        ToldDropped s s'
  | .beginCopy .write a =>
    (s.futureEnd .read).dropped = true → ¬ s.refuses .write a → ToldDropped s s'
  | _ => True

/-- No drop of the readable end while a write is pending, no write after it, and no drop
of a writable end whose event was taken while its call was in flight. -/
def Safe (c : Call α) (s : State α τ) : Prop :=
  match c with
  | .futureDrop .read => Droppable s .read → s.pendingBufferMeta = none
  | .futureDrop .write => Droppable s .write → (s.futureEnd .write).copyState = .done
  | .beginCopy .write a => (s.futureEnd .read).dropped = true → s.refuses .write a
  | _ => True

/-! ## The invariant -/

/-- The copy of an end was made. -/
def FutureEnd.Spent (e : FutureEnd) : Prop := e.pendingEvent ≠ none ∨ e.reported ≠ []

/-- The end does not begin another call. -/
def FutureEnd.Started (e : FutureEnd) : Prop := e.copyState ≠ .idle ∨ e.inFlight = true

/-- One copy is made for both ends, and after it no buffer is pending any more. -/
structure Inv (s : State α τ) : Prop where
  removed : ∀ side, (s.futureEnd side).dropped = true → (s.futureEnd side).removed = true
  event : ∀ side event, (s.futureEnd side).pendingEvent = some event → event = ⟨.completed, 0⟩
  done : ∀ side, (s.futureEnd side).copyState = .done → (s.futureEnd side).reported ≠ []
  spent : ∀ side, (s.futureEnd side).Spent → s.pendingBufferMeta = none
  together : ∀ side, (s.futureEnd side).Spent → (s.futureEnd side.other).Spent
  started : ∀ side, (s.futureEnd side).Spent → (s.futureEnd side).Started
  offers : ∀ pending, s.pendingBufferMeta = some pending → pending.buffer.Offers pending.side
  waits : ∀ pending, s.pendingBufferMeta = some pending → (s.futureEnd pending.side).Started
  kept : ∀ pending, s.pendingBufferMeta = some pending →
    (s.futureEnd pending.side).dropped = false

/-- What holds of each end by itself. -/
structure FutureEnd.Sane (e : FutureEnd) : Prop where
  removed : e.dropped = true → e.removed = true
  event : ∀ event, e.pendingEvent = some event → event = ⟨.completed, 0⟩
  done : e.copyState = .done → e.reported ≠ []

section

open Script

variable {s s' : State α τ} {side : Side} {a : Args α}

/-! ## What a step does -/

/-- A call throws, or waits, or copies with the buffer of the other end. -/
theorem beginCopy_cases (hinv : Inv s) (henabled : (Call.beginCopy side a).Enabled s) :
    (∃ err t, (beginCopy side a).run s = (.error err, t) ∧ t.futureEnd = s.futureEnd ∧
      t.pendingBufferMeta = s.pendingBufferMeta ∧
      (s.refuses side a ∨ ∃ pending, s.pendingBufferMeta = some pending ∧
        pending.side = side.other)) ∨
    (¬ (s.futureEnd side).Started ∧ s.pendingBufferMeta = none ∧
      (beginCopy side a).run s = (.ok (), State.modifyEnd
        { s with
          elemMeta := s.elemMeta.fill a
          pendingBufferMeta :=
            some ⟨if side = .read then some a.componentIdx else none, a.buffer, side⟩ }
        side fun e => { e with inFlight := true })) ∨
    (∃ pending w, s.pendingBufferMeta = some pending ∧ pending.side = side.other ∧
      (beginCopy side a).run s = (.ok (), State.modifyEnd
        (State.copied { s with elemMeta := s.elemMeta.fill a } w) side
        fun e => { e with inFlight := true })) := by
  obtain ⟨hremoved, hflight, hoffers⟩ := henabled
  have hdropped : (s.futureEnd side).dropped = false := by
    cases h : (s.futureEnd side).dropped with
    | false => rfl
    | true => exact absurd (hinv.removed side h) (by simp [hremoved])
  by_cases hidle : (s.futureEnd side).copyState = .idle
  swap
  · left
    exact ⟨_, s, beginCopy_busy hidle, rfl, rfl, .inl (.inl hidle)⟩
  have hstarted : ¬ (s.futureEnd side).Started := by
    rintro (h | h)
    · exact h hidle
    · rw [hflight] at h
      cases h
  cases hrefuses : s.elemMeta.refuses a with
  | true =>
    left
    obtain ⟨err, hbegin⟩ := beginCopy_refused hidle hrefuses
    exact ⟨err, _, hbegin, rfl, rfl, .inl (.inr hrefuses)⟩
  | false =>
    cases hpending : s.pendingBufferMeta with
    | none =>
      right
      left
      exact ⟨hstarted, rfl,
        beginCopy_ok hidle hrefuses (copy_waits hdropped hoffers.remaining hpending)⟩
    | some pending =>
      -- an end that has left a buffer does not call again
      have hside : pending.side = side.other := by
        have hwaits := hinv.waits pending hpending
        rcases pending.side.eq_or_other side with hown | hother
        · rw [hown] at hwaits
          exact absurd hwaits hstarted
        · exact hother
      by_cases hsame : SameComponent a.componentIdx pending
      · left
        obtain ⟨err, hcopy⟩ := copy_refused side
          (s := { s with elemMeta := s.elemMeta.fill a }) hdropped hoffers.remaining hpending
          hsame
        exact ⟨err, _, beginCopy_error hidle hrefuses hcopy, rfl, hpending,
          .inr ⟨pending, rfl, hside⟩⟩
      have hmeets := copy_meets (s := { s with elemMeta := s.elemMeta.fill a }) hdropped
        hoffers.remaining hpending hside hsame
      rcases htransfer : (transfer (s.elemMeta.fill a)
        (pending.side.src pending.buffer a.buffer)
        (pending.side.dst pending.buffer a.buffer)).run s.world with ⟨err | ⟨src, dst⟩, w⟩
      · left
        have hcopy := hmeets.trans (meet_error htransfer)
        exact ⟨err, _, beginCopy_error hidle hrefuses hcopy, rfl, hpending,
          .inr ⟨pending, rfl, hside⟩⟩
      · right
        right
        have hpoffers := hinv.offers pending hpending
        have hremaining : src.remaining = 0 ∧ dst.remaining = 0 := by
          rw [hside] at htransfer hpoffers
          cases side with
          | read => exact transfer_remaining hpoffers hoffers htransfer
          | write => exact transfer_remaining hoffers hpoffers htransfer
        have hcopy := hmeets.trans (meet_ok htransfer hremaining.1 hremaining.2)
        exact ⟨pending, w, rfl, hside, beginCopy_ok hidle hrefuses hcopy⟩

omit [StreamValue α] in
/-- A call goes on when there is no event for it. -/
theorem endCopy_blocked (isAsync : Bool) (hnone : (s.futureEnd side).pendingEvent = none) :
    (endCopy side isAsync).leaves s = s.modifyEnd side fun e =>
      { e with inFlight := false, copyState := if isAsync then .asyncCopying else .syncCopying } := by
  have hnone' : ((s.modifyEnd side fun e => { e with inFlight := false }).futureEnd
      side).pendingEvent = none := by
    rw [futureEnd_modifyEnd_self]
    exact hnone
  unfold leaves endCopy modifyEnd
  rw [modify_bind, get_bind, hnone', Option.isSome_none, if_neg Bool.false_ne_true, run_modify]
  dsimp only
  exact modifyEnd_modifyEnd ..

omit [StreamValue α] in
theorem endCopy_taken (isAsync : Bool)
    (hevent : (s.futureEnd side).pendingEvent = some ⟨.completed, 0⟩) :
    (endCopy side isAsync).leaves s = s.modifyEnd side fun e =>
      FutureEnd.taken { e with inFlight := false } := by
  have hevent' : ((s.modifyEnd side fun e => { e with inFlight := false }).futureEnd
      side).pendingEvent = some ⟨.completed, 0⟩ := by
    rw [futureEnd_modifyEnd_self]
    exact hevent
  unfold leaves endCopy modifyEnd
  rw [modify_bind, get_bind, hevent', Option.isSome_some, if_pos rfl, getPendingEvent_completed hevent']
  exact modifyEnd_modifyEnd ..

omit [StreamValue α] in
/-- A drop takes the end out of its tables before it looks whether it may. -/
theorem futureDrop_run (hinv : Inv s) (hremoved : (s.futureEnd side).removed = false) :
    (futureDrop side).threw s =
      ((side = .write && (s.futureEnd side).copyState ≠ .done) || s.pendingBufferMeta.isSome) ∧
    (futureDrop side).leaves s = s.modifyEnd side fun e =>
      { e with
        removed := true
        dropped := e.dropped || !(futureDrop side).threw s } := by
  have hdropped : (s.futureEnd side).dropped = false := by
    cases h : (s.futureEnd side).dropped with
    | false => rfl
    | true => exact absurd (hinv.removed side h) (by simp [hremoved])
  unfold threw leaves futureDrop drop modifyEnd
  simp only [modify_bind, get_bind, throwIf_bind, futureEnd_modifyEnd_self,
    pendingBufferMeta_modifyEnd, hdropped]
  cases hcheck : (side = .write && (s.futureEnd side).copyState ≠ .done)
  · cases hpending : s.pendingBufferMeta.isSome
    · simp
    · simp
  · simp

/-! ## The invariant in a run -/

omit [StreamValue α] in
theorem Inv.init (e : ElemMeta α τ) (w : World τ) : Inv (init e w) where
  removed := by
    intro side h
    cases h
  event := by
    intro side event h
    cases h
  done := by
    intro side h
    cases h
  spent := fun _ _ => rfl
  together := by
    rintro side (h | h)
    · exact absurd rfl h
    · exact absurd rfl h
  started := by
    rintro side (h | h)
    · exact absurd rfl h
    · exact absurd rfl h
  offers := by
    intro pending h
    cases h
  waits := by
    intro pending h
    cases h
  kept := by
    intro pending h
    cases h

omit [StreamValue α] in
/-- What holds of both ends holds after a change to one of them that keeps it. -/
theorem State.forall_modifyEnd {P : Side → FutureEnd → Prop} {f : FutureEnd → FutureEnd}
    (h : ∀ other, P other (s.futureEnd other)) (hf : P side (f (s.futureEnd side))) :
    ∀ other, P other ((s.modifyEnd side f).futureEnd other) :=
  (Function.forall_update_iff s.futureEnd P).2 ⟨hf, fun other _ => h other⟩

omit [StreamValue α] in
theorem Inv.sane (hinv : Inv s) (side : Side) : (s.futureEnd side).Sane :=
  ⟨hinv.removed side, hinv.event side, hinv.done side⟩

omit [StreamValue α] in
/-- A change to one end that leaves its copy as it is. -/
theorem Inv.modifyEnd (hinv : Inv s) {f : FutureEnd → FutureEnd}
    (hsane : (f (s.futureEnd side)).Sane)
    (hspent : (f (s.futureEnd side)).Spent ↔ (s.futureEnd side).Spent)
    (hstarted : (s.futureEnd side).Started → (f (s.futureEnd side)).Started)
    (hdropped : (f (s.futureEnd side)).dropped = true →
      (s.futureEnd side).dropped = true ∨ s.pendingBufferMeta = none) :
    Inv (s.modifyEnd side f) := by
  have hsane' := forall_modifyEnd (P := fun _ e => e.Sane) hinv.sane hsane
  have hspent' := forall_modifyEnd (P := fun other e => e.Spent ↔ (s.futureEnd other).Spent)
    (fun _ => Iff.rfl) hspent
  have hstarted' := forall_modifyEnd
    (P := fun other e => (s.futureEnd other).Started → e.Started) (fun _ => id) hstarted
  have hdropped' := forall_modifyEnd
    (P := fun other e => e.dropped = true →
      (s.futureEnd other).dropped = true ∨ s.pendingBufferMeta = none) (fun _ => Or.inl) hdropped
  constructor
  case removed => exact fun other => (hsane' other).removed
  case event => exact fun other => (hsane' other).event
  case done => exact fun other => (hsane' other).done
  case spent =>
    intro other h
    exact hinv.spent other ((hspent' other).1 h)
  case together =>
    intro other h
    exact (hspent' _).2 (hinv.together other ((hspent' other).1 h))
  case started =>
    intro other h
    exact hstarted' other (hinv.started other ((hspent' other).1 h))
  case offers => exact hinv.offers
  case waits =>
    intro pending hpending
    exact hstarted' _ (hinv.waits pending hpending)
  case kept =>
    intro pending hpending
    refine Bool.eq_false_iff.2 fun hd => ?_
    rcases hdropped' _ hd with hd' | hnone
    · rw [hinv.kept pending hpending] at hd'
      cases hd'
    · rw [pendingBufferMeta_modifyEnd, hnone] at hpending
      cases hpending

omit [StreamValue α] in
/-- An end takes the event of its copy. -/
theorem Inv.taken (hinv : Inv s) (inFlight : FutureEnd → Bool)
    (hevent : (s.futureEnd side).pendingEvent = some ⟨.completed, 0⟩) :
    Inv (s.modifyEnd side fun e => FutureEnd.taken { e with inFlight := inFlight e }) := by
  have hreported : (s.futureEnd side).reported ++ [.completed] ≠ [] :=
    List.append_ne_nil_of_right_ne_nil _ (List.cons_ne_nil _ _)
  have hspent : (s.futureEnd side).Spent := by
    left
    rw [hevent]
    exact Option.some_ne_none _
  apply hinv.modifyEnd
  · refine ⟨hinv.removed side, ?_, fun _ => hreported⟩
    intro event h
    cases h
  · exact ⟨fun _ => hspent, fun _ => .inr hreported⟩
  · intro _
    left
    exact CopyState.noConfusion
  · exact Or.inl

omit [StreamValue α] in
/-- The first end to call waits. -/
theorem Inv.pending (hinv : Inv s) {b : Buffer α} {c : Option Int} {e : ElemMeta α τ}
    (hremoved : (s.futureEnd side).removed = false)
    (hstarted : ¬ (s.futureEnd side).Started) (hoffers : b.Offers side) :
    Inv (State.modifyEnd { s with elemMeta := e, pendingBufferMeta := some ⟨c, b, side⟩ } side
      fun e => { e with inFlight := true }) := by
  -- neither end has made its copy, as the other end would be spent with this one
  have hunspent : ∀ other, ¬ (s.futureEnd other).Spent := by
    intro other hspent
    rcases other.eq_or_other side with hown | hother
    · rw [hown] at hspent
      exact hstarted (hinv.started side hspent)
    · rw [hother] at hspent
      have hown := hinv.together side.other hspent
      rw [Side.other_other] at hown
      exact hstarted (hinv.started side hown)
  have hspent : ∀ other, ¬ ((State.modifyEnd
      { s with elemMeta := e, pendingBufferMeta := some ⟨c, b, side⟩ } side
      fun e => { e with inFlight := true }).futureEnd other).Spent :=
    State.forall_modifyEnd (P := fun _ e => ¬ e.Spent) hunspent (hunspent side)
  have hsane := hinv.sane side
  have hsane' := State.forall_modifyEnd
    (s := { s with elemMeta := e, pendingBufferMeta := some ⟨c, b, side⟩ })
    (f := fun e => { e with inFlight := true }) (P := fun _ e => e.Sane) hinv.sane
    ⟨hsane.removed, hsane.event, hsane.done⟩
  constructor
  case removed => exact fun other => (hsane' other).removed
  case event => exact fun other => (hsane' other).event
  case done => exact fun other => (hsane' other).done
  case spent =>
    intro other h
    exact absurd h (hspent other)
  case together =>
    intro other h
    exact absurd h (hspent other)
  case started =>
    intro other h
    exact absurd h (hspent other)
  case offers =>
    intro pending hpending
    cases hpending
    exact hoffers
  case waits =>
    intro pending hpending
    cases hpending
    rw [State.futureEnd_modifyEnd_self]
    exact .inr rfl
  case kept =>
    intro pending hpending
    cases hpending
    rw [State.futureEnd_modifyEnd_self]
    cases h : (s.futureEnd side).dropped with
    | false => rfl
    | true => exact absurd (hinv.removed side h) (by simp [hremoved])

omit [StreamValue α] in
/-- The second end to call copies. -/
theorem Inv.copied (hinv : Inv s) {pending : PendingBufferMeta α} {w : World τ}
    {e : ElemMeta α τ} (hpending : s.pendingBufferMeta = some pending)
    (hside : pending.side = side.other) :
    Inv (State.modifyEnd (State.copied { s with elemMeta := e } w) side
      fun e => { e with inFlight := true }) := by
  have hwaits : (s.futureEnd side.other).Started := hside ▸ hinv.waits pending hpending
  have hspent : ∀ other, ((State.modifyEnd (State.copied { s with elemMeta := e } w) side
      fun e => { e with inFlight := true }).futureEnd other).Spent :=
    forall_modifyEnd (P := fun _ e => e.Spent) (fun _ => .inl (Option.some_ne_none _))
      (.inl (Option.some_ne_none _))
  have hsane : ∀ other,
      FutureEnd.Sane { s.futureEnd other with pendingEvent := some ⟨.completed, 0⟩ } := by
    intro other
    refine ⟨hinv.removed other, ?_, hinv.done other⟩
    intro event hevent
    exact (Option.some.inj hevent).symm
  have hsane' := State.forall_modifyEnd (s := State.copied { s with elemMeta := e } w)
    (f := fun e => { e with inFlight := true }) (P := fun _ e => e.Sane) hsane
    ⟨(hsane side).removed, (hsane side).event, (hsane side).done⟩
  constructor
  case removed => exact fun other => (hsane' other).removed
  case event => exact fun other => (hsane' other).event
  case done => exact fun other => (hsane' other).done
  case spent => exact fun _ _ => rfl
  case together => exact fun other _ => hspent other.other
  case started =>
    intro other _
    rcases other.eq_or_other side with rfl | rfl
    · rw [futureEnd_modifyEnd_self]
      exact .inr rfl
    · rw [futureEnd_modifyEnd_of_ne _ _ _ side.other_ne]
      exact hwaits
  case offers =>
    intro pending h
    cases h
  case waits =>
    intro pending h
    cases h
  case kept =>
    intro pending h
    cases h

/-- One step of either end. -/
theorem Inv.next (hinv : Inv s) {c : Call α} (hstep : Future.next c s s') : Inv s' := by
  obtain ⟨henabled, rfl⟩ := hstep
  cases c with
  | beginCopy side a =>
    show Inv ((beginCopy side a).leaves s)
    rcases beginCopy_cases hinv henabled with ⟨err, t, hrun, hends, hpending, -⟩ |
      ⟨hstarted, hnone, hrun⟩ | ⟨pending, w, hpending, hside, hrun⟩
    · rw [show (beginCopy side a).leaves s = t from congrArg Prod.snd hrun]
      exact {
        removed := by rw [hends]; exact hinv.removed
        event := by rw [hends]; exact hinv.event
        done := by rw [hends]; exact hinv.done
        spent := by rw [hends, hpending]; exact hinv.spent
        together := by rw [hends]; exact hinv.together
        started := by rw [hends]; exact hinv.started
        offers := by rw [hpending]; exact hinv.offers
        waits := by rw [hends, hpending]; exact hinv.waits
        kept := by rw [hends, hpending]; exact hinv.kept }
    · rw [show (beginCopy side a).leaves s = _ from congrArg Prod.snd hrun]
      exact hinv.pending henabled.1 hstarted henabled.2.2
    · rw [show (beginCopy side a).leaves s = _ from congrArg Prod.snd hrun]
      exact hinv.copied hpending hside
  | endCopy side isAsync =>
    show Inv ((endCopy side isAsync).leaves s)
    cases hevent : (s.futureEnd side).pendingEvent with
    | none =>
      rw [endCopy_blocked isAsync hevent]
      apply hinv.modifyEnd
      · refine ⟨hinv.removed side, hinv.event side, ?_⟩
        intro h
        cases isAsync <;> cases h
      · exact Iff.rfl
      · intro _
        left
        cases isAsync <;> exact CopyState.noConfusion
      · exact Or.inl
    | some event =>
      obtain rfl := hinv.event side event hevent
      rw [endCopy_taken isAsync hevent]
      exact hinv.taken (fun _ => false) hevent
  | takeEvent side =>
    show Inv ((getPendingEvent side).leaves s)
    cases hevent : (s.futureEnd side).pendingEvent with
    | none =>
      rw [show (getPendingEvent side).leaves s = s from
        congrArg Prod.snd (getPendingEvent_none hevent)]
      exact hinv
    | some event =>
      obtain rfl := hinv.event side event hevent
      rw [show (getPendingEvent side).leaves s = _ from
        congrArg Prod.snd (getPendingEvent_completed hevent)]
      exact hinv.taken FutureEnd.inFlight hevent
  | futureDrop side =>
    show Inv ((futureDrop side).leaves s)
    obtain ⟨hthrew, hleaves⟩ := futureDrop_run hinv henabled
    rw [hleaves]
    apply hinv.modifyEnd
    · exact ⟨fun _ => rfl, hinv.event side, hinv.done side⟩
    · exact Iff.rfl
    · exact id
    · intro h
      -- a drop that has succeeded has found no buffer
      by_cases hpending : s.pendingBufferMeta = none
      · exact .inr hpending
      · left
        rw [hthrew] at h
        simpa [Option.isSome_iff_ne_none.2 hpending] using h

/-! ## The claim in a run -/

/-- A drop does what it means when no buffer is pending. -/
theorem kept_drop_iff (hinv : Inv s) (hstep : Future.next (.futureDrop side) s s') :
    Kept (.futureDrop side) s s' ↔ Safe (.futureDrop side) s := by
  obtain ⟨hthrew, -⟩ := futureDrop_run hinv hstep.1
  constructor
  · intro hkept
    cases side with
    | read =>
      intro hdroppable
      have hdone := (hkept hdroppable).1
      rw [hthrew] at hdone
      simpa using hdone
    | write =>
      intro hdroppable
      have hdone := (hkept hdroppable).1
      rw [hthrew] at hdone
      simp at hdone
      exact hdone.1
  · intro hsafe hdroppable
    have hnone : s.pendingBufferMeta = none := by
      cases side with
      | read => exact hsafe hdroppable
      | write =>
        -- a writable end that is done has made its copy
        apply hinv.spent .write
        rcases hdroppable.2 with hreported | ⟨hread, -⟩
        · exact .inr hreported
        · cases hread
    constructor
    · rw [hthrew, hnone]
      cases side with
      | read => rfl
      | write =>
        have hstate : (s.futureEnd .write).copyState = .done := hsafe hdroppable
        rw [hstate]
        rfl
    · intro pending hpending
      rw [hnone] at hpending
      cases hpending

/-- A write that is not refused waits for a reader that is not there. -/
theorem kept_write_iff (hinv : Inv s) (hstep : Future.next (.beginCopy .write a) s s') :
    Kept (.beginCopy .write a) s s' ↔ Safe (.beginCopy .write a) s := by
  constructor
  · intro hkept hdropped
    by_contra hrefuses
    obtain ⟨-, n, hevent⟩ := hkept hdropped hrefuses
    obtain ⟨henabled, rfl⟩ := hstep
    have hread : ∀ pending, s.pendingBufferMeta = some pending → pending.side ≠ .read := by
      intro pending hpending hside
      have h := hinv.kept pending hpending
      rw [hside, hdropped] at h
      cases h
    rcases beginCopy_cases hinv henabled with ⟨err, t, -, -, -, hrefused | ⟨pending, hpending, hside⟩⟩ |
      ⟨hstarted, -, hrun⟩ | ⟨pending, w, hpending, hside, -⟩
    · exact hrefuses hrefused
    · exact hread pending hpending hside
    · rw [show (Call.beginCopy .write a).script.leaves s = _ from congrArg Prod.snd hrun,
        futureEnd_modifyEnd_self] at hevent
      apply hstarted
      apply hinv.started
      left
      rw [show (s.futureEnd .write).pendingEvent = _ from hevent]
      exact Option.some_ne_none _
    · exact hread pending hpending hside
  · intro hsafe hdropped hrefuses
    exact absurd (hsafe hdropped) hrefuses

theorem kept_iff_safe (hinv : Inv s) {c : Call α} (hstep : Future.next c s s') :
    Kept c s s' ↔ Safe c s := by
  cases c with
  | beginCopy side a =>
    cases side with
    | read => exact Iff.rfl
    | write => exact kept_write_iff hinv hstep
  | endCopy side isAsync => exact Iff.rfl
  | takeEvent side => exact Iff.rfl
  | futureDrop side => exact kept_drop_iff hinv hstep

end

/-- In the runs of a future every step does what a drop means exactly when every step
is safe. -/
theorem drop_observed_iff (e : ElemMeta α τ) (w : World τ) (cs : List (Call α)) (s : State α τ) :
    Run (fun c s s' => Kept c s s' ∧ next c s s') (.init e w) cs s ↔
      Run (guarded Safe next) (.init e w) cs s := by
  refine Run.iff_of_invariant ?_ ?_ (Inv.init e w)
  · intro c s s' hinv
    constructor
    · rintro ⟨hkept, hstep⟩
      exact ⟨(kept_iff_safe hinv hstep).1 hkept, hstep⟩
    · rintro ⟨hsafe, hstep⟩
      exact ⟨(kept_iff_safe hinv hstep).2 hsafe, hstep⟩
  · intro c s s' hstep hinv
    exact hinv.next hstep.2

/-! ## The write that nobody reads -/

/-- The readable end was dropped, and a write waits for it. -/
structure Blocked (s : State α τ) : Prop where
  inv : Inv s
  dropped : (s.futureEnd .read).dropped = true
  pending : ∃ pending, s.pendingBufferMeta = some pending ∧ pending.side = .write

section

open Script

variable {s s' : State α τ} {side : Side}

omit [StreamValue α] in
theorem Blocked.modifyEnd (hblocked : Blocked s) {f : FutureEnd → FutureEnd}
    (hinv : Inv (s.modifyEnd side f))
    (hdropped : ∀ e : FutureEnd, e.dropped = true → (f e).dropped = true) :
    Blocked (s.modifyEnd side f) where
  inv := hinv
  dropped := forall_modifyEnd
    (P := fun other e => (s.futureEnd other).dropped = true → e.dropped = true)
    (fun _ => id) (hdropped _) .read hblocked.dropped
  pending := hblocked.pending

theorem Blocked.next (hblocked : Blocked s) {c : Call α} (hstep : Future.next c s s') :
    Blocked s' := by
  have hinv := hblocked.inv
  have hinv' := hinv.next hstep
  have hremoved := hinv.removed .read hblocked.dropped
  obtain ⟨pending, hpending, hwrite⟩ := hblocked.pending
  obtain ⟨henabled, rfl⟩ := hstep
  cases c with
  | beginCopy side a =>
    cases side with
    | read => exact absurd henabled.1 (by simp [hremoved])
    | write =>
      rcases beginCopy_cases hinv henabled with ⟨err, t, hrun, hends, hbuffer, -⟩ |
        ⟨-, hnone, -⟩ | ⟨pending', w, hpending', hside, -⟩
      · have hleaves : (Call.beginCopy .write a).script.leaves s = t := congrArg Prod.snd hrun
        rw [hleaves] at hinv' ⊢
        exact ⟨hinv', by rw [hends]; exact hblocked.dropped,
          ⟨pending, hbuffer.trans hpending, hwrite⟩⟩
      · rw [hnone] at hpending
        cases hpending
      · -- the buffer that waits is of the writable end itself
        cases hpending.symm.trans hpending'
        rw [hwrite] at hside
        cases hside
  | endCopy side isAsync =>
    show Blocked ((endCopy side isAsync).leaves s)
    cases hevent : (s.futureEnd side).pendingEvent with
    | none =>
      have hleaves := endCopy_blocked isAsync hevent
      rw [hleaves]
      exact hblocked.modifyEnd (hleaves ▸ hinv') fun _ h => h
    | some event =>
      obtain rfl := hinv.event side event hevent
      have hleaves := endCopy_taken isAsync hevent
      rw [hleaves]
      exact hblocked.modifyEnd (hleaves ▸ hinv') fun _ h => h
  | takeEvent side =>
    show Blocked ((getPendingEvent side).leaves s)
    cases hevent : (s.futureEnd side).pendingEvent with
    | none =>
      rw [show (getPendingEvent side).leaves s = s from
        congrArg Prod.snd (getPendingEvent_none hevent)]
      exact hblocked
    | some event =>
      obtain rfl := hinv.event side event hevent
      have hleaves : (getPendingEvent side).leaves s = s.modifyEnd side FutureEnd.taken :=
        congrArg Prod.snd (getPendingEvent_completed hevent)
      rw [hleaves]
      exact hblocked.modifyEnd (hleaves ▸ hinv') fun _ h => h
  | futureDrop side =>
    show Blocked ((futureDrop side).leaves s)
    obtain ⟨-, hleaves⟩ := futureDrop_run hinv henabled
    rw [hleaves]
    apply hblocked.modifyEnd (hleaves ▸ hinv')
    intro e h
    rw [h]
    rfl

/-- A write that waits for a dropped reader never has a result, whatever follows. -/
theorem Blocked.never_completes (hblocked : Blocked s) {cs : List (Call α)}
    (hrun : Run Future.next s cs s') : (s'.futureEnd .write).reported = [] := by
  have hstep : ∀ (c : Call α) (t t' : State α τ), Future.next c t t' → Blocked t → Blocked t' :=
    fun c t t' hnext ht => ht.next hnext
  have hblocked' := Run.invariant hstep hrun hblocked
  obtain ⟨pending, hpending, -⟩ := hblocked'.pending
  by_contra hreported
  have hnone := hblocked'.inv.spent .write (.inr hreported)
  rw [hpending] at hnone
  cases hnone

end

/-- The options of a component for an element at the start of its memory. -/
def byteArgs (componentIdx : Int) : Args (Option UInt8) :=
  ⟨componentIdx, true, none, none, some componentIdx.toNat, some 0, none⟩

/-- Two components, a byte each. -/
def twoMemories : World Unit := ⟨fun _ => [7], ()⟩

theorem offers_byteArgs (componentIdx : Int) (side : Side) :
    (byteArgs componentIdx).buffer.Offers side where
  fresh := rfl
  value := by
    intro _ data hdata
    cases hdata

/-- The readable end may be dropped while a write waits, but its drop throws. After a
drop that succeeds a write waits, and for ever. -/
theorem drop_counterexample :
    (∃ s s' : State (Option UInt8) Unit,
      Run next (.init futureU8 twoMemories)
        [.beginCopy .write (byteArgs 0), .endCopy .write true] s ∧
      next (.futureDrop .read) s s' ∧ Droppable s .read ∧ (futureDrop .read).threw s = true) ∧
    (∃ s s' : State (Option UInt8) Unit,
      Run next (.init futureU8 twoMemories) [.futureDrop .read] s ∧
      next (.beginCopy .write (byteArgs 0)) s s' ∧ (s.futureEnd .read).dropped = true ∧
      ¬ s.refuses .write (byteArgs 0) ∧ (s'.futureEnd .write).pendingEvent = none ∧
      ∀ cs t, Run next s' cs t → (t.futureEnd .write).reported = []) := by
  constructor
  · refine ⟨_, _, .cons ⟨⟨rfl, rfl, offers_byteArgs 0 .write⟩, rfl⟩
      (.cons ⟨rfl, rfl⟩ (.nil _)), ⟨rfl, rfl⟩, ⟨rfl, .inr ⟨rfl, rfl⟩⟩, rfl⟩
  · let s : State (Option UInt8) Unit := (futureDrop .read).leaves (.init futureU8 twoMemories)
    let s' := (beginCopy .write (byteArgs 0)).leaves s
    have hdrop : Run next (.init futureU8 twoMemories) [.futureDrop .read] s :=
      .cons ⟨rfl, rfl⟩ (.nil _)
    have hwrite : next (.beginCopy .write (byteArgs 0)) s s' :=
      ⟨⟨rfl, rfl, offers_byteArgs 0 .write⟩, rfl⟩
    have hrefuses : ¬ s.refuses .write (byteArgs 0) := by
      rintro (h | h)
      · exact h rfl
      · cases h
    have hinv : Inv s := (Inv.init futureU8 twoMemories).next (c := .futureDrop .read) ⟨rfl, rfl⟩
    have hblocked : Blocked s' := ⟨hinv.next hwrite, rfl, ⟨_, rfl, rfl⟩⟩
    exact ⟨s, s', hdrop, hwrite, rfl, hrefuses, rfl,
      fun cs t hrun => hblocked.never_completes hrun⟩

end Jco.Future

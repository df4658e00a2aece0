import Jco.Future.End

/-! # What a read or a write of a future does

Up to its `await` a call is refused, or waits with its buffer, or finds the buffer of
the other end and copies. The element comes from the buffer of the writer whoever is
first, and a copy that does not throw leaves an event for each end.
-/

namespace Jco.Future

open Jco.Js Jco.Lib Jco.Stream

variable {α τ : Type}

def Side.other : Side → Side
  | read => write
  | write => read

@[simp] theorem Side.other_other (side : Side) : side.other.other = side := by
  cases side <;> rfl

theorem Side.other_ne (side : Side) : side.other ≠ side := by
  cases side <;> decide

theorem Side.eq_or_other (a b : Side) : a = b ∨ a = b.other := by
  cases a <;> cases b <;> decide

namespace State

variable (s : State α τ) (side : Side) (f : FutureEnd → FutureEnd)

@[simp] theorem futureEnd_modifyEnd_self :
    (s.modifyEnd side f).futureEnd side = f (s.futureEnd side) := Function.update_self ..

theorem futureEnd_modifyEnd_of_ne {other : Side} (h : other ≠ side) :
    (s.modifyEnd side f).futureEnd other = s.futureEnd other := Function.update_of_ne h ..

@[simp] theorem pendingBufferMeta_modifyEnd :
    (s.modifyEnd side f).pendingBufferMeta = s.pendingBufferMeta := rfl

@[simp] theorem world_modifyEnd : (s.modifyEnd side f).world = s.world := rfl

@[simp] theorem modifyEnd_modifyEnd (g : FutureEnd → FutureEnd) :
    (s.modifyEnd side f).modifyEnd side g = s.modifyEnd side fun e => g (f e) := by
  simp [State.modifyEnd]

end State

/-! ## Refusals -/

/-- The buffer of a caller. -/
def Args.buffer (a : Args α) : Buffer α := ⟨a.componentIdx, a.memory, a.ptr, 0, a.data⟩

/-- A call is refused before it comes to the copy. -/
def ElemMeta.refuses (e : ElemMeta α τ) (a : Args α) : Bool :=
  e.isBorrowed || match e.align32 with
    | none => true
    | some align32 =>
      match a.ptr with
      | none => false
      | some start => e.misaligned align32 start

theorem createBuffer_eq (e : ElemMeta α τ) (a : Args α) (hborrowed : e.isBorrowed = false) :
    if e.refuses a then ∃ err, e.createBuffer a = .error err
    else e.createBuffer a = .ok a.buffer := by
  unfold ElemMeta.createBuffer ElemMeta.refuses
  rw [hborrowed]
  cases e.align32 with
  | none => exact ⟨_, rfl⟩
  | some align32 =>
    cases hptr : a.ptr with
    | none => simp [Args.buffer, hptr]
    | some start =>
      by_cases h : e.misaligned align32 start = true
      · simp [h]
      · simp [Args.buffer, hptr, h]

section

open Script

variable [StreamValue α] {s : State α τ} {a : Args α}

/-- The metadata are filled in before the call is refused. -/
theorem guestCopy_refused (side : Side) (hrefuses : s.elemMeta.refuses a = true) : ∃ err,
    (guestCopy side a).run s = (.error err, { s with elemMeta := s.elemMeta.fill a }) := by
  unfold guestCopy
  rw [modify_bind, get_bind, throwIf_bind]
  by_cases hborrowed : (s.elemMeta.fill a).isBorrowed = true
  · exact ⟨_, if_pos hborrowed⟩
  · have hbuffer := createBuffer_eq (s.elemMeta.fill a) a (Bool.eq_false_of_not_eq_true hborrowed)
    -- filling in changes nothing that a refusal looks at
    rw [if_pos (show (s.elemMeta.fill a).refuses a = true from hrefuses)] at hbuffer
    obtain ⟨err, hbuffer⟩ := hbuffer
    refine ⟨err, ?_⟩
    rw [if_neg hborrowed, hbuffer]
    rfl

theorem guestCopy_copies (side : Side) (hrefuses : s.elemMeta.refuses a = false) :
    (guestCopy side a).run s = (copy side a.buffer a.componentIdx).run
      { s with elemMeta := s.elemMeta.fill a } := by
  have hborrowed : (s.elemMeta.fill a).isBorrowed = false := (Bool.or_eq_false_iff.1 hrefuses).1
  have hrefuses' : (s.elemMeta.fill a).refuses a ≠ true := by
    rw [show (s.elemMeta.fill a).refuses a = false from hrefuses]
    exact Bool.false_ne_true
  have hbuffer := createBuffer_eq _ a hborrowed
  rw [if_neg hrefuses'] at hbuffer
  unfold guestCopy
  rw [modify_bind, get_bind, throwIf_bind]
  rw [if_neg (by simp [hborrowed]), hbuffer]

theorem beginCopy_busy {side : Side} (hbusy : (s.futureEnd side).copyState ≠ .idle) :
    (beginCopy side a).run s =
      (.error (.error s!"future state must be idle before {side.operation}"), s) := by
  unfold beginCopy
  rw [get_bind, throwIf_bind, if_pos (by simpa using hbusy)]

theorem beginCopy_refused {side : Side} (hidle : (s.futureEnd side).copyState = .idle)
    (hrefuses : s.elemMeta.refuses a = true) : ∃ err,
      (beginCopy side a).run s = (.error err, { s with elemMeta := s.elemMeta.fill a }) := by
  obtain ⟨err, hcopy⟩ := guestCopy_refused side hrefuses
  refine ⟨err, ?_⟩
  unfold beginCopy
  rw [get_bind, throwIf_bind, if_neg (by simpa using hidle), run_bind_error hcopy]

theorem beginCopy_ok {side : Side} {t : State α τ} (hidle : (s.futureEnd side).copyState = .idle)
    (hrefuses : s.elemMeta.refuses a = false)
    (hcopy : (copy side a.buffer a.componentIdx).run { s with elemMeta := s.elemMeta.fill a } =
      (.ok (), t)) :
    (beginCopy side a).run s =
      (.ok (), t.modifyEnd side fun e => { e with inFlight := true }) := by
  have hguest := (guestCopy_copies side hrefuses).trans hcopy
  unfold beginCopy
  rw [get_bind, throwIf_bind, if_neg (by simpa using hidle), run_bind_ok hguest]
  rfl

theorem beginCopy_error {side : Side} {t : State α τ} {err : JsError}
    (hidle : (s.futureEnd side).copyState = .idle) (hrefuses : s.elemMeta.refuses a = false)
    (hcopy : (copy side a.buffer a.componentIdx).run { s with elemMeta := s.elemMeta.fill a } =
      (.error err, t)) :
    (beginCopy side a).run s = (.error err, t) := by
  have hguest := (guestCopy_copies side hrefuses).trans hcopy
  unfold beginCopy
  rw [get_bind, throwIf_bind, if_neg (by simpa using hidle), run_bind_error hguest]

end

/-! ## The copy -/

/-- What the end of a side brings to a copy: nothing has been copied with it, and a
writer of the host brings one value. -/
structure Buffer.Offers (side : Side) (b : Buffer α) : Prop where
  fresh : b.processed = 0
  value : side = .write → ∀ data, b.hostOnlyData = some data → data.length = 1

theorem Buffer.Offers.remaining {side : Side} {b : Buffer α} (h : b.Offers side) :
    b.remaining = 1 := by
  unfold Buffer.remaining
  rw [h.fresh]

section

open Script

variable [StreamValue α] {e : ElemMeta α τ} {w w' : World τ}

/-- A writer's buffer gives one value. -/
theorem read_values {b src : Buffer α} {values : List α} (hoffers : b.Offers .write)
    (hread : (b.read e).run w = (.ok (values, src), w')) :
    values.length = 1 ∧ src.processed = 1 := by
  have hprocessed : b.processed + 1 = 1 := by rw [hoffers.fresh]
  unfold Buffer.read at hread
  dsimp only at hread
  split at hread
  · cases hread
    exact ⟨rfl, hprocessed⟩
  cases hmemory : b.memory with
  | none =>
    rw [hmemory] at hread
    dsimp only at hread
    split at hread
    next => cases hread
    next data hdata =>
      cases hread
      have hlength := hoffers.value rfl data hdata
      exact ⟨by rw [List.length_take, hlength, Nat.min_self], hprocessed⟩
  | some memory =>
    rw [hmemory] at hread
    dsimp only at hread
    split at hread
    · rcases hbyte : (readByte memory b.ptr : Script JsError (World τ) (List α)).run w with
        ⟨err | bytes, w₁⟩
      · rw [run_bind_error hbyte] at hread
        cases hread
      · rw [run_bind_ok hbyte] at hread
        cases hread
        refine ⟨?_, hprocessed⟩
        unfold readByte at hbyte
        rw [get_bind] at hbyte
        split at hbyte
        next view hview =>
          cases hbyte
          rw [List.length_map, ManagedBuffer.length_view hview]
        next => cases hbyte
    · split at hread
      · cases hread
      next stringEncoding _ =>
        rcases hlift : (e.liftFn ⟨b.ptr, memory, b.componentIdx, stringEncoding⟩).run w with
          ⟨err | value, w₁⟩
        · rw [run_bind_error hlift] at hread
          cases hread
        · rw [run_bind_ok hlift] at hread
          cases hread
          exact ⟨rfl, hprocessed⟩

theorem write_processed {b dst : Buffer α} {values : List α}
    (hwrite : (b.write e values).run w = (.ok dst, w')) :
    dst.processed = b.processed + values.length := by
  unfold Buffer.write at hwrite
  dsimp only at hwrite
  split at hwrite
  · cases hwrite
  split at hwrite
  · cases hwrite
    rfl
  cases hmemory : b.memory with
  | none =>
    rw [hmemory] at hwrite
    dsimp only at hwrite
    split at hwrite
    · cases hwrite
    · cases hwrite
      rfl
  | some memory =>
    rw [hmemory] at hwrite
    dsimp only at hwrite
    split at hwrite
    · rcases hbytes : (writeBytes memory b.ptr values : Script JsError (World τ) Unit).run w with
        ⟨err | _, w₁⟩
      · rw [run_bind_error hbytes] at hwrite
        cases hwrite
      · rw [run_bind_ok hbytes] at hwrite
        cases hwrite
        rfl
    · split at hwrite
      · cases hwrite
      next stringEncoding _ =>
        rcases hlower : (lowerEach e ⟨b.ptr, memory, b.componentIdx, stringEncoding,
          e.getReallocFn⟩ values).run w with ⟨err | _, w₁⟩
        · rw [run_bind_error hlower] at hwrite
          cases hwrite
        · rw [run_bind_ok hlower] at hwrite
          cases hwrite
          rfl

/-- Nothing remains in either buffer. -/
theorem transfer_remaining {src dst src' dst' : Buffer α} (hsrc : src.Offers .write)
    (hdst : dst.Offers .read) (hok : (transfer e src dst).run w = (.ok (src', dst'), w')) :
    src'.remaining = 0 ∧ dst'.remaining = 0 := by
  unfold transfer at hok
  rcases hread : (src.read e).run w with ⟨err | ⟨values, src₁⟩, w₁⟩
  · rw [run_bind_error hread] at hok
    cases hok
  rw [run_bind_ok hread] at hok
  rcases hwrite : (dst.write e values).run w₁ with ⟨err | dst₁, w₂⟩
  · rw [run_bind_error hwrite] at hok
    cases hok
  rw [run_bind_ok hwrite] at hok
  cases hok
  obtain ⟨hlength, hprocessed⟩ := read_values hsrc hread
  have hwritten := write_processed hwrite
  unfold Buffer.remaining
  rw [hprocessed, hwritten, hlength, hdst.fresh]
  exact ⟨rfl, rfl⟩

/-! ## The end that waits and the one that comes -/

/-- The writer's buffer, of the one that waits and the one that comes. -/
def Side.src (waits : Side) (pending buffer : Buffer α) : Buffer α :=
  match waits with
  | .read => buffer
  | .write => pending

/-- The reader's buffer. -/
def Side.dst (waits : Side) (pending buffer : Buffer α) : Buffer α :=
  match waits with
  | .read => pending
  | .write => buffer

/-- The buffer of the end that waits, of the writer's and the reader's. -/
def Side.own (waits : Side) (buffers : Buffer α × Buffer α) : Buffer α :=
  match waits with
  | .read => buffers.2
  | .write => buffers.1

/-- The copy between a buffer that waits and one that comes. -/
def meet (waits : Side) (pending buffer : Buffer α) : Js α τ Unit := do
  let s ← get
  let buffers ← onWorld (transfer s.elemMeta (waits.src pending buffer) (waits.dst pending buffer))
  resetAndNotifyPending waits (waits.own buffers) .completed
  onCopyDoneFn waits.other (waits.other.own buffers) .completed

/-- The end that comes finds the component of the end that waits to be its own. -/
def SameComponent (componentIdx : Int) (pending : PendingBufferMeta α) : Prop :=
  pending.componentIdx = some componentIdx ∧ componentIdx ≠ -1

section

variable {s : State α τ} {side : Side} {buffer : Buffer α} {componentIdx : Int}

theorem copy_waits (hdropped : (s.futureEnd side).dropped = false) (hremaining : buffer.remaining = 1)
    (hpending : s.pendingBufferMeta = none) :
    (copy side buffer componentIdx).run s = (.ok (), { s with
      pendingBufferMeta :=
        some ⟨if side = .read then some componentIdx else none, buffer, side⟩ }) := by
  cases side with
  | read =>
    unfold copy _read
    dsimp only
    rw [get_bind, throwIf_bind, hdropped, if_neg Bool.false_ne_true, throwIf_bind, hremaining,
      if_neg (by decide), hpending]
    rfl
  | write =>
    unfold copy _write
    dsimp only
    rw [get_bind, throwIf_bind, hremaining, if_neg (by decide), hdropped,
      if_neg Bool.false_ne_true, hpending]
    rfl

variable {pending : PendingBufferMeta α}

omit [StreamValue α] in
theorem sameComponent_check (e : ElemMeta α τ) :
    (some componentIdx = pending.componentIdx && componentIdx ≠ -1 && !e.isNoneOrNumberType) = true
      ↔ SameComponent componentIdx pending := by
  unfold SameComponent ElemMeta.isNoneOrNumberType
  rw [Bool.not_false, Bool.and_true, Bool.and_eq_true, decide_eq_true_iff, decide_eq_true_iff]
  constructor
  · intro h
    exact ⟨h.1.symm, h.2⟩
  · intro h
    exact ⟨h.1.symm, h.2⟩

theorem copy_refused (side : Side) (hdropped : (s.futureEnd side).dropped = false)
    (hremaining : buffer.remaining = 1) (hpending : s.pendingBufferMeta = some pending)
    (hsame : SameComponent componentIdx pending) :
    ∃ err, (copy side buffer componentIdx).run s = (.error err, s) := by
  cases side with
  | read =>
    refine ⟨.error "same-component future reads not allowed for non-numeric types", ?_⟩
    unfold copy _read
    dsimp only
    rw [get_bind, throwIf_bind, hdropped, if_neg Bool.false_ne_true, throwIf_bind, hremaining,
      if_neg (by decide), hpending]
    rw [throwIf_bind, if_pos ((sameComponent_check _).2 hsame)]
  | write =>
    refine ⟨.error "same-component future writes not allowed for non-numeric types", ?_⟩
    unfold copy _write
    dsimp only
    rw [get_bind, throwIf_bind, hremaining, if_neg (by decide), hdropped,
      if_neg Bool.false_ne_true, hpending]
    rw [throwIf_bind, if_pos ((sameComponent_check _).2 hsame)]

theorem copy_meets (hdropped : (s.futureEnd side).dropped = false) (hremaining : buffer.remaining = 1)
    (hpending : s.pendingBufferMeta = some pending) (hside : pending.side = side.other)
    (hnot : ¬ SameComponent componentIdx pending) :
    (copy side buffer componentIdx).run s = (meet pending.side pending.buffer buffer).run s := by
  cases side with
  | read =>
    unfold copy _read
    dsimp only
    rw [get_bind, throwIf_bind, hdropped, if_neg Bool.false_ne_true, throwIf_bind, hremaining,
      if_neg (by decide), hpending]
    rw [throwIf_bind, if_neg (mt (sameComponent_check _).1 hnot), hside]
    rfl
  | write =>
    unfold copy _write
    dsimp only
    rw [get_bind, throwIf_bind, hremaining, if_neg (by decide), hdropped,
      if_neg Bool.false_ne_true, hpending]
    rw [throwIf_bind, if_neg (mt (sameComponent_check _).1 hnot), hside]
    rfl

end

/-- What a copy leaves: an event for each end. -/
def State.copied (s : State α τ) (w : World τ) : State α τ :=
  { s with
    world := w
    pendingBufferMeta := none
    futureEnd := fun side => { s.futureEnd side with pendingEvent := some ⟨.completed, 0⟩ } }

theorem meet_error {s : State α τ} {waits : Side} {pending buffer : Buffer α} {err : JsError}
    (herror : (transfer s.elemMeta (waits.src pending buffer) (waits.dst pending buffer)).run
      s.world = (.error err, w')) :
    (meet waits pending buffer).run s = (.error err, { s with world := w' }) := by
  unfold meet onWorld
  rw [get_bind, run_bind]
  dsimp only
  rw [herror]

theorem meet_ok {s : State α τ} {waits : Side} {pending buffer src dst : Buffer α}
    (hok : (transfer s.elemMeta (waits.src pending buffer) (waits.dst pending buffer)).run
      s.world = (.ok (src, dst), w'))
    (hsrc : src.remaining = 0) (hdst : dst.remaining = 0) :
    (meet waits pending buffer).run s = (.ok (), s.copied w') := by
  have hown : ∀ side : Side, (side.own (src, dst)).remaining = 0 := by
    intro side
    cases side
    · exact hdst
    · exact hsrc
  unfold meet onWorld resetAndNotifyPending onCopyDoneFn modifyEnd State.copied
  rw [get_bind, run_bind]
  dsimp only
  rw [hok]
  dsimp only
  -- each end gets its event from the buffer of its own
  rw [hown, hown]
  cases waits with
  | read =>
    refine congrArg (Prod.mk _) ?_
    refine congrArg (State.mk _ _ _) ?_
    funext other
    cases other <;> rfl
  | write =>
    refine congrArg (Prod.mk _) ?_
    refine congrArg (State.mk _ _ _) ?_
    funext other
    cases other <;> rfl

end

/-! ## Events -/

section

open Script

variable {s : State α τ} {side : Side}

theorem getPendingEvent_none (hnone : (s.futureEnd side).pendingEvent = none) :
    (getPendingEvent side).run s = (.ok (), s) := by
  unfold getPendingEvent
  rw [get_bind, hnone]
  rfl

/-- An end that has taken the event of a copy. -/
def FutureEnd.taken (e : FutureEnd) : FutureEnd :=
  { e with pendingEvent := none, copyState := .done, reported := e.reported ++ [.completed] }

theorem getPendingEvent_completed
    (hevent : (s.futureEnd side).pendingEvent = some ⟨.completed, 0⟩) :
    (getPendingEvent side).run s = (.ok (), s.modifyEnd side FutureEnd.taken) := by
  unfold getPendingEvent
  rw [get_bind, hevent]
  unfold futureEvent modifyEnd State.modifyEnd FutureEnd.taken
  simp [throwIf_bind]

end

end Jco.Future

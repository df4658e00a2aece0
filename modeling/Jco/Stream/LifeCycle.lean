import Jco.Lib.Run
import Jco.Stream.Conservation

/-! # The life cycle of stream ends

Each end of a stream has a waitable of its own, which may be in a waitable set. The
membership is kept on both sides, in the waitable and in the list of the set. The two
ends share one dropped flag: the end that is dropped first takes its waitable out of
its set, tells the copy that is pending, and sets the flag; the other one finds it.
-/

namespace Jco.Stream

open Jco.Js Jco.Lib StreamState

variable {α : Type} [StreamValue α] [DecidableEq α]

/-! ## Waitables and their sets -/

/-- The waitables of the two ends, and those of other streams, futures and subtasks. -/
inductive Waitable where
  | streamEnd (side : Side)
  | other (k : Nat)
deriving DecidableEq, Repr

structure WaitableSet where
  waitables : List Waitable
  numWaiting : Nat

def WaitableSet.removeWaitable (ws : WaitableSet) (w : Waitable) : WaitableSet :=
  { ws with waitables := ws.waitables.filter (· ≠ w) }

def WaitableSet.addWaitable (ws : WaitableSet) (w : Waitable) : WaitableSet :=
  { ws with waitables := (ws.removeWaitable w).waitables ++ [w] }

/-- A stream with the waitable sets around it. `waitableSet` is the member of a
waitable, `sets` are those that are in the handles. -/
structure SetState (α : Type) where
  stream : StreamState α
  waitableSet : Waitable → Option Nat
  sets : Nat → Option WaitableSet
  otherEvents : Nat → Bool

namespace SetState

def init (e : ElemMeta α) (waitableIdx : Side → Nat) : SetState α where
  stream := .init e waitableIdx
  waitableSet _ := none
  sets _ := none
  otherEvents _ := false

def modifySet (s : SetState α) (n : Nat) (f : WaitableSet → WaitableSet) : SetState α :=
  { s with sets := Function.update s.sets n ((s.sets n).map f) }

/-- `Waitable.join` -/
def join (s : SetState α) (w : Waitable) (ws : Option Nat) : SetState α :=
  let s := match s.waitableSet w with
    | none => s
    | some n => s.modifySet n (·.removeWaitable w)
  let s := { s with waitableSet := Function.update s.waitableSet w ws }
  match ws with
  | none => s
  | some n => s.modifySet n (·.addWaitable w)

/-- The waitable is found in the handles. -/
def inTable (s : SetState α) : Waitable → Bool
  | .streamEnd side => (s.stream.ends side).inTable
  | .other _ => true

def hasPendingEvent (s : SetState α) : Waitable → Bool
  | .streamEnd side => s.stream.hasPendingEvent side
  | .other k => s.otherEvents k

def waitableJoin (w : Waitable) (ws : Option Nat) (s : SetState α) :
    EStateM.Result JsError (SetState α) Unit :=
  if ¬s.inTable w then .error (.error "missing waitable obj") s
  else
    match ws with
    | none => .ok () (s.join w none)
    | some n =>
      if (s.sets n).isNone then .error (.error "missing waitable set") s
      else .ok () (s.join w (some n))

def removeWaitableSet (n : Nat) (s : SetState α) : EStateM.Result JsError (SetState α) Unit :=
  match s.sets n with
  | none => .error (.error "cannot remove waitable set: no set present") s
  | some ws =>
    if ws.waitables.any s.hasPendingEvent then
      .error (.error "waitable set cannot be removed with pending items remaining") s
    else if 0 < ws.waitables.length then
      .error (.error "waitable set still contains waitables") s
    else if 0 < ws.numWaiting then
      .error (.error "waitable set still has other tasks waiting on it") s
    else .ok () { s with sets := Function.update s.sets n none }

/-- `stream.drop-readable` and `stream.drop-writable`. The waitable leaves its set on
the way, unless the stream was dropped already. -/
def streamDrop (side : Side) (s : SetState α) : EStateM.Result JsError (SetState α) Unit :=
  match s.stream.streamDrop side with
  | .error err stream => .error err { s with stream }
  | .ok () stream =>
    .ok () { if s.stream.dropped then s else s.join (.streamEnd side) none with stream }

end SetState

/-- The state that is left, whether it throws or not. -/
def leaves {σ β : Type} : EStateM.Result JsError σ β → σ
  | .ok _ s => s
  | .error _ s => s

/-- What happens to a stream and to the sets around it. A copy of the host has data of
its own; a set has new waiters or fewer. The cancellations (`stream.cancel-read` and
`-write`) are left out. -/
inductive SetCall (α : Type) where
  | copy (side : Side) (ctx : StreamCtx) (ptr count : Int)
  | hostCopy (side : Side) (args : CopyArgs α)
  | deliver (side : Side)
  | drop (side : Side)
  | run (memories : Nat → Memory)
  | waitableJoin (w : Waitable) (ws : Option Nat)
  | waitableSetNew (n : Nat)
  | waitableSetDrop (n : Nat)
  | waiting (n : Nat) (numWaiting : Nat)
  | otherEvent (k : Nat) (pending : Bool)

def SetState.after (s : SetState α) : SetCall α → SetState α
  | .copy side ctx ptr count =>
    { s with stream := leaves (s.stream.streamCopy side ctx ptr count) }
  | .hostCopy side args =>
    { s with stream := leaves (StreamState.copy side args s.stream) }
  | .deliver side => { s with stream := leaves (s.stream.getPendingEvent side) }
  | .drop side => leaves (s.streamDrop side)
  | .run memories => { s with stream := { s.stream with memories } }
  | .waitableJoin w ws => leaves (s.waitableJoin w ws)
  | .waitableSetNew n => { s with sets := Function.update s.sets n (some ⟨[], 0⟩) }
  | .waitableSetDrop n => leaves (s.removeWaitableSet n)
  | .waiting n numWaiting => s.modifySet n ({ · with numWaiting })
  | .otherEvent k pending => { s with otherEvents := Function.update s.otherEvents k pending }

/-- A new set has a number that no other set has. -/
def setNext : Action (SetCall α) (SetState α) := fun c s s' =>
  (∀ n, c = .waitableSetNew n → s.sets n = none) ∧ s' = s.after c

/-! ## The claim and its condition -/

/-- The waitable is in no set, whoever is asked. -/
def OutOfSets (s : SetState α) (side : Side) : Prop :=
  s.waitableSet (.streamEnd side) = none ∧
    ∀ n ws, s.sets n = some ws → .streamEnd side ∉ ws.waitables

/-- The end has left its buffer, and no event has come for it. -/
def Waits (s : StreamState α) (side : Side) : Prop :=
  (s.ends side).pendingEventFn = none ∧
    ∃ p, s.pendingBufferMeta = some p ∧ p.onCopyFn.streamEnd = side

def ToldDropped (s : StreamState α) (side : Side) : Prop :=
  ∃ buffer, (s.ends side).pendingEventFn = some (.processFn buffer .dropped false none)

/-- No end is told anything. -/
def NoNews (s s' : StreamState α) : Prop :=
  ∀ side, (s'.ends side).pendingEventFn = (s.ends side).pendingEventFn ∨
    (s'.ends side).pendingEventFn = none

/-- What a step does for the life cycle. A drop takes the waitable out of its set; the
first one tells a copy of the other end that waits, and from then on nobody is told
anything. -/
def LifeKept (c : SetCall α) (s s' : SetState α) : Prop :=
  (∀ side, c = .drop side → (s.stream.ends side).inTable = true →
    OutOfSets s' side ∧
      (s.stream.dropped = false → Waits s.stream side.other → ToldDropped s'.stream side.other)) ∧
  (s.stream.dropped = true → NoNews s.stream s'.stream)

/-- The drop of one end. The one that comes second is in no set; the first one holds no
event, unless it is in no set and the other end does not wait; and a copy that waits has
made no progress. -/
def DropSafe (side : Side) (s : SetState α) : Prop :=
  if s.stream.dropped then s.waitableSet (.streamEnd side) = none
  else if s.stream.hasPendingEvent side then
    s.waitableSet (.streamEnd side) = none ∧ ¬ Waits s.stream side.other
  else Waits s.stream side.other →
    ∀ p, s.stream.pendingBufferMeta = some p → (s.stream.buffers p.buffer).processed = 0

def LifeSafe (c : SetCall α) (s : SetState α) : Prop :=
  ∀ side, c = .drop side → (s.stream.ends side).inTable = true → DropSafe side s

/-- Neither end is in a set, and a set can be dropped when the other waitables and the
tasks have left it. -/
def Clean (s : SetState α) : Prop :=
  (∀ side, OutOfSets s side) ∧
    ∀ n ws, s.sets n = some ws → ws.numWaiting = 0 → (∀ k, .other k ∉ ws.waitables) →
      ∃ s', s.removeWaitableSet n = .ok () s'

/-! ## What the calls leave -/

/-- A pending buffer with the closures of its own copy. -/
def PendingBufferMeta.Own (p : PendingBufferMeta) : Prop :=
  p.onCopyDoneFn = some ⟨p.onCopyFn.streamEnd, p.buffer⟩

/-- A copy drops no end and takes none out of the tables. -/
structure Frame (s s' : StreamState α) : Prop where
  dropped : s'.dropped = s.dropped
  inTable : ∀ side, (s'.ends side).inTable = (s.ends side).inTable
  pending : ∀ p, s'.pendingBufferMeta = some p → s.pendingBufferMeta = some p ∨ p.Own

namespace Frame

variable {s s' s'' : StreamState α}

omit [StreamValue α] [DecidableEq α]

theorem refl (s : StreamState α) : Frame s s := ⟨rfl, fun _ => rfl, fun _ h => .inl h⟩

theorem trans (h : Frame s s') (h' : Frame s' s'') : Frame s s'' where
  dropped := h'.dropped.trans h.dropped
  inTable side := (h'.inTable side).trans (h.inTable side)
  pending := by
    intro p hp
    rcases h'.pending p hp with hp' | hown
    · exact h.pending p hp'
    · exact .inr hown

/-- Only buffers, memories and history change. -/
theorem of_ends (hends : s'.ends = s.ends) (hdropped : s'.dropped = s.dropped)
    (hpending : s'.pendingBufferMeta = s.pendingBufferMeta) : Frame s s' where
  dropped := hdropped
  inTable side := by rw [hends]
  pending p hp := .inl (by rw [← hpending]; exact hp)

theorem setEnd {side : Side} {e : StreamEnd} (h : e.inTable = (s.ends side).inTable) :
    Frame s (s.setEnd side e) where
  dropped := rfl
  inTable := by
    intro side'
    by_cases hside : side' = side
    · subst hside
      simpa [StreamState.setEnd] using h
    · simp [StreamState.setEnd, hside]
  pending _ hp := .inl hp

theorem resetPendingBufferMeta : Frame s s.resetPendingBufferMeta where
  dropped := rfl
  inTable _ := rfl
  pending := by
    intro p hp
    cases hp

theorem setPendingBufferMeta {p : PendingBufferMeta} (hown : p.Own) :
    Frame s (s.setPendingBufferMeta p) where
  dropped := rfl
  inTable _ := rfl
  pending := by
    intro p' hp
    cases hp
    exact .inr hown

theorem setPendingEvent (side : Side) (fn : EventFn) : Frame s (s.setPendingEvent side fn) :=
  setEnd rfl

theorem onCopyDoneFn (c : Callback) (result : CopyResult) (rejectedLength : Option Nat) :
    Frame s (s.onCopyDoneFn c result rejectedLength) := setPendingEvent _ _

theorem resetAndNotifyPending (result : CopyResult) : Frame s (s.resetAndNotifyPending result) := by
  unfold StreamState.resetAndNotifyPending
  split
  · exact resetPendingBufferMeta
  · exact resetPendingBufferMeta.trans (onCopyDoneFn _ _ _)

theorem setCopyState (side : Side) (copyState : CopyState) : Frame s (s.setCopyState side copyState) :=
  setEnd rfl

theorem processFn (side : Side) (buffer : Nat) (result : CopyResult) (reclaim : Bool)
    (rejectedLength : Option Nat) :
    Frame s (leaves (s.processFn side buffer result reclaim rejectedLength)) := by
  have hreclaim : Frame s (if reclaim then s.resetPendingBufferMeta else s) := by
    split
    · exact resetPendingBufferMeta
    · exact refl s
  unfold StreamState.processFn
  refine hreclaim.trans ?_
  dsimp only
  generalize (if reclaim then s.resetPendingBufferMeta else s) = t
  have hstate : Frame t (t.setCopyState side (if result = .dropped then .done else .idle)) :=
    setCopyState side _
  generalize t.setCopyState side (if result = .dropped then .done else .idle) = t' at hstate ⊢
  split
  · exact hstate
  · exact hstate

theorem getPendingEvent (side : Side) : Frame s (leaves (s.getPendingEvent side)) := by
  have hcleared : Frame s (s.setEnd side { s.ends side with pendingEventFn := none }) := setEnd rfl
  unfold StreamState.getPendingEvent
  dsimp only
  split
  case h_1 => exact refl s
  case h_2 => exact hcleared
  case h_3 buffer result reclaim rejectedLength _ =>
    have hprocess := hcleared.trans (processFn side buffer result reclaim rejectedLength)
    split
    next hok =>
      rw [hok] at hprocess
      exact hprocess
    next herror =>
      rw [herror] at hprocess
      exact hprocess

end Frame

section

open StreamState

variable {s s' : StreamState α}

omit [DecidableEq α] in
theorem Frame.bufferRead (buffer count : Nat) : Frame s (leaves (bufferRead buffer count s)) := by
  unfold StreamState.bufferRead
  dsimp only
  split
  · exact refl s
  split
  · exact refl s
  split
  · exact refl s
  · exact of_ends rfl rfl rfl

theorem Frame.bufferWrite (buffer : Nat) (values : List α) :
    Frame s (leaves (bufferWrite buffer values s)) := by
  unfold StreamState.bufferWrite
  dsimp only
  split
  · exact refl s
  split
  · exact of_ends rfl rfl rfl
  · exact of_ends rfl rfl rfl

theorem Frame.transfer (source target count : Nat) :
    Frame s (leaves (transfer source target count s)) := by
  have hread := Frame.bufferRead (s := s) source count
  unfold StreamState.transfer
  split
  next h =>
    rw [h] at hread
    exact hread
  next values s₁ h =>
    rw [h] at hread
    exact hread.trans (Frame.bufferWrite target values)

omit [StreamValue α] [DecidableEq α] in
theorem Frame.shareEncoding (buffer pending : Nat) :
    Frame s (leaves (s.shareEncoding buffer pending)) := by
  unfold StreamState.shareEncoding
  dsimp only
  split
  · exact refl s
  split
  · exact refl s
  · exact of_ends rfl rfl rfl

/-- The closures of a copy and the metadata that it leaves. -/
theorem own_pending (own : Callback) (c : Int) (rejectLength : Option Nat) :
    PendingBufferMeta.Own ⟨c, own.buffer, own, some own, rejectLength⟩ := rfl

theorem Frame._write (own : Callback) (c : Int) : Frame s (leaves (_write own c s)) := by
  unfold StreamState._write
  dsimp only
  split
  · exact onCopyDoneFn _ _ _
  split
  · exact setPendingBufferMeta (own_pending own c none)
  next p _ =>
    split
    · exact refl s
    split
    · exact refl s
    split
    · exact onCopyDoneFn _ _ _
    split
    · exact (resetAndNotifyPending _).trans (setPendingBufferMeta (own_pending own c none))
    split
    · split
      · refine Frame.trans ?_ (onCopyDoneFn _ _ _)
        split
        · exact resetPendingBufferMeta
        · exact resetPendingBufferMeta.trans (onCopyDoneFn _ _ _)
      · have htransfer := Frame.transfer (s := s) own.buffer p.buffer
          (min (s.buffers own.buffer).remaining (s.buffers p.buffer).remaining)
        split
        next h =>
          rw [h] at htransfer
          exact htransfer
        next h =>
          rw [h] at htransfer
          exact htransfer.trans ((setPendingEvent _ _).trans (onCopyDoneFn _ _ _))
    · exact onCopyDoneFn _ _ _

theorem Frame._read (own : Callback) (c : Int) (rejectLength : Option Nat) :
    Frame s (leaves (_read own c rejectLength s)) := by
  unfold StreamState._read
  dsimp only
  split
  · exact onCopyDoneFn _ _ _
  split
  · exact setPendingBufferMeta (own_pending own c rejectLength)
  next p _ =>
    split
    · exact refl s
    have hshare := Frame.shareEncoding (s := s) own.buffer p.buffer
    split
    next h =>
      rw [h] at hshare
      exact hshare
    next t h =>
      rw [h] at hshare
      refine hshare.trans ?_
      split
      · exact refl t
      split
      · split
        · exact (resetAndNotifyPending _).trans (onCopyDoneFn _ _ _)
        split
        · have htransfer := Frame.transfer (s := t) p.buffer own.buffer
            (min (t.buffers p.buffer).remaining (t.buffers own.buffer).remaining)
          split
          next h' =>
            rw [h'] at htransfer
            exact htransfer
          next h' =>
            rw [h'] at htransfer
            exact htransfer.trans ((setPendingEvent _ _).trans (onCopyDoneFn _ _ _))
        · exact onCopyDoneFn _ _ _
      · exact (resetAndNotifyPending _).trans
          (setPendingBufferMeta (own_pending own c rejectLength))

omit [StreamValue α] [DecidableEq α] in
theorem Frame.copyEvent (side : Side) : Frame s (leaves (copyEvent side s)) := by
  have hevent := Frame.getPendingEvent (s := s) side
  unfold StreamState.copyEvent
  split
  next h =>
    rw [h] at hevent
    exact hevent
  next h =>
    rw [h] at hevent
    exact hevent
  next h =>
    rw [h] at hevent
    split
    · exact hevent
    · exact hevent

omit [StreamValue α] [DecidableEq α] in
theorem Frame.copyFinish (side : Side) (isAsync : Bool) :
    Frame s (leaves (copyFinish side isAsync s)) := by
  unfold StreamState.copyFinish
  split
  · exact copyEvent side
  split
  · exact setCopyState _ _
  · exact setCopyState _ _

omit [StreamValue α] [DecidableEq α] in
theorem Frame.setupCopy (side : Side) (args : CopyArgs α) :
    Frame s (leaves (setupCopy side args s)) := by
  unfold StreamState.setupCopy
  split
  · exact refl s
  split
  · exact refl s
  split
  · exact refl s
  split
  · exact refl s
  · exact of_ends rfl rfl rfl

omit [StreamValue α] [DecidableEq α] in
theorem leaves_started (r : EStateM.Result JsError (StreamState α) Unit) :
    leaves (started r) = leaves r := by
  cases r <;> rfl

/-- The read or the write, over the buffer that was made for it. -/
theorem Frame.copyOver (side : Side) (args : CopyArgs α) :
    Frame s (leaves (match StreamState.setupCopy side args s with
      | .error err s => .error err s
      | .ok own s =>
        StreamState.started <| match side with
          | .write => StreamState._write own args.componentIdx s
          | .read => StreamState._read own args.componentIdx args.rejectLength s)) := by
  have hsetup := Frame.setupCopy (s := s) side args
  split
  next h =>
    rw [h] at hsetup
    exact hsetup
  next own t h =>
    rw [h] at hsetup
    refine hsetup.trans ?_
    rw [leaves_started]
    cases side with
    | write => exact Frame._write own args.componentIdx
    | read => exact Frame._read own args.componentIdx args.rejectLength

/-- A copy on a stream that is not dropped. -/
theorem Frame.copy (side : Side) (args : CopyArgs α) (hdropped : s.dropped = false) :
    Frame s (leaves (copy side args s)) := by
  have hmeta : Frame s { s with elemMeta := { s.elemMeta with
      stringEncoding := s.elemMeta.stringEncoding.or args.stringEncoding } } := of_ends rfl rfl rfl
  have hstart : Frame s (leaves (copyStart side args s)) := by
    unfold StreamState.copyStart
    dsimp only
    split
    · exact hmeta
    rw [if_neg (by simp [hdropped])]
    exact hmeta.trans (Frame.copyOver side args)
  unfold StreamState.copy
  split
  next h =>
    rw [h] at hstart
    exact hstart
  next h =>
    rw [h] at hstart
    exact hstart
  next h =>
    rw [h] at hstart
    exact hstart.trans (Frame.copyFinish side args.isAsync)

/-- A copy on a stream that is dropped: it is answered at once. -/
theorem copy_dropped (side : Side) (args : CopyArgs α) (hdropped : s.dropped = true)
    (hpending : s.pendingBufferMeta = none) :
    (leaves (copy side args s)).dropped = true ∧
      (leaves (copy side args s)).pendingBufferMeta = none ∧
      ∀ side', ((leaves (copy side args s)).ends side').inTable = (s.ends side').inTable ∧
        ((leaves (copy side args s)).ends side').pendingEventFn = (s.ends side').pendingEventFn := by
  unfold copy copyStart
  dsimp only
  by_cases hencoding : args.stringEncoding.isSome ∧
      s.elemMeta.stringEncoding.or args.stringEncoding ≠ args.stringEncoding
  · rw [if_pos hencoding]
    exact ⟨hdropped, hpending, fun _ => ⟨rfl, rfl⟩⟩
  · rw [if_neg hencoding, if_pos hdropped]
    unfold notifyDropped
    simp only [hpending]
    refine ⟨hdropped, rfl, ?_⟩
    intro side'
    by_cases h : side' = side
    · subst h
      simp [leaves, setCopyState, setEnd]
    · simp [leaves, setCopyState, setEnd, h]

end

/-! ## Membership -/

/-- The two sides of a membership agree, and what is pending is told to its own end. -/
structure SetInv (s : SetState α) : Prop where
  member : ∀ w n, s.waitableSet w = some n → ∃ ws, s.sets n = some ws ∧ w ∈ ws.waitables
  listed : ∀ w n ws, s.sets n = some ws → w ∈ ws.waitables → s.waitableSet w = some n
  pending : ∀ p, s.stream.pendingBufferMeta = some p → p.Own
  dropped : s.stream.dropped = true → s.stream.pendingBufferMeta = none

section

variable {s s' : SetState α} {w v : Waitable} {n : Nat} {ws ws' : WaitableSet}

omit [StreamValue α] [DecidableEq α]

theorem mem_removeWaitable : v ∈ (ws.removeWaitable w).waitables ↔ v ∈ ws.waitables ∧ v ≠ w := by
  simp [WaitableSet.removeWaitable]

theorem mem_addWaitable :
    v ∈ (ws.addWaitable w).waitables ↔ v = w ∨ v ∈ ws.waitables ∧ v ≠ w := by
  simp only [WaitableSet.addWaitable, List.mem_append, mem_removeWaitable, List.mem_singleton]
  exact or_comm

theorem sets_modifySet (m : Nat) (f : WaitableSet → WaitableSet) :
    (s.modifySet m f).sets n = if n = m then (s.sets n).map f else s.sets n := by
  unfold SetState.modifySet
  by_cases h : n = m
  · subst h
    simp
  · simp [h]

/-- A waitable that leaves is not listed any more, and nothing else happens. -/
theorem mem_leave (hinv : SetInv s)
    (h : (match s.waitableSet w with
      | none => s
      | some m => s.modifySet m (·.removeWaitable w)).sets n = some ws') :
    ∃ ws, s.sets n = some ws ∧ ∀ v, v ∈ ws'.waitables ↔ v ∈ ws.waitables ∧ v ≠ w := by
  -- where the waitable is not listed there is nothing to remove
  have hunlisted : ∀ ws, s.sets n = some ws → s.waitableSet w ≠ some n →
      ∀ v, v ∈ ws.waitables ↔ v ∈ ws.waitables ∧ v ≠ w := by
    intro ws hws hne v
    constructor
    · intro hv
      refine ⟨hv, ?_⟩
      intro heq
      subst heq
      exact hne (hinv.listed v n ws hws hv)
    · exact And.left
  cases hset : s.waitableSet w with
  | none =>
    rw [hset] at h
    refine ⟨ws', h, ?_⟩
    apply hunlisted ws' h
    rw [hset]
    exact fun hcontra => by cases hcontra
  | some m =>
    rw [hset] at h
    rw [sets_modifySet] at h
    by_cases hm : n = m
    · rw [if_pos hm] at h
      obtain ⟨ws, hws, rfl⟩ := Option.map_eq_some_iff.1 h
      exact ⟨ws, hws, fun v => mem_removeWaitable⟩
    · rw [if_neg hm] at h
      refine ⟨ws', h, ?_⟩
      apply hunlisted ws' h
      rw [hset]
      intro heq
      exact hm (Option.some.inj heq).symm

theorem mem_join (hinv : SetInv s) {dst : Option Nat} (h : (s.join w dst).sets n = some ws') :
    ∃ ws, s.sets n = some ws ∧
      ∀ v, v ∈ ws'.waitables ↔ (v = w ∧ dst = some n) ∨ (v ∈ ws.waitables ∧ v ≠ w) := by
  unfold SetState.join at h
  dsimp only at h
  cases dst with
  | none =>
    obtain ⟨ws, hws, hmem⟩ := mem_leave hinv h
    refine ⟨ws, hws, ?_⟩
    intro v
    rw [hmem v]
    simp
  | some m =>
    dsimp only at h
    rw [sets_modifySet] at h
    by_cases hm : n = m
    · subst hm
      rw [if_pos rfl] at h
      obtain ⟨ws₁, hws₁, rfl⟩ := Option.map_eq_some_iff.1 h
      obtain ⟨ws, hws, hmem⟩ := mem_leave hinv hws₁
      refine ⟨ws, hws, ?_⟩
      intro v
      rw [mem_addWaitable, hmem v]
      constructor
      · rintro (hv | ⟨hv, -⟩)
        · exact .inl ⟨hv, rfl⟩
        · exact .inr hv
      · rintro (⟨hv, -⟩ | hv)
        · exact .inl hv
        · exact .inr ⟨hv, hv.2⟩
    · rw [if_neg hm] at h
      obtain ⟨ws, hws, hmem⟩ := mem_leave hinv h
      refine ⟨ws, hws, ?_⟩
      intro v
      rw [hmem v]
      constructor
      · exact .inr
      · rintro (⟨-, heq⟩ | hv)
        · exact absurd (Option.some.inj heq).symm hm
        · exact hv

/-- No set comes or goes. -/
theorem isSome_sets_join (w : Waitable) (dst : Option Nat) (n : Nat) :
    ((s.join w dst).sets n).isSome = (s.sets n).isSome := by
  have hmodify : ∀ (t : SetState α) (m : Nat) (f : WaitableSet → WaitableSet),
      ((t.modifySet m f).sets n).isSome = (t.sets n).isSome := by
    intro t m f
    rw [sets_modifySet]
    split
    · exact Option.isSome_map
    · rfl
  have hleave : ((match s.waitableSet w with
      | none => s
      | some m => s.modifySet m (·.removeWaitable w)).sets n).isSome = (s.sets n).isSome := by
    split
    · rfl
    · exact hmodify _ _ _
  cases dst with
  | none => exact hleave
  | some m => exact (hmodify _ _ _).trans hleave

theorem waitableSet_join (w v : Waitable) (dst : Option Nat) :
    (s.join w dst).waitableSet v = if v = w then dst else s.waitableSet v := by
  have hjoin : (s.join w dst).waitableSet = Function.update s.waitableSet w dst := by
    unfold SetState.join
    dsimp only
    cases s.waitableSet w <;> cases dst <;> rfl
  rw [hjoin, Function.update_apply]

theorem stream_join (w : Waitable) (dst : Option Nat) : (s.join w dst).stream = s.stream := by
  unfold SetState.join
  dsimp only
  cases s.waitableSet w <;> cases dst <;> rfl

/-- A waitable joins a set that is there, or leaves the one it is in. -/
theorem SetInv.join (hinv : SetInv s) (w : Waitable) {dst : Option Nat}
    (hto : ∀ n, dst = some n → (s.sets n).isSome = true) : SetInv (s.join w dst) where
  member := by
    intro v n hv
    rw [waitableSet_join] at hv
    have hsome : ((s.join w dst).sets n).isSome = true := by
      rw [isSome_sets_join]
      split at hv
      · exact hto n hv
      · obtain ⟨ws, hws, -⟩ := hinv.member v n hv
        rw [hws]
        rfl
    obtain ⟨ws', hws'⟩ := Option.isSome_iff_exists.1 hsome
    obtain ⟨ws, hws, hmem⟩ := mem_join hinv hws'
    refine ⟨ws', hws', (hmem v).2 ?_⟩
    by_cases heq : v = w
    · rw [if_pos heq] at hv
      exact .inl ⟨heq, hv⟩
    · rw [if_neg heq] at hv
      obtain ⟨ws₀, hws₀, hv₀⟩ := hinv.member v n hv
      rw [hws] at hws₀
      cases hws₀
      exact .inr ⟨hv₀, heq⟩
  listed := by
    intro v n ws' hws' hv
    obtain ⟨ws, hws, hmem⟩ := mem_join hinv hws'
    rw [waitableSet_join]
    rcases (hmem v).1 hv with ⟨heq, hn⟩ | ⟨hv', hne⟩
    · rw [if_pos heq]
      exact hn
    · rw [if_neg hne]
      exact hinv.listed v n ws hws hv'
  pending := by
    rw [stream_join]
    exact hinv.pending
  dropped := by
    rw [stream_join]
    exact hinv.dropped

/-- Whoever is asked, the answer is the same. -/
theorem SetInv.outOfSets (hinv : SetInv s) {side : Side}
    (hnone : s.waitableSet (.streamEnd side) = none) : OutOfSets s side := by
  refine ⟨hnone, ?_⟩
  intro n ws hws hmem
  have hlisted := hinv.listed _ n ws hws hmem
  rw [hnone] at hlisted
  cases hlisted

end

/-! ## One step -/

section

variable {s s' : SetState α} {side : Side}

omit [StreamValue α] [DecidableEq α]

/-- The stream goes on by itself, as in a copy. -/
theorem SetInv.stream (hinv : SetInv s) {stream : StreamState α}
    (hpending : ∀ p, stream.pendingBufferMeta = some p → p.Own)
    (hdropped : stream.dropped = true → stream.pendingBufferMeta = none) :
    SetInv { s with stream } :=
  ⟨hinv.member, hinv.listed, hpending, hdropped⟩

theorem SetInv.frame (hinv : SetInv s) {stream : StreamState α} (hframe : Frame s.stream stream)
    (hdropped : stream.dropped = true → stream.pendingBufferMeta = none) :
    SetInv { s with stream } := by
  apply hinv.stream
  · intro p hp
    rcases hframe.pending p hp with hp' | hown
    · exact hinv.pending p hp'
    · exact hown
  · exact hdropped

theorem SetInv.init (e : ElemMeta α) (waitableIdx : Side → Nat) :
    SetInv (SetState.init e waitableIdx) where
  member := by
    intro w n h
    cases h
  listed := by
    intro w n ws h
    cases h
  pending := by
    intro p h
    cases h
  dropped := by
    intro h
    cases h

/-- Whether the waitable of an end still leaves its set. -/
def Passes (s : SetState α) (side : Side) : Prop :=
  s.stream.dropped = false ∧ s.stream.hasPendingEvent side = false

/-- The stream that a drop which passes leaves: the copy that was pending has its
event, and nothing is pending any more. -/
structure Dropped (s s' : StreamState α) (side : Side) : Prop where
  dropped : s'.dropped = true
  pending : s'.pendingBufferMeta = none
  inTable : ∀ side', (s'.ends side').inTable =
    if side' = side then false else (s.ends side').inTable
  told : ∀ p, s.pendingBufferMeta = some p → p.Own →
    (s'.ends p.onCopyFn.streamEnd).pendingEventFn = some (.processFn p.buffer
      (if 0 < (s.buffers p.buffer).processed then .completed else .dropped) false none)

/-- The end leaves the tables. -/
def StreamState.remove (s : StreamState α) (side : Side) : StreamState α :=
  s.setEnd side { s.ends side with inTable := false }

theorem ends_remove (s : StreamState α) (side side' : Side) :
    ((s.remove side).ends side').inTable = (if side' = side then false else (s.ends side').inTable) ∧
      ((s.remove side).ends side').pendingEventFn = (s.ends side').pendingEventFn := by
  unfold remove setEnd
  by_cases h : side' = side
  · subst h
    simp
  · simp [h]

theorem streamDrop_eq {s : StreamState α} (hin : (s.ends side).inTable = true) :
    s.streamDrop side = (s.remove side).drop side := by
  unfold streamDrop
  rw [if_neg (by simp [hin])]
  rfl

/-- A drop that does not pass leaves the stream as it is, apart from the tables. -/
theorem leaves_drop_stays (hin : (s.stream.ends side).inTable = true) (hnot : ¬ Passes s side) :
    leaves (s.streamDrop side) = { s with stream := s.stream.remove side } := by
  have hpendingEvent : (s.stream.remove side).hasPendingEvent side =
      s.stream.hasPendingEvent side := by
    unfold hasPendingEvent
    rw [(ends_remove s.stream side side).2]
  unfold SetState.streamDrop
  rw [streamDrop_eq hin]
  unfold drop
  by_cases hdropped : s.stream.dropped = true
  · rw [if_pos (show (s.stream.remove side).dropped = true from hdropped)]
    dsimp only
    rw [hdropped, if_pos rfl]
    rfl
  · rw [if_neg (show ¬ (s.stream.remove side).dropped = true from hdropped)]
    have hevent : s.stream.hasPendingEvent side = true := by
      by_contra h
      exact hnot ⟨by simpa using hdropped, by simpa using h⟩
    rw [if_pos (hpendingEvent.trans hevent)]
    rfl

/-- A drop that passes takes the waitable out of its set. -/
theorem leaves_drop_passes (hin : (s.stream.ends side).inTable = true) (hpasses : Passes s side) :
    ∃ stream, leaves (s.streamDrop side) = { s.join (.streamEnd side) none with stream } ∧
      Dropped s.stream stream side := by
  obtain ⟨hdropped, hevent⟩ := hpasses
  have hpendingEvent : ¬ (s.stream.remove side).hasPendingEvent side = true := by
    unfold hasPendingEvent
    rw [(ends_remove s.stream side side).2]
    unfold hasPendingEvent at hevent
    rw [hevent]
    exact Bool.false_ne_true
  -- what the other end that waits is told
  let result : CopyResult :=
    if 0 < ((s.stream.pendingBufferMeta.map fun p =>
      (s.stream.buffers p.buffer).processed).getD 0) then .completed else .dropped
  let stream := ({ s.stream.remove side with dropped := true }).resetAndNotifyPending result
  refine ⟨stream, ?_, ?_⟩
  · unfold SetState.streamDrop
    rw [streamDrop_eq hin]
    unfold drop
    rw [if_neg (show ¬ (s.stream.remove side).dropped = true from by
        rw [show (s.stream.remove side).dropped = s.stream.dropped from rfl, hdropped]
        exact Bool.false_ne_true),
      if_neg hpendingEvent]
    rw [hdropped, if_neg Bool.false_ne_true]
    rfl
  · have hframe : Frame { s.stream.remove side with dropped := true } stream :=
      Frame.resetAndNotifyPending result
    constructor
    case dropped => exact hframe.dropped
    case pending =>
      show (resetAndNotifyPending _ _).pendingBufferMeta = none
      unfold resetAndNotifyPending
      split <;> rfl
    case inTable =>
      intro side'
      rw [hframe.inTable side']
      exact (ends_remove s.stream side side').1
    case told =>
      intro p hp hown
      have hresult : result =
          if 0 < (s.stream.buffers p.buffer).processed then .completed else .dropped := by
        show (if _ then _ else _) = _
        rw [hp]
        rfl
      have hfound : (({ s.stream.remove side with dropped := true } : StreamState α)
          |>.pendingBufferMeta).bind (·.onCopyDoneFn) =
            some ⟨p.onCopyFn.streamEnd, p.buffer⟩ := by
        show s.stream.pendingBufferMeta.bind (·.onCopyDoneFn) = _
        rw [hp]
        exact hown
      show ((resetAndNotifyPending _ _).ends _).pendingEventFn = _
      unfold resetAndNotifyPending
      rw [hfound, ← hresult]
      exact setPendingEvent_self _ _ _

end

/-! ## Calls after a drop -/

/-- What a call other than a drop leaves of the stream. -/
structure Quiet (s s' : StreamState α) : Prop where
  frame : Frame s s'
  pending : s.dropped = true → s'.pendingBufferMeta = none
  noNews : s.dropped = true → NoNews s s'

section

variable {s s' : StreamState α}

omit [StreamValue α] [DecidableEq α] in
theorem NoNews.of_ends (hends : s'.ends = s.ends) : NoNews s s' := by
  intro side
  left
  rw [hends]

omit [StreamValue α] [DecidableEq α] in
theorem Quiet.of_ends (hnone : s.dropped = true → s.pendingBufferMeta = none)
    (hends : s'.ends = s.ends) (hdropped : s'.dropped = s.dropped)
    (hpending : s'.pendingBufferMeta = s.pendingBufferMeta) : Quiet s s' where
  frame := .of_ends hends hdropped hpending
  pending hd := hpending.trans (hnone hd)
  noNews _ := .of_ends hends

theorem Quiet.copy (hnone : s.dropped = true → s.pendingBufferMeta = none) (side : Side)
    (args : CopyArgs α) : Quiet s (leaves (copy side args s)) := by
  cases hdropped : s.dropped with
  | false =>
    constructor
    · exact Frame.copy side args hdropped
    · intro h
      rw [hdropped] at h
      cases h
    · intro h
      rw [hdropped] at h
      cases h
  | true =>
    obtain ⟨hstays, hempty, hends⟩ := copy_dropped side args hdropped (hnone hdropped)
    constructor
    · constructor
      · rw [hstays, hdropped]
      · exact fun side' => (hends side').1
      · intro p hp
        rw [hempty] at hp
        cases hp
    · exact fun _ => hempty
    · intro _ side'
      exact .inl (hends side').2

theorem Quiet.streamCopy (hnone : s.dropped = true → s.pendingBufferMeta = none) (side : Side)
    (ctx : StreamCtx) (ptr count : Int) : Quiet s (leaves (s.streamCopy side ctx ptr count)) := by
  have hcount : Quiet s { s with copies := s.copies + 1 } := .of_ends hnone rfl rfl rfl
  unfold StreamState.streamCopy
  dsimp only
  split
  · exact hcount
  split
  · exact hcount
  · have hcopy := Quiet.copy (s := { s with copies := s.copies + 1 }) hnone side
      (ctx.copyArgs s.copies ptr count)
    exact ⟨hcount.frame.trans hcopy.frame, hcopy.pending, hcopy.noNews⟩

omit [StreamValue α] [DecidableEq α] in
/-- An event is taken by its end only. -/
theorem Quiet.getPendingEvent (hnone : s.dropped = true → s.pendingBufferMeta = none) (side : Side) :
    Quiet s (leaves (s.getPendingEvent side)) := by
  -- The event is taken off its end first.
  have hcleared : NoNews s (s.setEnd side { s.ends side with pendingEventFn := none }) := by
    intro side'
    unfold StreamState.setEnd
    by_cases h : side' = side
    · subst h
      right
      simp
    · left
      simp [h]
  have hstate : ∀ (t : StreamState α) (copyState : CopyState) (side' : Side),
      ((t.setCopyState side copyState).ends side').pendingEventFn =
        (t.ends side').pendingEventFn := by
    intro t copyState side'
    unfold StreamState.setCopyState StreamState.setEnd
    by_cases h : side' = side
    · subst h
      simp
    · simp [h]
  -- What is called then sets no event and begins no copy.
  have hprocess : ∀ (t : StreamState α) (buffer : Nat) (result : CopyResult) (reclaim : Bool)
      (rejectedLength : Option Nat),
      (t.pendingBufferMeta = none → (leaves (t.processFn side buffer result reclaim
        rejectedLength)).pendingBufferMeta = none) ∧
      ∀ side', ((leaves (t.processFn side buffer result reclaim rejectedLength)).ends
        side').pendingEventFn = (t.ends side').pendingEventFn := by
    intro t buffer result reclaim rejectedLength
    unfold StreamState.processFn
    dsimp only
    have hreclaim : (t.pendingBufferMeta = none →
        (if reclaim then t.resetPendingBufferMeta else t).pendingBufferMeta = none) ∧
        (if reclaim then t.resetPendingBufferMeta else t).ends = t.ends := by
      cases reclaim
      · exact ⟨id, rfl⟩
      · exact ⟨fun _ => rfl, rfl⟩
    obtain ⟨hempty, hends⟩ := hreclaim
    generalize (if reclaim then t.resetPendingBufferMeta else t) = t' at hempty hends ⊢
    generalize (if result = .dropped then CopyState.done else .idle) = copyState
    split
    · refine ⟨hempty, ?_⟩
      intro side'
      rw [← hends]
      exact hstate t' copyState side'
    · refine ⟨hempty, ?_⟩
      intro side'
      rw [← hends]
      exact hstate t' copyState side'
  -- Both together, whether the call returns or throws.
  have hevent : (s.pendingBufferMeta = none →
      (leaves (s.getPendingEvent side)).pendingBufferMeta = none) ∧
      NoNews s (leaves (s.getPendingEvent side)) := by
    unfold StreamState.getPendingEvent
    dsimp only
    split
    case h_1 => exact ⟨id, .of_ends rfl⟩
    case h_2 => exact ⟨id, hcleared⟩
    case h_3 buffer result reclaim rejectedLength _ =>
      obtain ⟨hempty, hends⟩ := hprocess
        (s.setEnd side { s.ends side with pendingEventFn := none }) buffer result reclaim
        rejectedLength
      split
      next h =>
        rw [h] at hempty hends
        refine ⟨hempty, ?_⟩
        intro side'
        rw [show ((leaves (.ok _ _ : EStateM.Result JsError (StreamState α) (Option Event))).ends
          side').pendingEventFn = _ from hends side']
        exact hcleared side'
      next h =>
        rw [h] at hempty hends
        refine ⟨hempty, ?_⟩
        intro side'
        rw [show ((leaves (.error _ _ : EStateM.Result JsError (StreamState α)
          (Option Event))).ends side').pendingEventFn = _ from hends side']
        exact hcleared side'
  exact ⟨Frame.getPendingEvent side, fun hd => hevent.1 (hnone hd), fun _ => hevent.2⟩

end

/-! ## The invariant in a run -/

/-- An end that was dropped is in no set. -/
def Gone (s : SetState α) : Prop :=
  ∀ side, (s.stream.ends side).inTable = false → s.waitableSet (.streamEnd side) = none

section

variable {s s' : SetState α} {side : Side}

omit [StreamValue α] [DecidableEq α] in
theorem SetInv.quiet (hinv : SetInv s) {stream : StreamState α} (hquiet : Quiet s.stream stream) :
    SetInv { s with stream } := by
  apply hinv.frame hquiet.frame
  intro hdropped
  exact hquiet.pending (hquiet.frame.dropped.symm.trans hdropped)

omit [StreamValue α] [DecidableEq α] in
theorem SetInv.drop (hinv : SetInv s) (side : Side) : SetInv (leaves (s.streamDrop side)) := by
  by_cases hin : (s.stream.ends side).inTable = true
  · by_cases hpasses : Passes s side
    · obtain ⟨stream, hleaves, hstream⟩ := leaves_drop_passes hin hpasses
      rw [hleaves]
      have hleft : SetInv (s.join (.streamEnd side) none) :=
        hinv.join (.streamEnd side) (by intro n h; cases h)
      apply hleft.stream
      · intro p hp
        rw [hstream.pending] at hp
        cases hp
      · exact fun _ => hstream.pending
    · rw [leaves_drop_stays hin hpasses]
      exact hinv.stream hinv.pending hinv.dropped
  · have hstays : leaves (s.streamDrop side) = s := by
      unfold SetState.streamDrop streamDrop
      rw [if_pos (by simpa using hin)]
      rfl
    rw [hstays]
    exact hinv

omit [StreamValue α] [DecidableEq α] in
/-- A set changes its waiters, and keeps its list. -/
theorem SetInv.modifySet (hinv : SetInv s) (n : Nat) {f : WaitableSet → WaitableSet}
    (hf : ∀ ws, (f ws).waitables = ws.waitables) : SetInv (s.modifySet n f) where
  member := by
    intro w m hm
    obtain ⟨ws, hws, hw⟩ := hinv.member w m hm
    rw [sets_modifySet, hws]
    split
    · exact ⟨f ws, rfl, (hf ws).symm ▸ hw⟩
    · exact ⟨ws, rfl, hw⟩
  listed := by
    intro w m ws hws hw
    rw [sets_modifySet] at hws
    split at hws
    · obtain ⟨ws₀, hws₀, rfl⟩ := Option.map_eq_some_iff.1 hws
      rw [hf] at hw
      exact hinv.listed w m ws₀ hws₀ hw
    · exact hinv.listed w m ws hws hw
  pending := hinv.pending
  dropped := hinv.dropped

omit [StreamValue α] [DecidableEq α] in
theorem SetInv.removeWaitableSet (hinv : SetInv s) (n : Nat) :
    SetInv (leaves (s.removeWaitableSet n)) := by
  unfold SetState.removeWaitableSet
  split
  case h_1 => exact hinv
  case h_2 ws hws =>
    split
    · exact hinv
    split
    · exact hinv
    split
    · exact hinv
    next hempty _ =>
      -- nothing was listed in the set that goes
      have hnil : ws.waitables = [] := by
        rw [Nat.not_lt, Nat.le_zero] at hempty
        exact List.length_eq_zero_iff.1 hempty
      constructor
      case member =>
        intro w m hm
        obtain ⟨ws', hws', hw⟩ := hinv.member w m hm
        have hne : m ≠ n := by
          intro heq
          subst heq
          rw [hws] at hws'
          cases hws'
          rw [hnil] at hw
          cases hw
        exact ⟨ws', (Function.update_of_ne hne _ _).trans hws', hw⟩
      case listed =>
        intro w m ws' hws' hw
        by_cases hne : m = n
        · subst hne
          have hnone : (Function.update s.sets m none) m = some ws' := hws'
          rw [Function.update_self] at hnone
          cases hnone
        · exact hinv.listed w m ws' ((Function.update_of_ne hne _ _).symm.trans hws') hw
      case pending => exact hinv.pending
      case dropped => exact hinv.dropped

omit [StreamValue α] [DecidableEq α] in
theorem SetInv.waitableJoin (hinv : SetInv s) (w : Waitable) (dst : Option Nat) :
    SetInv (leaves (s.waitableJoin w dst)) := by
  unfold SetState.waitableJoin
  split
  · exact hinv
  cases dst with
  | none => exact (hinv.join w (by intro n h; cases h) : SetInv (s.join w none))
  | some n =>
    dsimp only
    split
    · exact hinv
    next hsome =>
      show SetInv (s.join w (some n))
      apply hinv.join w
      intro m hm
      cases hm
      cases hset : s.sets n with
      | none => exact absurd (by rw [hset]; rfl) hsome
      | some ws => rfl

/-- One call, whatever it is. -/
theorem SetInv.next (hinv : SetInv s) {c : SetCall α} (hstep : setNext c s s') : SetInv s' := by
  obtain ⟨hnew, rfl⟩ := hstep
  cases c with
  | copy side ctx ptr count => exact hinv.quiet (.streamCopy hinv.dropped side ctx ptr count)
  | hostCopy side args => exact hinv.quiet (.copy hinv.dropped side args)
  | deliver side => exact hinv.quiet (.getPendingEvent hinv.dropped side)
  | drop side => exact hinv.drop side
  | run memories => exact hinv.quiet (.of_ends hinv.dropped rfl rfl rfl)
  | waitableJoin w dst => exact hinv.waitableJoin w dst
  | waitableSetNew n =>
    have hnone := hnew n rfl
    constructor
    case member =>
      intro w m hm
      obtain ⟨ws, hws, hw⟩ := hinv.member w m hm
      have hne : m ≠ n := by
        intro heq
        rw [heq, hnone] at hws
        cases hws
      exact ⟨ws, (Function.update_of_ne hne _ _).trans hws, hw⟩
    case listed =>
      intro w m ws hws hw
      by_cases hne : m = n
      · subst hne
        have hempty : (Function.update s.sets m (some ⟨[], 0⟩)) m = some ws := hws
        rw [Function.update_self] at hempty
        cases hempty
        cases hw
      · exact hinv.listed w m ws ((Function.update_of_ne hne _ _).symm.trans hws) hw
    case pending => exact hinv.pending
    case dropped => exact hinv.dropped
  | waitableSetDrop n => exact hinv.removeWaitableSet n
  | waiting n numWaiting => exact hinv.modifySet n fun _ => rfl
  | otherEvent k pending => exact { hinv with }

/-! ## The claim in a run -/

/-- Only a drop can miss its part. -/
theorem noNews_next (hinv : SetInv s) {c : SetCall α} (hstep : setNext c s s')
    (hdropped : s.stream.dropped = true) : NoNews s.stream s'.stream := by
  obtain ⟨-, rfl⟩ := hstep
  cases c with
  | copy side ctx ptr count =>
    exact (Quiet.streamCopy hinv.dropped side ctx ptr count).noNews hdropped
  | hostCopy side args => exact (Quiet.copy hinv.dropped side args).noNews hdropped
  | deliver side => exact (Quiet.getPendingEvent hinv.dropped side).noNews hdropped
  | drop side =>
    show NoNews s.stream (leaves (s.streamDrop side)).stream
    by_cases hin : (s.stream.ends side).inTable = true
    · have hnot : ¬ Passes s side := by
        rintro ⟨h, -⟩
        rw [hdropped] at h
        cases h
      rw [leaves_drop_stays hin hnot]
      intro side'
      exact .inl (ends_remove s.stream side side').2
    · unfold SetState.streamDrop streamDrop
      rw [if_pos (by simpa using hin)]
      exact .of_ends rfl
  | run memories => exact .of_ends rfl
  | waitableJoin w dst =>
    apply NoNews.of_ends
    show (leaves (s.waitableJoin w dst)).stream.ends = _
    unfold SetState.waitableJoin
    split
    · rfl
    cases dst with
    | none => exact congrArg ends (stream_join (s := s) w none)
    | some n =>
      dsimp only
      split
      · rfl
      · exact congrArg ends (stream_join (s := s) w (some n))
  | waitableSetNew n => exact .of_ends rfl
  | waitableSetDrop n =>
    apply NoNews.of_ends
    show (leaves (s.removeWaitableSet n)).stream.ends = _
    unfold SetState.removeWaitableSet
    split
    · rfl
    split
    · rfl
    split
    · rfl
    split <;> rfl
  | waiting n numWaiting => exact .of_ends rfl
  | otherEvent k pending => exact .of_ends rfl

omit [StreamValue α] [DecidableEq α] in
/-- A drop does its part exactly when it is safe. -/
theorem drop_kept_iff (hinv : SetInv s) (hin : (s.stream.ends side).inTable = true) :
    (OutOfSets (leaves (s.streamDrop side)) side ∧ (s.stream.dropped = false →
      Waits s.stream side.other → ToldDropped (leaves (s.streamDrop side)).stream side.other)) ↔
      DropSafe side s := by
  have hinv' := hinv.drop side
  unfold DropSafe
  by_cases hpasses : Passes s side
  · obtain ⟨stream, hleaves, hstream⟩ := leaves_drop_passes hin hpasses
    have hout : OutOfSets (leaves (s.streamDrop side)) side := by
      apply hinv'.outOfSets
      rw [hleaves]
      exact (waitableSet_join (s := s) (.streamEnd side) (.streamEnd side) none).trans (if_pos rfl)
    obtain ⟨hdropped, hevent⟩ := hpasses
    rw [hdropped, if_neg Bool.false_ne_true, hevent, if_neg Bool.false_ne_true]
    constructor
    · rintro ⟨-, htold⟩ hwaits p hp
      obtain ⟨buffer, hfound⟩ := htold rfl hwaits
      obtain ⟨-, p', hp', hside⟩ := hwaits
      rw [hp] at hp'
      cases hp'
      have hsaid := hstream.told p hp (hinv.pending p hp)
      rw [hleaves, ← hside] at hfound
      rw [show (stream.ends p.onCopyFn.streamEnd).pendingEventFn = _ from hfound] at hsaid
      -- the event says that the stream was dropped, so there was no progress
      by_contra hprogress
      rw [if_pos (Nat.pos_of_ne_zero hprogress)] at hsaid
      cases hsaid
    · intro hsafe
      refine ⟨hout, ?_⟩
      intro _ hwaits
      have hprogress := hsafe hwaits
      obtain ⟨-, p, hp, hside⟩ := hwaits
      have hsaid := hstream.told p hp (hinv.pending p hp)
      rw [hprogress p hp, if_neg (Nat.lt_irrefl 0), hside] at hsaid
      rw [hleaves]
      exact ⟨p.buffer, hsaid⟩
  · have hleaves := leaves_drop_stays hin hpasses
    rw [hleaves] at hinv' ⊢
    have hout : OutOfSets { s with stream := s.stream.remove side } side ↔
        s.waitableSet (.streamEnd side) = none :=
      ⟨And.left, fun hnone => hinv'.outOfSets hnone⟩
    rw [hout]
    cases hdropped : s.stream.dropped with
    | true =>
      rw [if_pos rfl]
      constructor
      · exact And.left
      · intro hnone
        exact ⟨hnone, fun h => by cases h⟩
    | false =>
      have hevent : s.stream.hasPendingEvent side = true := by
        by_contra h
        exact hpasses ⟨hdropped, by simpa using h⟩
      rw [if_neg Bool.false_ne_true, hevent, if_pos rfl]
      constructor
      · rintro ⟨hnone, htold⟩
        refine ⟨hnone, ?_⟩
        intro hwaits
        obtain ⟨buffer, hfound⟩ := htold rfl hwaits
        rw [(ends_remove s.stream side side.other).2, hwaits.1] at hfound
        cases hfound
      · rintro ⟨hnone, hnot⟩
        exact ⟨hnone, fun _ hwaits => absurd hwaits hnot⟩

theorem lifeKept_iff (hinv : SetInv s) {c : SetCall α} (hstep : setNext c s s') :
    LifeKept c s s' ↔ LifeSafe c s := by
  have hquiet := noNews_next hinv hstep
  constructor
  · rintro ⟨hdrop, -⟩ side hc hin
    have hdone := hdrop side hc hin
    obtain ⟨-, rfl⟩ := hstep
    subst hc
    exact (drop_kept_iff hinv hin).1 hdone
  · intro hsafe
    refine ⟨?_, hquiet⟩
    intro side hc hin
    have hside := hsafe side hc hin
    obtain ⟨-, rfl⟩ := hstep
    subst hc
    exact (drop_kept_iff hinv hin).2 hside

end

section

variable {s s' : SetState α} {side : Side}

omit [StreamValue α] [DecidableEq α] in
/-- The stream goes on, and its ends stay in the tables. -/
theorem Gone.quiet (hgone : Gone s) {stream : StreamState α} (hquiet : Quiet s.stream stream) :
    Gone { s with stream } := by
  intro side hside
  exact hgone side ((hquiet.frame.inTable side).symm.trans hside)

omit [StreamValue α] [DecidableEq α] in
/-- Joining is for those in the tables. -/
theorem Gone.waitableJoin (hgone : Gone s) (w : Waitable) (dst : Option Nat) :
    Gone (leaves (s.waitableJoin w dst)) := by
  have hjoin : s.inTable w = true → Gone (s.join w dst) := by
    intro hin side hside
    rw [stream_join] at hside
    rw [waitableSet_join]
    have hne : Waitable.streamEnd side ≠ w := by
      intro heq
      rw [← heq] at hin
      rw [show s.inTable (.streamEnd side) = (s.stream.ends side).inTable from rfl, hside] at hin
      cases hin
    rw [if_neg hne]
    exact hgone side hside
  unfold SetState.waitableJoin
  split
  · exact hgone
  next hin =>
    have hin' := not_not.1 hin
    cases dst with
    | none => exact hjoin hin'
    | some n =>
      dsimp only
      split
      · exact hgone
      · exact hjoin hin'

omit [StreamValue α] [DecidableEq α] in
/-- A safe drop takes its end out, and does not touch the other one. -/
theorem Gone.drop (hgone : Gone s) (hinv : SetInv s) (side : Side)
    (hsafe : (s.stream.ends side).inTable = true → DropSafe side s) :
    Gone (leaves (s.streamDrop side)) := by
  by_cases hin : (s.stream.ends side).inTable = true
  · have hout := ((drop_kept_iff hinv hin).2 (hsafe hin)).1.1
    intro side' hside'
    by_cases heq : side' = side
    · rw [heq]
      exact hout
    by_cases hpasses : Passes s side
    · obtain ⟨stream, hleaves, hstream⟩ := leaves_drop_passes hin hpasses
      rw [hleaves] at hside' ⊢
      have hsame := hstream.inTable side'
      rw [if_neg heq] at hsame
      have hne : Waitable.streamEnd side' ≠ .streamEnd side := by
        intro h
        exact heq (Waitable.streamEnd.inj h)
      exact (waitableSet_join (s := s) (.streamEnd side) (.streamEnd side') none).trans
        ((if_neg hne).trans (hgone side' (hsame.symm.trans hside')))
    · rw [leaves_drop_stays hin hpasses] at hside' ⊢
      have hsame := (ends_remove s.stream side side').1
      rw [if_neg heq] at hsame
      exact hgone side' (hsame.symm.trans hside')
  · have hstays : leaves (s.streamDrop side) = s := by
      unfold SetState.streamDrop streamDrop
      rw [if_pos (by simpa using hin)]
      rfl
    rw [hstays]
    exact hgone

theorem Gone.next (hgone : Gone s) (hinv : SetInv s) {c : SetCall α} (hsafe : LifeSafe c s)
    (hstep : setNext c s s') : Gone s' := by
  obtain ⟨-, rfl⟩ := hstep
  cases c with
  | copy side ctx ptr count => exact hgone.quiet (.streamCopy hinv.dropped side ctx ptr count)
  | hostCopy side args => exact hgone.quiet (.copy hinv.dropped side args)
  | deliver side => exact hgone.quiet (.getPendingEvent hinv.dropped side)
  | drop side => exact hgone.drop hinv side (hsafe side rfl)
  | run memories => exact hgone
  | waitableJoin w dst => exact hgone.waitableJoin w dst
  | waitableSetNew n => exact hgone
  | waitableSetDrop n =>
    show Gone (leaves (s.removeWaitableSet n))
    unfold SetState.removeWaitableSet
    split
    · exact hgone
    split
    · exact hgone
    split
    · exact hgone
    split
    · exact hgone
    · exact hgone
  | waiting n numWaiting => exact hgone
  | otherEvent k pending => exact hgone

omit [StreamValue α] [DecidableEq α] in
/-- After both drops the sets are as if the ends had never been in them. -/
theorem Gone.clean (hgone : Gone s) (hinv : SetInv s)
    (hboth : ∀ side, (s.stream.ends side).inTable = false) : Clean s := by
  have hout : ∀ side, OutOfSets s side := fun side => hinv.outOfSets (hgone side (hboth side))
  refine ⟨hout, ?_⟩
  intro n ws hws hwaiting hothers
  have hnil : ws.waitables = [] := by
    apply List.eq_nil_iff_forall_not_mem.2
    intro w
    cases w with
    | streamEnd side => exact (hout side).2 n ws hws
    | other k => exact hothers k
  unfold SetState.removeWaitableSet
  rw [hws]
  dsimp only
  rw [hnil, hwaiting]
  exact ⟨_, rfl⟩

end

/-- In the runs of a stream with waitable sets around it, every step does its part of the
life cycle exactly when every step is safe; and after safe steps that dropped both ends
the sets are clean. -/
theorem life_cycle_iff (e : ElemMeta α) (waitableIdx : Side → Nat) (cs : List (SetCall α))
    (s : SetState α) :
    (Run (fun c s s' => LifeKept c s s' ∧ setNext c s s') (.init e waitableIdx) cs s ↔
      Run (guarded LifeSafe setNext) (.init e waitableIdx) cs s) ∧
    (Run (guarded LifeSafe setNext) (.init e waitableIdx) cs s →
      (∀ side, (s.stream.ends side).inTable = false) → Clean s) := by
  constructor
  · refine Run.iff_of_invariant ?_ ?_ (SetInv.init e waitableIdx)
    · intro c s s' hinv
      constructor
      · rintro ⟨hkept, hstep⟩
        exact ⟨(lifeKept_iff hinv hstep).1 hkept, hstep⟩
      · rintro ⟨hsafe, hstep⟩
        exact ⟨(lifeKept_iff hinv hstep).2 hsafe, hstep⟩
    · intro c s s' hstep hinv
      exact hinv.next hstep.2
  · intro hrun hboth
    have hstep : ∀ (c : SetCall α) (t t' : SetState α), guarded LifeSafe setNext c t t' →
        SetInv t ∧ Gone t → SetInv t' ∧ Gone t' := by
      rintro c t t' ⟨hsafe, hnext⟩ ⟨hinv, hgone⟩
      exact ⟨hinv.next hnext, hgone.next hinv hsafe hnext⟩
    have hinit : SetInv (SetState.init e waitableIdx) ∧ Gone (SetState.init e waitableIdx) :=
      ⟨.init e waitableIdx, fun _ _ => rfl⟩
    obtain ⟨hinv, hgone⟩ := Run.invariant hstep hrun hinit
    exact hgone.clean hinv hboth

/-- A stream of bytes that is new. -/
def newBytes : SetState (Option UInt8) := .init byteMeta fun side => side.eventCode + 2

/-- A write waits in a set, the reader goes, and the writer takes its event and leaves
the set before it goes. -/
def writerLeaves : List (SetCall (Option UInt8)) :=
  [.waitableSetNew 1, .waitableJoin (.streamEnd .write) (some 1), .copy .write (guestCtx 0) 0 3,
    .drop .read, .deliver .write, .waitableJoin (.streamEnd .write) none, .drop .write]

omit [StreamValue α] [DecidableEq α] in
theorem safe_of_ne {c : SetCall α} {s : SetState α} (h : ∀ side, c ≠ .drop side) :
    LifeSafe c s := by
  intro side hc
  exact absurd hc (h side)

/-- A call that is neither a drop nor a new set. -/
theorem safe_after (s : SetState α) {c : SetCall α} (hdrop : ∀ side, c ≠ .drop side)
    (hnew : ∀ n, c ≠ .waitableSetNew n) : guarded LifeSafe setNext c s (s.after c) :=
  ⟨safe_of_ne hdrop, ⟨fun n hc => absurd hc (hnew n), rfl⟩⟩

theorem safe_drop (s : SetState α) (side : Side)
    (hsafe : (s.stream.ends side).inTable = true → DropSafe side s) :
    guarded LifeSafe setNext (.drop side) s (s.after (.drop side)) := by
  refine ⟨?_, ⟨nofun, rfl⟩⟩
  intro side' hc
  obtain rfl := SetCall.drop.inj hc
  exact hsafe

theorem writerLeaves_run : ∃ s, Run (guarded LifeSafe setNext) newBytes writerLeaves s ∧
    ∀ side, (s.stream.ends side).inTable = false := by
  refine ⟨_, .cons ⟨safe_of_ne nofun, ⟨?_, rfl⟩⟩ <| .cons (safe_after _ nofun nofun) <|
    .cons (safe_after _ nofun nofun) <| .cons (safe_drop _ .read ?_) <|
    .cons (safe_after _ nofun nofun) <| .cons (safe_after _ nofun nofun) <|
    .cons (safe_drop _ .write ?_) <| .nil _, ?_⟩
  · intro n _
    rfl
  · -- the write that waits has made no progress
    intro _ _ p hp
    cases hp
    rfl
  · intro _
    rfl
  · intro side
    cases side <;> rfl

/-- In every run a waitable is in the set that it names and in no other, and nothing is
pending on a dropped stream. -/
theorem waitables_apart {e : ElemMeta α} {waitableIdx : Side → Nat} {cs : List (SetCall α)}
    {s : SetState α} (hrun : Run setNext (.init e waitableIdx) cs s) :
    (∀ w n, s.waitableSet w = some n ↔ ∃ ws, s.sets n = some ws ∧ w ∈ ws.waitables) ∧
      (s.stream.dropped = true → s.stream.pendingBufferMeta = none) := by
  have hinv : SetInv s := hrun.invariant (fun _ _ _ hnext h => h.next hnext) (.init e waitableIdx)
  refine ⟨fun w n => ⟨hinv.member w n, ?_⟩, hinv.dropped⟩
  rintro ⟨ws, hws, hw⟩
  exact hinv.listed w n ws hws hw

theorem waitables_apart_writerLeaves : ∃ s, Run setNext newBytes writerLeaves s ∧
    ∀ w n, s.waitableSet w = some n ↔ ∃ ws, s.sets n = some ws ∧ w ∈ ws.waitables :=
  writerLeaves_run.imp fun _ h =>
    have hrun := h.1.mono fun _ _ _ hnext => hnext.2
    ⟨hrun, (waitables_apart hrun).1⟩

/-- The sets after both drops. -/
theorem life_cycle_writerLeaves : ∃ s, Run (guarded LifeSafe setNext) newBytes writerLeaves s ∧
    Clean s := by
  obtain ⟨s, hrun, hboth⟩ := writerLeaves_run
  exact ⟨s, hrun, (life_cycle_iff byteMeta (fun side => side.eventCode + 2) writerLeaves s).2 hrun
    hboth⟩

/-- The end that is dropped second stays in its set, which cannot be dropped. -/
theorem life_cycle_counterexample : ∃ s : SetState (Option UInt8),
    Run setNext newBytes [.waitableSetNew 1, .waitableJoin (.streamEnd .write) (some 1),
      .drop .read, .drop .write] s ∧
    (∀ side, (s.stream.ends side).inTable = false) ∧
    s.waitableSet (.streamEnd .write) = some 1 ∧
    (s.sets 1).map (·.waitables) = some [.streamEnd .write] ∧
    s.removeWaitableSet 1 = .error (.error "waitable set still contains waitables") s := by
  refine ⟨_, .cons ⟨?_, rfl⟩ <| .cons ⟨nofun, rfl⟩ <| .cons ⟨nofun, rfl⟩ <|
    .cons ⟨nofun, rfl⟩ <| .nil _, ?_, rfl, rfl, rfl⟩
  · intro n _
    rfl
  · intro side
    cases side <;> rfl

end Jco.Stream

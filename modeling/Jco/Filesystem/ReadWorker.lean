import Mathlib
import Jco.Js.Bytes
import Jco.Lib.Run

/-!
# Reading files in the worker

`handleRead` of the filesystem worker reads a file chunk by chunk into one
buffer of the module and hands a view of that buffer to a stream. Any number
of reads run at the same time; each awaits the file system and then the
consumer, and the bytes of a view are copied only when the consumer takes the
chunk.

Modelled are the reads, the buffer and what each stream has delivered. A read of
the file system may be short; files do not change. The stream's queue holds the
one chunk its writer awaits.
-/

namespace Jco.Filesystem.ReadWorker

open Jco.Js Jco.Lib List

def chunkBytes : Nat := 64 * 1024

def maxSafeFilePosition : Int := 2 ^ 53 - 1

/-- `filePosition`: the position as a number, unless it is refused. -/
def filePosition (position : Int) : Option Nat :=
  if position < 0 ∨ maxSafeFilePosition < position then none else some position.toNat

/-- Where a read stands. -/
inductive Phase where
  /-- Posted to the worker. -/
  | created
  /-- The offset was refused. -/
  | rejected
  /-- In `readAsync`, before the file system has written to the buffer. -/
  | reading (pos : Nat)
  /-- The buffer has been written to; the promise has not been resumed. -/
  | landed (pos bytesRead : Nat)
  /-- In `writer.write`, the view not yet copied. -/
  | writing (pos bytesRead : Nat)
  /-- The chunk has been taken. -/
  | taken (pos bytesRead : Nat)
  | closed
  | aborted
deriving DecidableEq, Repr

structure Op where
  fd : Nat
  offset : Int
  phase : Phase := .created
  delivered : Bytes := []
deriving DecidableEq, Repr

structure State (ι : Type*) where
  buffer : Bytes := List.replicate chunkBytes 0
  ops : ι → Op

inductive Event (ι : Type*) where
  /-- `handleRead` is entered. -/
  | start (i : ι)
  /-- The file system writes `bytesRead` bytes to the buffer. -/
  | land (i : ι) (bytesRead : Nat)
  /-- The read is resumed: the view is written to the stream, or the stream closed. -/
  | resume (i : ι)
  /-- The consumer takes the chunk. -/
  | take (i : ι)
  /-- The writer is resumed and the next chunk read. -/
  | advance (i : ι)
  /-- The file system reports an error. -/
  | failRead (i : ι)
  /-- The consumer is gone. -/
  | cancel (i : ι)
deriving DecidableEq, Repr

section Steps

variable {ι : Type*} [DecidableEq ι] (files : Nat → Bytes)

def State.setOp (s : State ι) (i : ι) (op : Op) : State ι :=
  { s with ops := Function.update s.ops i op }

/-- What the file system may answer to a read at `pos`: nothing only at the end. -/
def Readable (file : Bytes) (pos bytesRead : Nat) : Prop :=
  bytesRead ≤ chunkBytes ∧ bytesRead ≤ file.length - pos ∧
    (bytesRead = 0 ↔ file.length ≤ pos)

instance (file : Bytes) (pos bytesRead : Nat) : Decidable (Readable file pos bytesRead) := by
  unfold Readable
  infer_instance

/-- The buffer after a read at `pos`. -/
def readInto (buffer file : Bytes) (pos bytesRead : Nat) : Bytes :=
  (file.drop pos).take bytesRead ++ buffer.drop bytesRead

/-- The phase in which the next chunk is read. -/
def readAt (position : Int) (refused : Phase) : Phase :=
  match filePosition position with
  | some pos => .reading pos
  | none => refused

/-- One event; `none` where it cannot happen. -/
def State.perform (s : State ι) : Event ι → Option (State ι)
  | .start i =>
    let op := s.ops i
    match op.phase with
    | .created => some (s.setOp i { op with phase := readAt op.offset .rejected })
    | _ => none
  | .land i bytesRead =>
    let op := s.ops i
    match op.phase with
    | .reading pos =>
      if Readable (files op.fd) pos bytesRead then
        some { s.setOp i { op with phase := .landed pos bytesRead } with
          buffer := readInto s.buffer (files op.fd) pos bytesRead }
      else
        none
    | _ => none
  | .resume i =>
    let op := s.ops i
    match op.phase with
    | .landed pos bytesRead =>
      some (s.setOp i { op with
        phase := if bytesRead = 0 then .closed else .writing pos bytesRead })
    | _ => none
  | .take i =>
    let op := s.ops i
    match op.phase with
    | .writing pos bytesRead =>
      some (s.setOp i { op with
        phase := .taken pos bytesRead
        delivered := op.delivered ++ s.buffer.take bytesRead })
    | _ => none
  | .advance i =>
    let op := s.ops i
    match op.phase with
    | .taken pos bytesRead =>
      some (s.setOp i { op with phase := readAt (pos + bytesRead : Nat) .aborted })
    | _ => none
  | .failRead i =>
    let op := s.ops i
    match op.phase with
    | .reading _ => some (s.setOp i { op with phase := .aborted })
    | _ => none
  | .cancel i =>
    let op := s.ops i
    match op.phase with
    | .writing _ _ => some (s.setOp i { op with phase := .aborted })
    | _ => none

def next : Action (Event ι) (State ι) := computed (State.perform files)

end Steps

/-! ## What is promised -/

section Promise

variable {ι : Type*} (files : Nat → Bytes)

/-- The bytes of the file from the offset on. -/
def Op.whole (op : Op) : Bytes := (files op.fd).drop op.offset.toNat

/-- Each stream has delivered the bytes of its own file from its own offset on,
in order, and all of them once it is closed. -/
def Alone (s : State ι) : Prop :=
  ∀ i, (s.ops i).delivered <+: (s.ops i).whole files ∧
    ((s.ops i).phase = .closed → (s.ops i).delivered = (s.ops i).whole files)

/-- How many bytes of the buffer a read still has to hand over. -/
def Phase.pending : Phase → Nat
  | .landed _ bytesRead => bytesRead
  | .writing _ bytesRead => bytesRead
  | _ => 0

/-- What lands leaves the bytes that other reads still have to hand over as
they are. -/
def Undisturbed : Event ι → State ι → Prop
  | .land i bytesRead, s => ∀ pos, (s.ops i).phase = .reading pos → ∀ j, j ≠ i →
      (readInto s.buffer (files (s.ops i).fd) pos bytesRead).take (s.ops j).phase.pending =
        s.buffer.take (s.ops j).phase.pending
  | _, _ => True

/-- The bytes from the offset up to a position have been delivered. -/
def Op.ReadUpTo (file : Bytes) (op : Op) (pos : Nat) : Prop :=
  op.offset.toNat ≤ pos ∧ op.delivered = (file.take pos).drop op.offset.toNat

/-- The buffer starts with what a read has to hand over. -/
def Holds (file buffer : Bytes) (pos bytesRead : Nat) : Prop :=
  Readable file pos bytesRead ∧ buffer.take bytesRead = (file.drop pos).take bytesRead

/-- What holds of a read in its phase: what it has delivered ends where its
position is, and the buffer starts with what it has to hand over. -/
def OpInv (file buffer : Bytes) (op : Op) : Prop :=
  match op.phase with
  | .created => op.delivered = []
  | .rejected => op.delivered = []
  | .reading pos => op.ReadUpTo file pos
  | .landed pos bytesRead => op.ReadUpTo file pos ∧ Holds file buffer pos bytesRead
  | .writing pos bytesRead => op.ReadUpTo file pos ∧ Holds file buffer pos bytesRead
  | .taken pos bytesRead => op.ReadUpTo file (pos + bytesRead)
  | .closed => op.delivered = file.drop op.offset.toNat
  | .aborted => ∃ pos, op.ReadUpTo file pos

def Inv (s : State ι) : Prop := ∀ i, OpInv (files (s.ops i).fd) s.buffer (s.ops i)

end Promise

/-! ## One read -/

theorem filePosition_some {position : Int} {pos : Nat} (h : filePosition position = some pos) :
    pos = position.toNat := by
  rcases Option.ite_none_left_eq_some.1 h with ⟨-, h⟩
  exact (Option.some.inj h).symm

/-- What has landed, followed by what was delivered before. -/
theorem take_drop_append (file : Bytes) {origin pos : Nat} (horigin : origin ≤ pos)
    (bytesRead : Nat) :
    (file.take pos).drop origin ++ (file.drop pos).take bytesRead =
      (file.take (pos + bytesRead)).drop origin := by
  rw [take_add]
  by_cases hlen : origin ≤ (file.take pos).length
  · rw [drop_append_of_le_length hlen]
  · -- the file ends before the offset: nothing is read at all
    have hshort : file.length < origin := by
      rw [length_take] at hlen
      omega
    have hrest : file.drop pos = [] := drop_eq_nil_of_le (by omega)
    simp [hrest]

theorem readInto_take {file : Bytes} {pos bytesRead : Nat}
    (hread : Readable file pos bytesRead) (buffer : Bytes) :
    (readInto buffer file pos bytesRead).take bytesRead = (file.drop pos).take bytesRead := by
  have hlen : ((file.drop pos).take bytesRead).length = bytesRead := by
    simp [hread.2.1]
  unfold readInto
  rw [take_append_of_le_length (Nat.le_of_eq hlen.symm),
    take_of_length_le (Nat.le_of_eq hlen)]

namespace Op

variable {file buffer : Bytes} {op : Op}

/-- What was delivered is the beginning of what is to be delivered. -/
theorem ReadUpTo.begins {pos : Nat} (h : op.ReadUpTo file pos) :
    op.delivered <+: file.drop op.offset.toNat := by
  rw [h.2]
  exact (List.take_prefix pos file).drop _

/-- The chunk that is taken continues what was delivered. -/
theorem ReadUpTo.take {pos bytesRead : Nat} (h : op.ReadUpTo file pos)
    (hbuf : Holds file buffer pos bytesRead) :
    OpInv file buffer { op with
      phase := .taken pos bytesRead
      delivered := op.delivered ++ buffer.take bytesRead } := by
  refine ⟨Nat.le_add_right_of_le h.1, ?_⟩
  rw [h.2, hbuf.2, take_drop_append file h.1]

/-- A read of no bytes is the end of the file. -/
theorem ReadUpTo.resume {pos bytesRead : Nat} (h : op.ReadUpTo file pos)
    (hbuf : Holds file buffer pos bytesRead) :
    OpInv file buffer { op with
      phase := if bytesRead = 0 then .closed else .writing pos bytesRead } := by
  by_cases hzero : bytesRead = 0
  · rw [if_pos hzero]
    have hend : file.length ≤ pos := hbuf.1.2.2.1 hzero
    have hall := h.2
    rwa [take_of_length_le hend] at hall
  · rw [if_neg hzero]
    exact ⟨h, hbuf⟩

/-- The next chunk is read where the last one ended, if the position is still
a safe integer. -/
theorem ReadUpTo.readAt {pos : Nat} (h : op.ReadUpTo file pos) :
    OpInv file buffer { op with phase := ReadWorker.readAt pos .aborted } := by
  unfold ReadWorker.readAt
  cases hpos : filePosition pos with
  | some pos' =>
    have heq : pos' = pos := by simpa using filePosition_some hpos
    subst heq
    exact h
  | none => exact ⟨pos, h⟩

/-- A read starts with nothing delivered at its own offset. -/
theorem start (h : op.delivered = []) :
    OpInv file buffer { op with phase := ReadWorker.readAt op.offset .rejected } := by
  unfold ReadWorker.readAt
  cases hpos : filePosition op.offset with
  | some pos =>
    have heq := filePosition_some hpos
    subst heq
    refine ⟨Nat.le_refl _, ?_⟩
    show op.delivered = _
    rw [h]
    exact (drop_eq_nil_of_le (length_take_le _ _)).symm
  | none => exact h

end Op

/-- An invariant read has delivered the beginning of what it owes, and all of it
when its stream is closed. -/
theorem OpInv.alone {file buffer : Bytes} {op : Op} (h : OpInv file buffer op) :
    op.delivered <+: file.drop op.offset.toNat ∧
      (op.phase = .closed → op.delivered = file.drop op.offset.toNat) := by
  unfold OpInv at h
  split at h
  case h_1 hphase => exact ⟨by simp [h], by simp [hphase]⟩
  case h_2 hphase => exact ⟨by simp [h], by simp [hphase]⟩
  case h_3 hphase => exact ⟨h.begins, by simp [hphase]⟩
  case h_4 hphase => exact ⟨h.1.begins, by simp [hphase]⟩
  case h_5 hphase => exact ⟨h.1.begins, by simp [hphase]⟩
  case h_6 hphase => exact ⟨h.begins, by simp [hphase]⟩
  case h_7 hphase => exact ⟨h ▸ prefix_refl _, fun _ => h⟩
  case h_8 hphase =>
    obtain ⟨pos, hread⟩ := h
    exact ⟨hread.begins, by simp [hphase]⟩

/-- Only the bytes a read still has to hand over matter to it. -/
theorem OpInv.buffer {file buffer buffer' : Bytes} {op : Op} (h : OpInv file buffer op)
    (hsame : buffer'.take op.phase.pending = buffer.take op.phase.pending) :
    OpInv file buffer' op := by
  unfold OpInv at h ⊢
  cases hphase : op.phase with
  | landed pos bytesRead =>
    simp only [hphase, Phase.pending] at h hsame ⊢
    exact ⟨h.1, h.2.1, hsame.trans h.2.2⟩
  | writing pos bytesRead =>
    simp only [hphase, Phase.pending] at h hsame ⊢
    exact ⟨h.1, h.2.1, hsame.trans h.2.2⟩
  | created => simpa only [hphase] using h
  | rejected => simpa only [hphase] using h
  | reading pos => simpa only [hphase] using h
  | taken pos bytesRead => simpa only [hphase] using h
  | closed => simpa only [hphase] using h
  | aborted => simpa only [hphase] using h

/-! ## Every interleaving -/

section Interleaving

variable {ι : Type*} [DecidableEq ι] {files : Nat → Bytes} {s s' : State ι}

omit [DecidableEq ι] in
theorem Inv.alone (hinv : Inv files s) : Alone files s := fun i => (hinv i).alone

/-- A step of one read leaves the others as they were. -/
theorem Inv.setOp (hinv : Inv files s) (i : ι) {op : Op}
    (hop : OpInv (files op.fd) s.buffer op) : Inv files (s.setOp i op) := by
  intro j
  by_cases hij : j = i
  · subst hij
    simpa [State.setOp] using hop
  · simpa [State.setOp, hij] using hinv j

/-- What lands serves its own read; the others are left alone by assumption. -/
theorem Inv.land (hinv : Inv files s) {i : ι} {pos bytesRead : Nat}
    (hphase : (s.ops i).phase = .reading pos)
    (hread : Readable (files (s.ops i).fd) pos bytesRead)
    (hothers : ∀ j, j ≠ i →
      (readInto s.buffer (files (s.ops i).fd) pos bytesRead).take (s.ops j).phase.pending =
        s.buffer.take (s.ops j).phase.pending) :
    Inv files { s.setOp i { s.ops i with phase := .landed pos bytesRead } with
      buffer := readInto s.buffer (files (s.ops i).fd) pos bytesRead } := by
  intro j
  by_cases hij : j = i
  · subst hij
    have hup : (s.ops j).ReadUpTo (files (s.ops j).fd) pos := by
      have := hinv j
      simpa only [OpInv, hphase] using this
    simp only [State.setOp, Function.update_self]
    exact ⟨hup, hread, readInto_take hread _⟩
  · simp only [State.setOp, Function.update_of_ne hij]
    exact (hinv j).buffer (hothers j hij)

theorem step_inv (e : Event ι) (s s' : State ι) (hok : Undisturbed files e s)
    (hnext : next files e s s') (hinv : Inv files s) : Inv files s' := by
  unfold next computed State.perform at hnext
  -- each event is one operation's, in one phase; `land` alone reads the file
  cases e with
  | start i =>
    simp only at hnext
    split at hnext
    case h_1 hphase =>
      cases hnext
      have hop := hinv i
      simp only [OpInv, hphase] at hop
      exact hinv.setOp i (Op.start hop)
    case h_2 => cases hnext
  | land i bytesRead =>
    simp only at hnext
    split at hnext
    case h_1 pos hphase =>
      rcases Option.ite_none_right_eq_some.1 hnext with ⟨hread, hnext⟩
      cases hnext
      exact hinv.land hphase hread (hok pos hphase)
    case h_2 => cases hnext
  | resume i =>
    simp only at hnext
    split at hnext
    case h_1 pos bytesRead hphase =>
      cases hnext
      have hop := hinv i
      simp only [OpInv, hphase] at hop
      exact hinv.setOp i (hop.1.resume hop.2)
    case h_2 => cases hnext
  | take i =>
    simp only at hnext
    split at hnext
    case h_1 pos bytesRead hphase =>
      cases hnext
      have hop := hinv i
      simp only [OpInv, hphase] at hop
      exact hinv.setOp i (hop.1.take hop.2)
    case h_2 => cases hnext
  | advance i =>
    simp only at hnext
    split at hnext
    case h_1 pos bytesRead hphase =>
      cases hnext
      have hop := hinv i
      simp only [OpInv, hphase] at hop
      exact hinv.setOp i hop.readAt
    case h_2 => cases hnext
  | failRead i =>
    simp only at hnext
    split at hnext
    case h_1 pos hphase =>
      cases hnext
      have hop := hinv i
      simp only [OpInv, hphase] at hop
      exact hinv.setOp i ⟨pos, hop⟩
    case h_2 => cases hnext
  | cancel i =>
    simp only at hnext
    split at hnext
    case h_1 pos bytesRead hphase =>
      cases hnext
      have hop := hinv i
      simp only [OpInv, hphase] at hop
      exact hinv.setOp i ⟨pos, hop.1⟩
    case h_2 => cases hnext

/-- Reads that have not begun. -/
def Fresh (s : State ι) : Prop := ∀ i, (s.ops i).phase = .created ∧ (s.ops i).delivered = []

omit [DecidableEq ι] in
theorem Fresh.inv (h : Fresh s) : Inv files s := by
  intro i
  simp only [OpInv, (h i).1]
  exact (h i).2

/-- In every interleaving in which no read lands over bytes that another stream
still has to copy, each stream delivers what it would deliver alone. -/
theorem alone_of_run (files : Nat → Bytes) {es : List (Event ι)} (hfresh : Fresh s)
    (hrun : Run (guarded (Undisturbed files) (next files)) s es s') : Alone files s' := by
  have hinv : Inv files s' :=
    hrun.invariant (fun e s s' hstep => step_inv e s s' hstep.1 hstep.2) hfresh.inv
  exact hinv.alone

omit [DecidableEq ι] in
/-- While no other stream waits with a chunk, anything may land. -/
theorem Undisturbed.of_idle {i : ι} {bytesRead : Nat}
    (hidle : ∀ j, j ≠ i → (s.ops j).phase.pending = 0) :
    Undisturbed files (.land i bytesRead) s := by
  intro pos _ j hij
  rw [hidle j hij, take_zero, take_zero]

omit [DecidableEq ι] in
/-- The end of a file leaves the buffer as it is. -/
theorem Undisturbed.of_end {i : ι} : Undisturbed files (.land i 0) s := fun _ _ _ _ => rfl

end Interleaving

/-- The files `[1]` and `[2]`, read at once. -/
def twoFiles : Nat → Bytes := fun fd => if fd = 0 then [1] else [2]

def twoReads : State (Fin 2) where
  ops i := { fd := i.val, offset := 0 }

/-- Both files are read at once. The second lands when the first chunk has been taken, and the
end of the first while the second chunk is still to be copied. -/
def interleaved : List (Event (Fin 2)) :=
  [.start 0, .start 1, .land 0 1, .resume 0, .take 0, .land 1 1, .advance 0, .land 0 0,
    .resume 0, .resume 1, .take 1, .advance 1, .land 1 0, .resume 1]

theorem interleaved_alone :
    ∃ s', Run (guarded (Undisturbed twoFiles) (next twoFiles)) twoReads interleaved s' ∧
      Alone twoFiles s' ∧ ∀ i, (s'.ops i).phase = .closed := by
  have hrun : ∃ s', Run (guarded (Undisturbed twoFiles) (next twoFiles)) twoReads interleaved s' ∧
      ∀ i, (s'.ops i).phase = .closed := by
    -- nothing else is pending at the two chunks, and nothing lands at the two ends
    refine ⟨_, .cons ⟨trivial, rfl⟩ (.cons ⟨trivial, rfl⟩ (.cons ⟨.of_idle ?_, rfl⟩
      (.cons ⟨trivial, rfl⟩ (.cons ⟨trivial, rfl⟩ (.cons ⟨.of_idle ?_, rfl⟩
      (.cons ⟨trivial, rfl⟩ (.cons ⟨.of_end, rfl⟩ (.cons ⟨trivial, rfl⟩ (.cons ⟨trivial, rfl⟩
      (.cons ⟨trivial, rfl⟩ (.cons ⟨trivial, rfl⟩ (.cons ⟨.of_end, rfl⟩ (.cons ⟨trivial, rfl⟩
      (.nil _)))))))))))))), ?_⟩
    · decide
    · decide
    · decide
  obtain ⟨s', hrun, hclosed⟩ := hrun
  exact ⟨s', hrun, alone_of_run twoFiles (fun i => ⟨rfl, rfl⟩) hrun, hclosed⟩

/-- The second file lands in the buffer before the first chunk is taken. -/
def overlapping {ι : Type} (first second : ι) : List (Event ι) :=
  [.start first, .start second, .land first 1, .resume first, .land second 1, .take first]

theorem overlapping_not_alone :
    ∃ (s' : State (Fin 2)), Run (next twoFiles) twoReads (overlapping 0 1) s' ∧
      ¬ Alone twoFiles s' := by
  refine ⟨((performAll (State.perform twoFiles) twoReads (overlapping 0 1)).get (by decide)),
    run_performAll (Option.some_get _).symm, fun halone => ?_⟩
  have hinit := (halone 0).1
  revert hinit
  decide

end Jco.Filesystem.ReadWorker

import Mathlib
import Jco.Filesystem.ReadWorker
import Jco.Lib.Sparse

/-!
# Writing files in the worker

`handleWrite` of the filesystem worker takes the chunks of a stream one by one and
writes each with one call of the host. The position advances by what the host reports,
which may be less than the chunk; what a call leaves of its chunk is not written again.

Modelled is one write. The stream is the list of its chunks, each with the answer the
host would give to its call, and the way the stream ends.
-/

namespace Jco.Filesystem.WriteWorker

open Jco.Js Jco.Lib List
open ReadWorker (filePosition)

/-- A chunk of the stream and the host's answer to the call that writes it: how many
bytes were written, or an error. -/
structure Piece where
  value : Bytes
  bytesWritten : Option Nat
  within : ∀ n ∈ bytesWritten, n ≤ value.length

/-- How the stream ends. -/
inductive Ending where
  /-- `done` -/
  | closed
  /-- `reader.read()` rejects. -/
  | failed
deriving DecidableEq, Repr

inductive WriteError where
  /-- Not a file descriptor. -/
  | typeError
  /-- `FSError("invalid")`: the position is refused. -/
  | invalid
  /-- The host's error. -/
  | host
  /-- What the stream failed with. -/
  | stream
deriving DecidableEq, Repr

structure Outcome where
  /-- `bytesWritten`, or what is thrown. -/
  result : Except WriteError Int
  /-- Whether `reader.cancel` was called. -/
  cancelled : Bool
  file : Bytes
  /-- What the calls of the host wrote, in their order. -/
  written : Bytes

/-- What the host has written of a chunk. -/
def Piece.accepted (p : Piece) : Bytes := p.value.take (p.bytesWritten.getD 0)

/-- The `catch` of the loop. -/
def cancelWith (e : WriteError) (file written : Bytes) : Outcome :=
  { result := .error e, cancelled := true, file, written }

/-- The loop of `handleWrite`. -/
def writeLoop (ending : Ending) (start : Int) : Int → Bytes → Bytes → List Piece → Outcome
  | pos, file, written, [] =>
    match ending with
    | .closed => { result := .ok (pos - start), cancelled := false, file, written }
    | .failed => cancelWith .stream file written
  | pos, file, written, p :: ps =>
    match filePosition pos with
    | none => cancelWith .invalid file written
    | some position =>
      match p.bytesWritten with
      | none => cancelWith .host file written
      | some n =>
        writeLoop ending start (pos + n) (writeAt 0 file position p.accepted)
          (written ++ p.accepted) ps

/-- `handleWrite`. The descriptor is looked at before the stream has a reader. -/
def handleWrite (fd offset : Int) (file : Bytes) (ps : List Piece) (ending : Ending) : Outcome :=
  if fd < 0 then
    { result := .error .typeError, cancelled := false, file, written := [] }
  else
    writeLoop ending offset offset file [] ps

/-! ## What is promised -/

/-- The chunks of the stream, one after the other. -/
def concatenation (ps : List Piece) : Bytes := (ps.map Piece.value).flatten

/-- A write that succeeds has written all, and one that fails has cancelled the stream
and written the beginning. Either way the file is changed by what was written only,
from the offset on. -/
def Right (offset : Int) (file : Bytes) (ps : List Piece) (o : Outcome) : Prop :=
  o.file = writeAt 0 file offset.toNat o.written ∧
    match o.result with
    | .ok bytesWritten =>
      (o.file.drop offset.toNat).take (concatenation ps).length = concatenation ps ∧
        bytesWritten = (concatenation ps).length
    | .error _ => o.cancelled = true ∧ o.written <+: concatenation ps

/-- The chunks that are written, wholly or in part, before a position is refused or the
host reports an error. -/
def reached : Int → List Piece → List Piece
  | _, [] => []
  | pos, p :: ps =>
    match filePosition pos with
    | none => []
    | some _ =>
      match p.bytesWritten with
      | none => []
      | some n => p :: reached (pos + n) ps

/-- Whether the write comes to the end of the stream. -/
def Completes (ending : Ending) (pos : Int) (ps : List Piece) : Prop :=
  reached pos ps = ps ∧ ending = .closed

/-- What is written from a position on. -/
def acceptedFrom (pos : Int) (ps : List Piece) : Bytes :=
  ((reached pos ps).map Piece.accepted).flatten

/-- Chunks are written whole; after the first that is not, the write fails, and until
then only the bytes that were left out are written. -/
def Whole (ending : Ending) : Int → List Piece → Prop
  | _, [] => True
  | pos, p :: ps =>
    match filePosition pos with
    | none => True
    | some _ =>
      match p.bytesWritten with
      | none => True
      | some n =>
        if n = p.value.length then Whole ending (pos + n) ps
        else ¬ Completes ending (pos + n) ps ∧
          acceptedFrom (pos + n) ps <+: p.value.drop n ++ concatenation ps

/-! ## The loop -/

theorem filePosition_nonneg {pos : Int} {position : Nat}
    (h : filePosition pos = some position) : 0 ≤ pos := by
  rcases Option.ite_none_left_eq_some.1 h with ⟨hrange, h⟩
  omega

section Loop

variable {ending : Ending} {start pos : Int} {file written : Bytes} {p : Piece}
  {ps : List Piece} {n position : Nat}

theorem Piece.accepted_eq (hn : p.bytesWritten = some n) : p.accepted = p.value.take n := by
  unfold Piece.accepted
  rw [hn]
  rfl

theorem Piece.length_accepted (hn : p.bytesWritten = some n) : p.accepted.length = n := by
  have hle : n ≤ p.value.length := p.within n hn
  rw [Piece.accepted_eq hn, length_take, Nat.min_eq_left hle]

theorem writeLoop_none (hpos : filePosition pos = none) :
    writeLoop ending start pos file written (p :: ps) = cancelWith .invalid file written := by
  simp only [writeLoop, hpos]

theorem writeLoop_host (hpos : filePosition pos = some position) (hn : p.bytesWritten = none) :
    writeLoop ending start pos file written (p :: ps) = cancelWith .host file written := by
  simp only [writeLoop, hpos, hn]

theorem writeLoop_some (hpos : filePosition pos = some position)
    (hn : p.bytesWritten = some n) :
    writeLoop ending start pos file written (p :: ps) =
      writeLoop ending start (pos + n) (writeAt 0 file position p.accepted)
        (written ++ p.accepted) ps := by
  simp only [writeLoop, hpos, hn]

theorem reached_none (hpos : filePosition pos = none) : reached pos (p :: ps) = [] := by
  simp only [reached, hpos]

theorem reached_host (hpos : filePosition pos = some position) (hn : p.bytesWritten = none) :
    reached pos (p :: ps) = [] := by
  simp only [reached, hpos, hn]

theorem reached_some (hpos : filePosition pos = some position) (hn : p.bytesWritten = some n) :
    reached pos (p :: ps) = p :: reached (pos + n) ps := by
  simp only [reached, hpos, hn]

theorem acceptedFrom_some (hpos : filePosition pos = some position)
    (hn : p.bytesWritten = some n) :
    acceptedFrom pos (p :: ps) = p.value.take n ++ acceptedFrom (pos + n) ps := by
  unfold acceptedFrom
  rw [reached_some hpos hn, map_cons, flatten_cons, Piece.accepted_eq hn]

theorem completes_cons (hpos : filePosition pos = some position)
    (hn : p.bytesWritten = some n) :
    Completes ending pos (p :: ps) ↔ Completes ending (pos + n) ps := by
  unfold Completes
  rw [reached_some hpos hn, cons_inj_right]

/-- The three ways a chunk is met: refused, not written, or written in part. -/
theorem piece_cases (pos : Int) (p : Piece) :
    filePosition pos = none ∨
      (∃ position, filePosition pos = some position) ∧ p.bytesWritten = none ∨
      ∃ position n, filePosition pos = some position ∧ p.bytesWritten = some n := by
  cases hpos : filePosition pos with
  | none => exact .inl rfl
  | some position =>
    cases hn : p.bytesWritten with
    | none => exact .inr (.inl ⟨⟨position, rfl⟩, rfl⟩)
    | some n => exact .inr (.inr ⟨position, n, rfl, rfl⟩)

/-- What the loop returns, by whether it comes to the end of the stream. -/
theorem writeLoop_result (ending : Ending) (start pos : Int) (file written : Bytes)
    (ps : List Piece) :
    let o := writeLoop ending start pos file written ps
    (Completes ending pos ps ∧ o.result = .ok (pos + (acceptedFrom pos ps).length - start)) ∨
      (¬ Completes ending pos ps ∧ (∃ e, o.result = .error e) ∧ o.cancelled = true) := by
  intro o
  induction ps generalizing pos file written with
  | nil =>
    cases ending with
    | closed =>
      left
      refine ⟨⟨rfl, rfl⟩, ?_⟩
      show Except.ok _ = _
      simp [acceptedFrom, reached]
    | failed => exact .inr ⟨fun h => (by cases h.2), ⟨_, rfl⟩, rfl⟩
  | cons p ps ih =>
    have hstop (e : WriteError) (hr : reached pos (p :: ps) = [])
        (ho : o = cancelWith e file written) :
        ¬ Completes ending pos (p :: ps) ∧ (∃ e, o.result = .error e) ∧ o.cancelled = true := by
      rw [ho]
      refine ⟨fun h => ?_, ⟨e, rfl⟩, rfl⟩
      cases hr.symm.trans h.1
    rcases piece_cases pos p with hpos | ⟨⟨position, hpos⟩, hn⟩ | ⟨position, n, hpos, hn⟩
    · exact .inr (hstop .invalid (reached_none hpos) (writeLoop_none hpos))
    · exact .inr (hstop .host (reached_host hpos hn) (writeLoop_host hpos hn))
    · have hlen : (acceptedFrom pos (p :: ps)).length =
          n + (acceptedFrom (pos + n) ps).length := by
        rw [acceptedFrom_some hpos hn, length_append, ← Piece.accepted_eq hn,
          Piece.length_accepted hn]
      have hrest := ih (pos + n) (writeAt 0 file position p.accepted) (written ++ p.accepted)
      simp only [← writeLoop_some hpos hn, ← completes_cons hpos hn] at hrest
      rcases hrest with ⟨hdone, hok⟩ | hfail
      · refine .inl ⟨hdone, hok.trans ?_⟩
        rw [hlen]
        push_cast
        congr 1
        omega
      · exact .inr hfail

theorem writeLoop_written (ending : Ending) (start pos : Int) (file written : Bytes)
    (ps : List Piece) :
    (writeLoop ending start pos file written ps).written = written ++ acceptedFrom pos ps := by
  induction ps generalizing pos file written with
  | nil => cases ending <;> simp [writeLoop, cancelWith, acceptedFrom, reached]
  | cons p ps ih =>
    rcases piece_cases pos p with hpos | ⟨⟨position, hpos⟩, hn⟩ | ⟨position, n, hpos, hn⟩
    · rw [writeLoop_none hpos, acceptedFrom, reached_none hpos]
      exact (append_nil _).symm
    · rw [writeLoop_host hpos hn, acceptedFrom, reached_host hpos hn]
      exact (append_nil _).symm
    · rw [writeLoop_some hpos hn, ih, acceptedFrom_some hpos hn, Piece.accepted_eq hn,
        append_assoc]

/-- The file is changed by what is written only, and that is contiguous: each call
starts where the one before it stopped. -/
theorem writeLoop_file (ending : Ending) (start pos : Int) (file written : Bytes)
    (ps : List Piece) :
    (writeLoop ending start pos file written ps).file =
      writeAt 0 file pos.toNat (acceptedFrom pos ps) := by
  induction ps generalizing pos file written with
  | nil => cases ending <;> rfl
  | cons p ps ih =>
    rcases piece_cases pos p with hpos | ⟨⟨position, hpos⟩, hn⟩ | ⟨position, n, hpos, hn⟩
    · rw [writeLoop_none hpos, acceptedFrom, reached_none hpos]
      rfl
    · rw [writeLoop_host hpos hn, acceptedFrom, reached_host hpos hn]
      rfl
    · have hposition := ReadWorker.filePosition_some hpos
      have hnext : (pos + n).toNat = position + p.accepted.length := by
        have hnonneg := filePosition_nonneg hpos
        rw [Piece.length_accepted hn, hposition]
        omega
      rw [writeLoop_some hpos hn, ih, hnext, writeAt_append, acceptedFrom_some hpos hn,
        Piece.accepted_eq hn, hposition]

theorem completes_inv (h : Completes ending pos (p :: ps)) :
    ∃ position n, filePosition pos = some position ∧ p.bytesWritten = some n ∧
      Completes ending (pos + n) ps := by
  rcases piece_cases pos p with hpos | ⟨⟨position, hpos⟩, hn⟩ | ⟨position, n, hpos, hn⟩
  · cases (reached_none hpos).symm.trans h.1
  · cases (reached_host hpos hn).symm.trans h.1
  · exact ⟨position, n, hpos, hn, (completes_cons hpos hn).1 h⟩

theorem whole_cons (hpos : filePosition pos = some position) (hn : p.bytesWritten = some n) :
    Whole ending pos (p :: ps) ↔
      if n = p.value.length then Whole ending (pos + n) ps
      else ¬ Completes ending (pos + n) ps ∧
        acceptedFrom (pos + n) ps <+: p.value.drop n ++ concatenation ps := by
  simp only [Whole, hpos, hn]

theorem concatenation_cons (p : Piece) (ps : List Piece) :
    concatenation (p :: ps) = p.value ++ concatenation ps := by
  unfold concatenation
  rw [map_cons, flatten_cons]

theorem length_acceptedFrom_le (pos : Int) (ps : List Piece) :
    (acceptedFrom pos ps).length ≤ (concatenation ps).length := by
  induction ps generalizing pos with
  | nil => exact Nat.le_refl 0
  | cons p ps ih =>
    rcases piece_cases pos p with hpos | ⟨⟨position, hpos⟩, hn⟩ | ⟨position, n, hpos, hn⟩
    · rw [acceptedFrom, reached_none hpos]
      exact Nat.zero_le _
    · rw [acceptedFrom, reached_host hpos hn]
      exact Nat.zero_le _
    · have hrest := ih (pos + n)
      rw [acceptedFrom_some hpos hn, concatenation_cons, length_append, length_append,
        length_take]
      omega

/-- A write that comes to the end of the stream without a short call has written all. -/
theorem Whole.acceptedFrom_eq (hdone : Completes ending pos ps) (h : Whole ending pos ps) :
    acceptedFrom pos ps = concatenation ps := by
  induction ps generalizing pos with
  | nil => rfl
  | cons p ps ih =>
    rcases completes_inv hdone with ⟨position, n, hpos, hn, hrest⟩
    rw [whole_cons hpos hn] at h
    by_cases hfull : n = p.value.length
    · rw [if_pos hfull] at h
      rw [acceptedFrom_some hpos hn, concatenation_cons, ih hrest h,
        take_of_length_le (Nat.le_of_eq hfull.symm)]
    · rw [if_neg hfull] at h
      exact absurd hrest h.1

/-- Bytes that a call left out are missing from the count in the end. -/
theorem whole_of_length (hdone : Completes ending pos ps)
    (hlen : (acceptedFrom pos ps).length = (concatenation ps).length) :
    Whole ending pos ps := by
  induction ps generalizing pos with
  | nil => trivial
  | cons p ps ih =>
    rcases completes_inv hdone with ⟨position, n, hpos, hn, hrest⟩
    have hle := length_acceptedFrom_le (pos + n) ps
    have hwithin : n ≤ p.value.length := p.within n hn
    rw [acceptedFrom_some hpos hn, concatenation_cons, length_append, length_append,
      length_take, Nat.min_eq_left hwithin] at hlen
    have hfull : n = p.value.length := by omega
    rw [whole_cons hpos hn, if_pos hfull]
    exact ih hrest (by omega)

/-- What a failing write has written is a beginning of the stream exactly where the
chunks were written whole, up to the bytes that one call left out. -/
theorem acceptedFrom_prefix_iff (hfail : ¬ Completes ending pos ps) :
    acceptedFrom pos ps <+: concatenation ps ↔ Whole ending pos ps := by
  induction ps generalizing pos with
  | nil => exact iff_of_true (prefix_refl _) trivial
  | cons p ps ih =>
    rcases piece_cases pos p with hpos | ⟨⟨position, hpos⟩, hn⟩ | ⟨position, n, hpos, hn⟩
    · refine iff_of_true ?_ (by simp only [Whole, hpos])
      rw [acceptedFrom, reached_none hpos]
      exact nil_prefix
    · refine iff_of_true ?_ (by simp only [Whole, hpos, hn])
      rw [acceptedFrom, reached_host hpos hn]
      exact nil_prefix
    · rw [completes_cons hpos hn] at hfail
      rw [acceptedFrom_some hpos hn, concatenation_cons, whole_cons hpos hn]
      by_cases hfull : n = p.value.length
      · rw [if_pos hfull, take_of_length_le (Nat.le_of_eq hfull.symm),
          prefix_append_right_inj]
        exact ih hfail
      · -- the bytes that were left out come next in the stream
        have hsplit : p.value ++ concatenation ps =
            p.value.take n ++ (p.value.drop n ++ concatenation ps) := by
          rw [← append_assoc, take_append_drop]
        rw [if_neg hfull, hsplit, prefix_append_right_inj]
        exact ⟨fun hrest => ⟨hfail, hrest⟩, fun h => h.2⟩

end Loop

/-! ## Every write -/

/-- A write does what is promised exactly where its descriptor is one, and every call of
the host wrote its whole chunk, but for one that left out bytes: after it the write fails,
having written none but those, in their order. -/
theorem handleWrite_right_iff (fd offset : Int) (file : Bytes) (ps : List Piece)
    (ending : Ending) :
    Right offset file ps (handleWrite fd offset file ps ending) ↔
      0 ≤ fd ∧ Whole ending offset ps := by
  by_cases hfd : fd < 0
  · refine iff_of_false ?_ (fun h => absurd h.1 (by omega))
    unfold handleWrite
    rw [if_pos hfd]
    rintro ⟨-, hcancelled, -⟩
    cases hcancelled
  · have hnonneg : 0 ≤ fd := by omega
    unfold handleWrite
    rw [if_neg hfd]
    have hfile := writeLoop_file ending offset offset file [] ps
    have hwritten := writeLoop_written ending offset offset file [] ps
    have hresult := writeLoop_result ending offset offset file [] ps
    rw [nil_append] at hwritten
    simp only at hresult
    rw [Right, hfile, hwritten]
    rcases hresult with ⟨hdone, hok⟩ | ⟨hfail, ⟨e, herror⟩, hcancelled⟩
    · rw [hok]
      constructor
      · rintro ⟨-, -, hlen⟩
        refine ⟨hnonneg, whole_of_length hdone ?_⟩
        omega
      · rintro ⟨-, hwhole⟩
        rw [Whole.acceptedFrom_eq hdone hwhole]
        refine ⟨rfl, take_drop_writeAt 0 file (concatenation ps) offset.toNat, ?_⟩
        omega
    · rw [herror, hcancelled]
      constructor
      · rintro ⟨-, -, hprefix⟩
        exact ⟨hnonneg, (acceptedFrom_prefix_iff hfail).1 hprefix⟩
      · rintro ⟨-, hwhole⟩
        exact ⟨rfl, rfl, (acceptedFrom_prefix_iff hfail).2 hwhole⟩

/-- The host writes one byte of the first chunk. -/
def shortPiece : Piece := ⟨[1, 2], some 1, by decide⟩

def nextPiece : Piece := ⟨[3], some 1, by decide⟩

/-- The second chunk follows the one byte, and the write succeeds. -/
theorem short_write_not_right :
    ¬ Right 0 [] [shortPiece, nextPiece] (handleWrite 3 0 [] [shortPiece, nextPiece] .closed) := by
  rintro ⟨-, hholds, -⟩
  revert hholds
  decide

end Jco.Filesystem.WriteWorker

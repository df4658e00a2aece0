import Mathlib.Logic.Function.Basic
import Mathlib.Tactic.Common
import Jco.Js.Bytes
import Jco.Lib.Run
import Jco.Lib.Sparse
import Jco.Lib.Utf8

/-!
# File contents in the browser

The contents of a file are a view into an array buffer. A write stream keeps spare
capacity: it writes into a buffer that is longer than the file, remembers that buffer for
the entry, and makes the file a longer view of it. The remembered buffer counts as long
as the file is still a view of the same memory.

Modelled is one file with its read and write streams. `contents` is what the file means;
`writeAt` is the reference.
-/

namespace Jco.Filesystem.BrowserContents

open Js Lib Function List Nat

/-- A `Uint8Array` on an array buffer. -/
structure View where
  buffer : Nat
  byteOffset : Nat
  byteLength : Nat
deriving DecidableEq, Repr

/-- `entry.source` -/
inductive Source where
  | text (t : Utf8.Text)
  | view (v : View)

structure Reader where
  source : View
  offset : Nat

structure State where
  source : Source
  /-- `fileWriteBuffers.get(entry)` -/
  cached : Option View := none
  buffers : Nat → Bytes := fun _ => []
  bufferCnt : Nat := 0
  /-- The offsets of the write streams. -/
  writers : Nat → Nat := fun _ => 0
  writerCnt : Nat := 0
  readers : Nat → Reader := fun _ => ⟨⟨0, 0, 0⟩, 0⟩
  readerCnt : Nat := 0

inductive Event where
  | readViaStream (offset : Nat)
  | writeViaStream (offset : Nat)
  | blockingRead (reader len : Nat)
  /-- `allocates`: there is memory for a larger buffer, should one be needed. -/
  | writeStream (writer : Nat) (buf : Bytes) (allocates : Bool)
  | read (length offset : Nat)
  | write (buffer : Bytes) (offset : Nat)
  | stat

inductive Answer where
  | done
  /-- A `TypeError`, a `RangeError` or `invalid-seek`. -/
  | threw
  | closed
  | bytes (b : Bytes)
  /-- The bytes, and whether they reach the end. -/
  | part (b : Bytes) (ended : Bool)
  | wrote (n : Nat)
  | size (n : Nat)
deriving DecidableEq, Repr

def maxSafeInteger : Nat := 2 ^ 53 - 1

namespace State

/-- What a view shows. -/
def viewBytes (s : State) (v : View) : Bytes :=
  ((s.buffers v.buffer).drop v.byteOffset).take v.byteLength

/-- What the file holds. -/
def contents (s : State) : Bytes :=
  match s.source with
  | .text t => Utf8.encode t
  | .view v => s.viewBytes v

/-- A new array buffer, and the view of the whole of it. -/
def alloc (s : State) (b : Bytes) : State × View :=
  ({ s with
      buffers := Function.update s.buffers s.bufferCnt b
      bufferCnt := s.bufferCnt + 1 }, ⟨s.bufferCnt, 0, b.length⟩)

/-- `getSource`: a text is encoded when it is first asked for. -/
def getSource (s : State) : State × View :=
  match s.source with
  | .text t =>
    let (s₁, v) := s.alloc (Utf8.encode t)
    ({ s₁ with source := .view v }, v)
  | .view v => (s, v)

/-- `view.set(data, pos)`, within the view. -/
def setView (s : State) (v : View) (pos : Nat) (data : Bytes) : State :=
  let b := writeAt 0 (s.buffers v.buffer) (v.byteOffset + pos) data
  { s with buffers := Function.update s.buffers v.buffer b }

/-- `view.fill(0, first, last)` -/
def fillView (s : State) (v : View) (first last : Nat) : State :=
  s.setView v first (List.replicate (last - first) 0)

/-- The remembered buffer, if the file is a view of it still. -/
def spare (s : State) (source : View) : View :=
  match s.cached with
  | none => source
  | some buffer =>
    if buffer.buffer ≠ source.buffer ∨ buffer.byteOffset ≠ source.byteOffset then source
    else buffer

/-- `getFileWriteBuffer`; `none` where the allocation throws. -/
def getFileWriteBuffer (s : State) (source : View) (requiredLength : Nat) (allocates : Bool) :
    Option (State × View) :=
  let buffer := s.spare source
  if requiredLength ≤ buffer.byteLength then some (s, buffer)
  else if allocates then
    let newLength := max requiredLength (source.byteLength * 2)
    let (s₁, newBuffer) := s.alloc (List.replicate newLength 0)
    let s₂ := s₁.setView newBuffer 0 (s.viewBytes source)
    some ({ s₂ with cached := some newBuffer }, newBuffer)
  else none

/-- The `write` of a write stream. -/
def writeStream (s : State) (i : Nat) (buf : Bytes) (allocates : Bool) : State × Answer :=
  if buf.length = 0 then (s, .done)
  else
    let offset := s.writers i
    let (s₁, source) := s.getSource
    let last := offset + buf.length
    if maxSafeInteger < last then (s₁, .threw)
    else
      match s₁.getFileWriteBuffer source last allocates with
      | none => (s₁, .threw)
      | some (s₂, buffer) =>
        let s₃ := if source.byteLength < offset then
            s₂.fillView buffer source.byteLength offset
          else s₂
        let s₄ := s₃.setView buffer offset buf
        ({ s₄ with
            source := .view { buffer with byteLength := max source.byteLength last }
            writers := Function.update s₄.writers i last }, .done)

/-- The `blockingRead` of a read stream. -/
def blockingRead (s : State) (i len : Nat) : State × Answer :=
  let r := s.readers i
  if r.offset = r.source.byteLength then (s, .closed)
  else
    let bytes := ((s.viewBytes r.source).drop r.offset).take len
    let r' : Reader := { r with offset := r.offset + bytes.length }
    ({ s with readers := Function.update s.readers i r' }, .bytes bytes)

/-- `descriptor.read`. The checks come after the text has been encoded. -/
def read (s : State) (length offset : Nat) : State × Answer :=
  let (s₁, source) := s.getSource
  if maxSafeInteger < offset ∨ maxSafeInteger < length then (s₁, .threw)
  else
    (s₁, .part (((s₁.viewBytes source).drop offset).take length)
      (source.byteLength ≤ offset + length))

/-- `descriptor.write` -/
def write (s : State) (buffer : Bytes) (offset : Nat) : State × Answer :=
  if offset ≠ 0 then (s, .threw)
  else
    let (s₁, v) := s.alloc buffer
    ({ s₁ with source := .view v }, .wrote buffer.length)

/-- The size that `stat` reports; an empty text is not looked at. -/
def stat (s : State) : State × Answer :=
  match s.source with
  | .text [] => (s, .size 0)
  | _ =>
    let (s₁, source) := s.getSource
    (s₁, .size source.byteLength)

/-- One event; `none` for a stream that is not there. -/
def perform (s : State) : Event → Option (State × Answer)
  | .readViaStream offset =>
    let (s₁, source) := s.getSource
    some ({ s₁ with
      readers := Function.update s₁.readers s₁.readerCnt ⟨source, offset⟩
      readerCnt := s₁.readerCnt + 1 }, .done)
  | .writeViaStream offset =>
    if maxSafeInteger < offset then some (s, .threw)
    else
      some ({ s with
        writers := Function.update s.writers s.writerCnt offset
        writerCnt := s.writerCnt + 1 }, .done)
  | .blockingRead i len => if i < s.readerCnt then some (s.blockingRead i len) else none
  | .writeStream i buf allocates =>
    if i < s.writerCnt then some (s.writeStream i buf allocates) else none
  | .read length offset => some (s.read length offset)
  | .write buffer offset => some (s.write buffer offset)
  | .stat => some s.stat

end State

def next : Action Event State := computed fun s e => (s.perform e).map Prod.fst

/-! ## The reference -/

/-- A file that is its bytes, and the positions of its streams. -/
@[ext] structure Ref where
  contents : Bytes
  writers : Nat → Nat
  writerCnt : Nat
  readers : Nat → Nat
  readerCnt : Nat

/-- What the state means. -/
def State.ref (s : State) : Ref :=
  ⟨s.contents, s.writers, s.writerCnt, fun i => (s.readers i).offset, s.readerCnt⟩

/-- What is promised of an event. What throws leaves everything as it is: a position that is
no safe integer, memory that is not there, and a write of the descriptor that is not at the
beginning. -/
def Ref.Next (f : Ref) (e : Event) (a : Answer) (f' : Ref) : Prop :=
  match e with
  | .readViaStream offset =>
    a = .done ∧ f' = { f with
      readers := Function.update f.readers f.readerCnt offset, readerCnt := f.readerCnt + 1 }
  | .writeViaStream offset =>
    a = .threw ∧ maxSafeInteger < offset ∧ f' = f ∨
      a = .done ∧ f' = { f with
        writers := Function.update f.writers f.writerCnt offset, writerCnt := f.writerCnt + 1 }
  | .blockingRead i len =>
    if f.contents.length ≤ f.readers i then a = .closed ∧ f' = f
    else
      let bytes := (f.contents.drop (f.readers i)).take len
      a = .bytes bytes ∧
        f' = { f with readers := Function.update f.readers i (f.readers i + bytes.length) }
  | .writeStream i buf allocates =>
    a = .threw ∧ (maxSafeInteger < f.writers i + buf.length ∨ allocates = false) ∧ f' = f ∨
      a = .done ∧ f' = { f with
        contents := writeAt 0 f.contents (f.writers i) buf
        writers := Function.update f.writers i (f.writers i + buf.length) }
  | .read length offset =>
    a = .part ((f.contents.drop offset).take length) (f.contents.length ≤ offset + length) ∧ f' = f
  | .write buffer offset =>
    a = .threw ∧ offset ≠ 0 ∧ f' = f ∨
      a = .wrote buffer.length ∧ f' = { f with contents := writeAt 0 f.contents offset buffer }
  | .stat => a = .size f.contents.length ∧ f' = f

/-- The events that go as promised. A read stream has to find in its view what it would find
in the file; a write of the descriptor has to cover the file; a read needs safe integers. -/
def Ok (e : Event) (s : State) : Prop :=
  match e with
  | .blockingRead i len =>
    let r := s.readers i
    (r.offset = r.source.byteLength ↔ s.contents.length ≤ r.offset) ∧
      ((s.viewBytes r.source).drop r.offset).take len = (s.contents.drop r.offset).take len
  | .read length offset => length ≤ maxSafeInteger ∧ offset ≤ maxSafeInteger
  | .write buffer offset => offset = 0 → s.contents.length ≤ buffer.length
  | _ => True

/-- The view lies in its buffer. -/
def Valid (s : State) (v : View) : Prop :=
  v.buffer < s.bufferCnt ∧ v.byteOffset + v.byteLength ≤ (s.buffers v.buffer).length

/-- All views lie in their buffers, and where the remembered buffer counts it is not shorter
than the file. -/
structure Inv (s : State) : Prop where
  source : ∀ v, s.source = .view v → Valid s v
  cached : ∀ c, s.cached = some c → Valid s c
  spare : ∀ v c, s.source = .view v → s.cached = some c → c.buffer = v.buffer →
    c.byteOffset = v.byteOffset → v.byteLength ≤ c.byteLength
  readers : ∀ i, i < s.readerCnt → Valid s (s.readers i).source

/-- What a file starts as: a text, or bytes within a buffer. -/
inductive Start where
  | text (t : Utf8.Text)
  | bytes (before b after : Bytes)

/-- A file that nothing has been done with. -/
def initial : Start → State
  | .text t => { source := .text t }
  | .bytes before b after =>
    { source := .view ⟨0, before.length, b.length⟩
      buffers := fun _ => before ++ (b ++ after)
      bufferCnt := 1 }

/-! ## Views -/

section Views

variable {s : State} {v w : View} {b data : Bytes} {pos : Nat}

theorem Valid.length (h : Valid s v) : (s.viewBytes v).length = v.byteLength := by
  have hin := h.2
  unfold State.viewBytes
  rw [length_take, length_drop]
  omega

theorem Valid.alloc (h : Valid s v) :
    Valid (s.alloc b).1 v ∧ (s.alloc b).1.viewBytes v = s.viewBytes v := by
  rcases h with ⟨hcnt, hin⟩
  have hbuffer : (s.alloc b).1.buffers v.buffer = s.buffers v.buffer :=
    update_of_ne (Nat.ne_of_lt hcnt) ..
  refine ⟨⟨lt_succ_of_lt hcnt, ?_⟩, ?_⟩
  · rw [hbuffer]
    exact hin
  · unfold State.viewBytes
    rw [hbuffer]

/-- A new buffer is seen whole. -/
theorem alloc_new (s : State) (b : Bytes) :
    Valid (s.alloc b).1 (s.alloc b).2 ∧ (s.alloc b).1.viewBytes (s.alloc b).2 = b := by
  have hbuffer : (s.alloc b).1.buffers (s.alloc b).2.buffer = b := update_self ..
  refine ⟨⟨lt_succ_self _, ?_⟩, ?_⟩
  · rw [hbuffer]
    exact le_of_eq (zero_add _)
  · unfold State.viewBytes
    rw [hbuffer]
    exact take_length

/-- Writing in a view keeps all buffers as long as they are. -/
theorem length_setView (hw : Valid s w) (hin : pos + data.length ≤ w.byteLength) (i : Nat) :
    ((s.setView w pos data).buffers i).length = (s.buffers i).length := by
  have hroom := hw.2
  by_cases hi : i = w.buffer
  · subst hi
    have hbuffer : (s.setView w pos data).buffers w.buffer =
        writeAt 0 (s.buffers w.buffer) (w.byteOffset + pos) data := update_self ..
    rw [hbuffer]
    by_cases hdata : data = []
    · rw [hdata, writeAt_nil]
    · rw [length_writeAt 0 hdata]
      omega
  · have hbuffer : (s.setView w pos data).buffers i = s.buffers i := update_of_ne hi ..
    rw [hbuffer]

theorem Valid.setView (h : Valid s v) (hw : Valid s w) (hin : pos + data.length ≤ w.byteLength) :
    Valid (s.setView w pos data) v := by
  refine ⟨h.1, ?_⟩
  rw [length_setView hw hin]
  exact h.2

theorem viewBytes_setView (hw : Valid s w) (hin : pos + data.length ≤ w.byteLength) :
    (s.setView w pos data).viewBytes w = writeAt 0 (s.viewBytes w) pos data := by
  have hbuffer : (s.setView w pos data).buffers w.buffer =
      writeAt 0 (s.buffers w.buffer) (w.byteOffset + pos) data := update_self ..
  unfold State.viewBytes
  rw [hbuffer]
  exact slice_writeAt 0 hw.2 hin

theorem viewBytes_setView_other (hother : v.buffer ≠ w.buffer) :
    (s.setView w pos data).viewBytes v = s.viewBytes v := by
  have hbuffer : (s.setView w pos data).buffers v.buffer = s.buffers v.buffer :=
    update_of_ne hother ..
  unfold State.viewBytes
  rw [hbuffer]

theorem contents_view (hsource : s.source = .view v) : s.contents = s.viewBytes v := by
  unfold State.contents
  rw [hsource]

end Views

/-! ## The invariant -/

section Invariant

variable {s s' : State} {v w source : View} {b data : Bytes} {pos requiredLength : Nat}
  {allocates : Bool}

theorem inv_initial (start : Start) : Inv (initial start) where
  source v hv := by
    cases start with
    | text t => cases hv
    | bytes before b after =>
      cases hv
      refine ⟨one_pos, ?_⟩
      change before.length + b.length ≤ (before ++ (b ++ after)).length
      rw [length_append, length_append]
      omega
  cached c hc := by cases start <;> cases hc
  spare v c _ hc := by cases start <;> cases hc
  readers i hi := by cases start <;> cases hi

theorem Inv.setView (hinv : Inv s) (hw : Valid s w) (hin : pos + data.length ≤ w.byteLength) :
    Inv (s.setView w pos data) where
  source v hv := (hinv.source v hv).setView hw hin
  cached c hc := (hinv.cached c hc).setView hw hin
  spare := hinv.spare
  readers i hi := (hinv.readers i hi).setView hw hin

/-- The file becomes a new buffer: the remembered one no longer counts. -/
theorem Inv.replaceSource (hinv : Inv s) (b : Bytes) :
    Inv { (s.alloc b).1 with source := .view (s.alloc b).2 } where
  source v hv := by
    cases hv
    exact (alloc_new s b).1
  cached c hc := (hinv.cached c hc).alloc.1
  spare v c hv hc hbuffer _ := by
    cases hv
    have hold := (hinv.cached c hc).1
    exact absurd hbuffer (Nat.ne_of_lt hold)
  readers i hi := (hinv.readers i hi).alloc.1

/-- Asking for the source changes nothing of what the state means. -/
theorem getSource_spec (hinv : Inv s) :
    Inv s.getSource.1 ∧ s.getSource.1.source = .view s.getSource.2 ∧
      s.getSource.1.viewBytes s.getSource.2 = s.contents ∧ s.getSource.1.ref = s.ref := by
  cases hsource : s.source with
  | view v =>
    have hget : s.getSource = (s, v) := by
      unfold State.getSource
      rw [hsource]
    rw [hget]
    exact ⟨hinv, hsource, (contents_view hsource).symm, rfl⟩
  | text t =>
    have hcontents : s.contents = Utf8.encode t := by
      unfold State.contents
      rw [hsource]
    have hget : s.getSource = ({ (s.alloc (Utf8.encode t)).1 with
        source := .view (s.alloc (Utf8.encode t)).2 }, (s.alloc (Utf8.encode t)).2) := by
      unfold State.getSource
      rw [hsource]
    have hbytes := (alloc_new s (Utf8.encode t)).2
    rw [hget, hcontents]
    refine ⟨hinv.replaceSource _, rfl, hbytes, ?_⟩
    apply Ref.ext
    · exact hbytes.trans hcontents.symm
    all_goals rfl

/-- The buffer for a write: it begins with the file and has the room, and if the remembered
buffer is one of the same memory, it is this one. -/
structure Room (s : State) (source : View) (requiredLength : Nat) (s' : State) (w : View) :
    Prop where
  inv : Inv s'
  valid : Valid s' w
  required : requiredLength ≤ w.byteLength
  covers : source.byteLength ≤ w.byteLength
  start : (s'.viewBytes w).take source.byteLength = s.viewBytes source
  alone : ∀ c, s'.cached = some c → c.buffer = w.buffer → c.byteOffset = w.byteOffset → c = w
  ref : s'.ref = s.ref

theorem spare_spec (hinv : Inv s) (hsource : s.source = .view source)
    (hroom : requiredLength ≤ (s.spare source).byteLength) :
    Room s source requiredLength s (s.spare source) := by
  have hself (halone : ∀ c, s.cached = some c → c.buffer = source.buffer →
      c.byteOffset = source.byteOffset → c = source) (hspare : s.spare source = source) :
      Room s source requiredLength s (s.spare source) := by
    have hvalid := hinv.source source hsource
    rw [hspare] at hroom ⊢
    refine ⟨hinv, hvalid, hroom, le_refl _, ?_, halone, rfl⟩
    rw [← hvalid.length, take_length]
  cases hcached : s.cached with
  | none =>
    refine hself ?_ ?_
    · intro c hc
      cases hcached.symm.trans hc
    · unfold State.spare
      rw [hcached]
  | some c =>
    by_cases hother : c.buffer ≠ source.buffer ∨ c.byteOffset ≠ source.byteOffset
    · refine hself ?_ ?_
      · intro c' hc' hbuffer hoffset
        cases hcached.symm.trans hc'
        rcases hother with hne | hne
        · exact absurd hbuffer hne
        · exact absurd hoffset hne
      · unfold State.spare
        rw [hcached]
        exact if_pos hother
    · have hspare : s.spare source = c := by
        unfold State.spare
        rw [hcached]
        exact if_neg hother
      have hsame : c.buffer = source.buffer ∧ c.byteOffset = source.byteOffset := by
        simpa only [not_or, not_not] using hother
      rcases hsame with ⟨hbuffer, hoffset⟩
      have hcovers := hinv.spare source c hsource hcached hbuffer hoffset
      rw [hspare] at hroom ⊢
      refine ⟨hinv, hinv.cached c hcached, hroom, hcovers, ?_, ?_, rfl⟩
      · unfold State.viewBytes
        rw [hbuffer, hoffset, take_take, min_eq_left hcovers]
      · intro c' hc' _ _
        cases hcached.symm.trans hc'
        rfl

theorem Inv.alloc (hinv : Inv s) (b : Bytes) : Inv (s.alloc b).1 where
  source v hv := (hinv.source v hv).alloc.1
  cached c hc := (hinv.cached c hc).alloc.1
  spare := hinv.spare
  readers i hi := (hinv.readers i hi).alloc.1

/-- A new buffer that the file has been copied to the beginning of. -/
theorem grown_spec (hinv : Inv s) (hsource : s.source = .view source) {larger : Bytes}
    (hroom : requiredLength ≤ larger.length) (hcovers : source.byteLength ≤ larger.length) :
    Room s source requiredLength
      { (s.alloc larger).1.setView (s.alloc larger).2 0 (s.viewBytes source) with
        cached := some (s.alloc larger).2 } (s.alloc larger).2 := by
  have hvalid := hinv.source source hsource
  have hlen := hvalid.length
  have hold := hvalid.1
  rcases alloc_new s larger with ⟨hnew, hbytes⟩
  have hin : 0 + (s.viewBytes source).length ≤ (s.alloc larger).2.byteLength := by
    change 0 + (s.viewBytes source).length ≤ larger.length
    omega
  have hset := (hinv.alloc larger).setView hnew hin
  have hnewSet := hnew.setView hnew hin
  refine ⟨⟨hset.source, ?_, ?_, hset.readers⟩, hnewSet, hroom, hcovers, ?_, ?_, ?_⟩
  · intro c hc
    cases hc
    exact hnewSet
  · -- the new buffer is not that of the file
    intro v c hv hc hbuffer _
    cases hc
    cases hsource.symm.trans hv
    exact absurd hbuffer (ne_of_gt hold)
  · have hwritten := take_drop_writeAt 0 larger (s.viewBytes source) 0
    have hview := viewBytes_setView hnew hin
    rw [hbytes] at hview
    rw [drop_zero, hlen, ← hview] at hwritten
    exact hwritten
  · intro c hc _ _
    cases hc
    rfl
  · apply Ref.ext
    · have hother : source.buffer ≠ (s.alloc larger).2.buffer := Nat.ne_of_lt hold
      rw [State.ref, State.ref, contents_view hsource, ← hvalid.alloc.2]
      exact (contents_view (s := (s.alloc larger).1.setView ..) hsource).trans
        (viewBytes_setView_other hother)
    all_goals rfl

theorem getFileWriteBuffer_spec (hinv : Inv s) (hsource : s.source = .view source)
    (h : s.getFileWriteBuffer source requiredLength allocates = some (s', w)) :
    Room s source requiredLength s' w := by
  unfold State.getFileWriteBuffer at h
  by_cases hroom : requiredLength ≤ (s.spare source).byteLength
  · rw [if_pos hroom] at h
    cases h
    exact spare_spec hinv hsource hroom
  · rw [if_neg hroom] at h
    cases allocates with
    | false => cases h
    | true =>
      cases h
      refine grown_spec hinv hsource ?_ ?_
      · rw [length_replicate]
        exact le_max_left ..
      · rw [length_replicate]
        omega

/-- No buffer: there is no memory for one. -/
theorem getFileWriteBuffer_none
    (h : s.getFileWriteBuffer source requiredLength allocates = none) : allocates = false := by
  unfold State.getFileWriteBuffer at h
  by_cases hroom : requiredLength ≤ (s.spare source).byteLength
  · rw [if_pos hroom] at h
    cases h
  · rw [if_neg hroom] at h
    cases allocates with
    | false => rfl
    | true => cases h

end Invariant

/-! ## Writing -/

section Write

variable {s : State} {source w : View} {buf : Bytes} {offset requiredLength : Nat}

/-- The gap is zeroed, the bytes are set, and the file becomes the longer view. -/
theorem Room.write {s₂ s₄ : State} {v : View} (hroom : Room s source (offset + buf.length) s₂ w)
    (hlen : (s.viewBytes source).length = source.byteLength) (hbuf : buf ≠ [])
    (hs₄ : s₄ = (if source.byteLength < offset then
      s₂.fillView w source.byteLength offset else s₂).setView w offset buf)
    (hv : v = ⟨w.buffer, w.byteOffset, max source.byteLength (offset + buf.length)⟩) :
    Inv { s₄ with source := .view v } ∧
      s₄.viewBytes v = writeAt 0 (s.viewBytes source) offset buf ∧
      s₄.writers = s₂.writers ∧ s₄.writerCnt = s₂.writerCnt ∧ s₄.readers = s₂.readers ∧
      s₄.readerCnt = s₂.readerCnt := by
  subst hv
  have hrequired := hroom.required
  have hcovers := hroom.covers
  have hgap : source.byteLength + (List.replicate (offset - source.byteLength) (0 : UInt8)).length ≤
      w.byteLength := by
    rw [length_replicate]
    omega
  -- filling an empty gap is not filling
  have hfill : (if source.byteLength < offset then s₂.fillView w source.byteLength offset else s₂) =
      s₂.setView w source.byteLength (List.replicate (offset - source.byteLength) 0) := by
    by_cases hlt : source.byteLength < offset
    · rw [if_pos hlt]
      rfl
    · have hnone : offset - source.byteLength = 0 := by omega
      rw [if_neg hlt, hnone]
      have hsame : update s₂.buffers w.buffer (s₂.buffers w.buffer) = s₂.buffers :=
        update_eq_self ..
      exact congrArg (fun buffers => { s₂ with buffers }) hsame.symm
  rw [hfill] at hs₄
  subst hs₄
  have hfilled := hroom.valid.setView hroom.valid hgap
  have hinv := (hroom.inv.setView hroom.valid hgap).setView hfilled hrequired
  have hvalid := hfilled.setView hfilled hrequired
  refine ⟨⟨?_, hinv.cached, ?_, hinv.readers⟩, ?_, rfl, rfl, rfl, rfl⟩
  · intro v hv
    cases hv
    refine ⟨hvalid.1, ?_⟩
    have hin := hvalid.2
    have hmax : max source.byteLength (offset + buf.length) ≤ w.byteLength := by omega
    exact Nat.le_trans (Nat.add_le_add_left hmax _) hin
  · intro v c hv hc hbuffer hoffset
    cases hv
    rw [hroom.alone c hc hbuffer hoffset]
    change max source.byteLength (offset + buf.length) ≤ w.byteLength
    omega
  · have hmax : max source.byteLength (offset + buf.length) ≤ w.byteLength := by omega
    have hbegin := hroom.start
    rw [← hlen] at hbegin
    have hlarger := hroom.valid.length
    have hview := viewBytes_setView hfilled hrequired
    rw [viewBytes_setView hroom.valid hgap] at hview
    have hin : offset + buf.length ≤ (s₂.viewBytes w).length := by omega
    have hzeroed := take_writeAt_zeroed 0 hbuf hbegin (by omega) hin
    rw [hlen, ← hview] at hzeroed
    rw [← hzeroed]
    unfold State.viewBytes
    rw [take_take, min_eq_left hmax]

theorem writeStream_spec (hinv : Inv s) (i : Nat) (buf : Bytes) (allocates : Bool) :
    Inv (s.writeStream i buf allocates).1 ∧
      Ref.Next s.ref (.writeStream i buf allocates) (s.writeStream i buf allocates).2
        (s.writeStream i buf allocates).1.ref := by
  unfold State.writeStream
  by_cases hempty : buf.length = 0
  · rw [if_pos hempty]
    refine ⟨hinv, .inr ⟨rfl, ?_⟩⟩
    have hself : update s.writers i (s.writers i + buf.length) = s.writers := by
      rw [hempty, add_zero, update_eq_self]
    apply Ref.ext
    · change s.contents = writeAt 0 s.contents (s.writers i) buf
      rw [eq_nil_of_length_eq_zero hempty, writeAt_nil]
    · exact hself.symm
    all_goals rfl
  · rw [if_neg hempty]
    have hbuf : buf ≠ [] := fun hnil => hempty (congrArg List.length hnil)
    rcases getSource_spec hinv with ⟨hinv₁, hsource₁, hbytes₁, href₁⟩
    have hlen₁ := (hinv₁.source _ hsource₁).length
    have hwriters₁ : s.getSource.1.writers = s.writers := congrArg Ref.writers href₁
    cases hget : s.getSource with
    | mk s₁ source =>
      rw [hget] at hinv₁ hsource₁ hbytes₁ href₁ hlen₁ hwriters₁
      by_cases hsafe : maxSafeInteger < s.writers i + buf.length
      · simp only [if_pos hsafe]
        exact ⟨hinv₁, .inl ⟨rfl, .inl hsafe, href₁⟩⟩
      · simp only [if_neg hsafe]
        cases hbuffer : s₁.getFileWriteBuffer source (s.writers i + buf.length) allocates with
        | none => exact ⟨hinv₁, .inl ⟨rfl, .inr (getFileWriteBuffer_none hbuffer), href₁⟩⟩
        | some got =>
          rcases got with ⟨s₂, w⟩
          have hroom := getFileWriteBuffer_spec hinv₁ hsource₁ hbuffer
          rcases hroom.write hlen₁ hbuf rfl rfl with
            ⟨hinv₄, hbytes₄, hwriters₄, hwriterCnt₄, hreaders₄, hreaderCnt₄⟩
          have href₂ : s₂.ref = s.ref := hroom.ref.trans href₁
          refine ⟨{ hinv₄ with }, .inr ⟨rfl, ?_⟩⟩
          apply Ref.ext
          · rw [hbytes₁] at hbytes₄
            exact hbytes₄
          · change update _ i _ = update s.writers i _
            rw [hwriters₄]
            exact congrArg (fun f => update f i _) (congrArg Ref.writers href₂)
          · exact hwriterCnt₄.trans (congrArg Ref.writerCnt href₂)
          · have hoffsets := congrArg (fun readers i => Reader.offset (readers i)) hreaders₄
            exact hoffsets.trans (congrArg Ref.readers href₂)
          · exact hreaderCnt₄.trans (congrArg Ref.readerCnt href₂)

/-- What is written over the whole of a file replaces it. -/
theorem writeAt_zero_eq_iff {C : Bytes} : buf = writeAt 0 C 0 buf ↔ C.length ≤ buf.length := by
  by_cases hbuf : buf = []
  · subst hbuf
    rw [writeAt_nil, length_nil, le_zero, length_eq_zero_iff, eq_comm]
  · constructor
    · intro h
      have hlen : (writeAt 0 C 0 buf).length = max C.length (0 + buf.length) :=
        length_writeAt 0 hbuf
      rw [← h] at hlen
      omega
    · intro hle
      rw [writeAt_eq 0 hbuf, drop_eq_nil_of_le (by omega)]
      unfold below
      simp

theorem write_spec (hinv : Inv s) (buffer : Bytes) (offset : Nat) :
    Inv (s.write buffer offset).1 ∧
      (Ref.Next s.ref (.write buffer offset) (s.write buffer offset).2
        (s.write buffer offset).1.ref ↔ Ok (.write buffer offset) s) := by
  unfold State.write
  by_cases hoffset : offset ≠ 0
  · rw [if_pos hoffset]
    refine ⟨hinv, iff_of_true (.inl ⟨rfl, hoffset, rfl⟩) ?_⟩
    intro hzero
    exact absurd hzero hoffset
  · rw [if_neg hoffset]
    have hzero : offset = 0 := not_not.1 hoffset
    subst hzero
    refine ⟨hinv.replaceSource buffer, ?_⟩
    have hbytes := (alloc_new s buffer).2
    constructor
    · rintro (⟨hthrew, _, _⟩ | ⟨_, href⟩)
      · cases hthrew
      · intro _
        have hcontents := congrArg Ref.contents href
        exact writeAt_zero_eq_iff.1 (hbytes.symm.trans hcontents)
    · intro hok
      refine .inr ⟨rfl, ?_⟩
      apply Ref.ext
      · exact hbytes.trans (writeAt_zero_eq_iff.2 (hok rfl))
      all_goals rfl

end Write

/-! ## Reading -/

section Read

variable {s : State}

theorem read_spec (hinv : Inv s) (length offset : Nat) :
    Inv (s.read length offset).1 ∧
      (Ref.Next s.ref (.read length offset) (s.read length offset).2
        (s.read length offset).1.ref ↔ Ok (.read length offset) s) := by
  rcases getSource_spec hinv with ⟨hinv₁, hsource₁, hbytes₁, href₁⟩
  have hlen₁ := (hinv₁.source _ hsource₁).length
  rw [hbytes₁] at hlen₁
  unfold State.read
  by_cases hunsafe : maxSafeInteger < offset ∨ maxSafeInteger < length
  · simp only [if_pos hunsafe]
    refine ⟨hinv₁, iff_of_false ?_ ?_⟩
    · rintro ⟨hanswer, _⟩
      cases hanswer
    · rintro ⟨hlength, hoffset⟩
      omega
  · simp only [if_neg hunsafe]
    refine ⟨hinv₁, iff_of_true ⟨?_, href₁⟩ ?_⟩
    · rw [hbytes₁, ← hlen₁]
      rfl
    · constructor
      · omega
      · omega

theorem stat_spec (hinv : Inv s) :
    Inv s.stat.1 ∧ Ref.Next s.ref .stat s.stat.2 s.stat.1.ref := by
  rcases getSource_spec hinv with ⟨hinv₁, hsource₁, hbytes₁, href₁⟩
  have hlen₁ := (hinv₁.source _ hsource₁).length
  rw [hbytes₁] at hlen₁
  by_cases hblank : s.source = .text []
  · have hstat : s.stat = (s, .size 0) := by
      unfold State.stat
      rw [hblank]
    have hcontents : s.contents = [] := by
      unfold State.contents
      rw [hblank]
      rfl
    rw [hstat]
    refine ⟨hinv, ?_, rfl⟩
    change Answer.size 0 = .size s.contents.length
    rw [hcontents]
    rfl
  · have hstat : s.stat = (s.getSource.1, .size s.getSource.2.byteLength) := by
      unfold State.stat
      cases hsource : s.source with
      | view v => rfl
      | text t =>
        cases t with
        | nil => exact absurd hsource hblank
        | cons c t => rfl
    rw [hstat]
    refine ⟨hinv₁, ?_, href₁⟩
    exact congrArg Answer.size hlen₁.symm

theorem readViaStream_inv (hinv : Inv s) (offset : Nat) : Inv { s.getSource.1 with
    readers := update s.getSource.1.readers s.getSource.1.readerCnt
      ⟨s.getSource.2, offset⟩
    readerCnt := s.getSource.1.readerCnt + 1 } := by
  rcases getSource_spec hinv with ⟨hinv₁, hsource₁, _, _⟩
  refine ⟨hinv₁.source, hinv₁.cached, hinv₁.spare, ?_⟩
  intro i hi
  change Valid _ (update s.getSource.1.readers _ _ i).source
  by_cases hnew : i = s.getSource.1.readerCnt
  · subst hnew
    rw [update_self]
    exact hinv₁.source _ hsource₁
  · rw [update_of_ne hnew]
    have hold : i < s.getSource.1.readerCnt := lt_of_le_of_ne (le_of_lt_succ hi) hnew
    exact hinv₁.readers i hold

/-- The offsets of the readers after one of them has changed. -/
theorem offsets_update (readers : Nat → Reader) (i : Nat) (r : Reader) :
    (fun j => (update readers i r j).offset) =
      update (fun j => (readers j).offset) i r.offset := by
  funext j
  by_cases hj : j = i
  · subst hj
    rw [update_self, update_self]
  · rw [update_of_ne hj, update_of_ne hj]

theorem readViaStream_next (hinv : Inv s) (offset : Nat) :
    Ref.Next s.ref (.readViaStream offset) .done (State.ref { s.getSource.1 with
      readers := update s.getSource.1.readers s.getSource.1.readerCnt
        ⟨s.getSource.2, offset⟩
      readerCnt := s.getSource.1.readerCnt + 1 }) := by
  have href₁ := (getSource_spec hinv).2.2.2
  refine ⟨rfl, ?_⟩
  rw [← href₁]
  apply Ref.ext
  · rfl
  · rfl
  · rfl
  · exact offsets_update ..
  · rfl

theorem blockingRead_inv (hinv : Inv s) {i : Nat} (len : Nat) (hi : i < s.readerCnt) :
    Inv (s.blockingRead i len).1 := by
  unfold State.blockingRead
  by_cases hend : (s.readers i).offset = (s.readers i).source.byteLength
  · simp only [if_pos hend]
    exact hinv
  · simp only [if_neg hend]
    refine ⟨hinv.source, hinv.cached, hinv.spare, ?_⟩
    intro j hj
    change Valid _ (update s.readers i _ j).source
    by_cases hij : j = i
    · subst hij
      rw [update_self]
      exact hinv.readers j hj
    · rw [update_of_ne hij]
      exact hinv.readers j hj

/-- A read stream answers from the view it was opened with. -/
theorem blockingRead_next_iff {i : Nat} (hvalid : Valid s (s.readers i).source) (len : Nat) :
    Ref.Next s.ref (.blockingRead i len) (s.blockingRead i len).2 (s.blockingRead i len).1.ref ↔
      Ok (.blockingRead i len) s := by
  have hlen := hvalid.length
  change (if s.contents.length ≤ (s.readers i).offset then _ else _) ↔ _
  by_cases hend : (s.readers i).offset = (s.readers i).source.byteLength
  · have hread : s.blockingRead i len = (s, .closed) := if_pos hend
    rw [hread]
    by_cases hclosed : s.contents.length ≤ (s.readers i).offset
    · rw [if_pos hclosed]
      refine iff_of_true ⟨rfl, rfl⟩ ⟨iff_of_true hend hclosed, ?_⟩
      rw [drop_eq_nil_of_le hclosed, drop_eq_nil_of_le (by omega)]
    · -- the file has grown past the view
      rw [if_neg hclosed]
      refine iff_of_false ?_ ?_
      · rintro ⟨hanswer, _⟩
        cases hanswer
      · rintro ⟨hiff, _⟩
        exact hclosed (hiff.1 hend)
  · unfold State.blockingRead
    simp only [if_neg hend]
    by_cases hclosed : s.contents.length ≤ (s.readers i).offset
    · -- the stream began beyond the end
      rw [if_pos hclosed]
      refine iff_of_false ?_ ?_
      · rintro ⟨hanswer, _⟩
        cases hanswer
      · rintro ⟨hiff, _⟩
        exact hend (hiff.2 hclosed)
    · rw [if_neg hclosed]
      constructor
      · rintro ⟨hanswer, _⟩
        exact ⟨iff_of_false hend hclosed, Answer.bytes.inj hanswer⟩
      · rintro ⟨_, hbytes⟩
        refine ⟨congrArg Answer.bytes hbytes, ?_⟩
        apply Ref.ext
        · rfl
        · rfl
        · rfl
        · refine (offsets_update ..).trans ?_
          rw [hbytes]
          rfl
        · rfl

end Read

/-! ## All events -/

theorem some_pair {p : State × Answer} {s' : State} {a : Answer} (h : some p = some (s', a)) :
    s' = p.1 ∧ a = p.2 := by
  rw [Option.some.inj h]
  exact ⟨rfl, rfl⟩

theorem perform_spec {s s' : State} {e : Event} {a : Answer} (hinv : Inv s)
    (h : s.perform e = some (s', a)) :
    Inv s' ∧ (Ref.Next s.ref e a s'.ref ↔ Ok e s) := by
  cases e with
  | readViaStream offset =>
    cases h
    exact ⟨readViaStream_inv hinv offset, iff_of_true (readViaStream_next hinv offset) trivial⟩
  | writeViaStream offset =>
    rw [State.perform] at h
    by_cases hsafe : maxSafeInteger < offset
    · rw [if_pos hsafe] at h
      cases h
      exact ⟨hinv, iff_of_true (.inl ⟨rfl, hsafe, rfl⟩) trivial⟩
    · rw [if_neg hsafe] at h
      cases h
      refine ⟨{ hinv with }, ?_⟩
      exact iff_of_true (.inr ⟨rfl, rfl⟩) trivial
  | blockingRead i len =>
    rw [State.perform] at h
    by_cases hi : i < s.readerCnt
    · rw [if_pos hi] at h
      rcases some_pair h with ⟨rfl, rfl⟩
      exact ⟨blockingRead_inv hinv len hi, blockingRead_next_iff (hinv.readers i hi) len⟩
    · rw [if_neg hi] at h
      cases h
  | writeStream i buf allocates =>
    rw [State.perform] at h
    by_cases hi : i < s.writerCnt
    · rw [if_pos hi] at h
      rcases some_pair h with ⟨rfl, rfl⟩
      rcases writeStream_spec hinv i buf allocates with ⟨hinv', hnext⟩
      exact ⟨hinv', iff_of_true hnext trivial⟩
    · rw [if_neg hi] at h
      cases h
  | read length offset =>
    rcases some_pair h with ⟨rfl, rfl⟩
    exact read_spec hinv length offset
  | write buffer offset =>
    rcases some_pair h with ⟨rfl, rfl⟩
    exact write_spec hinv buffer offset
  | stat =>
    rcases some_pair h with ⟨rfl, rfl⟩
    rcases stat_spec hinv with ⟨hinv', hnext⟩
    exact ⟨hinv', iff_of_true hnext trivial⟩

/-- A step that goes as promised. -/
def Good (e : Event) (s s' : State) : Prop :=
  ∃ a, s.perform e = some (s', a) ∧ Ref.Next s.ref e a s'.ref

theorem good_iff {s s' : State} {e : Event} (hinv : Inv s) (h : next e s s') :
    Good e s s' ↔ Ok e s := by
  rcases Option.map_eq_some_iff.1 h with ⟨⟨s'', a⟩, hperform, hs'⟩
  subst hs'
  have hspec := (perform_spec hinv hperform).2
  constructor
  · rintro ⟨a', hperform', hright⟩
    cases hperform.symm.trans hperform'
    exact hspec.1 hright
  · intro hok
    exact ⟨a, hperform, hspec.2 hok⟩

/-- The runs in which every event goes as promised of the bytes are those whose events are
all `Ok`. -/
theorem contents_right_iff (start : Start) (es : List Event) (s' : State) :
    Run (fun e s s' => next e s s' ∧ Good e s s') (initial start) es s' ↔
      Run (guarded Ok next) (initial start) es s' := by
  refine Run.good_iff_guarded ?_ ?_ (inv_initial start)
  · intro e s s' hinv hnext
    exact good_iff hinv hnext
  · rintro e s s' hinv hnext ⟨a, hperform, _⟩
    exact (perform_spec hinv hperform).1

/-- A write of one byte at the beginning of a file of two leaves one byte. -/
theorem short_store_not_right : ∃ s',
    Run next (initial (.bytes [] [1, 2] [])) [.write [9] 0] s' ∧ s'.contents = [9] ∧
      ¬ Run (fun e s s' => next e s s' ∧ Good e s s') (initial (.bytes [] [1, 2] []))
        [.write [9] 0] s' := by
  refine ⟨_, .cons rfl (.nil _), rfl, ?_⟩
  intro hrun
  cases hrun with
  | cons hstep _ =>
    have hok : Ok (.write [9] 0) (initial (.bytes [] [1, 2] [])) :=
      (good_iff (inv_initial _) hstep.1).1 hstep.2
    have hle := hok rfl
    revert hle
    decide

end Jco.Filesystem.BrowserContents

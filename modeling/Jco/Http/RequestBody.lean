import Mathlib.Data.List.Basic
import Mathlib.Tactic.Common
import Jco.Js.Bytes
import Jco.Lib.Pulls
import Jco.Lib.Utf8

/-!
# The length of a request body

`Request.new` makes a stream of bytes of the contents it is given. Where the headers have a
content length it puts a reader in between that counts. A reader tells its end in two ways, by
`null` or by an iterator result that is done, and its chunks in two ways, bare or as iterator
results; the adapters translate.

1. Chunks, results and sources.
2. The adapters.
3. What is promised.
4. Sources one by one.
-/

namespace Jco.Http.RequestBody

open Js Lib List

/-! ## Sources -/

/-- A value that bytes are made of. -/
inductive Chunk where
  | uint8Array (b : Bytes)
  | arrayBuffer (b : Bytes)
  | array (b : Bytes)
  | number (b : UInt8)
  | string (t : Utf8.Text)
deriving DecidableEq, Repr

def Chunk.bytes : Chunk → Bytes
  | uint8Array b => b
  | arrayBuffer b => b
  | array b => b
  | number b => [b]
  | string t => Utf8.encode t

inductive BodyError where
  | typeError
  /-- `HTTP-request-body-size` -/
  | bodySize (bytes : Nat)
deriving DecidableEq, Repr

/-- `_byteChunk`; `none` is `null` or `undefined`. -/
def byteChunk : Option Chunk → Except BodyError Bytes
  | none => .error .typeError
  | some c => .ok c.bytes

/-- What a `read` comes to: a bare value, or an iterator result. -/
inductive ReadResult where
  | bare (value : Option Chunk)
  | result (value : Option Chunk) (done : Bool) (rejectedLength : Option Nat)
deriving DecidableEq, Repr

structure ReadOpts where
  count : Nat
  rejectLength : Option Nat
deriving DecidableEq, Repr

/-- The contents, with what they have still to give. -/
inductive Source where
  /-- A `StreamReader` of the shim. -/
  | streamReader (chunks : List Chunk)
  /-- An object with a `read`: its chunks, with whether each comes in an iterator result, and
  whether its end is `null`. -/
  | reader (chunks : List (Bool × Chunk)) (nullEnd : Bool)
  | asyncIterable (chunks : List Chunk)
  | syncIterable (chunks : List Chunk)
  /-- A generated stream: the writes of the guest, and whether a read that asks for nothing
  comes before the write that follows. -/
  | generated (writes : List Bytes) (readFirst : Bool)
deriving DecidableEq, Repr

/-- The bytes in the portions in which they come. -/
def Source.portions : Source → List Bytes
  | streamReader chunks => chunks.map Chunk.bytes
  | reader chunks _ => chunks.map fun c => c.2.bytes
  | asyncIterable chunks => chunks.map Chunk.bytes
  | syncIterable chunks => chunks.map Chunk.bytes
  | generated writes _ => writes

def Source.bytes (contents : Source) : Bytes := contents.portions.flatten

/-- A generated stream is read. An empty write is passed over by a read that has room; a
read of nothing is over with the next write if it was there before it, or with an empty one. -/
def readGenerated (readFirst : Bool) (opts : ReadOpts) : List Bytes → ReadResult × List Bytes
  | [] => (.result none true none, [])
  | w :: rest =>
    if opts.count = 0 ∧ (readFirst ∨ w = []) then (.result none true none, w :: rest)
    else if w = [] then readGenerated readFirst opts rest
    else if opts.rejectLength.any fun r => r < w.length then
      (.result none true (some w.length), [])
    else
      let value := some (.uint8Array (w.take opts.count))
      let left := w.drop opts.count
      (.result value false none, if left = [] then rest else left :: rest)

/-- `reader.read(opts)`. What is no reader is not read. -/
def Source.read (opts : ReadOpts) : Source → ReadResult × Source
  | streamReader [] => (.bare none, streamReader [])
  | streamReader (c :: rest) => (.bare (some c), streamReader rest)
  | reader [] nullEnd =>
    (if nullEnd then .bare none else .result none true none, reader [] nullEnd)
  | reader ((wrapped, c) :: rest) nullEnd =>
    (if wrapped then .result (some c) false none else .bare (some c), reader rest nullEnd)
  | generated writes readFirst =>
    let (result, writes') := readGenerated readFirst opts writes
    (result, generated writes' readFirst)
  | asyncIterable chunks => (.bare none, asyncIterable chunks)
  | syncIterable chunks => (.bare none, syncIterable chunks)

/-- `iterator.next()` of an async iterable: whether it is done, and the value. -/
def Source.next : Source → (Bool × Option Chunk) × Source
  | asyncIterable (c :: rest) => ((false, some c), asyncIterable rest)
  | contents => ((true, none), contents)

/-! ## The adapters -/

/-- `DEFAULT_BYTE_STREAM_CHUNK_SIZE` -/
def chunkSize : Nat := 64 * 1024

def maxSafeInteger : Nat := 2 ^ 53 - 1

section Adapters

variable {σ : Type*}

/-- A function that reads, or throws. -/
abbrev Read (σ : Type*) := ReadOpts → σ → Except BodyError (ReadResult × σ)

/-- `byteStreamSource` of a reader: both conventions for the end become one. -/
def byteStreamSource (read : Read σ) (s : σ) : Except BodyError ((Bool × Option Chunk) × σ) :=
  match read ⟨chunkSize, none⟩ s with
  | .error e => .error e
  | .ok (.result value done _, s') => .ok ((done, value), s')
  | .ok (.bare value, s') => .ok ((value.isNone, value), s')

/-- The `pull` of `readableByteStreamFromReader`. -/
def pullOf (source : σ → Except BodyError ((Bool × Option Chunk) × σ)) (s : σ) :
    Pull Bytes BodyError σ :=
  match source s with
  | .error e => .fail e
  | .ok ((true, _), _) => .close
  | .ok ((false, value), s') =>
    match byteChunk value with
    | .error e => .fail e
    | .ok b => .enqueue b s'

/-- `StreamReader.read` over a readable stream; the flag is `#done`. -/
def streamReaderRead (pull : σ → Pull Bytes BodyError σ) : Read (Bool × σ) := fun _ s =>
  if s.1 then .ok (.bare none, s)
  else
    match pull s.2 with
    | .close => .ok (.bare none, (true, s.2))
    | .fail e => .error e
    | .enqueue b s' => .ok (.bare (some (.uint8Array b)), (false, s'))

def readOpts (remaining : Nat) : ReadOpts :=
  if remaining = 0 then ⟨0, some 0⟩
  else ⟨min remaining chunkSize, if remaining ≤ maxSafeInteger then some remaining else none⟩

/-- The end of the source: `null` is taken for a chunk. -/
def contentLengthResult (expectedLength sent : Nat) :
    ReadResult → Except BodyError (ReadResult × Nat)
  | .result _ _ (some rejectedLength) => .error (.bodySize (sent + rejectedLength))
  | .result value true none =>
    if sent < expectedLength then .error (.bodySize sent)
    else .ok (.result value true none, sent)
  | .result value false none => counted value
  | .bare value => counted value
where
  counted (value : Option Chunk) : Except BodyError (ReadResult × Nat) :=
    match byteChunk value with
    | .error e => .error e
    | .ok chunk =>
      let sent := sent + chunk.length
      if expectedLength < sent then .error (.bodySize sent)
      else .ok (.result (some (.uint8Array chunk)) false none, sent)

/-- `contentLengthReader`; the state has the number of bytes sent. -/
def contentLengthReader (read : Read σ) (expectedLength : Nat) : Read (σ × Nat) := fun _ s =>
  match read (readOpts (expectedLength - s.2)) s.1 with
  | .error e => .error e
  | .ok (result, s') =>
    match contentLengthResult expectedLength s.2 result with
    | .error e => .error e
    | .ok (result, sent) => .ok (result, (s', sent))

end Adapters

/-- A `read` of the contents themselves. -/
def sourceRead : Read Source := fun opts contents => .ok (contents.read opts)

/-- The stream of an async iterable. -/
def iterablePull : Source → Pull Bytes BodyError Source := pullOf fun contents => .ok contents.next

/-- A reader as a stream, without a content length. -/
def readerPull : Source → Pull Bytes BodyError Source := pullOf (byteStreamSource sourceRead)

/-- A reader as a stream that counts. -/
def countedPull (expectedLength : Nat) :
    Source × Nat → Pull Bytes BodyError (Source × Nat) :=
  pullOf (byteStreamSource (contentLengthReader sourceRead expectedLength))

/-- An async iterable as a stream that counts. -/
def countedIterablePull (expectedLength : Nat) :
    (Bool × Source) × Nat → Pull Bytes BodyError ((Bool × Source) × Nat) :=
  pullOf (byteStreamSource (contentLengthReader (streamReaderRead iterablePull) expectedLength))

/-- What the body of a request comes to: its chunks and how it ends. -/
abbrev Delivery := List Bytes × Ending BodyError

/-- `Request.new` and a reader of the body that reads to the end; `none` where the contents
are refused. A `StreamReader` is taken as it is. -/
def Delivers (contents : Source) (contentLength : Option Nat) (delivery : Option Delivery) : Prop :=
  match contents, contentLength, delivery with
  | .syncIterable _, _, delivery => delivery = none
  | _, _, none => False
  | .streamReader chunks, _, some (bs, ending) =>
    Drains readerPull (.streamReader chunks) bs ending
  | .asyncIterable chunks, none, some (bs, ending) =>
    Drains iterablePull (.asyncIterable chunks) bs ending
  | .asyncIterable chunks, some expectedLength, some (bs, ending) =>
    Drains (countedIterablePull expectedLength) ((false, .asyncIterable chunks), 0) bs ending
  | contents, none, some (bs, ending) => Drains readerPull contents bs ending
  | contents, some expectedLength, some (bs, ending) =>
    Drains (countedPull expectedLength) (contents, 0) bs ending

/-! ## What is promised -/

/-- How many bytes have been seen when it is clear that there are not as many as expected:
the portion that is too much is the last one seen. -/
def seen (expectedLength : Nat) : Nat → List Bytes → Nat
  | sent, [] => sent
  | sent, b :: rest =>
    if expectedLength < sent + b.length then sent + b.length
    else seen expectedLength (sent + b.length) rest

/-- The body is the bytes of the source, or it fails with the number seen. -/
def Right (contents : Source) (contentLength : Option Nat) (delivery : Option Delivery) : Prop :=
  match delivery with
  | none => False
  | some (bs, ending) =>
    match contentLength with
    | none => bs.flatten = contents.bytes ∧ ending = .closed
    | some expectedLength =>
      if contents.bytes.length = expectedLength then
        bs.flatten = contents.bytes ∧ ending = .closed
      else ending = .failed (.bodySize (seen expectedLength 0 contents.portions))

/-- The writes that follow those that make up exactly so many bytes. -/
def after : Nat → List Bytes → Option (List Bytes)
  | 0, writes => some writes
  | _ + 1, [] => none
  | n + 1, w :: rest => if w.length ≤ n + 1 then after (n + 1 - w.length) rest else none

/-- What follows a body that has its length is noticed. -/
def Noticed (readFirst : Bool) (rest : List Bytes) : Prop :=
  rest.flatten = [] ∨ readFirst = false ∧ rest.head? ≠ some []

/-- The contents that are counted as promised. -/
def Ok (contents : Source) (contentLength : Option Nat) : Prop :=
  match contents, contentLength with
  | .syncIterable _, _ => False
  | _, none => True
  | .streamReader _, some expectedLength => contents.bytes.length = expectedLength
  | .asyncIterable _, some expectedLength => expectedLength < contents.bytes.length
  | .reader _ nullEnd, some expectedLength =>
    nullEnd = true → expectedLength < contents.bytes.length
  | .generated writes readFirst, some expectedLength =>
    ∀ rest, after expectedLength writes = some rest → Noticed readFirst rest

/-! ## Reading a generated stream -/

section Generated

variable {readFirst : Bool} {opts : ReadOpts} {w : Bytes} {rest writes writes' : List Bytes}
  {result : ReadResult}

/-- An empty write is passed over. -/
theorem readGenerated_skip (hcount : opts.count ≠ 0) :
    readGenerated readFirst opts ([] :: rest) = readGenerated readFirst opts rest := by
  rw [readGenerated, if_neg (fun hzero => hcount hzero.1), if_pos rfl]

/-- A read of nothing is over. -/
theorem readGenerated_over (hcount : opts.count = 0) (hover : readFirst = true ∨ w = []) :
    readGenerated readFirst opts (w :: rest) = (.result none true none, w :: rest) := by
  rw [readGenerated, if_pos ⟨hcount, hover⟩]

/-- A write that is too long is rejected. -/
theorem readGenerated_reject {r : Nat} (rest : List Bytes)
    (hcount : opts.count = 0 → readFirst = false) (hw : w ≠ [])
    (hreject : opts.rejectLength = some r) (hlong : r < w.length) :
    readGenerated readFirst opts (w :: rest) = (.result none true (some w.length), []) := by
  have hread : ¬ (opts.count = 0 ∧ (readFirst = true ∨ w = [])) := by
    rintro ⟨hzero, hover⟩
    rcases hover with hfirst | hempty
    · rw [hcount hzero] at hfirst
      cases hfirst
    · exact hw hempty
  have hany : (opts.rejectLength.any fun r => r < w.length) = true := by
    rw [hreject]
    exact decide_eq_true hlong
  rw [readGenerated, if_neg hread, if_neg hw, if_pos hany]

/-- A read takes what it has room for. -/
theorem readGenerated_take (readFirst : Bool) (rest : List Bytes) (hcount : opts.count ≠ 0)
    (hw : w ≠ []) (hkeep : ∀ r, opts.rejectLength = some r → w.length ≤ r) :
    readGenerated readFirst opts (w :: rest) =
      (.result (some (.uint8Array (w.take opts.count))) false none,
        if w.drop opts.count = [] then rest else w.drop opts.count :: rest) := by
  have hany : ¬ (opts.rejectLength.any fun r => r < w.length) = true := by
    cases hreject : opts.rejectLength with
    | none => exact Bool.false_ne_true
    | some r =>
      have hle := hkeep r hreject
      simpa using hle
  rw [readGenerated, if_neg (fun hzero => hcount hzero.1), if_neg hw, if_neg hany]

theorem sourceRead_generated (h : readGenerated readFirst opts writes = (result, writes')) :
    sourceRead opts (.generated writes readFirst) = .ok (result, .generated writes' readFirst) := by
  simp only [sourceRead, Source.read, h]

theorem sourceRead_skip (readFirst : Bool) (rest : List Bytes) (hcount : opts.count ≠ 0) :
    sourceRead opts (.generated ([] :: rest) readFirst) =
      sourceRead opts (.generated rest readFirst) := by
  simp only [sourceRead, Source.read, readGenerated_skip hcount]

theorem chunkSize_ne_zero : chunkSize ≠ 0 := by decide

end Generated

/-! ## Without a content length -/

section Plain

variable {chunks : List Chunk} {wrapped : List (Bool × Chunk)} {nullEnd readFirst : Bool}

theorem reader_drains (wrapped : List (Bool × Chunk)) (nullEnd : Bool) :
    Drains readerPull (.reader wrapped nullEnd) (wrapped.map fun c => c.2.bytes) .closed := by
  induction wrapped with
  | nil =>
    apply Drains.close
    cases nullEnd <;> rfl
  | cons c rest ih =>
    refine .enqueue ?_ ih
    rcases c with ⟨inResult, c⟩
    cases inResult <;> rfl

theorem streamReader_drains (chunks : List Chunk) :
    Drains readerPull (.streamReader chunks) (chunks.map Chunk.bytes) .closed := by
  induction chunks with
  | nil => exact .close rfl
  | cons c rest ih => exact .enqueue rfl ih

theorem iterable_drains (chunks : List Chunk) :
    Drains iterablePull (.asyncIterable chunks) (chunks.map Chunk.bytes) .closed := by
  induction chunks with
  | nil => exact .close rfl
  | cons c rest ih => exact .enqueue rfl ih

/-- A write that is not empty is delivered in as many reads as it takes. -/
theorem write_drains {rest : List Bytes} {bs : List Bytes} {ending : Ending BodyError}
    (h : Drains readerPull (.generated rest readFirst) bs ending) (w : Bytes) (hw : w ≠ []) :
    ∃ bs', Drains readerPull (.generated (w :: rest) readFirst) bs' ending ∧
      bs'.flatten = w ++ bs.flatten := by
  induction hn : w.length using Nat.strong_induction_on generalizing w with
  | _ n ih =>
    have hpull : readerPull (.generated (w :: rest) readFirst) = .enqueue (w.take chunkSize)
        (.generated (if w.drop chunkSize = [] then rest else w.drop chunkSize :: rest)
          readFirst) := by
      have htake : readGenerated readFirst ⟨chunkSize, none⟩ (w :: rest) =
          (.result (some (.uint8Array (w.take chunkSize))) false none,
            if w.drop chunkSize = [] then rest else w.drop chunkSize :: rest) :=
        readGenerated_take readFirst rest chunkSize_ne_zero hw fun r hr => by cases hr
      have hread := sourceRead_generated htake
      unfold readerPull pullOf byteStreamSource
      rw [hread]
      rfl
    by_cases hleft : w.drop chunkSize = []
    · rw [if_pos hleft] at hpull
      refine ⟨_, .enqueue hpull h, ?_⟩
      have hwhole := take_append_drop chunkSize w
      rw [hleft, append_nil] at hwhole
      rw [flatten_cons, hwhole]
    · rw [if_neg hleft] at hpull
      have hpos : 0 < w.length := length_pos_of_ne_nil hw
      have hshorter : (w.drop chunkSize).length < n := by
        rw [length_drop, chunkSize]
        omega
      rcases ih _ hshorter (w.drop chunkSize) hleft rfl with ⟨bs', hdrains, hflat⟩
      refine ⟨_, .enqueue hpull hdrains, ?_⟩
      rw [flatten_cons, hflat, ← append_assoc, take_append_drop]

theorem generated_drains (writes : List Bytes) (readFirst : Bool) :
    ∃ bs, Drains readerPull (.generated writes readFirst) bs .closed ∧
      bs.flatten = writes.flatten := by
  induction writes with
  | nil => exact ⟨[], .close rfl, rfl⟩
  | cons w rest ih =>
    rcases ih with ⟨bs, hrest, hflat⟩
    by_cases hw : w = []
    · subst hw
      refine ⟨bs, hrest.of_pull_eq ?_, hflat⟩
      have hskip : sourceRead ⟨chunkSize, none⟩ (.generated ([] :: rest) readFirst) =
          sourceRead ⟨chunkSize, none⟩ (.generated rest readFirst) :=
        sourceRead_skip readFirst rest chunkSize_ne_zero
      unfold readerPull pullOf byteStreamSource
      rw [hskip]
    · rcases write_drains hrest w hw with ⟨bs', hdrains, hall⟩
      refine ⟨bs', hdrains, ?_⟩
      rw [hall, hflat, flatten_cons]

end Plain

/-! ## Counting -/

/-- What counting makes of portions: the portion that is too much is a failure. -/
def checked (expectedLength : Nat) (atEnd : Nat → Ending BodyError) :
    Nat → List Bytes → List Bytes × Ending BodyError
  | sent, [] => ([], atEnd sent)
  | sent, b :: rest =>
    if expectedLength < sent + b.length then ([], .failed (.bodySize (sent + b.length)))
    else
      let delivery := checked expectedLength atEnd (sent + b.length) rest
      (b :: delivery.1, delivery.2)

/-- The end of a reader that says it is done. -/
def doneEnd (expectedLength sent : Nat) : Ending BodyError :=
  if sent < expectedLength then .failed (.bodySize sent) else .closed

section Counted

variable {L sent : Nat} {atEnd : Nat → Ending BodyError} {portions : List Bytes}

theorem checked_fits (hfits : sent + portions.flatten.length ≤ L) :
    checked L atEnd sent portions = (portions, atEnd (sent + portions.flatten.length)) := by
  induction portions generalizing sent with
  | nil => rfl
  | cons b rest ih =>
    rw [flatten_cons, length_append] at hfits ⊢
    unfold checked
    rw [if_neg (by omega), ih (by omega), Nat.add_assoc]

theorem checked_exceeds (hmore : L < sent + portions.flatten.length) (hsent : sent ≤ L) :
    (checked L atEnd sent portions).2 = .failed (.bodySize (seen L sent portions)) := by
  induction portions generalizing sent with
  | nil =>
    rw [flatten_nil, length_nil] at hmore
    omega
  | cons b rest ih =>
    rw [flatten_cons, length_append] at hmore
    unfold checked seen
    by_cases hb : L < sent + b.length
    · rw [if_pos hb, if_pos hb]
    · rw [if_neg hb, if_neg hb]
      exact ih (by omega) (by omega)

theorem seen_fits (hfits : sent + portions.flatten.length ≤ L) :
    seen L sent portions = sent + portions.flatten.length := by
  induction portions generalizing sent with
  | nil => rfl
  | cons b rest ih =>
    rw [flatten_cons, length_append] at hfits ⊢
    unfold seen
    rw [if_neg (by omega), ih (by omega), Nat.add_assoc]

theorem counted_ok {c : Chunk} (hfits : ¬ L < sent + c.bytes.length) :
    contentLengthResult.counted L sent (some c) =
      .ok (.result (some (.uint8Array c.bytes)) false none, sent + c.bytes.length) := if_neg hfits

theorem counted_error {c : Chunk} (hmore : L < sent + c.bytes.length) :
    contentLengthResult.counted L sent (some c) =
      .error (.bodySize (sent + c.bytes.length)) := if_pos hmore

end Counted

section Pulls

variable {σ : Type*} {read : Read σ} {L sent sent' : Nat} {s s' : σ} {result : ReadResult}
  {b : Bytes} {e : BodyError} {value : Option Chunk}

/-- The stream of a reader that counts. -/
abbrev countingPull (read : Read σ) (L : Nat) : σ × Nat → Pull Bytes BodyError (σ × Nat) :=
  pullOf (byteStreamSource (contentLengthReader read L))

theorem countingPull_enqueue (hread : read (readOpts (L - sent)) s = .ok (result, s'))
    (hresult : contentLengthResult L sent result =
      .ok (.result (some (.uint8Array b)) false none, sent')) :
    countingPull read L (s, sent) = .enqueue b (s', sent') := by
  simp only [countingPull, pullOf, byteStreamSource, contentLengthReader, hread, hresult]
  rfl

theorem countingPull_fail (hread : read (readOpts (L - sent)) s = .ok (result, s'))
    (hresult : contentLengthResult L sent result = .error e) :
    countingPull read L (s, sent) = .fail e := by
  simp only [countingPull, pullOf, byteStreamSource, contentLengthReader, hread, hresult]

theorem countingPull_close (hread : read (readOpts (L - sent)) s = .ok (result, s'))
    (hresult : contentLengthResult L sent result = .ok (.result value true none, sent')) :
    countingPull read L (s, sent) = .close := by
  simp only [countingPull, pullOf, byteStreamSource, contentLengthReader, hread, hresult]

/-- A chunk is delivered if it is not too much. -/
theorem countingPull_chunk {c : Chunk}
    (hread : ∃ result, read (readOpts (L - sent)) s = .ok (result, s') ∧
      contentLengthResult L sent result = contentLengthResult.counted L sent (some c)) :
    countingPull read L (s, sent) =
      if L < sent + c.bytes.length then .fail (.bodySize (sent + c.bytes.length))
      else .enqueue c.bytes (s', sent + c.bytes.length) := by
  rcases hread with ⟨result, hread, hresult⟩
  by_cases hmore : L < sent + c.bytes.length
  · rw [if_pos hmore]
    exact countingPull_fail hread (hresult.trans (counted_error hmore))
  · rw [if_neg hmore]
    exact countingPull_enqueue hread (hresult.trans (counted_ok hmore))

/-- How a reader that counts ends. -/
def endOf (nullEnd : Bool) (L : Nat) (sent : Nat) : Ending BodyError :=
  if nullEnd then .failed .typeError else doneEnd L sent

theorem reader_counted (wrapped : List (Bool × Chunk)) (nullEnd : Bool) (L sent : Nat) :
    Drains (countedPull L) (.reader wrapped nullEnd, sent)
      (checked L (endOf nullEnd L) sent (wrapped.map fun c => c.2.bytes)).1
      (checked L (endOf nullEnd L) sent (wrapped.map fun c => c.2.bytes)).2 := by
  induction wrapped generalizing sent with
  | nil =>
    change Drains (countedPull L) _ [] (endOf nullEnd L sent)
    unfold endOf doneEnd
    cases nullEnd with
    | true =>
      -- `null` is no chunk
      exact .fail (countingPull_fail rfl rfl)
    | false =>
      by_cases hless : sent < L
      · rw [if_neg Bool.false_ne_true, if_pos hless]
        exact .fail (countingPull_fail rfl (if_pos hless))
      · rw [if_neg Bool.false_ne_true, if_neg hless]
        exact .close (countingPull_close rfl (if_neg hless))
  | cons c rest ih =>
    rcases c with ⟨inResult, c⟩
    have hpull : countedPull L (.reader ((inResult, c) :: rest) nullEnd, sent) =
        if L < sent + c.bytes.length then .fail (.bodySize (sent + c.bytes.length))
        else .enqueue c.bytes (.reader rest nullEnd, sent + c.bytes.length) := by
      apply countingPull_chunk
      cases inResult with
      | true => exact ⟨_, rfl, rfl⟩
      | false => exact ⟨_, rfl, rfl⟩
    rw [map_cons]
    unfold checked
    by_cases hmore : L < sent + c.bytes.length
    · rw [if_pos hmore] at hpull ⊢
      exact .fail hpull
    · rw [if_neg hmore] at hpull ⊢
      exact .enqueue hpull (ih _)

/-- An async iterable ends with `null`: that is how its `StreamReader` does. -/
theorem iterable_counted (chunks : List Chunk) (L sent : Nat) :
    Drains (countedIterablePull L) ((false, .asyncIterable chunks), sent)
      (checked L (endOf true L) sent (chunks.map Chunk.bytes)).1
      (checked L (endOf true L) sent (chunks.map Chunk.bytes)).2 := by
  induction chunks generalizing sent with
  | nil => exact .fail (countingPull_fail rfl rfl)
  | cons c rest ih =>
    have hpull : countedIterablePull L ((false, .asyncIterable (c :: rest)), sent) =
        if L < sent + c.bytes.length then .fail (.bodySize (sent + c.bytes.length))
        else .enqueue c.bytes ((false, .asyncIterable rest), sent + c.bytes.length) :=
      countingPull_chunk (c := .uint8Array c.bytes) ⟨_, rfl, rfl⟩
    rw [map_cons]
    unfold checked
    by_cases hmore : L < sent + c.bytes.length
    · rw [if_pos hmore] at hpull ⊢
      exact .fail hpull
    · rw [if_neg hmore] at hpull ⊢
      exact .enqueue hpull (ih _)

end Pulls

/-! ## Counting a generated stream -/

/-- What counting makes of writes: once the length is reached, a read of nothing tells whether
there is more. -/
def checkedWrites (L : Nat) (readFirst : Bool) : Nat → List Bytes → List Bytes × Ending BodyError
  | sent, [] => ([], doneEnd L sent)
  | sent, w :: rest =>
    if sent = L then
      ([], if readFirst ∨ w = [] then .closed else .failed (.bodySize (sent + w.length)))
    else if L < sent + w.length then ([], .failed (.bodySize (sent + w.length)))
    else
      let delivery := checkedWrites L readFirst (sent + w.length) rest
      (w :: delivery.1, delivery.2)

section Writes

variable {L sent : Nat} {readFirst : Bool} {w : Bytes} {rest bs : List Bytes}
  {ending : Ending BodyError}

theorem readOpts_count (hsent : sent < L) :
    (readOpts (L - sent)).count = min (L - sent) chunkSize := by
  unfold readOpts
  rw [if_neg (by omega)]

theorem readOpts_count_ne_zero (hsent : sent < L) : (readOpts (L - sent)).count ≠ 0 := by
  rw [readOpts_count hsent]
  have hsize := chunkSize_ne_zero
  omega

theorem readOpts_rejectLength (hsent : sent < L) :
    (readOpts (L - sent)).rejectLength =
      if L - sent ≤ maxSafeInteger then some (L - sent) else none := by
  unfold readOpts
  rw [if_neg (by omega)]

/-- A read takes what it has room for, as long as the write is not rejected. -/
theorem write_pull (readFirst : Bool) (rest : List Bytes) (hsent : sent < L) (hw : w ≠ [])
    (hkeep : L - sent ≤ maxSafeInteger → w.length ≤ L - sent) :
    countedPull L (.generated (w :: rest) readFirst, sent) =
      .enqueue (w.take (min (L - sent) chunkSize))
        (.generated (if w.drop (min (L - sent) chunkSize) = [] then rest
          else w.drop (min (L - sent) chunkSize) :: rest) readFirst,
            sent + (w.take (min (L - sent) chunkSize)).length) := by
  have hcount := readOpts_count hsent
  have hkept (r : Nat) (hr : (readOpts (L - sent)).rejectLength = some r) : w.length ≤ r := by
    rw [readOpts_rejectLength hsent] at hr
    by_cases hsafe : L - sent ≤ maxSafeInteger
    · rw [if_pos hsafe] at hr
      cases hr
      exact hkeep hsafe
    · rw [if_neg hsafe] at hr
      cases hr
  have htake := readGenerated_take readFirst rest (readOpts_count_ne_zero hsent) hw hkept
  rw [hcount] at htake
  refine countingPull_enqueue (sourceRead_generated htake) ?_
  refine if_neg ?_
  change ¬ L < sent + (w.take (min (L - sent) chunkSize)).length
  rw [length_take]
  omega

/-- A write that fits is delivered in as many reads as it takes. -/
theorem write_fits
    (h : Drains (countedPull L) (.generated rest readFirst, sent + w.length) bs ending)
    (hw : w ≠ []) (hfits : sent + w.length ≤ L) :
    ∃ bs', Drains (countedPull L) (.generated (w :: rest) readFirst, sent) bs' ending ∧
      bs'.flatten = w ++ bs.flatten := by
  induction hn : w.length using Nat.strong_induction_on generalizing w sent with
  | _ n ih =>
    have hpos : 0 < w.length := length_pos_of_ne_nil hw
    have hsent : sent < L := by omega
    have hpull := write_pull readFirst rest hsent hw fun _ => by omega
    generalize hcount : min (L - sent) chunkSize = count at hpull
    have hsize := chunkSize_ne_zero
    by_cases hleft : w.drop count = []
    · have hall : w.length ≤ count := drop_eq_nil_iff.1 hleft
      rw [if_pos hleft, take_of_length_le hall] at hpull
      exact ⟨_, .enqueue hpull h, flatten_cons⟩
    · rw [if_neg hleft] at hpull
      have hsplit : (w.take count).length + (w.drop count).length = w.length := by
        rw [← length_append, take_append_drop]
      have hshorter : (w.drop count).length < n := by
        rw [length_drop]
        omega
      have hrest : sent + (w.take count).length + (w.drop count).length = sent + w.length := by
        omega
      rcases ih _ hshorter (by rw [hrest]; exact h) hleft (by omega) rfl with
        ⟨bs', hdrains, hflat⟩
      refine ⟨_, .enqueue hpull hdrains, ?_⟩
      rw [flatten_cons, hflat, ← append_assoc, take_append_drop]

/-- A write that is too long is a failure with all of it. -/
theorem write_exceeds (readFirst : Bool) (rest : List Bytes) (hsent : sent < L)
    (hmore : L < sent + w.length) :
    ∃ bs, Drains (countedPull L) (.generated (w :: rest) readFirst, sent) bs
      (.failed (.bodySize (sent + w.length))) := by
  induction hn : w.length using Nat.strong_induction_on generalizing w sent with
  | _ n ih =>
    subst hn
    have hw : w ≠ [] := by
      rintro rfl
      rw [length_nil] at hmore
      omega
    by_cases hsafe : L - sent ≤ maxSafeInteger
    · have hopts : (readOpts (L - sent)).rejectLength = some (L - sent) := by
        rw [readOpts_rejectLength hsent, if_pos hsafe]
      have hsome (hzero : (readOpts (L - sent)).count = 0) : readFirst = false :=
        absurd hzero (readOpts_count_ne_zero hsent)
      have hreject := readGenerated_reject rest hsome hw hopts (by omega)
      exact ⟨[], .fail (countingPull_fail (sourceRead_generated hreject) rfl)⟩
    · have hpull := write_pull readFirst rest hsent hw
        fun hsafe' => absurd hsafe' hsafe
      have hcount : min (L - sent) chunkSize = chunkSize := by
        unfold maxSafeInteger at hsafe
        unfold chunkSize
        omega
      rw [hcount] at hpull
      have hsize : chunkSize < L - sent := by
        unfold maxSafeInteger at hsafe
        unfold chunkSize
        omega
      have hlen : (w.take chunkSize).length = chunkSize := by
        rw [length_take]
        omega
      have hleft : (w.drop chunkSize).length = w.length - chunkSize := length_drop ..
      have hmoreLeft : w.drop chunkSize ≠ [] := by
        intro hnil
        rw [hnil, length_nil] at hleft
        omega
      have hpos := chunkSize_ne_zero
      rw [if_neg hmoreLeft, hlen] at hpull
      have hmore' : L < sent + chunkSize + (w.drop chunkSize).length := by omega
      rcases ih _ (by rw [hleft]; omega) (by omega) hmore' rfl with ⟨bs, hdrains⟩
      have hsum : sent + chunkSize + (w.drop chunkSize).length = sent + w.length := by omega
      rw [hsum] at hdrains
      exact ⟨_, .enqueue hpull hdrains⟩

/-- The length is reached: a read of nothing comes to the end, or to a write it rejects. -/
theorem read_of_nothing (w : Bytes) (rest : List Bytes) (readFirst : Bool) (L : Nat) :
    Drains (countedPull L) (.generated (w :: rest) readFirst, L) []
      (if readFirst ∨ w = [] then .closed else .failed (.bodySize (L + w.length))) := by
  have hopts : readOpts (L - L) = ⟨0, some 0⟩ := by
    unfold readOpts
    rw [if_pos (Nat.sub_self L)]
  by_cases hover : readFirst = true ∨ w = []
  · have hread : readGenerated readFirst (readOpts (L - L)) (w :: rest) =
        (.result none true none, w :: rest) := by
      rw [hopts]
      exact readGenerated_over rfl hover
    rw [if_pos hover]
    exact .close (countingPull_close (sourceRead_generated hread) (if_neg (Nat.lt_irrefl L)))
  · rw [not_or, Bool.not_eq_true] at hover
    rcases hover with ⟨hfirst, hw⟩
    have hpos : 0 < w.length := length_pos_of_ne_nil hw
    have hread : readGenerated readFirst (readOpts (L - L)) (w :: rest) =
        (.result none true (some w.length), []) := by
      rw [hopts]
      exact readGenerated_reject rest (fun _ => hfirst) hw rfl hpos
    rw [if_neg (by simp [hfirst, hw])]
    exact .fail (countingPull_fail (sourceRead_generated hread) rfl)

theorem writes_counted (writes : List Bytes) (readFirst : Bool) {L sent : Nat} (hsent : sent ≤ L) :
    ∃ bs, Drains (countedPull L) (.generated writes readFirst, sent) bs
        (checkedWrites L readFirst sent writes).2 ∧
      ((checkedWrites L readFirst sent writes).2 = .closed →
        bs.flatten = (checkedWrites L readFirst sent writes).1.flatten) := by
  induction writes generalizing sent with
  | nil =>
    refine ⟨[], ?_, fun _ => rfl⟩
    change Drains (countedPull L) _ [] (doneEnd L sent)
    unfold doneEnd
    by_cases hless : sent < L
    · rw [if_pos hless]
      exact .fail (countingPull_fail rfl (if_pos hless))
    · rw [if_neg hless]
      exact .close (countingPull_close rfl (if_neg hless))
  | cons w rest ih =>
    unfold checkedWrites
    by_cases hreached : sent = L
    · subst hreached
      rw [if_pos rfl]
      exact ⟨[], read_of_nothing w rest readFirst sent, fun _ => rfl⟩
    · rw [if_neg hreached]
      have hless : sent < L := by omega
      by_cases hmore : L < sent + w.length
      · rw [if_pos hmore]
        rcases write_exceeds readFirst rest hless hmore with ⟨bs, hdrains⟩
        refine ⟨bs, hdrains, ?_⟩
        intro hclosed
        cases hclosed
      · rw [if_neg hmore]
        rcases ih (by omega : sent + w.length ≤ L) with ⟨bs, hdrains, hflat⟩
        by_cases hw : w = []
        · subst hw
          refine ⟨bs, hdrains.of_pull_eq ?_, hflat⟩
          have hskip := sourceRead_skip readFirst rest (readOpts_count_ne_zero hless)
          simp only [countedPull, pullOf, byteStreamSource, contentLengthReader, hskip,
            length_nil, Nat.add_zero]
        · rcases write_fits hdrains hw (by omega) with ⟨bs', hdrains', hall⟩
          refine ⟨bs', hdrains', ?_⟩
          intro hclosed
          rw [hall, hflat hclosed]
          rfl

/-- What counting makes of the writes is as promised where what follows the length is
noticed. -/
theorem checkedWrites_right_iff (writes : List Bytes) (readFirst : Bool) {L sent : Nat}
    (hsent : sent ≤ L) :
    (if sent + writes.flatten.length = L then
        (checkedWrites L readFirst sent writes).1.flatten = writes.flatten ∧
          (checkedWrites L readFirst sent writes).2 = .closed
      else (checkedWrites L readFirst sent writes).2 =
        .failed (.bodySize (seen L sent writes))) ↔
      ∀ rest, after (L - sent) writes = some rest → Noticed readFirst rest := by
  induction writes generalizing sent with
  | nil =>
    have hnoticed : ∀ rest, after (L - sent) [] = some rest → Noticed readFirst rest := by
      intro rest hrest
      left
      cases hleft : L - sent with
      | zero =>
        rw [hleft] at hrest
        cases hrest
        rfl
      | succ n =>
        rw [hleft] at hrest
        cases hrest
    refine iff_of_true ?_ hnoticed
    rw [flatten_nil, length_nil, Nat.add_zero]
    unfold checkedWrites doneEnd seen
    by_cases hreached : sent = L
    · rw [if_pos hreached, if_neg (by omega)]
      exact ⟨rfl, rfl⟩
    · rw [if_neg hreached, if_pos (by omega)]
  | cons w rest ih =>
    rw [flatten_cons, length_append]
    by_cases hreached : sent = L
    · subst hreached
      have hafter : after (sent - sent) (w :: rest) = some (w :: rest) := by
        rw [Nat.sub_self]
        rfl
      have hiff : (∀ rest', after (sent - sent) (w :: rest) = some rest' →
          Noticed readFirst rest') ↔ Noticed readFirst (w :: rest) := by
        rw [hafter]
        constructor
        · intro h
          exact h _ rfl
        · rintro h _ ⟨⟩
          exact h
      rw [hiff]
      unfold checkedWrites Noticed
      rw [if_pos rfl, flatten_cons, append_eq_nil_iff]
      by_cases hover : readFirst = true ∨ w = []
      · -- the end, whatever follows
        have hunnoticed : ¬ (readFirst = false ∧ (w :: rest).head? ≠ some []) := by
          rintro ⟨hfirst, hhead⟩
          rcases hover with htrue | hempty
          · rw [hfirst] at htrue
            cases htrue
          · exact hhead (congrArg some hempty)
        rw [if_pos hover, or_iff_left hunnoticed]
        by_cases hnone : w = [] ∧ rest.flatten = []
        · refine iff_of_true ?_ hnone
          rw [hnone.1, hnone.2, if_pos (by simp)]
          exact ⟨rfl, rfl⟩
        · refine iff_of_false ?_ hnone
          have hmore : ¬ sent + (w.length + rest.flatten.length) = sent := by
            intro heq
            refine hnone ⟨eq_nil_of_length_eq_zero (by omega), ?_⟩
            exact eq_nil_of_length_eq_zero (by omega)
          rw [if_neg hmore]
          intro hclosed
          cases hclosed
      · have hnot : readFirst = false ∧ w ≠ [] := by
          rw [not_or, Bool.not_eq_true] at hover
          exact hover
        have hpos : 0 < w.length := length_pos_of_ne_nil hnot.2
        rw [if_neg hover]
        refine iff_of_true ?_ (.inr ⟨hnot.1, ?_⟩)
        · rw [if_neg (by omega)]
          unfold seen
          rw [if_pos (by omega)]
        · intro hhead
          exact hnot.2 (Option.some.inj hhead)
    · have hsucc : L - sent = (L - sent - 1) + 1 := by omega
      unfold checkedWrites seen
      rw [if_neg hreached]
      by_cases hmore : L < sent + w.length
      · have hafter : after (L - sent) (w :: rest) = none := by
          rw [hsucc]
          exact if_neg (by omega)
        rw [if_pos hmore, if_pos hmore, hafter, if_neg (by omega)]
        refine iff_of_true rfl ?_
        rintro _ ⟨⟩
      · have hafter : after (L - sent) (w :: rest) = after (L - (sent + w.length)) rest := by
          rw [hsucc]
          have hfits : w.length ≤ L - sent - 1 + 1 := by omega
          have hleft : L - sent - 1 + 1 - w.length = L - (sent + w.length) := by omega
          rw [after, if_pos hfits, hleft]
        have hih := ih (by omega : sent + w.length ≤ L)
        rw [if_neg hmore, if_neg hmore, hafter, ← hih, ← Nat.add_assoc, flatten_cons,
          append_cancel_left_eq]

end Writes

/-! ## All sources -/

section All

variable {contents : Source} {contentLength : Option Nat} {delivery delivery' : Option Delivery}

/-- What is promised of a count of portions that has come to an end of its own. -/
theorem counted_right_iff (portions : List Bytes) (nullEnd : Bool) (L : Nat) :
    (if portions.flatten.length = L then
        (checked L (endOf nullEnd L) 0 portions).1.flatten = portions.flatten ∧
          (checked L (endOf nullEnd L) 0 portions).2 = .closed
      else (checked L (endOf nullEnd L) 0 portions).2 = .failed (.bodySize (seen L 0 portions))) ↔
      (nullEnd = true → L < portions.flatten.length) := by
  by_cases hmore : L < portions.flatten.length
  · rw [if_neg (by omega)]
    exact iff_of_true (checked_exceeds (by omega) (Nat.zero_le L)) fun _ => hmore
  · have hfits : 0 + portions.flatten.length ≤ L := by omega
    rw [checked_fits hfits, seen_fits hfits, Nat.zero_add]
    cases nullEnd with
    | true =>
      refine iff_of_false ?_ (fun h => hmore (h rfl))
      by_cases heq : portions.flatten.length = L
      · rw [if_pos heq]
        rintro ⟨_, hclosed⟩
        cases hclosed
      · rw [if_neg heq]
        intro hfailed
        cases hfailed
    | false =>
      refine iff_of_true ?_ (fun h => by cases h)
      change if portions.flatten.length = L then _ ∧ doneEnd L _ = .closed else doneEnd L _ = _
      unfold doneEnd
      by_cases heq : portions.flatten.length = L
      · rw [if_pos heq, if_neg (by omega)]
        exact ⟨rfl, rfl⟩
      · rw [if_neg heq, if_pos (by omega)]

/-- Every request gets its body, or is refused. -/
theorem delivers_total (contents : Source) (contentLength : Option Nat) :
    ∃ delivery, Delivers contents contentLength delivery ∧
      (Right contents contentLength delivery ↔ Ok contents contentLength) := by
  cases contents with
  | syncIterable chunks =>
    refine ⟨none, rfl, ?_⟩
    cases contentLength <;> exact Iff.rfl
  | streamReader chunks =>
    cases contentLength with
    | none => exact ⟨some (_, .closed), streamReader_drains chunks, iff_of_true ⟨rfl, rfl⟩ trivial⟩
    | some L =>
      refine ⟨some (_, .closed), streamReader_drains chunks, ?_⟩
      -- nothing is counted
      change (if (Source.streamReader chunks).bytes.length = L then _ ∧ _ else _) ↔
        (Source.streamReader chunks).bytes.length = L
      by_cases heq : (Source.streamReader chunks).bytes.length = L
      · rw [if_pos heq]
        exact iff_of_true ⟨rfl, rfl⟩ heq
      · rw [if_neg heq]
        refine iff_of_false ?_ heq
        intro hfailed
        cases hfailed
  | asyncIterable chunks =>
    cases contentLength with
    | none => exact ⟨some (_, .closed), iterable_drains chunks, iff_of_true ⟨rfl, rfl⟩ trivial⟩
    | some L =>
      refine ⟨some (_, _), iterable_counted chunks L 0, ?_⟩
      refine (counted_right_iff (chunks.map Chunk.bytes) true L).trans ?_
      exact forall_prop_of_true rfl
  | reader wrapped nullEnd =>
    cases contentLength with
    | none =>
      exact ⟨some (_, .closed), reader_drains wrapped nullEnd, iff_of_true ⟨rfl, rfl⟩ trivial⟩
    | some L =>
      refine ⟨some (_, _), reader_counted wrapped nullEnd L 0, ?_⟩
      exact counted_right_iff (wrapped.map fun c => c.2.bytes) nullEnd L
  | generated writes readFirst =>
    cases contentLength with
    | none =>
      rcases generated_drains writes readFirst with ⟨bs, hdrains, hflat⟩
      exact ⟨some (bs, .closed), hdrains, iff_of_true ⟨hflat, rfl⟩ trivial⟩
    | some L =>
      rcases writes_counted writes readFirst (Nat.zero_le L) with ⟨bs, hdrains, hflat⟩
      refine ⟨some (bs, _), hdrains, ?_⟩
      have hright := checkedWrites_right_iff writes readFirst (Nat.zero_le L)
      rw [Nat.zero_add, Nat.sub_zero] at hright
      refine Iff.trans ?_ hright
      change (if writes.flatten.length = L then bs.flatten = writes.flatten ∧ _ else _) ↔ _
      by_cases heq : writes.flatten.length = L
      · rw [if_pos heq, if_pos heq]
        constructor
        · rintro ⟨hbytes, hclosed⟩
          exact ⟨(hflat hclosed).symm.trans hbytes, hclosed⟩
        · rintro ⟨hbytes, hclosed⟩
          exact ⟨(hflat hclosed).trans hbytes, hclosed⟩
      · rw [if_neg heq, if_neg heq]
        exact Iff.rfl

theorem delivers_unique (h : Delivers contents contentLength delivery)
    (h' : Delivers contents contentLength delivery') : delivery = delivery' := by
  have hpair {bs bs' : List Bytes} {e e' : Ending BodyError} (heq : bs = bs' ∧ e = e') :
      some (bs, e) = some (bs', e') := by
    rw [heq.1, heq.2]
  cases contents with
  | syncIterable chunks =>
    cases contentLength <;> exact Eq.trans h (Eq.symm h')
  | streamReader chunks =>
    cases delivery with
    | none => cases contentLength <;> cases h
    | some d =>
      cases delivery' with
      | none => cases contentLength <;> cases h'
      | some d' => cases contentLength <;> exact hpair (Drains.unique h h')
  | asyncIterable chunks =>
    cases delivery with
    | none => cases contentLength <;> cases h
    | some d =>
      cases delivery' with
      | none => cases contentLength <;> cases h'
      | some d' => cases contentLength <;> exact hpair (Drains.unique h h')
  | reader wrapped nullEnd =>
    cases delivery with
    | none => cases contentLength <;> cases h
    | some d =>
      cases delivery' with
      | none => cases contentLength <;> cases h'
      | some d' => cases contentLength <;> exact hpair (Drains.unique h h')
  | generated writes readFirst =>
    cases delivery with
    | none => cases contentLength <;> cases h
    | some d =>
      cases delivery' with
      | none => cases contentLength <;> cases h'
      | some d' => cases contentLength <;> exact hpair (Drains.unique h h')

end All

/-- Every body is delivered, and as promised exactly where the contents are counted as
promised. -/
theorem length_enforced_iff (contents : Source) (contentLength : Option Nat) :
    (∃ delivery, Delivers contents contentLength delivery) ∧
      ∀ delivery, Delivers contents contentLength delivery →
        (Right contents contentLength delivery ↔ Ok contents contentLength) := by
  rcases delivers_total contents contentLength with ⟨delivery, hdelivers, hiff⟩
  refine ⟨⟨delivery, hdelivers⟩, ?_⟩
  intro delivery' hdelivers'
  rw [← delivers_unique hdelivers hdelivers']
  exact hiff

/-- Three bytes of a reader that ends with `null`, where three are expected: a `TypeError`. -/
theorem null_end_not_counted :
    Delivers (.reader [(false, .uint8Array [1, 2, 3])] true) (some 3)
        (some ([[1, 2, 3]], .failed .typeError)) ∧
      ¬ Right (.reader [(false, .uint8Array [1, 2, 3])] true) (some 3)
        (some ([[1, 2, 3]], .failed .typeError)) := by
  refine ⟨reader_counted [(false, .uint8Array [1, 2, 3])] true 3 0, ?_⟩
  rintro ⟨_, hclosed⟩
  cases hclosed

end Jco.Http.RequestBody

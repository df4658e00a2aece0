import Mathlib.Logic.Function.Basic
import Jco.Preview2.NodeStream

/-! # Input and output streams of the worker

The guest's streams are objects of the main thread, whose methods call the worker; `handle` of
the worker answers a call. Skipping, writing zeros and splicing are made of reads and writes.

1. The worker and what it answers.
2. The calls, under the names of the source.
3. The methods of the main thread.
4. What the derived operations are to do, and when they do it.
-/

namespace Jco.Preview2.Io

open Jco.Js List Option

/-! ## The worker -/

/-- The type of a call. -/
inductive StreamType where
  | stdin
  | stdout
  | stderr
  | file
  | http
  | socketTcp
deriving DecidableEq, Repr

/-- `streamType <= STDERR` -/
def StreamType.isStdio : StreamType → Bool
  | .stdin | .stdout | .stderr => true
  | .file | .http | .socketTcp => false

/-- An entry of `streams`: a wrapper of a stream of Node, with the `ready` of its poll state. -/
structure Stream where
  node : Nat
  flushPromise : Bool := false
  ready : Bool := true
  parentStream : Option Nat := none

/-- A wrapper has no such property. -/
def Stream.writableHighWaterMark (_ : Stream) : Integral := none

def Stream.writableLength (_ : Stream) : Integral := none

/-- Ids are counted from one. -/
structure Worker where
  streams : Nat → Option Stream
  nodes : Nat → NodeStream
  streams_zero : streams 0 = none

/-- What the error of a failed operation carries. -/
inductive Failure where
  | error (e : NodeError)
  | requestBodySize (n : Integral)
deriving DecidableEq, Repr

/-- `trap` is any other error: `streamIoErrorCall` ends the process. `typeError` is thrown by a
method before it calls the worker. -/
inductive Thrown where
  | closed
  | lastOperationFailed (failure : Failure)
  | internalError (message : String)
  | requestBodySize (n : Integral)
  | trap
  | typeError
deriving DecidableEq, Repr

inductive Value where
  | undefined
  | bytes (b : Bytes)
  | count (n : Int)
deriving DecidableEq, Repr

abbrev Result := Except Thrown Value × Worker

/-- Of a call that waits for ever there is no answer. -/
abbrev Answer := Option Result

/-- The payload of a read: a length, or an array of zeros in its place. -/
inductive Payload where
  | bigint (n : UInt64)
  | array (b : Bytes)
deriving DecidableEq

/-- `Number(payload)`. An array is converted by way of its text. -/
def Payload.toNumber : Payload → Integral
  | .bigint n => some (number n.toNat)
  | .array [] => some 0
  | .array [b] => some b.toNat
  | .array (_ :: _ :: _) => none

/-- What goes on while a call waits: how the wait ends, if it does, and the worker by then. -/
structure Waits where
  /-- The listener of a poll state is called. -/
  ready : Nat → Worker → Option Worker
  /-- A flush that was begun before is settled. -/
  flushed : Nat → Worker → Option (Option NodeError × Worker)
  /-- The callback of a write is called. -/
  written : Nat → Worker → Option (Option NodeError × Worker)
  drain : Nat → Worker → Option (Option NodeError × Worker)
  /-- A stream that is not readable can only fail. -/
  failed : Nat → Worker → Option (NodeError × Worker)

/-- A length of which there is no typed array is a `RangeError`. -/
structure Engine where
  maxByteLength : Nat
  safe : maxByteLength < 2 ^ 53

/-- `new Uint8Array(Number(n))` -/
def Engine.zeroes (engine : Engine) (n : UInt64) : Option Bytes :=
  if number n.toNat ≤ engine.maxByteLength then some (List.replicate (number n.toNat).toNat 0)
  else none

namespace Worker

variable (engine : Engine) (waits : Waits) (w : Worker)

def setNode (p : Nat) (node : NodeStream) : Worker :=
  { w with nodes := Function.update w.nodes p node }

theorem update_zero (id : Nat) (stream : Stream) :
    Function.update w.streams id ((w.streams id).map fun _ => stream) 0 = none := by
  rcases eq_or_ne 0 id with rfl | hne
  · rw [Function.update_self, w.streams_zero]
    rfl
  · rw [Function.update_of_ne hne, w.streams_zero]

/-- Change an entry that is there. -/
def setStream (id : Nat) (stream : Stream) : Worker :=
  { w with
    streams := Function.update w.streams id ((w.streams id).map fun _ => stream)
    streams_zero := w.update_zero id stream }

def getStreamOrThrow (id : Nat) : Except Thrown Stream :=
  if id = 0 then .error .trap
  else
    match w.streams id with
    | none => .error .closed
    | some stream =>
      match (w.nodes stream.node).errored with
      | some e => .error (.lastOperationFailed (.error e))
      | none => if (w.nodes stream.node).closed then .error .closed else .ok stream

/-! ## The calls -/

/-- `INPUT_STREAM_READ` -/
def inputStreamRead (id : Nat) (payload : Payload) : Result :=
  match w.getStreamOrThrow id with
  | .error e => (.error e, w)
  | .ok stream =>
    if stream.ready = false then (.ok (.bytes []), w)
    else
      let node := w.nodes stream.node
      let res := node.read (.min (some node.buffer.length) payload.toNumber)
      match res.1 with
      | some b => (.ok (.bytes b), w.setNode stream.node res.2)
      | none => if node.readableEnded then (.error .closed, w) else (.ok (.bytes []), w)

/-- `pollStateCheck`; its `read(0)` takes nothing. -/
def pollStateCheck (id : Nat) (stream : Stream) : Worker :=
  match stream.parentStream with
  | none => w
  | some p =>
    let node := w.nodes p
    if stream.ready && node.buffer.length = 0 && !node.readableEnded && node.errored.isNone then
      w.setStream id { stream with ready := false }
    else
      w

/-- The worker when a blocking read gets to the read. -/
def readyFor (id : Nat) (stream : Stream) : Option Worker :=
  let w := w.pollStateCheck id stream
  if (w.streams id).any Stream.ready then some w else waits.ready id w

/-- `INPUT_STREAM_BLOCKING_READ`. An id that is not there cannot be destructured. -/
def inputStreamBlockingRead (id : Nat) (payload : Payload) : Answer :=
  match w.streams id with
  | none => some (.error .trap, w)
  | some stream => (w.readyFor waits id stream).map fun w => w.inputStreamRead id payload

/-- `INPUT_STREAM_SKIP` -/
def inputStreamSkip (id : Nat) (n : UInt64) : Result :=
  match engine.zeroes n with
  | none => (.error .trap, w)
  | some b => w.inputStreamRead id (.array b)

/-- `INPUT_STREAM_BLOCKING_SKIP` -/
def inputStreamBlockingSkip (id : Nat) (n : UInt64) : Answer :=
  match engine.zeroes n with
  | none => some (.error .trap, w)
  | some b => w.inputStreamBlockingRead waits id (.array b)

/-- `OUTPUT_STREAM_WRITE` -/
def write (id : Nat) (payload : Bytes) : Result :=
  match w.getStreamOrThrow id with
  | .error e => (.error e, w)
  | .ok stream =>
    let node := w.nodes stream.node
    if payload.length > node.permit then (.error .trap, w)
    else (.ok .undefined, w.setNode stream.node (node.write payload))

/-- A number is less than zero; `NaN` is not. -/
def negative : Integral → Bool
  | none => false
  | some n => n < 0

/-- What the writes to an outgoing body do before they write: the error, if the body gets too
long, and the worker with the bytes taken off. -/
def httpAccount (id : Nat) (payload : Bytes) : Option Thrown × Worker :=
  match w.getStreamOrThrow id with
  | .error e => (some e, w)
  | .ok stream =>
    let node := w.nodes stream.node
    let bytesRemaining := Integral.sub node.bytesRemaining (some payload.length)
    let w := w.setNode stream.node { node with bytesRemaining }
    if negative bytesRemaining then
      let size := Integral.sub node.contentLength bytesRemaining
      (some (.lastOperationFailed (.requestBodySize size)), w)
    else
      (none, w)

/-- `OUTPUT_STREAM_WRITE` with a type -/
def outputStreamWrite (type : StreamType) (id : Nat) (payload : Bytes) : Result :=
  if type = .http then
    let accounted := w.httpAccount id payload
    match accounted.1 with
    | some e => (.error e, accounted.2)
    | none => accounted.2.write id payload
  else
    w.write id payload

/-- The write of `OUTPUT_STREAM_BLOCKING_WRITE_AND_FLUSH`, when no flush is under way. The callback
of the write settles the promise; for `stdout` and `stderr` it is settled at once. -/
def writeAndFlush (id : Nat) (payload : Bytes) : Answer :=
  match w.getStreamOrThrow id with
  | .error e => some (.error e, w)
  | .ok stream =>
    let node := w.nodes stream.node
    if payload.length > node.permit then some (.error .trap, w)
    else
      let w := w.setNode stream.node (node.write payload)
      if node.stdio then
        some (.ok (.count payload.length), w.setStream id { stream with ready := true })
      else
        let w := w.setStream id { stream with ready := false, flushPromise := true }
        (waits.written id w).map fun ended =>
          let w := ended.2.setStream id { stream with ready := true, flushPromise := false }
          match ended.1 with
          | some e => (.error (.lastOperationFailed (.error e)), w)
          | none => (.ok (.count payload.length), w)

/-- `OUTPUT_STREAM_BLOCKING_WRITE_AND_FLUSH`. A flush that is under way is waited for; it is over
before its promise is settled. -/
def blockingWriteAndFlush (id : Nat) (payload : Bytes) : Answer :=
  match w.getStreamOrThrow id with
  | .error e => some (.error e, w)
  | .ok stream =>
    if stream.flushPromise then
      (waits.flushed id w).bind fun ended =>
        match ended.1 with
        | some e => some (.error (.lastOperationFailed (.error e)), ended.2)
        | none => ended.2.writeAndFlush waits id payload
    else
      w.writeAndFlush waits id payload

def outputStreamBlockingWriteAndFlush (type : StreamType) (id : Nat) (payload : Bytes) : Answer :=
  if type = .http then
    let accounted := w.httpAccount id payload
    match accounted.1 with
    | some e => some (.error e, accounted.2)
    | none => accounted.2.blockingWriteAndFlush waits id payload
  else
    w.blockingWriteAndFlush waits id payload

/-- `OUTPUT_STREAM_WRITE_ZEROES` -/
def outputStreamWriteZeroes (type : StreamType) (id : Nat) (n : UInt64) : Result :=
  match engine.zeroes n with
  | none => (.error .trap, w)
  | some b => w.outputStreamWrite type id b

/-- `OUTPUT_STREAM_BLOCKING_WRITE_ZEROES_AND_FLUSH` -/
def outputStreamBlockingWriteZeroesAndFlush (type : StreamType) (id : Nat) (n : UInt64) : Answer :=
  match engine.zeroes n with
  | none => some (.error .trap, w)
  | some b => w.outputStreamBlockingWriteAndFlush waits type id b

/-- The loop of `OUTPUT_STREAM_SPLICE`: the `bytesRemaining` it ends with. A round takes a byte at
least, which bounds the rounds by `fuel`. -/
def spliceLoop (out inp : Stream) : Nat → Int → Worker → Int × Worker
  | 0, bytesRemaining, w => (bytesRemaining, w)
  | fuel + 1, bytesRemaining, w =>
    if bytesRemaining > 0 then
      let size := Integral.min (.sub out.writableHighWaterMark out.writableLength)
        (some bytesRemaining)
      let res := (w.nodes inp.node).read size
      match res.1 with
      | none => (bytesRemaining, w)
      | some chunk =>
        let w := w.setNode inp.node res.2
        let w := w.setNode out.node ((w.nodes out.node).write chunk)
        spliceLoop out inp fuel (number (bytesRemaining - chunk.length)) w
    else
      (bytesRemaining, w)

/-- `OUTPUT_STREAM_SPLICE` -/
def outputStreamSplice (id src : Nat) (len : UInt64) : Result :=
  match w.getStreamOrThrow id with
  | .error e => (.error e, w)
  | .ok out =>
    match w.getStreamOrThrow src with
    | .error e => (.error e, w)
    | .ok inp =>
      let rounds := (w.nodes inp.node).buffer.length + 1
      let moved := spliceLoop out inp rounds (number len.toNat) w
      match (moved.2.nodes inp.node).errored with
      | some e => (.error (.lastOperationFailed (.error e)), moved.2)
      | none =>
        match (moved.2.nodes out.node).errored with
        | some e => (.error (.lastOperationFailed (.error e)), moved.2)
        | none => (.ok (.count (len.toNat - moved.1)), moved.2)

/-- The wait for the output. -/
def drained (id : Nat) (out : Stream) : Option (Option NodeError × Worker) :=
  if (w.nodes out.node).writableNeedDrain then waits.drain id w else some (none, w)

/-- `OUTPUT_STREAM_BLOCKING_SPLICE` -/
def outputStreamBlockingSplice (id src : Nat) (len : UInt64) : Answer :=
  match w.getStreamOrThrow id with
  | .error e => some (.error e, w)
  | .ok out =>
    match w.getStreamOrThrow src with
    | .error e => some (.error e, w)
    | .ok inp =>
      (w.drained waits id out).bind fun ended =>
        match ended.1 with
        | some e => some (.error (.lastOperationFailed (.error e)), ended.2)
        | none =>
          if (w.nodes inp.node).readable then some (ended.2.outputStreamSplice id src len)
          else
            (waits.failed src ended.2).map fun failed =>
              (.error (.lastOperationFailed (.error failed.1)), failed.2)

/-! ## The methods -/

/-- `write` of an output stream. To the standard streams the main thread writes on its own, and
what it writes gets where the worker's gets. -/
def methodWrite (type : StreamType) (id : Nat) (buf : Bytes) : Result :=
  if type.isStdio then
    match w.streams id with
    | none => (.ok .undefined, w)
    | some stream =>
      let node := w.nodes stream.node
      (.ok .undefined, w.setNode stream.node { node with wire := node.wire ++ buf })
  else
    w.outputStreamWrite type id buf

end Worker

/-- The derived operations, with the ids of the streams. -/
inductive Derived where
  | skip (id : Nat) (n : UInt64)
  | blockingSkip (id : Nat) (n : UInt64)
  | writeZeroes (type : StreamType) (id : Nat) (n : UInt64)
  | splice (id src : Nat) (len : UInt64)
  | blockingSplice (id src : Nat) (len : UInt64)

namespace Worker

variable (engine : Engine) (waits : Waits) (w : Worker)

/-- What a method answers. `splice` reads the private `#id` of output streams off an input
stream. -/
def perform : Derived → Answer
  | .skip id n => some (w.inputStreamSkip engine id n)
  | .blockingSkip id n => w.inputStreamBlockingSkip engine waits id n
  | .writeZeroes type id n => some (w.outputStreamWriteZeroes engine type id n)
  | .splice _ _ _ => some (.error .typeError, w)
  | .blockingSplice id src len => w.outputStreamBlockingSplice waits id src len

/-! ## What they are to do -/

/-- The number of bytes in place of the bytes. -/
def counted (r : Result) : Result :=
  match r.1 with
  | .ok (.bytes b) => (.ok (.count b.length), r.2)
  | _ => r

/-- The first `n` bytes of the buffer of `inp` are moved. -/
def move (out inp : Stream) (n : Nat) : Worker :=
  if n = 0 then w
  else
    let chunk := (w.nodes inp.node).buffer.take n
    let w := w.setNode inp.node ((w.nodes inp.node).drop n)
    w.setNode out.node ((w.nodes out.node).accept chunk)

/-- The least of what is asked for, what there is and what is permitted. -/
def movable (out inp : Stream) (len : UInt64) : Nat :=
  min len.toNat (min (w.nodes inp.node).buffer.length (w.nodes out.node).permit.toNat)

/-- Splicing, of streams that are open. -/
def spliced (id src : Nat) (len : UInt64) : Result :=
  match w.getStreamOrThrow id with
  | .error e => (.error e, w)
  | .ok out =>
    match w.getStreamOrThrow src with
    | .error e => (.error e, w)
    | .ok inp =>
      let n := w.movable out inp len
      (.ok (.count n), w.move out inp n)

/-- Splicing after a wait for the output. From a stream that is not readable nothing comes. -/
def blockingSpliced (id src : Nat) (len : UInt64) : Answer :=
  match w.getStreamOrThrow id with
  | .error e => some (.error e, w)
  | .ok out =>
    match w.getStreamOrThrow src with
    | .error e => some (.error e, w)
    | .ok inp =>
      (w.drained waits id out).map fun ended =>
        match ended.1 with
        | some e => (.error (.lastOperationFailed (.error e)), ended.2)
        | none =>
          if (w.nodes inp.node).readable then ended.2.spliced id src len
          else (.ok (.count 0), ended.2)

/-- The derived operation is the composition of reads and writes that it is to be. -/
def Right : Derived → Prop
  | .skip id n =>
    w.perform engine waits (.skip id n) = some (counted (w.inputStreamRead id (.bigint n)))
  | .blockingSkip id n =>
    w.perform engine waits (.blockingSkip id n) =
      (w.inputStreamBlockingRead waits id (.bigint n)).map counted
  | .writeZeroes type id n =>
    let written := w.methodWrite type id (List.replicate n.toNat 0)
    ∃ r, w.perform engine waits (.writeZeroes type id n) = some r ∧ r.1 = written.1 ∧
      ∀ p, (r.2.nodes p).wire = (written.2.nodes p).wire
  | .splice id src len =>
    w.perform engine waits (.splice id src len) = some (w.spliced id src len)
  | .blockingSplice id src len =>
    w.perform engine waits (.blockingSplice id src len) = w.blockingSpliced waits id src len

/-! ## When they do it -/

/-- There is nothing to be read, now or later. -/
def Exhausted (id : Nat) : Prop :=
  ∀ stream, w.getStreamOrThrow id = .ok stream →
    stream.ready = true ∧ (w.nodes stream.node).readableEnded = true

/-- What `splice` takes for the rest of the length, when it has moved `n` bytes. -/
def rest (len : UInt64) (n : Nat) : Int :=
  if n = 0 then number len.toNat else number (number len.toNat - n)

/-- All that the input has may be moved, the rest of the length is exact, and the output has not
been ended. -/
def SpliceFits (id src : Nat) (len : UInt64) : Prop :=
  ∀ out inp, w.getStreamOrThrow id = .ok out → w.getStreamOrThrow src = .ok inp → len ≠ 0 →
    let available := (w.nodes inp.node).buffer.length
    available ≤ len.toNat ∧ (available ≤ (w.nodes out.node).permit ∨ available = 0) ∧
      rest len available = len.toNat - available ∧
      (available = 0 ∨ (w.nodes out.node).writableEnded = false)

/-- A write of `n` zeros would be more than is permitted, and nothing else is against it. -/
def Excessive (type : StreamType) (id : Nat) (n : UInt64) : Prop :=
  id = 0 ∨ ∃ stream, w.getStreamOrThrow id = .ok stream ∧
    (type = .http →
      negative (.sub (w.nodes stream.node).bytesRemaining (some n.toNat)) = false) ∧
    (w.nodes stream.node).permit < n.toNat

def HoldsWhen : Derived → Prop
  | .skip id n => id = 0 ∨ number n.toNat ≤ engine.maxByteLength ∧ w.Exhausted id
  | .blockingSkip id n =>
    ∀ stream, w.streams id = some stream → number n.toNat ≤ engine.maxByteLength ∧
      ∀ w', w.readyFor waits id stream = some w' → w'.Exhausted id
  | .writeZeroes type id n =>
    if type.isStdio then
      number n.toNat ≤ engine.maxByteLength ∧ ∃ stream, w.getStreamOrThrow id = .ok stream ∧
        n.toNat ≤ (w.nodes stream.node).permit ∧
        (n = 0 ∨ (w.nodes stream.node).writableEnded = false)
    else
      number n.toNat ≤ engine.maxByteLength ∨ w.Excessive type id n
  | .splice _ _ _ => False
  | .blockingSplice id src len =>
    ∀ out inp, w.getStreamOrThrow id = .ok out → w.getStreamOrThrow src = .ok inp →
      ∀ w', w.drained waits id out = some (none, w') →
        (w.nodes inp.node).readable = true ∧ w'.SpliceFits id src len

/-! ## Open streams -/

variable {engine waits w} {type : StreamType} {id src : Nat} {n len : UInt64}

@[simp] theorem nodes_setNode_self (p : Nat) (node : NodeStream) :
    (w.setNode p node).nodes p = node :=
  Function.update_self _ _ _

theorem nodes_setNode_of_ne {p q : Nat} (h : q ≠ p) (node : NodeStream) :
    (w.setNode p node).nodes q = w.nodes q :=
  Function.update_of_ne h _ _

@[simp] theorem setNode_self (p : Nat) : w.setNode p (w.nodes p) = w := by
  unfold setNode
  rw [Function.update_eq_self]

variable {stream : Stream}

theorem getStreamOrThrow_ok (h : w.getStreamOrThrow id = .ok stream) :
    id ≠ 0 ∧ w.streams id = some stream ∧ (w.nodes stream.node).errored = none ∧
      (w.nodes stream.node).closed = false := by
  unfold getStreamOrThrow at h
  split at h
  · cases h
  next hid =>
    split at h
    · cases h
    next stream' hstream =>
      split at h
      · cases h
      next herrored =>
        split at h
        · cases h
        next hclosed =>
          cases h
          exact ⟨hid, hstream, herrored, Bool.eq_false_of_not_eq_true hclosed⟩

/-- Without an id that is an error of the caller; else the stream is closed or has failed. -/
theorem getStreamOrThrow_error {e : Thrown} (h : w.getStreamOrThrow id = .error e) :
    e = .trap ∧ id = 0 ∨ e = .closed ∨ ∃ failure, e = .lastOperationFailed failure := by
  unfold getStreamOrThrow at h
  split at h
  next hid =>
    cases h
    exact .inl ⟨rfl, hid⟩
  · split at h
    · cases h
      exact .inr (.inl rfl)
    · split at h
      · cases h
        exact .inr (.inr ⟨_, rfl⟩)
      · split at h
        · cases h
          exact .inr (.inl rfl)
        · cases h

theorem getStreamOrThrow_trap (h : w.getStreamOrThrow id = .error .trap) : id = 0 := by
  rcases getStreamOrThrow_error h with ⟨_, hid⟩ | hfalse | ⟨_, hfalse⟩
  · exact hid
  · cases hfalse
  · cases hfalse

/-- A change that keeps errors and the closing of a stream keeps it open or not. -/
theorem getStreamOrThrow_setNode {p : Nat} {node : NodeStream}
    (herrored : node.errored = (w.nodes p).errored) (hclosed : node.closed = (w.nodes p).closed) :
    (w.setNode p node).getStreamOrThrow id = w.getStreamOrThrow id := by
  have hsame : ∀ q, ((w.setNode p node).nodes q).errored = (w.nodes q).errored ∧
      ((w.setNode p node).nodes q).closed = (w.nodes q).closed := by
    intro q
    rcases eq_or_ne q p with rfl | hne
    · rw [nodes_setNode_self]
      exact ⟨herrored, hclosed⟩
    · rw [nodes_setNode_of_ne hne]
      exact ⟨rfl, rfl⟩
  unfold getStreamOrThrow
  change (if id = 0 then _ else match w.streams id with | none => _ | some stream => _) = _
  split
  · rfl
  · cases w.streams id with
    | none => rfl
    | some stream =>
      dsimp only
      rw [(hsame stream.node).1, (hsame stream.node).2]

/-! ## Skipping -/

/-- Where there is nothing to be read, every read throws the same. -/
theorem inputStreamRead_exhausted (h : w.Exhausted id) :
    ∃ e, (w.getStreamOrThrow id = .error e ∨ e = .closed) ∧
      ∀ payload, w.inputStreamRead id payload = (.error e, w) := by
  unfold inputStreamRead
  cases hstream : w.getStreamOrThrow id with
  | error e => exact ⟨e, .inl rfl, fun _ => rfl⟩
  | ok stream =>
    rcases h stream hstream with ⟨hready, hended⟩
    refine ⟨.closed, .inr rfl, fun payload => ?_⟩
    dsimp only
    rw [hready, if_neg (by decide),
      (w.nodes stream.node).read_nil ((w.nodes stream.node).buffer_ended hended)]
    rw [if_pos hended]

/-- Otherwise a read answers bytes. -/
theorem inputStreamRead_bytes (h : ¬ w.Exhausted id) (payload : Payload) :
    ∃ b w', w.inputStreamRead id payload = (.ok (.bytes b), w') := by
  unfold Exhausted at h
  push Not at h
  rcases h with ⟨stream, hstream, hended⟩
  unfold inputStreamRead
  rw [hstream]
  dsimp only
  split
  · exact ⟨_, _, rfl⟩
  next hready =>
    cases hres : ((w.nodes stream.node).read (.min (some (w.nodes stream.node).buffer.length)
      payload.toNumber)).1 with
    | some b => exact ⟨_, _, rfl⟩
    | none =>
      dsimp only
      rw [if_neg (hended (Bool.eq_true_of_not_eq_false hready))]
      exact ⟨_, _, rfl⟩

theorem zeroes_eq_none (h : ¬ number n.toNat ≤ engine.maxByteLength) : engine.zeroes n = none := by
  rw [Engine.zeroes, if_neg h]

/-- An array is as long as is asked for. -/
theorem zeroes_eq (h : number n.toNat ≤ engine.maxByteLength) :
    engine.zeroes n = some (List.replicate n.toNat 0) := by
  have hsafe := engine.safe
  have hexact : number n.toNat = n.toNat := Js.eq_of_number_lt (by omega)
  rw [Engine.zeroes, if_pos h, hexact, Int.toNat_natCast]

/-- A read by an array in place of a length is counted only where it throws. -/
theorem read_array_iff (b : Bytes) :
    w.inputStreamRead id (.array b) = counted (w.inputStreamRead id (.bigint n)) ↔
      w.Exhausted id := by
  constructor
  · intro heq
    by_contra hnot
    obtain ⟨b₁, w₁, hread⟩ := inputStreamRead_bytes hnot (.array b)
    obtain ⟨b₂, w₂, hbase⟩ := inputStreamRead_bytes hnot (.bigint n)
    rw [hread, hbase] at heq
    cases heq
  · intro h
    obtain ⟨e, _, hread⟩ := inputStreamRead_exhausted h
    rw [hread, hread]
    rfl

theorem skip_iff :
    w.inputStreamSkip engine id n = counted (w.inputStreamRead id (.bigint n)) ↔
      id = 0 ∨ number n.toNat ≤ engine.maxByteLength ∧ w.Exhausted id := by
  unfold inputStreamSkip
  by_cases hlen : number n.toNat ≤ engine.maxByteLength
  · rw [zeroes_eq hlen]
    dsimp only
    rw [read_array_iff]
    constructor
    · exact fun h => .inr ⟨hlen, h⟩
    · rintro (rfl | h)
      · intro stream hstream
        exact absurd rfl (getStreamOrThrow_ok hstream).1
      · exact h.2
  · rw [zeroes_eq_none hlen]
    constructor
    · intro heq
      -- of the errors of a read only that of the id is a trap
      refine .inl ?_
      by_cases h : w.Exhausted id
      · obtain ⟨e, he, hread⟩ := inputStreamRead_exhausted h
        rw [hread] at heq
        cases heq
        rcases he with he | he
        · exact getStreamOrThrow_trap he
        · cases he
      · obtain ⟨b, w', hread⟩ := inputStreamRead_bytes h (.bigint n)
        rw [hread] at heq
        cases heq
    · rintro (rfl | h)
      · rfl
      · exact absurd h.1 hlen

theorem blockingSkip_iff :
    w.inputStreamBlockingSkip engine waits id n =
        (w.inputStreamBlockingRead waits id (.bigint n)).map counted ↔
      ∀ stream, w.streams id = some stream → number n.toNat ≤ engine.maxByteLength ∧
        ∀ w', w.readyFor waits id stream = some w' → w'.Exhausted id := by
  unfold inputStreamBlockingSkip inputStreamBlockingRead
  cases hstream : w.streams id with
  | none =>
    dsimp only
    constructor
    · intro _ stream hsome
      cases hsome
    · intro _
      cases engine.zeroes n <;> rfl
  | some stream =>
    dsimp only
    -- the array for the bytes is made before anything is read
    by_cases hlen : number n.toNat ≤ engine.maxByteLength
    · rw [zeroes_eq hlen]
      dsimp only
      cases hready : w.readyFor waits id stream with
      | none =>
        refine ⟨fun _ s hs => ⟨hlen, ?_⟩, fun _ => rfl⟩
        cases hs
        rw [hready]
        exact nofun
      | some w' =>
        rw [map_some, map_some, map_some, some_inj, read_array_iff]
        constructor
        · intro h s hs
          cases hs
          refine ⟨hlen, fun w'' hw'' => ?_⟩
          rw [hready] at hw''
          cases hw''
          exact h
        · exact fun h => (h stream rfl).2 w' hready
    · rw [zeroes_eq_none hlen]
      refine ⟨fun heq => ?_, fun h => absurd (h stream rfl).1 hlen⟩
      have hid : id ≠ 0 := by
        rintro rfl
        rw [w.streams_zero] at hstream
        cases hstream
      cases hready : w.readyFor waits id stream with
      | none =>
        rw [hready] at heq
        cases heq
      | some w' =>
        rw [hready, map_some, map_some, some_inj] at heq
        by_cases h : w'.Exhausted id
        · obtain ⟨e, he, hread⟩ := inputStreamRead_exhausted h
          rw [hread] at heq
          cases heq
          rcases he with he | he
          · exact absurd (getStreamOrThrow_trap he) hid
          · cases he
        · obtain ⟨b, w'', hread⟩ := inputStreamRead_bytes h (.bigint n)
          rw [hread] at heq
          cases heq

/-! ## Writing zeros -/

/-- As long as there can be such an array, zeros are written as any bytes are. -/
theorem outputStreamWriteZeroes_eq (h : number n.toNat ≤ engine.maxByteLength) :
    w.outputStreamWriteZeroes engine type id n =
      w.outputStreamWrite type id (List.replicate n.toNat 0) := by
  unfold outputStreamWriteZeroes
  simp only [zeroes_eq h]

theorem outputStreamBlockingWriteZeroesAndFlush_eq (h : number n.toNat ≤ engine.maxByteLength) :
    w.outputStreamBlockingWriteZeroesAndFlush engine waits type id n =
      w.outputStreamBlockingWriteAndFlush waits type id (List.replicate n.toNat 0) := by
  unfold outputStreamBlockingWriteZeroesAndFlush
  simp only [zeroes_eq h]

variable {payload : Bytes}

/-- A write traps by its id or by its length. -/
theorem write_trap (h : (w.write id payload).1 = .error .trap) :
    id = 0 ∨ ∃ stream, w.getStreamOrThrow id = .ok stream ∧
      (w.nodes stream.node).permit < payload.length := by
  unfold write at h
  cases hstream : w.getStreamOrThrow id with
  | error e =>
    rw [hstream] at h
    cases h
    exact .inl (getStreamOrThrow_trap hstream)
  | ok stream =>
    rw [hstream] at h
    dsimp only at h
    split at h
    next hlong => exact .inr ⟨stream, rfl, hlong⟩
    · cases h

theorem write_of_excess
    (hstream : w.getStreamOrThrow id = .ok stream)
    (hlong : (w.nodes stream.node).permit < payload.length) :
    w.write id payload = (.error .trap, w) := by
  unfold write
  rw [hstream]
  dsimp only
  rw [if_pos hlong]

theorem write_of_permit
    (hstream : w.getStreamOrThrow id = .ok stream)
    (hfits : payload.length ≤ (w.nodes stream.node).permit) :
    w.write id payload =
      (.ok .undefined, w.setNode stream.node ((w.nodes stream.node).write payload)) := by
  unfold write
  rw [hstream]
  dsimp only
  rw [if_neg (by omega)]

theorem getStreamOrThrow_zero : w.getStreamOrThrow 0 = .error .trap := rfl

/-- What the body is charged for. -/
def charged (w : Worker) (stream : Stream) (payload : Bytes) : Worker :=
  let node := w.nodes stream.node
  w.setNode stream.node
    { node with bytesRemaining := .sub node.bytesRemaining (some payload.length) }

theorem getStreamOrThrow_charged (stream : Stream) (payload : Bytes) :
    (w.charged stream payload).getStreamOrThrow id = w.getStreamOrThrow id :=
  getStreamOrThrow_setNode rfl rfl

/-- Charging changes no stream but the one property. -/
theorem nodes_charged (stream : Stream) (payload : Bytes) (q : Nat) :
    ((w.charged stream payload).nodes q).wire = (w.nodes q).wire ∧
      ((w.charged stream payload).nodes q).permit = (w.nodes q).permit := by
  unfold charged
  rcases eq_or_ne q stream.node with rfl | hne
  · rw [nodes_setNode_self]
    exact ⟨rfl, rfl⟩
  · rw [nodes_setNode_of_ne hne]
    exact ⟨rfl, rfl⟩

theorem httpAccount_open (hstream : w.getStreamOrThrow id = .ok stream)
    (payload : Bytes) : w.httpAccount id payload =
      let bytesRemaining := Integral.sub (w.nodes stream.node).bytesRemaining (some payload.length)
      (if negative bytesRemaining then some (.lastOperationFailed (.requestBodySize
        (.sub (w.nodes stream.node).contentLength bytesRemaining))) else none,
        w.charged stream payload) := by
  unfold httpAccount charged
  rw [hstream]
  dsimp only
  split <;> rfl

theorem httpAccount_error {e : Thrown} (hstream : w.getStreamOrThrow id = .error e)
    (payload : Bytes) : w.httpAccount id payload = (some e, w) := by
  unfold httpAccount
  rw [hstream]

/-- A write that is refused for its length alone, whatever the type. -/
theorem outputStreamWrite_trap_iff :
    (let r := w.outputStreamWrite type id (List.replicate n.toNat 0)
     .error .trap = r.1 ∧ ∀ p, (w.nodes p).wire = (r.2.nodes p).wire) ↔
      w.Excessive type id n := by
  have hlength : (List.replicate n.toNat (0 : UInt8)).length = n.toNat := length_replicate
  unfold outputStreamWrite Excessive
  -- an HTTP body is charged for the bytes before they are written
  by_cases htype : type = .http
  · rw [if_pos htype]
    cases hstream : w.getStreamOrThrow id with
    | error e =>
      rw [httpAccount_error hstream]
      constructor
      · rintro ⟨htrap, _⟩
        cases htrap
        exact .inl (getStreamOrThrow_trap hstream)
      · rintro (rfl | ⟨stream, hsome, _⟩)
        · cases hstream
          exact ⟨rfl, fun _ => rfl⟩
        · cases hsome
    | ok stream =>
      have hopen := hstream
      rw [httpAccount_open hstream]
      rw [← getStreamOrThrow_charged stream (List.replicate n.toNat 0)] at hopen
      dsimp only
      rw [hlength]
      split
      next hnegative =>
        split at hnegative
        next e hover =>
          constructor
          · rintro ⟨htrap, _⟩
            cases hnegative
            cases htrap
          · rintro (rfl | ⟨stream', hsome, hlimit, _⟩)
            · cases hstream
            · cases hsome
              rw [hlimit htype] at hover
              cases hover
        · cases hnegative
      next hnegative =>
        split at hnegative
        · cases hnegative
        next hwithin =>
          constructor
          · rintro ⟨htrap, _⟩
            rcases write_trap htrap.symm with rfl | ⟨stream', hsome, hlong⟩
            · cases hstream
            · rw [hopen] at hsome
              cases hsome
              rw [(nodes_charged _ _ _).2, hlength] at hlong
              exact .inr ⟨stream, rfl, fun _ => Bool.eq_false_of_not_eq_true hwithin, hlong⟩
          · rintro (rfl | ⟨stream', hsome, _, hlong⟩)
            · cases hstream
            · cases hsome
              rw [write_of_excess hopen (by rwa [(nodes_charged _ _ _).2, hlength])]
              exact ⟨rfl, fun p => (nodes_charged _ _ _).1.symm⟩
  · rw [if_neg htype]
    constructor
    · rintro ⟨htrap, _⟩
      rcases write_trap htrap.symm with hid | ⟨stream, hsome, hlong⟩
      · exact .inl hid
      · rw [hlength] at hlong
        exact .inr ⟨stream, hsome, fun h => absurd h htype, hlong⟩
    · rintro (rfl | ⟨stream, hsome, _, hlong⟩)
      · unfold write
        rw [getStreamOrThrow_zero]
        exact ⟨rfl, fun _ => rfl⟩
      · rw [write_of_excess hsome (by rwa [hlength])]
        exact ⟨rfl, fun _ => rfl⟩

/-- Zeros to a standard stream, to which the main thread writes without limit. -/
theorem writeZeroes_stdio_iff (htype : type.isStdio = true) :
    (let r := w.outputStreamWriteZeroes engine type id n
     let written := w.methodWrite type id (List.replicate n.toNat 0)
     r.1 = written.1 ∧ ∀ p, (r.2.nodes p).wire = (written.2.nodes p).wire) ↔
      number n.toNat ≤ engine.maxByteLength ∧ ∃ stream, w.getStreamOrThrow id = .ok stream ∧
        n.toNat ≤ (w.nodes stream.node).permit ∧
        (n = 0 ∨ (w.nodes stream.node).writableEnded = false) := by
  dsimp only
  have hlength : (List.replicate n.toNat (0 : UInt8)).length = n.toNat := length_replicate
  have hundefined : (w.methodWrite type id (List.replicate n.toNat 0)).1 = .ok .undefined := by
    unfold methodWrite
    rw [if_pos htype]
    cases w.streams id <;> rfl
  rw [hundefined]
  by_cases hlen : number n.toNat ≤ engine.maxByteLength
  · have hhttp : type ≠ .http := by
      rintro rfl
      cases htype
    rw [outputStreamWriteZeroes_eq hlen, outputStreamWrite, if_neg hhttp]
    cases hstream : w.getStreamOrThrow id with
    | error e =>
      unfold write
      rw [hstream]
      constructor
      · rintro ⟨hok, _⟩
        cases hok
      · rintro ⟨_, stream, hsome, _⟩
        cases hsome
    | ok stream =>
      rcases getStreamOrThrow_ok hstream with ⟨_, hentry, _, _⟩
      by_cases hfits : n.toNat ≤ (w.nodes stream.node).permit
      · rw [write_of_permit hstream (by rwa [hlength]), methodWrite, if_pos htype, hentry]
        -- the wires differ, if they do, at the stream itself
        have hwire : (∀ p, ((w.setNode stream.node ((w.nodes stream.node).write
            (List.replicate n.toNat 0))).nodes p).wire = ((w.setNode stream.node
              { w.nodes stream.node with
                wire := (w.nodes stream.node).wire ++ List.replicate n.toNat 0 }).nodes p).wire) ↔
            n = 0 ∨ (w.nodes stream.node).writableEnded = false := by
          constructor
          · intro hall
            have hself := hall stream.node
            rw [nodes_setNode_self, nodes_setNode_self, NodeStream.wire_write] at hself
            split at hself
            next hended =>
              refine .inl ?_
              have hsize := congrArg List.length hself
              rw [length_append, hlength] at hsize
              exact UInt64.toNat_inj.1 (by rw [UInt64.toNat_zero]; omega)
            next hopen => exact .inr (Bool.eq_false_of_not_eq_true hopen)
          · intro hnone p
            rcases eq_or_ne p stream.node with rfl | hne
            · rw [nodes_setNode_self, nodes_setNode_self, NodeStream.wire_write]
              rcases hnone with rfl | hopen
              · simp
              · rw [hopen, if_neg Bool.false_ne_true]
            · rw [nodes_setNode_of_ne hne, nodes_setNode_of_ne hne]
        rw [hwire]
        constructor
        · rintro ⟨_, h⟩
          exact ⟨hlen, stream, rfl, hfits, h⟩
        · rintro ⟨_, stream', hsome, _, h⟩
          cases hsome
          exact ⟨rfl, h⟩
      · rw [write_of_excess hstream (by rw [hlength]; omega)]
        constructor
        · rintro ⟨hok, _⟩
          cases hok
        · rintro ⟨_, stream', hsome, hpermit, _⟩
          cases hsome
          exact absurd hpermit hfits
  · unfold outputStreamWriteZeroes
    simp only [zeroes_eq_none hlen]
    constructor
    · rintro ⟨hok, _⟩
      cases hok
    · rintro ⟨h, _⟩
      exact absurd h hlen

theorem writeZeroes_iff :
    (let r := w.outputStreamWriteZeroes engine type id n
     let written := w.methodWrite type id (List.replicate n.toNat 0)
     r.1 = written.1 ∧ ∀ p, (r.2.nodes p).wire = (written.2.nodes p).wire) ↔
      w.HoldsWhen engine waits (.writeZeroes type id n) := by
  unfold HoldsWhen
  dsimp only
  by_cases htype : type.isStdio = true
  · rw [if_pos htype]
    exact writeZeroes_stdio_iff htype
  · rw [if_neg htype, methodWrite, if_neg htype]
    by_cases hlen : number n.toNat ≤ engine.maxByteLength
    · rw [outputStreamWriteZeroes_eq hlen]
      exact ⟨fun _ => .inl hlen, fun _ => ⟨rfl, fun _ => rfl⟩⟩
    · unfold outputStreamWriteZeroes
      simp only [zeroes_eq_none hlen]
      constructor
      · intro h
        exact .inr (outputStreamWrite_trap_iff.1 h)
      · rintro (h | h)
        · exact absurd h hlen
        · exact outputStreamWrite_trap_iff.2 h

/-! ## Splicing -/

variable {out inp : Stream}

/-- All of the buffer of `inp` is read and written, permitted or not. -/
def flow (w : Worker) (out inp : Stream) : Worker :=
  let chunk := (w.nodes inp.node).buffer
  let w := w.setNode inp.node ((w.nodes inp.node).drop chunk.length)
  w.setNode out.node ((w.nodes out.node).write chunk)

/-- The size that is read is not a number, as the wrapper knows of no high water mark. -/
theorem size_nan (r : Int) :
    Integral.min (.sub out.writableHighWaterMark out.writableLength) (some r) = none := rfl

theorem spliceLoop_nil (h : (w.nodes inp.node).buffer = []) (fuel : Nat) (r : Int) :
    spliceLoop out inp fuel r w = (r, w) := by
  cases fuel with
  | zero => rfl
  | succ fuel =>
    unfold spliceLoop
    split
    · dsimp only
      rw [(w.nodes inp.node).read_nil h]
    · rfl

/-- The stream that is written to has nothing in its buffer, or is another one. -/
theorem buffer_flow : ((w.flow out inp).nodes inp.node).buffer = [] := by
  unfold flow
  dsimp only
  rcases eq_or_ne inp.node out.node with heq | hne
  · rw [heq, nodes_setNode_self, NodeStream.buffer_write, nodes_setNode_self,
      NodeStream.buffer_drop, drop_length]
  · rw [nodes_setNode_of_ne hne, nodes_setNode_self, NodeStream.buffer_drop, drop_length]

/-- One round takes everything, and the next finds nothing. -/
theorem spliceLoop_flow (h : (w.nodes inp.node).buffer ≠ []) {r : Int} (hr : 0 < r) :
    spliceLoop out inp ((w.nodes inp.node).buffer.length + 1) r w =
      (number (r - (w.nodes inp.node).buffer.length), w.flow out inp) := by
  rw [spliceLoop, if_pos hr]
  dsimp only
  rw [size_nan, NodeStream.read_nan, if_neg h]
  exact spliceLoop_nil buffer_flow _ _

/-- Whether a stream was ended is not changed by a read. -/
theorem nodes_drop (p q k : Nat) :
    ((w.setNode p ((w.nodes p).drop k)).nodes q).writableEnded = (w.nodes q).writableEnded ∧
      ((w.setNode p ((w.nodes p).drop k)).nodes q).errored = (w.nodes q).errored := by
  rcases eq_or_ne q p with rfl | hne
  · rw [nodes_setNode_self]
    exact ⟨rfl, rfl⟩
  · rw [nodes_setNode_of_ne hne]
    exact ⟨rfl, rfl⟩

/-- An output that has been ended fails, and the bytes are lost. -/
theorem flow_ended (h : (w.nodes out.node).writableEnded = true) :
    ((w.flow out inp).nodes out.node).errored = some { message := "write after end" } := by
  unfold flow
  dsimp only
  rw [nodes_setNode_self, NodeStream.write, (nodes_drop _ _ _).1, if_pos h]

theorem flow_open (h : (w.nodes out.node).writableEnded = false) (q : Nat) :
    ((w.flow out inp).nodes q).errored = (w.nodes q).errored := by
  unfold flow
  dsimp only
  rw [NodeStream.write_open _ ((nodes_drop _ _ _).1.trans h)]
  rcases eq_or_ne q out.node with rfl | hne
  · rw [nodes_setNode_self, NodeStream.errored_accept]
    exact (nodes_drop _ _ _).2
  · rw [nodes_setNode_of_ne hne]
    exact (nodes_drop _ _ _).2

section

variable (hout : w.getStreamOrThrow id = .ok out) (hinp : w.getStreamOrThrow src = .ok inp)
include hout hinp

theorem outputStreamSplice_nothing
    (h : len = 0 ∨ (w.nodes inp.node).buffer = []) :
    w.outputStreamSplice id src len =
      (.ok (.count (len.toNat - number len.toNat)), w) := by
  have hloop : ∀ fuel, spliceLoop out inp fuel (number len.toNat) w = (number len.toNat, w) := by
    intro fuel
    rcases h with rfl | h
    · cases fuel with
      | zero => rfl
      | succ fuel => rw [spliceLoop, if_neg (by decide)]
    · exact spliceLoop_nil h fuel _
  unfold outputStreamSplice
  rw [hout, hinp]
  dsimp only
  rw [hloop]
  rw [(getStreamOrThrow_ok hinp).2.2.1]
  rw [(getStreamOrThrow_ok hout).2.2.1]

theorem outputStreamSplice_ended (hlen : len ≠ 0) (hbuffer : (w.nodes inp.node).buffer ≠ [])
    (hended : (w.nodes out.node).writableEnded = true) :
    ∃ e, w.outputStreamSplice id src len =
      (.error (.lastOperationFailed (.error e)), w.flow out inp) := by
  have hpos : 0 < number len.toNat :=
    Js.number_pos (Nat.pos_of_ne_zero fun h => hlen (UInt64.toNat_inj.1 h))
  unfold outputStreamSplice
  rw [hout, hinp]
  dsimp only
  rw [spliceLoop_flow hbuffer hpos]
  cases ((w.flow out inp).nodes inp.node).errored with
  | some e => exact ⟨e, rfl⟩
  | none =>
    rw [flow_ended hended]
    exact ⟨_, rfl⟩

theorem outputStreamSplice_open (hlen : len ≠ 0) (hbuffer : (w.nodes inp.node).buffer ≠ [])
    (hopen : (w.nodes out.node).writableEnded = false) :
    w.outputStreamSplice id src len =
      (.ok (.count (len.toNat - number (number len.toNat - (w.nodes inp.node).buffer.length))),
        w.flow out inp) := by
  have hpos : 0 < number len.toNat :=
    Js.number_pos (Nat.pos_of_ne_zero fun h => hlen (UInt64.toNat_inj.1 h))
  unfold outputStreamSplice
  rw [hout, hinp]
  dsimp only
  rw [spliceLoop_flow hbuffer hpos]
  rw [flow_open hopen, (getStreamOrThrow_ok hinp).2.2.1]
  rw [flow_open hopen, (getStreamOrThrow_ok hout).2.2.1]

theorem forall_open {P : Stream → Stream → Prop} :
    (∀ out' inp', w.getStreamOrThrow id = .ok out' → w.getStreamOrThrow src = .ok inp' →
      P out' inp') ↔ P out inp := by
  constructor
  · exact fun h => h out inp hout hinp
  · intro h out' inp' hout' hinp'
    rw [hout] at hout'
    rw [hinp] at hinp'
    cases hout'
    cases hinp'
    exact h

theorem spliced_open : w.spliced id src len =
    (.ok (.count (w.movable out inp len)), w.move out inp (w.movable out inp len)) := by
  unfold spliced
  rw [hout, hinp]

end

/-- Only a move of everything leaves nothing behind. -/
theorem flow_eq_move {n : Nat} (hn : n ≤ (w.nodes inp.node).buffer.length)
    (hbuffer : (w.nodes inp.node).buffer ≠ []) (hopen : (w.nodes out.node).writableEnded = false) :
    w.flow out inp = w.move out inp n ↔ n = (w.nodes inp.node).buffer.length := by
  have hpos : 0 < (w.nodes inp.node).buffer.length := length_pos_iff.2 hbuffer
  constructor
  · intro heq
    have hleft : ((w.move out inp n).nodes inp.node).buffer = (w.nodes inp.node).buffer.drop n := by
      unfold move
      split
      next hzero => rw [hzero, drop_zero]
      · rcases eq_or_ne inp.node out.node with hnode | hne
        · rw [hnode, nodes_setNode_self, NodeStream.buffer_accept, nodes_setNode_self,
            NodeStream.buffer_drop]
        · rw [nodes_setNode_of_ne hne, nodes_setNode_self, NodeStream.buffer_drop]
    rw [← heq, buffer_flow] at hleft
    have := drop_eq_nil_iff.1 hleft.symm
    omega
  · rintro rfl
    unfold flow move
    rw [if_neg (by omega)]
    dsimp only
    rw [NodeStream.write_open _ ((nodes_drop _ _ _).1.trans hopen), take_length]

theorem splice_iff :
    w.outputStreamSplice id src len = w.spliced id src len ↔ w.SpliceFits id src len := by
  cases hout : w.getStreamOrThrow id with
  | error e =>
    refine ⟨fun _ _ _ hsome => ?_, fun _ => ?_⟩
    · rw [hout] at hsome
      cases hsome
    · unfold outputStreamSplice spliced
      rw [hout]
  | ok out =>
    cases hinp : w.getStreamOrThrow src with
    | error e =>
      refine ⟨fun _ _ _ _ hsome => ?_, fun _ => ?_⟩
      · rw [hinp] at hsome
        cases hsome
      · unfold outputStreamSplice spliced
        rw [hout, hinp]
    | ok inp =>
      rw [spliced_open hout hinp, SpliceFits, forall_open hout hinp]
      dsimp only
      by_cases hnothing : len = 0 ∨ (w.nodes inp.node).buffer = []
      · -- nothing is moved
        have hmovable : w.movable out inp len = 0 := by
          unfold movable
          rcases hnothing with rfl | hbuffer
          · exact Nat.zero_min _
          · rw [hbuffer, length_nil, Nat.zero_min, Nat.min_zero]
        rw [outputStreamSplice_nothing hout hinp hnothing, hmovable, move, if_pos rfl]
        constructor
        · intro heq hlen
          rcases hnothing with rfl | hbuffer
          · exact absurd rfl hlen
          · have hcount : (len.toNat : Int) - number len.toNat = 0 := by
              injection heq with hvalue
              injection hvalue with hvalue
              injection hvalue
            rw [hbuffer, length_nil, rest, if_pos rfl]
            exact ⟨Nat.zero_le _, .inr rfl, by omega, .inl rfl⟩
        · intro hfits
          have hexact : number len.toNat = len.toNat := by
            by_cases hlen : len = 0
            · rw [hlen]
              decide
            · rcases hnothing with rfl | hbuffer
              · exact absurd rfl hlen
              · have hrest := (hfits hlen).2.2.1
                rw [hbuffer, length_nil, rest, if_pos rfl] at hrest
                omega
          rw [hexact, Int.sub_self]
          rfl
      · rw [not_or] at hnothing
        rcases hnothing with ⟨hlen, hbuffer⟩
        have hpos : 0 < (w.nodes inp.node).buffer.length := length_pos_iff.2 hbuffer
        have hle : w.movable out inp len ≤ (w.nodes inp.node).buffer.length :=
          Nat.le_trans (Nat.min_le_right _ _) (Nat.min_le_left _ _)
        have hall : w.movable out inp len = (w.nodes inp.node).buffer.length ↔
            (w.nodes inp.node).buffer.length ≤ len.toNat ∧
              (w.nodes inp.node).buffer.length ≤ (w.nodes out.node).permit := by
          unfold movable
          omega
        cases hended : (w.nodes out.node).writableEnded
        · rw [outputStreamSplice_open hout hinp hlen hbuffer hended, rest, if_neg (by omega)]
          constructor
          · intro heq _
            injection heq with hvalue hworker
            have hmoved := hall.1 ((flow_eq_move hle hbuffer hended).1 hworker)
            injection hvalue with hvalue
            injection hvalue with hcount
            rw [hall.2 hmoved] at hcount
            exact ⟨hmoved.1, .inl hmoved.2, by omega, .inr rfl⟩
          · intro hfits
            rcases hfits hlen with ⟨hmuch, hroom, hrest, _⟩
            have hmoved := hall.2 ⟨hmuch, hroom.resolve_right (by omega)⟩
            rw [(flow_eq_move hle hbuffer hended).2 hmoved, hrest, hmoved]
            have hcount : (len.toNat : Int) - (len.toNat - (w.nodes inp.node).buffer.length) =
                (w.nodes inp.node).buffer.length := by omega
            rw [hcount]
        · obtain ⟨e, heq⟩ := outputStreamSplice_ended hout hinp hlen hbuffer hended
          rw [heq]
          refine ⟨fun hfalse => ?_, fun hfits => ?_⟩
          · cases hfalse
          · rcases (hfits hlen).2.2.2 with hzero | hfalse
            · omega
            · cases hfalse

theorem blockingSplice_iff :
    w.outputStreamBlockingSplice waits id src len = w.blockingSpliced waits id src len ↔
      ∀ out inp, w.getStreamOrThrow id = .ok out → w.getStreamOrThrow src = .ok inp →
        ∀ w', w.drained waits id out = some (none, w') →
          (w.nodes inp.node).readable = true ∧ w'.SpliceFits id src len := by
  rcases hid : w.getStreamOrThrow id with e | out
  · unfold outputStreamBlockingSplice blockingSpliced
    rw [hid]
    exact ⟨fun _ _ _ => nofun, fun _ => rfl⟩
  rcases hsrc : w.getStreamOrThrow src with e | inp
  · unfold outputStreamBlockingSplice blockingSpliced
    rw [hid, hsrc]
    exact ⟨fun _ _ _ _ => nofun, fun _ => rfl⟩
  rw [← hid, ← hsrc, forall_open hid hsrc]
  unfold outputStreamBlockingSplice blockingSpliced
  rw [hid, hsrc]
  dsimp only
  rcases w.drained waits id out with _ | ⟨_ | e, w'⟩
  · exact ⟨fun _ _ => nofun, fun _ => rfl⟩
  · -- the output is ready
    rw [bind_some, map_some]
    dsimp only
    cases hreadable : (w.nodes inp.node).readable
    · rw [if_neg Bool.false_ne_true, if_neg Bool.false_ne_true]
      constructor
      · intro heq
        rcases hfailed : waits.failed src w' with _ | failed
        · rw [hfailed] at heq
          cases heq
        · rw [hfailed] at heq
          cases heq
      · intro h
        cases (h w' rfl).1
    · rw [if_pos rfl, if_pos rfl, some_inj, splice_iff]
      constructor
      · intro h w'' hw''
        cases hw''
        exact ⟨rfl, h⟩
      · exact fun h => (h w' rfl).2
  · refine ⟨fun _ _ hnone => ?_, fun _ => rfl⟩
    cases hnone

/-- Splicing raises no `TypeError`. -/
theorem spliced_typeError : (w.spliced id src len).1 ≠ .error .typeError := by
  intro h
  unfold spliced at h
  rcases hout : w.getStreamOrThrow id with e | out
  · rw [hout] at h
    cases h
    rcases getStreamOrThrow_error hout with ⟨hfalse, _⟩ | hfalse | ⟨_, hfalse⟩ <;> cases hfalse
  rcases hinp : w.getStreamOrThrow src with e | inp
  · rw [hout, hinp] at h
    cases h
    rcases getStreamOrThrow_error hinp with ⟨hfalse, _⟩ | hfalse | ⟨_, hfalse⟩ <;> cases hfalse
  rw [hout, hinp] at h
  cases h

/-- When the derived operations are compositions of reads and writes. -/
theorem right_iff (engine : Engine) (waits : Waits) (w : Worker) (op : Derived) :
    w.Right engine waits op ↔ w.HoldsWhen engine waits op := by
  cases op with
  | skip id n => exact some_inj.trans skip_iff
  | blockingSkip id n => exact blockingSkip_iff
  | writeZeroes type id n =>
    refine Iff.trans ?_ writeZeroes_iff
    constructor
    · rintro ⟨r, hr, hright⟩
      cases hr
      exact hright
    · exact fun h => ⟨_, rfl, h⟩
  | splice id src len =>
    refine ⟨fun heq => ?_, False.elim⟩
    have htype : (w.spliced id src len).1 = .error .typeError := by
      rw [← Option.some.inj heq]
    exact spliced_typeError htype
  | blockingSplice id src len => exact blockingSplice_iff

/-- An input stream with five bytes to be read. -/
def fiveBytes : Worker where
  streams id := if id = 1 then some { node := 0, parentStream := some 0 } else none
  nodes _ := {
    buffer := [1, 2, 3, 4, 5]
    buffer_ended := by
      intro h
      cases h }
  streams_zero := rfl

theorem skip_three : ¬ ∀ (engine : Engine) (waits : Waits) (w : Worker) (op : Derived),
    w.Right engine waits op := by
  intro h
  let engine : Engine := ⟨2 ^ 32, by decide⟩
  let waits : Waits := ⟨fun _ _ => none, fun _ _ => none, fun _ _ => none, fun _ _ => none,
    fun _ _ => none⟩
  rcases skip_iff.1 (Option.some.inj (h engine waits fiveBytes (.skip 1 3))) with hid | ⟨_, hended⟩
  · cases hid
  · cases (hended { node := 0, parentStream := some 0 } rfl).2

end Worker

end Jco.Preview2.Io

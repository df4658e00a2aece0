import Jco.Lib.Run
import Jco.Preview2.WorkerIo

/-! # Content length of an outgoing body

The stream of an outgoing body with a content length counts down the bytes that remain: the
writes take their bytes off before they write. A run is a sequence of calls on the stream, with
whatever else the worker does between them and while they wait.

1. The body, and the calls on its stream.
2. What the counting is to do, and the steps on which it does it.
3. Writes, waits and splices.
4. Runs.
-/

namespace Jco.Preview2.Io

open Jco.Js Jco.Lib

/-! ## The body -/

namespace NodeStream

/-- `new PassThrough()` with the content length. -/
def passThrough (contentLength : Nat) : NodeStream where
  contentLength := some (contentLength : Int)
  bytesRemaining := some (contentLength : Int)
  buffer_ended := fun _ => rfl

/-- `end()` -/
def finished (s : NodeStream) : NodeStream := { s with writableEnded := true }

end NodeStream

/-- A call on the stream of a body. -/
inductive BodyCall where
  | write (payload : Bytes)
  | blockingWriteAndFlush (payload : Bytes)
  | writeZeroes (n : UInt64)
  | blockingWriteZeroesAndFlush (n : UInt64)
  | splice (src : Nat) (len : UInt64)
  | blockingSplice (src : Nat) (len : UInt64)
  | finish

namespace Worker

variable (engine : Engine) (waits : Waits) (w : Worker)

/-- `OUTPUT_STREAM_CREATE` of a body, under the next id. -/
def createBody (streamCnt p contentLength : Nat) : Worker where
  streams := Function.update w.streams (streamCnt + 1) (some { node := p })
  nodes := Function.update w.nodes p (.passThrough contentLength)
  streams_zero := (Function.update_of_ne (Nat.zero_ne_add_one streamCnt) _ _).trans w.streams_zero

/-- A number is greater than zero. -/
def positive : Integral → Bool
  | none => false
  | some n => n > 0

/-- `HTTP_OUTPUT_STREAM_FINISH` -/
def httpOutputStreamFinish (id : Nat) : Result :=
  match w.getStreamOrThrow id with
  | .error .closed => (.error (.internalError "stream closed"), w)
  | .error (.lastOperationFailed (.error e)) => (.error (.internalError e.message), w)
  -- without a stream the next line is a `TypeError`
  | .error _ => (.error .trap, w)
  | .ok stream =>
    let node := w.nodes stream.node
    if positive node.bytesRemaining || negative node.bytesRemaining then
      (.error (.requestBodySize (.sub node.contentLength node.bytesRemaining)), w)
    else
      (.ok .undefined, w.setNode stream.node node.finished)

def performBody (id : Nat) : BodyCall → Answer
  | .write payload => some (w.methodWrite .http id payload)
  | .blockingWriteAndFlush payload => w.outputStreamBlockingWriteAndFlush waits .http id payload
  | .writeZeroes n => w.perform engine waits (.writeZeroes .http id n)
  | .blockingWriteZeroesAndFlush n =>
    w.outputStreamBlockingWriteZeroesAndFlush engine waits .http id n
  | .splice src len => w.perform engine waits (.splice id src len)
  | .blockingSplice src len => w.perform engine waits (.blockingSplice id src len)
  | .finish => some (w.httpOutputStreamFinish id)

/-! ## Counting -/

/-- What else goes on leaves to the body what it has taken and counted. Its stream may fail, be
drained or be dropped. -/
structure Keeps (id p : Nat) (w w' : Worker) : Prop where
  entry : ∀ stream, w'.streams id = some stream → stream.node = p
  wire : (w'.nodes p).wire = (w.nodes p).wire
  contentLength : (w'.nodes p).contentLength = (w.nodes p).contentLength
  bytesRemaining : (w'.nodes p).bytesRemaining = (w.nodes p).bytesRemaining
  writableEnded : (w'.nodes p).writableEnded = (w.nodes p).writableEnded

/-- So it is while a call waits. -/
structure WaitsKeep (id p : Nat) (waits : Waits) : Prop where
  flushed : ∀ j w e w', waits.flushed j w = some (e, w') → Keeps id p w w'
  written : ∀ j w e w', waits.written j w = some (e, w') → Keeps id p w w'
  drain : ∀ j w e w', waits.drain j w = some (e, w') → Keeps id p w w'
  failed : ∀ j w e w', waits.failed j w = some (e, w') → Keeps id p w w'

/-- Besides the bytes that have entered the body, `k` more are counted. -/
structure Charged (id p L k : Nat) (w : Worker) : Prop where
  entry : ∀ stream, w.streams id = some stream → stream.node = p
  contentLength : (w.nodes p).contentLength = some (L : Int)
  bytesRemaining : (w.nodes p).bytesRemaining = some ((L : Int) - (w.nodes p).wire.length - k)
  bound : (w.nodes p).wire.length + k ≤ L
  full : (w.nodes p).writableEnded = true → (w.nodes p).wire.length = L

/-- What is counted is what has entered the body, and that is not too much. -/
abbrev Accounted (id p L : Nat) (w : Worker) : Prop := Charged id p L 0 w

inductive BodyStep where
  | call (c : BodyCall) (waits : Waits) (answer : Except Thrown Value)
  | meanwhile

/-- The steps of a run; a trap ends the process. -/
def bodyStep (id p : Nat) : Action BodyStep Worker
  | .call c waits answer, w, w' => WaitsKeep id p waits ∧
      w.performBody engine waits id c = some (answer, w') ∧ answer ≠ .error .trap
  | .meanwhile, w, w' => Keeps id p w w'

/-- A body of `n` bytes is finished if and only if it is complete, or else its size is told. -/
def FinishRight (L n : Nat) (answer : Except Thrown Value) : Prop :=
  (answer = .ok .undefined ↔ n = L) ∧ (n ≠ L → answer = .error (.requestBodySize (some (n : Int))))

/-- The counting is right after the step. -/
def RightStep (id p L : Nat) : Action BodyStep Worker
  | .call .finish _ answer, w, w' =>
    Accounted id p L w' ∧ FinishRight L (w.nodes p).wire.length answer
  | _, _, w' => Accounted id p L w'

/-- The bytes of a write fit into the rest of the body. -/
def FitsBody (id p L : Nat) (payload : Bytes) (w : Worker) : Prop :=
  ∀ stream, w.getStreamOrThrow id = .ok stream → (w.nodes p).wire.length + payload.length ≤ L

/-- No flush is waited for that fails or after which the stream is no longer open. -/
def FlushHolds (waits : Waits) (id : Nat) (payload : Bytes) (w : Worker) : Prop :=
  ∀ stream, w.getStreamOrThrow id = .ok stream → stream.flushPromise = true →
    ∀ e w', waits.flushed id (w.charged stream payload) = some (e, w') →
      e = none ∧ ∃ stream', w'.getStreamOrThrow id = .ok stream'

/-- Splicing moves no byte into the body. -/
def MovesNothing (id src : Nat) (len : UInt64) (w : Worker) : Prop :=
  ∀ out inp, w.getStreamOrThrow id = .ok out → w.getStreamOrThrow src = .ok inp →
    len = 0 ∨ (w.nodes inp.node).buffer = [] ∨ (w.nodes out.node).writableEnded = true

/-- The condition on a step. -/
def Meets (id p L : Nat) : BodyStep → Worker → Prop
  | .call (.write payload) _ _, w => FitsBody id p L payload w
  | .call (.blockingWriteAndFlush payload) waits _, w =>
    FitsBody id p L payload w ∧ (payload = [] ∨ FlushHolds waits id payload w)
  | .call (.writeZeroes n) _ _, w => FitsBody id p L (List.replicate n.toNat 0) w
  | .call (.blockingWriteZeroesAndFlush n) waits _, w =>
    FitsBody id p L (List.replicate n.toNat 0) w ∧
      (n = 0 ∨ FlushHolds waits id (List.replicate n.toNat 0) w)
  | .call (.splice _ _) _ _, _ => True
  | .call (.blockingSplice src len) waits _, w =>
    ∀ out inp, w.getStreamOrThrow id = .ok out → w.getStreamOrThrow src = .ok inp →
      (w.nodes inp.node).readable = true → ∀ w', w.drained waits id out = some (none, w') →
        MovesNothing id src len w'
  | .call .finish _ _, w => ∃ stream, w.getStreamOrThrow id = .ok stream
  | .meanwhile, _ => True

/-! ## Charges -/

variable {engine waits w} {w' : Worker} {id p src L k : Nat} {stream : Stream} {payload : Bytes}

theorem Charged.keeps (h : Charged id p L k w) (hkeeps : Keeps id p w w') :
    Charged id p L k w' := by
  refine ⟨hkeeps.entry, ?_, ?_, ?_, ?_⟩
  · rw [hkeeps.contentLength]
    exact h.contentLength
  · rw [hkeeps.bytesRemaining, hkeeps.wire]
    exact h.bytesRemaining
  · rw [hkeeps.wire]
    exact h.bound
  · rw [hkeeps.writableEnded, hkeeps.wire]
    exact h.full

/-- Where more is counted than has entered, the counting is wrong. -/
theorem Charged.eq_zero (h : Charged id p L k w) (haccounted : Accounted id p L w) : k = 0 := by
  have heq := h.bytesRemaining.symm.trans haccounted.bytesRemaining
  have := Option.some.inj heq
  omega

theorem Charged.accounted_iff (h : Charged id p L payload.length w) :
    Accounted id p L w ↔ payload = [] := by
  constructor
  · exact fun haccounted => List.length_eq_zero_iff.1 (h.eq_zero haccounted)
  · rintro rfl
    exact h

theorem Charged.setStream (h : Charged id p L k w) (hnode : stream.node = p) :
    Charged id p L k (w.setStream id stream) := by
  refine ⟨?_, h.contentLength, h.bytesRemaining, h.bound, h.full⟩
  intro stream' hstream
  unfold Worker.setStream at hstream
  dsimp only at hstream
  rw [Function.update_self, Option.map_eq_some_iff] at hstream
  rcases hstream with ⟨_, _, rfl⟩
  exact hnode

/-- The stream that is open is that of the body. -/
theorem Charged.node_eq (h : Charged id p L k w) (hopen : w.getStreamOrThrow id = .ok stream) :
    stream.node = p :=
  h.entry stream (getStreamOrThrow_ok hopen).2.1

theorem charge_eq (h : Accounted id p L w) :
    Integral.sub (w.nodes p).bytesRemaining (some payload.length) =
      some (number ((L : Int) - (w.nodes p).wire.length - payload.length)) := by
  rw [h.bytesRemaining, Integral.sub_some]
  congr 2
  omega

/-- Bytes that fit are taken off exactly. -/
theorem Charged.charge (h : Accounted id p L w) (hL : L ≤ 2 ^ 53) (payload : Bytes)
    (hnode : stream.node = p)
    (hfits : (w.nodes p).wire.length + payload.length ≤ L) :
    Charged id p L payload.length (w.charged stream payload) := by
  subst hnode
  have hself : (w.charged stream payload).nodes stream.node =
      { w.nodes stream.node with
        bytesRemaining :=
          some (number ((L : Int) - (w.nodes stream.node).wire.length - payload.length)) } := by
    unfold charged
    dsimp only
    rw [nodes_setNode_self, charge_eq h]
  refine ⟨h.entry, ?_, ?_, ?_, ?_⟩
  · rw [hself]
    exact h.contentLength
  · rw [hself]
    rw [number_of_natAbs_le (by omega)]
  · rw [hself]
    exact hfits
  · rw [hself]
    exact h.full

/-- With bytes that do not fit less than nothing remains. -/
theorem charge_over (h : Accounted id p L w) (hnode : stream.node = p)
    (hover : L < (w.nodes p).wire.length + payload.length) :
    negative (.sub (w.nodes p).bytesRemaining (some payload.length)) = true ∧
      ¬ Accounted id p L (w.charged stream payload) := by
  subst hnode
  have hbound := h.bound
  have hneg : number (L - (w.nodes stream.node).wire.length - payload.length) < 0 := by
    apply number_neg
    omega
  rw [charge_eq h]
  refine ⟨decide_eq_true hneg, fun haccounted => ?_⟩
  have hremaining := haccounted.bytesRemaining
  have hwire := (nodes_charged stream payload stream.node (w := w)).1
  rw [hwire] at hremaining
  unfold charged at hremaining
  dsimp only at hremaining
  rw [nodes_setNode_self, charge_eq h] at hremaining
  have := Option.some.inj hremaining
  omega

theorem charge_within (h : Accounted id p L w) (hL : L ≤ 2 ^ 53) (payload : Bytes)
    (hfits : (w.nodes p).wire.length + payload.length ≤ L) :
    negative (.sub (w.nodes p).bytesRemaining (some payload.length)) = false := by
  rw [charge_eq h, number_of_natAbs_le (by omega)]
  exact decide_eq_false (by omega)

/-! ## Writes -/

theorem contentLength_write (node : NodeStream) (chunk : Bytes) :
    (node.write chunk).contentLength = node.contentLength ∧
      (node.write chunk).bytesRemaining = node.bytesRemaining ∧
        (node.write chunk).writableEnded = node.writableEnded := by
  unfold NodeStream.write
  split
  · exact ⟨rfl, rfl, rfl⟩
  · exact ⟨rfl, rfl, rfl⟩

/-- What is charged for enters the body. -/
theorem Charged.write (h : Charged id p L payload.length w) (hnode : stream.node = p) :
    Accounted id p L (w.setNode stream.node ((w.nodes stream.node).write payload)) := by
  subst hnode
  rcases contentLength_write (w.nodes stream.node) payload with ⟨hlength, hremaining, hended⟩
  have hbound := h.bound
  -- a body that has been ended is complete, and nothing more is charged for
  have hwire : ((w.nodes stream.node).write payload).wire.length =
      (w.nodes stream.node).wire.length + payload.length := by
    rw [NodeStream.wire_write]
    split
    next hfull =>
      have := h.full hfull
      omega
    · exact List.length_append
  refine ⟨h.entry, ?_, ?_, ?_, ?_⟩
  · rw [nodes_setNode_self, hlength]
    exact h.contentLength
  · rw [nodes_setNode_self, hremaining, h.bytesRemaining, hwire]
    congr 1
    omega
  · rw [nodes_setNode_self, hwire]
    exact hbound
  · rw [nodes_setNode_self, hended, hwire]
    intro hfull
    have := h.full hfull
    omega

/-- `OUTPUT_STREAM_WRITE` after the charge. -/
theorem Charged.write_open (h : Charged id p L payload.length w)
    (hopen : w.getStreamOrThrow id = .ok stream) (htrap : (w.write id payload).1 ≠ .error .trap) :
    Accounted id p L (w.write id payload).2 := by
  by_cases hlong : (w.nodes stream.node).permit < payload.length
  · rw [write_of_excess hopen hlong] at htrap
    exact absurd rfl htrap
  · rw [write_of_permit hopen (by omega)]
    exact h.write (h.node_eq hopen)

/-- The write of a blocking write, after the charge. -/
theorem Charged.writeAndFlush_open (h : Charged id p L payload.length w)
    (hwaits : WaitsKeep id p waits) (hopen : w.getStreamOrThrow id = .ok stream)
    {answer : Except Thrown Value} (hr : w.writeAndFlush waits id payload = some (answer, w'))
    (htrap : answer ≠ .error .trap) : Accounted id p L w' := by
  have hnode := h.node_eq hopen
  have hwritten := h.write hnode
  unfold writeAndFlush at hr
  rw [hopen] at hr
  dsimp only at hr
  split at hr
  · cases hr
    exact absurd rfl htrap
  · split at hr
    · cases hr
      exact hwritten.setStream hnode
    · rw [Option.map_eq_some_iff] at hr
      rcases hr with ⟨⟨e, w₁⟩, hwait, heq⟩
      have hflushing : Accounted id p L ((w.setNode stream.node ((w.nodes stream.node).write
          payload)).setStream id { stream with ready := false, flushPromise := true }) :=
        hwritten.setStream hnode
      have hafter := hflushing.keeps (hwaits.written _ _ _ _ hwait)
      cases e with
      | none =>
        cases heq
        exact hafter.setStream hnode
      | some e =>
        cases heq
        exact hafter.setStream hnode

theorem writeAndFlush_error {e : Thrown} (herror : w.getStreamOrThrow id = .error e) :
    w.writeAndFlush waits id payload = some (.error e, w) := by
  unfold writeAndFlush
  rw [herror]

/-- A write counts right exactly if it fits. -/
theorem write_accounted_iff (h : Accounted id p L w) (hL : L ≤ 2 ^ 53) (payload : Bytes)
    (htrap : (w.outputStreamWrite .http id payload).1 ≠ .error .trap) :
    Accounted id p L (w.outputStreamWrite .http id payload).2 ↔ FitsBody id p L payload w := by
  unfold outputStreamWrite at htrap ⊢
  rw [if_pos rfl] at htrap ⊢
  rcases hopen : w.getStreamOrThrow id with e | stream
  · rw [httpAccount_error hopen]
    refine ⟨fun _ stream hsome => ?_, fun _ => h⟩
    rw [hopen] at hsome
    cases hsome
  · have hnode := h.node_eq hopen
    have hfits : FitsBody id p L payload w ↔
        (w.nodes p).wire.length + payload.length ≤ L := by
      constructor
      · exact fun hall => hall stream hopen
      · exact fun hle _ _ => hle
    rw [hfits]
    rw [httpAccount_open hopen] at htrap ⊢
    dsimp only at htrap ⊢
    rw [hnode] at htrap ⊢
    rcases Nat.lt_or_ge L ((w.nodes p).wire.length + payload.length) with hover | hle
    · rcases charge_over h hnode hover with ⟨hnegative, hwrong⟩
      rw [if_pos hnegative]
      exact ⟨fun haccounted => absurd haccounted hwrong, fun hle => absurd hle (by omega)⟩
    · have hwithin := charge_within h hL payload hle
      rw [if_neg (Bool.eq_false_iff.1 hwithin)] at htrap ⊢
      dsimp only at htrap ⊢
      refine ⟨fun _ => hle, fun _ => ?_⟩
      exact (Charged.charge h hL payload hnode hle).write_open
        ((getStreamOrThrow_charged stream payload).trans hopen) htrap

/-- A blocking write counts right exactly if it fits and no flush fails before it. -/
theorem blockingWrite_accounted_iff (h : Accounted id p L w) (hL : L ≤ 2 ^ 53)
    (hwaits : WaitsKeep id p waits) {answer : Except Thrown Value}
    (hr : w.outputStreamBlockingWriteAndFlush waits .http id payload = some (answer, w'))
    (htrap : answer ≠ .error .trap) :
    Accounted id p L w' ↔
      FitsBody id p L payload w ∧ (payload = [] ∨ FlushHolds waits id payload w) := by
  unfold outputStreamBlockingWriteAndFlush at hr
  rw [if_pos rfl] at hr
  rcases hopen : w.getStreamOrThrow id with e | stream
  · rw [httpAccount_error hopen] at hr
    cases hr
    have hnone : ∀ stream, w.getStreamOrThrow id ≠ .ok stream := by
      intro stream hsome
      rw [hopen] at hsome
      cases hsome
    exact ⟨fun _ => ⟨fun stream hsome => absurd hsome (hnone stream),
      .inr fun stream hsome => absurd hsome (hnone stream)⟩, fun _ => h⟩
  · have hnode := h.node_eq hopen
    rw [httpAccount_open hopen] at hr
    dsimp only at hr
    rw [hnode] at hr
    rcases Nat.lt_or_ge L ((w.nodes p).wire.length + payload.length) with hover | hle
    · rcases charge_over h hnode hover with ⟨hnegative, hwrong⟩
      rw [if_pos hnegative] at hr
      cases hr
      refine ⟨fun haccounted => absurd haccounted hwrong, fun hfits => ?_⟩
      have := hfits.1 stream hopen
      omega
    · rw [if_neg (Bool.eq_false_iff.1 (charge_within h hL payload hle))] at hr
      have hcharged := Charged.charge h hL payload hnode hle
      have hopen' := (getStreamOrThrow_charged stream payload).trans hopen
      have hfits : FitsBody id p L payload w := fun _ _ => hle
      unfold blockingWriteAndFlush at hr
      rw [hopen'] at hr
      dsimp only at hr
      have hholds : FlushHolds waits id payload w ↔ (stream.flushPromise = true →
          ∀ e w', waits.flushed id (w.charged stream payload) = some (e, w') →
            e = none ∧ ∃ stream', w'.getStreamOrThrow id = .ok stream') := by
        constructor
        · exact fun hall => hall stream hopen
        · intro hthis stream' hsome
          rw [hopen] at hsome
          cases hsome
          exact hthis
      rw [hholds]
      split at hr
      next hflush =>
        rw [Option.bind_eq_some_iff] at hr
        rcases hr with ⟨⟨e, w₁⟩, hwait, hr⟩
        have hafter := hcharged.keeps (hwaits.flushed _ _ _ _ hwait)
        -- what the wait ends in decides
        have hone : (stream.flushPromise = true → ∀ e w',
            waits.flushed id (w.charged stream payload) = some (e, w') →
              e = none ∧ ∃ stream', w'.getStreamOrThrow id = .ok stream') ↔
            e = none ∧ ∃ stream', w₁.getStreamOrThrow id = .ok stream' := by
          constructor
          · exact fun hall => hall hflush e w₁ hwait
          · intro hthis _ e' w₂ hwait'
            rw [hwait] at hwait'
            cases hwait'
            exact hthis
        rw [hone]
        cases e with
        | some e =>
          cases hr
          rw [hafter.accounted_iff]
          refine ⟨fun hnil => ⟨hfits, .inl hnil⟩, fun h => h.2.resolve_right ?_⟩
          rintro ⟨hfalse, _⟩
          cases hfalse
        | none =>
          dsimp only at hr
          rcases hreopen : w₁.getStreamOrThrow id with e | stream'
          · rw [writeAndFlush_error hreopen] at hr
            cases hr
            rw [hafter.accounted_iff]
            refine ⟨fun hnil => ⟨hfits, .inl hnil⟩, fun h => h.2.resolve_right ?_⟩
            rintro ⟨_, stream', hsome⟩
            cases hsome
          · exact ⟨fun _ => ⟨hfits, .inr ⟨rfl, stream', rfl⟩⟩,
              fun _ => hafter.writeAndFlush_open hwaits hreopen hr htrap⟩
      next hflush =>
        exact ⟨fun _ => ⟨hfits, .inr fun h => absurd h hflush⟩,
          fun _ => hcharged.writeAndFlush_open hwaits hopen' hr htrap⟩

/-! ## Splices -/

/-- A splice takes nothing off what remains. -/
theorem flow_body (out inp : Stream) (q : Nat) :
    ((w.flow out inp).nodes q).contentLength = (w.nodes q).contentLength ∧
      ((w.flow out inp).nodes q).bytesRemaining = (w.nodes q).bytesRemaining ∧
        ((w.flow out inp).nodes q).writableEnded = (w.nodes q).writableEnded := by
  have hdrop : ∀ q, ((w.setNode inp.node ((w.nodes inp.node).drop
      (w.nodes inp.node).buffer.length)).nodes q).contentLength = (w.nodes q).contentLength ∧
      ((w.setNode inp.node ((w.nodes inp.node).drop
        (w.nodes inp.node).buffer.length)).nodes q).bytesRemaining =
          (w.nodes q).bytesRemaining ∧
      ((w.setNode inp.node ((w.nodes inp.node).drop
        (w.nodes inp.node).buffer.length)).nodes q).writableEnded =
          (w.nodes q).writableEnded := by
    intro q
    rcases eq_or_ne q inp.node with rfl | hne
    · rw [nodes_setNode_self]
      exact ⟨rfl, rfl, rfl⟩
    · rw [nodes_setNode_of_ne hne]
      exact ⟨rfl, rfl, rfl⟩
  unfold flow
  dsimp only
  rcases eq_or_ne q out.node with rfl | hne
  · rcases contentLength_write ((w.setNode inp.node ((w.nodes inp.node).drop
      (w.nodes inp.node).buffer.length)).nodes out.node) (w.nodes inp.node).buffer with
      ⟨hlength, hremaining, hended⟩
    rw [nodes_setNode_self, hlength, hremaining, hended]
    exact hdrop out.node
  · rw [nodes_setNode_of_ne hne]
    exact hdrop q

theorem wire_flow (out inp : Stream) : ((w.flow out inp).nodes out.node).wire =
    if (w.nodes out.node).writableEnded then (w.nodes out.node).wire
    else (w.nodes out.node).wire ++ (w.nodes inp.node).buffer := by
  have hdrop : ((w.setNode inp.node ((w.nodes inp.node).drop
      (w.nodes inp.node).buffer.length)).nodes out.node).wire = (w.nodes out.node).wire := by
    rcases eq_or_ne out.node inp.node with heq | hne
    · rw [heq, nodes_setNode_self]
      rfl
    · rw [nodes_setNode_of_ne hne]
  unfold flow
  dsimp only
  rw [nodes_setNode_self, NodeStream.wire_write, (nodes_drop _ _ _).1, hdrop]

/-- A splice counts right exactly if it moves nothing into the body. -/
theorem splice_accounted_iff {len : UInt64} (h : Accounted id p L w) :
    Accounted id p L (w.outputStreamSplice id src len).2 ↔ MovesNothing id src len w := by
  rcases hout : w.getStreamOrThrow id with e | out
  · unfold outputStreamSplice
    rw [hout]
    refine ⟨fun _ out inp hsome => ?_, fun _ => h⟩
    rw [hout] at hsome
    cases hsome
  rcases hinp : w.getStreamOrThrow src with e | inp
  · unfold outputStreamSplice
    rw [hout, hinp]
    refine ⟨fun _ out inp _ hsome => ?_, fun _ => h⟩
    rw [hinp] at hsome
    cases hsome
  rw [MovesNothing, forall_open hout hinp]
  have hnode := h.node_eq hout
  by_cases hnothing : len = 0 ∨ (w.nodes inp.node).buffer = []
  · rw [outputStreamSplice_nothing hout hinp hnothing]
    refine ⟨fun _ => ?_, fun _ => h⟩
    rcases hnothing with hlen | hbuffer
    · exact .inl hlen
    · exact .inr (.inl hbuffer)
  · rw [not_or] at hnothing
    rcases hnothing with ⟨hlen, hbuffer⟩
    rcases flow_body (w := w) out inp p with ⟨hlength, hremaining, hfinished⟩
    cases hended : (w.nodes out.node).writableEnded
    · rw [outputStreamSplice_open hout hinp hlen hbuffer hended]
      -- what enters the body is not counted
      constructor
      · intro haccounted
        have hsame := haccounted.bytesRemaining
        have hwire := wire_flow (w := w) out inp
        rw [hended, if_neg Bool.false_ne_true] at hwire
        rw [hremaining, h.bytesRemaining, ← hnode, hwire] at hsame
        have hcount := Option.some.inj hsame
        rw [List.length_append] at hcount
        have := List.length_pos_iff.2 hbuffer
        omega
      · rintro (hzero | hnil | hfalse)
        · exact absurd hzero hlen
        · exact absurd hnil hbuffer
        · cases hfalse
    · obtain ⟨e, heq⟩ := outputStreamSplice_ended hout hinp hlen hbuffer hended
      rw [heq]
      refine ⟨fun _ => .inr (.inr rfl),
        fun _ => h.keeps ⟨h.entry, ?_, hlength, hremaining, hfinished⟩⟩
      rw [← hnode, wire_flow, hended, if_pos rfl]

theorem blockingSplice_accounted_iff {len : UInt64} (h : Accounted id p L w)
    (hwaits : WaitsKeep id p waits) {answer : Except Thrown Value}
    (hr : w.outputStreamBlockingSplice waits id src len = some (answer, w')) :
    Accounted id p L w' ↔ ∀ out inp, w.getStreamOrThrow id = .ok out →
      w.getStreamOrThrow src = .ok inp → (w.nodes inp.node).readable = true →
        ∀ w', w.drained waits id out = some (none, w') → MovesNothing id src len w' := by
  unfold outputStreamBlockingSplice at hr
  rcases hout : w.getStreamOrThrow id with e | out
  · rw [hout] at hr
    cases hr
    exact ⟨fun _ _ _ => nofun, fun _ => h⟩
  rcases hinp : w.getStreamOrThrow src with e | inp
  · rw [hout, hinp] at hr
    cases hr
    exact ⟨fun _ _ _ _ => nofun, fun _ => h⟩
  rw [hout, hinp] at hr
  rw [← hout, ← hinp, forall_open hout hinp]
  have hdrained : ∀ e w₁, w.drained waits id out = some (e, w₁) → Accounted id p L w₁ := by
    intro e w₁ hwait
    unfold drained at hwait
    split at hwait
    · exact h.keeps (hwaits.drain _ _ _ _ hwait)
    · cases hwait
      exact h
  rw [Option.bind_eq_some_iff] at hr
  -- it waits for the drain, which may fail, and then splices once
  rcases hr with ⟨⟨e, w₁⟩, hwait, hr⟩
  have hafter := hdrained e w₁ hwait
  cases e with
  | some e =>
    cases hr
    refine ⟨fun _ _ w₂ hwait' => ?_, fun _ => hafter⟩
    rw [hwait] at hwait'
    cases hwait'
  | none =>
    dsimp only at hr
    split at hr
    next hreadable =>
      have hw' : w' = (w₁.outputStreamSplice id src len).2 := by
        rw [Option.some.inj hr]
      rw [hw', splice_accounted_iff hafter]
      constructor
      · intro hnothing _ w₂ hwait'
        rw [hwait] at hwait'
        cases hwait'
        exact hnothing
      · exact fun hall => hall hreadable w₁ hwait
    next hreadable =>
      rw [Option.map_eq_some_iff] at hr
      rcases hr with ⟨⟨e, w₂⟩, hfailed, heq⟩
      cases heq
      exact ⟨fun _ hfalse => absurd hfalse hreadable,
        fun _ => hafter.keeps (hwaits.failed _ _ _ _ hfailed)⟩

/-! ## The end -/

/-- An open body is finished right, and one that has failed or was closed is not. -/
theorem finish_right_iff (h : Accounted id p L w) (hL : L ≤ 2 ^ 53)
    (htrap : (w.httpOutputStreamFinish id).1 ≠ .error .trap) :
    (Accounted id p L (w.httpOutputStreamFinish id).2 ∧
      FinishRight L (w.nodes p).wire.length (w.httpOutputStreamFinish id).1) ↔
      ∃ stream, w.getStreamOrThrow id = .ok stream := by
  have hfailed : ∀ message, ¬ FinishRight L (w.nodes p).wire.length
      (.error (.internalError message)) := by
    rintro message ⟨hiff, hsize⟩
    have hne : (w.nodes p).wire.length ≠ L := by
      intro heq
      cases hiff.2 heq
    cases hsize hne
  unfold httpOutputStreamFinish at htrap ⊢
  split at htrap <;> rename_i hopen <;> rw [hopen]
  · refine ⟨fun hright => absurd hright.2 (hfailed _), ?_⟩
    rintro ⟨_, hsome⟩
    cases hsome
  · refine ⟨fun hright => absurd hright.2 (hfailed _), ?_⟩
    rintro ⟨_, hsome⟩
    cases hsome
  · exact absurd rfl htrap
  next stream =>
    have hnode := h.node_eq hopen
    have hbound := h.bound
    refine ⟨fun _ => ⟨stream, rfl⟩, fun _ => ?_⟩
    dsimp only
    rw [hnode, h.bytesRemaining, h.contentLength, Integral.sub_some,
      number_of_natAbs_le (by omega)]
    by_cases hfull : (w.nodes p).wire.length = L
    · -- nothing remains
      have hnone : (positive (some ((L : Int) - (w.nodes p).wire.length - (0 : Nat))) ||
          negative (some ((L : Int) - (w.nodes p).wire.length - (0 : Nat)))) = false := by
        simp only [positive, negative, Bool.or_eq_false_iff, decide_eq_false_iff_not]
        omega
      rw [hnone, if_neg Bool.false_ne_true]
      refine ⟨⟨h.entry, ?_, ?_, ?_, ?_⟩, ⟨fun _ => hfull, fun _ => rfl⟩,
        fun hne => absurd hfull hne⟩
      · rw [nodes_setNode_self]
        exact h.contentLength
      · rw [nodes_setNode_self]
        exact h.bytesRemaining
      · rw [nodes_setNode_self]
        exact h.bound
      · rw [nodes_setNode_self]
        exact fun _ => hfull
    · have hsome : (positive (some ((L : Int) - (w.nodes p).wire.length - (0 : Nat))) ||
          negative (some ((L : Int) - (w.nodes p).wire.length - (0 : Nat)))) = true := by
        simp only [positive, Bool.or_eq_true, decide_eq_true_iff]
        omega
      rw [hsome, if_pos rfl]
      have hnot : Except.error (Thrown.requestBodySize (some ((L : Int) -
          ((L : Int) - (w.nodes p).wire.length - (0 : Nat))))) ≠ Except.ok Value.undefined := by
        intro hok
        cases hok
      refine ⟨h, ⟨fun hok => absurd hok hnot, fun heq => absurd heq hfull⟩, fun _ => ?_⟩
      have hsize : (L : Int) - ((L : Int) - (w.nodes p).wire.length - (0 : Nat)) =
          (w.nodes p).wire.length := by omega
      rw [hsize]

/-! ## Runs -/

/-- A step counts right exactly if it meets the condition. -/
theorem rightStep_iff {l : BodyStep} (hL : L ≤ 2 ^ 53) (h : Accounted id p L w)
    (hstep : bodyStep engine id p l w w') : RightStep id p L l w w' ↔ Meets id p L l w := by
  cases l with
  | meanwhile => exact ⟨fun _ => trivial, fun _ => h.keeps hstep⟩
  | call c waits answer =>
    rcases hstep with ⟨hwaits, hr, htrap⟩
    cases c with
    | write payload =>
      have heq : (answer, w') = w.outputStreamWrite .http id payload := (Option.some.inj hr).symm
      have hiff := write_accounted_iff h hL payload
      rw [← heq] at hiff
      exact hiff htrap
    | blockingWriteAndFlush payload => exact blockingWrite_accounted_iff h hL hwaits hr htrap
    | writeZeroes n =>
      by_cases hlen : number n.toNat ≤ engine.maxByteLength
      · have heq : (answer, w') = w.outputStreamWrite .http id (List.replicate n.toNat 0) := by
          rw [← outputStreamWriteZeroes_eq hlen]
          exact (Option.some.inj hr).symm
        have hiff := write_accounted_iff h hL (List.replicate n.toNat 0)
        rw [← heq] at hiff
        exact hiff htrap
      · -- there are no such zeros
        have heq := Option.some.inj hr
        unfold outputStreamWriteZeroes at heq
        rw [zeroes_eq_none hlen] at heq
        cases heq
        exact absurd rfl htrap
    | blockingWriteZeroesAndFlush n =>
      by_cases hlen : number n.toNat ≤ engine.maxByteLength
      · have heq : w.outputStreamBlockingWriteAndFlush waits .http id (List.replicate n.toNat 0) =
            some (answer, w') := by
          rw [← outputStreamBlockingWriteZeroesAndFlush_eq hlen]
          exact hr
        have hnil : List.replicate n.toNat (0 : UInt8) = [] ↔ n = 0 := by
          rw [List.replicate_eq_nil_iff, ← UInt64.toNat_inj, UInt64.toNat_zero]
        have hiff := blockingWrite_accounted_iff h hL hwaits heq htrap
        rw [hnil] at hiff
        exact hiff
      · have heq : w.outputStreamBlockingWriteZeroesAndFlush engine waits .http id n =
            some (answer, w') := hr
        unfold outputStreamBlockingWriteZeroesAndFlush at heq
        rw [zeroes_eq_none hlen] at heq
        cases heq
        exact absurd rfl htrap
    | splice s len =>
      cases hr
      exact ⟨fun _ => trivial, fun _ => h⟩
    | blockingSplice s len => exact blockingSplice_accounted_iff h hwaits hr
    | finish =>
      have heq : (answer, w') = w.httpOutputStreamFinish id := (Option.some.inj hr).symm
      have hiff := finish_right_iff h hL
      rw [← heq] at hiff
      exact hiff htrap

theorem createBody_accounted (streamCnt : Nat) :
    Accounted (streamCnt + 1) p L (w.createBody streamCnt p L) := by
  have hself : (w.createBody streamCnt p L).nodes p = .passThrough L := Function.update_self _ _ _
  refine ⟨?_, ?_, ?_, ?_, ?_⟩
  · intro stream hstream
    have hentry : (w.createBody streamCnt p L).streams (streamCnt + 1) = some { node := p } :=
      Function.update_self _ _ _
    rw [hentry] at hstream
    cases hstream
    rfl
  · rw [hself]
    rfl
  · rw [hself]
    change some (L : Int) = some ((L : Int) - (0 : Nat) - (0 : Nat))
    congr 1
  · rw [hself]
    exact Nat.zero_le L
  · rw [hself]
    intro hended
    cases hended

theorem RightStep.accounted {l : BodyStep} (h : RightStep id p L l w w') : Accounted id p L w' := by
  cases l with
  | meanwhile => exact h
  | call c waits answer =>
    cases c with
    | finish => exact h.1
    | _ => exact h

/-- The runs in which every step counts right are those in which every step meets the condition. -/
theorem counted_run_iff (engine : Engine) (w : Worker) (streamCnt p L : Nat) (hL : L ≤ 2 ^ 53)
    (ls : List BodyStep) (w' : Worker) :
    Run (fun l s s' => bodyStep engine (streamCnt + 1) p l s s' ∧
        RightStep (streamCnt + 1) p L l s s') (w.createBody streamCnt p L) ls w' ↔
      Run (guarded (Meets (streamCnt + 1) p L) (bodyStep engine (streamCnt + 1) p))
        (w.createBody streamCnt p L) ls w' := by
  have hiff : ∀ l s s', Accounted (streamCnt + 1) p L s →
      bodyStep engine (streamCnt + 1) p l s s' →
        (RightStep (streamCnt + 1) p L l s s' ↔ Meets (streamCnt + 1) p L l s) := by
    intro l s s' h hstep
    exact rightStep_iff hL h hstep
  refine Run.good_iff_guarded hiff ?_ (createBody_accounted streamCnt)
  intro l s s' _ _ hright
  exact hright.accounted

/-- Nothing is waited for. -/
def noWaits : Waits :=
  ⟨fun _ _ => none, fun _ _ => none, fun _ _ => none, fun _ _ => none, fun _ _ => none⟩

theorem noWaits_keep : WaitsKeep id p noWaits := ⟨nofun, nofun, nofun, nofun⟩

def smallEngine : Engine := ⟨2 ^ 32, by decide⟩

/-- A body of five bytes that are written at once. -/
theorem counted_run_five : ∃ w', Run (fun l s s' => bodyStep smallEngine 2 1 l s s' ∧
    RightStep 2 1 5 l s s') (fiveBytes.createBody 1 1 5)
      [.call (.write [1, 2, 3, 4, 5]) noWaits (.ok .undefined),
        .call .finish noWaits (.ok .undefined)] w' := by
  refine ⟨_, (counted_run_iff smallEngine fiveBytes 1 1 5 (by decide) _ _).2
    (.cons ⟨?_, noWaits_keep, rfl, by decide⟩ (.cons ⟨?_, noWaits_keep, rfl, by decide⟩ (.nil _)))⟩
  · intro stream _
    decide
  · exact ⟨_, rfl⟩

/-- A write of six bytes to a body of five is counted and not written. -/
theorem six_bytes : ¬ ∀ (engine : Engine) (w : Worker) (streamCnt p L : Nat), L ≤ 2 ^ 53 →
    ∀ (ls : List BodyStep) (w' : Worker),
      Run (bodyStep engine (streamCnt + 1) p) (w.createBody streamCnt p L) ls w' →
      Run (fun l s s' => bodyStep engine (streamCnt + 1) p l s s' ∧
        RightStep (streamCnt + 1) p L l s s') (w.createBody streamCnt p L) ls w' := by
  intro h
  have hstep : bodyStep smallEngine 2 1 (.call (.write [1, 2, 3, 4, 5, 6]) noWaits
      ((fiveBytes.createBody 1 1 5).methodWrite .http 2 [1, 2, 3, 4, 5, 6]).1)
      (fiveBytes.createBody 1 1 5)
      ((fiveBytes.createBody 1 1 5).methodWrite .http 2 [1, 2, 3, 4, 5, 6]).2 :=
    ⟨noWaits_keep, rfl, by decide⟩
  have hright := h smallEngine fiveBytes 1 1 5 (by decide) _ _ (.cons hstep (.nil _))
  have hstart : Accounted 2 1 5 (fiveBytes.createBody 1 1 5) := createBody_accounted 1
  have hiff := write_accounted_iff hstart (by decide) [1, 2, 3, 4, 5, 6] (by decide)
  rcases hright with _ | ⟨hgood, _ | _⟩
  exact absurd (hiff.1 hgood.2.accounted _ rfl) (by decide)

end Worker

end Jco.Preview2.Io

import Mathlib.Data.List.Basic
import Jco.Js.Number
import Jco.Js.Bytes

/-! # Streams of Node

What the worker uses of the streams of Node, as they are documented: `read` takes from the
internal buffer, which the source fills between the calls, and `write` takes a chunk over. A
stream has both sides here; of a file or a body only one is used.
-/

namespace Jco.Preview2.Io

open Jco.Js

/-- An `Error`, by its message. -/
structure NodeError where
  message : String
deriving DecidableEq, Repr

/-- `wire` is all that the stream has accepted, and `contentLength` and `bytesRemaining` are the
properties the worker adds to the stream of an outgoing body. -/
structure NodeStream where
  buffer : Bytes := []
  /-- The source has no more. -/
  ended : Bool := false
  readableEnded : Bool := false
  destroyed : Bool := false
  writableHighWaterMark : Nat := 65536
  writableLength : Nat := 0
  needDrain : Bool := false
  writableEnded : Bool := false
  wire : Bytes := []
  errored : Option NodeError := none
  closed : Bool := false
  /-- `stdout` or `stderr` of the worker. -/
  stdio : Bool := false
  contentLength : Integral := none
  bytesRemaining : Integral := none
  /-- The end is told when all has been read. -/
  buffer_ended : readableEnded = true → buffer = []

namespace NodeStream

variable (s : NodeStream)

/-! ## Reading -/

/-- It is safe to call `read`. -/
def readable : Bool := !s.destroyed && !s.readableEnded && s.errored.isNone

/-- How much `read` takes: all there is where the size is `NaN`. -/
def howMuchToRead : Integral → Nat
  | none => s.buffer.length
  | some n =>
    if n ≤ 0 then 0
    else if n ≤ s.buffer.length then n.toNat
    else if s.ended then s.buffer.length
    else 0

theorem drop_ended (n : Nat) : s.readableEnded = true → s.buffer.drop n = [] := by
  intro h
  rw [s.buffer_ended h, List.drop_nil]

/-- The stream without the first `n` bytes of its buffer. -/
def drop (n : Nat) : NodeStream :=
  { s with buffer := s.buffer.drop n, buffer_ended := s.drop_ended n }

/-- `read(size)`; `none` is `null`. -/
def read (size : Integral) : Option Bytes × NodeStream :=
  let n := s.howMuchToRead size
  if n = 0 then (none, s) else (some (s.buffer.take n), s.drop n)

@[simp] theorem drop_zero : s.drop 0 = s := rfl

@[simp] theorem buffer_drop (n : Nat) : (s.drop n).buffer = s.buffer.drop n := rfl

/-- Without a size everything is read. -/
theorem read_nan :
    s.read none = if s.buffer = [] then (none, s) else (some s.buffer, s.drop s.buffer.length) := by
  unfold read howMuchToRead
  dsimp only
  rw [List.take_length]
  by_cases h : s.buffer = []
  · rw [if_pos h, if_pos (List.length_eq_zero_iff.2 h)]
  · rw [if_neg h, if_neg (mt List.length_eq_zero_iff.1 h)]

/-- Nothing is read of an empty buffer. -/
theorem read_nil (h : s.buffer = []) (size : Integral) : s.read size = (none, s) := by
  have hnone : s.howMuchToRead size = 0 := by
    cases size with
    | none => rw [howMuchToRead, h, List.length_nil]
    | some n =>
      rw [howMuchToRead, h, List.length_nil]
      split
      · rfl
      · rw [if_neg (by omega), ite_self]
  unfold read
  dsimp only
  rw [if_pos hnone]

/-! ## Writing -/

/-- The bytes that may be written, less than none where too many were. -/
def permit : Int := s.writableHighWaterMark - s.writableLength

/-- The chunk is taken over. -/
def accept (chunk : Bytes) : NodeStream :=
  { s with
    wire := s.wire ++ chunk
    writableLength := s.writableLength + chunk.length
    needDrain := s.needDrain || s.writableHighWaterMark ≤ s.writableLength + chunk.length }

/-- `write(chunk)`. A stream that was ended fails. -/
def write (chunk : Bytes) : NodeStream :=
  if s.writableEnded then { s with errored := some { message := "write after end" } }
  else s.accept chunk

def writableNeedDrain : Bool := !s.destroyed && !s.writableEnded && s.needDrain

@[simp] theorem buffer_accept (chunk : Bytes) : (s.accept chunk).buffer = s.buffer := rfl

@[simp] theorem wire_accept (chunk : Bytes) : (s.accept chunk).wire = s.wire ++ chunk := rfl

@[simp] theorem errored_accept (chunk : Bytes) : (s.accept chunk).errored = s.errored := rfl

theorem write_open (h : s.writableEnded = false) (chunk : Bytes) :
    s.write chunk = s.accept chunk := by
  rw [write, h, if_neg Bool.false_ne_true]

theorem wire_write (chunk : Bytes) :
    (s.write chunk).wire = if s.writableEnded then s.wire else s.wire ++ chunk := by
  unfold write
  split <;> rfl

@[simp] theorem buffer_write (chunk : Bytes) : (s.write chunk).buffer = s.buffer := by
  unfold write
  split <;> rfl

end NodeStream

end Jco.Preview2.Io

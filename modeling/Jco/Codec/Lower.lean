import Mathlib
import Jco.Codec.Lift

/-! # Lowering to memory

The strings of `LowerFlat*`, with a context that has a memory and a pointer and
neither direct parameters nor a storage limit.
-/

namespace Jco.Codec

open Jco.Js (JsError)
open Jco.Stream Jco.Lib

/-- What ends a lowering early: an exception, or a trap of the guest's allocator. -/
inductive Stop where
  | throws (e : JsError)
  | traps
deriving DecidableEq, Repr

/-- A lowering leaves in the memory what it wrote before it stopped. -/
def LowerM (α : Type) : Type := Memory → Except Stop α × Memory

namespace LowerM

variable {α β : Type}

instance : Monad LowerM where
  pure a := fun m => (.ok a, m)
  bind x f := fun m =>
    match x m with
    | (.ok a, m') => f a m'
    | (.error e, m') => (.error e, m')

theorem bind_def (x : LowerM α) (f : α → LowerM β) (m : Memory) :
    (x >>= f) m =
      match x m with | (.ok a, m') => f a m' | (.error e, m') => (.error e, m') := rfl

theorem run_ok {x : LowerM α} {f : α → LowerM β} {m m' : Memory} {a : α}
    (h : x m = (.ok a, m')) : (x >>= f) m = f a m' := by
  rw [bind_def, h]

theorem run_error {x : LowerM α} {f : α → LowerM β} {m m' : Memory} {e : Stop}
    (h : x m = (.error e, m')) : (x >>= f) m = (.error e, m') := by
  rw [bind_def, h]

def throws (e : JsError) : LowerM α := fun m => (.error (.throws e), m)

def ofExcept : Except JsError α → LowerM α
  | .ok a => pure a
  | .error e => throws e

/-- `dv.setUint8(p, …)` and its kind -/
def store (p : Nat) (bs : List UInt8) : LowerM Unit := fun m =>
  match m.setBytes p bs with
  | none => (.error (.throws .engine), m)
  | some m' => (.ok (), m')

theorem store_ok {p : Nat} {bs : List UInt8} {m m' : Memory} (h : m.setBytes p bs = some m') :
    store p bs m = (.ok (), m') := by
  unfold store
  rw [h]

/-- `ctx.realloc(0, 0, align, size)` -/
def realloc (env : Env) (missing : String) (align size : Nat) : LowerM Int :=
  match env.realloc with
  | none => throws (.error missing)
  | some f => fun m =>
    match f m align (size % 2 ^ 32) with
    | (m', none) => (.error .traps, m')
    | (m', some ptr) => (.ok ptr, m')

end LowerM

open LowerM

/-- A lower function of a value and the pointer, with the pointer afterwards. -/
abbrev Lowerer := Val → Nat → LowerM Nat

section

/-! ## Primitives -/

/-- Align the pointer and put a number of `k` bytes there. -/
def lowerWord (k : Nat) (n : Int) (p : Nat) : LowerM Nat := do
  let ptr := alignTo p k
  store ptr (LittleEndian.bytes k (LittleEndian.word k n))
  return ptr + k

/-! ## Strings -/

/-- The text that `TextEncoder` encodes: an unpaired surrogate is replaced. -/
def textOf : Val → Option Utf8.Text
  | .str s => some s.toList
  | .atom (.surrogate _) => some [Utf8.replacement]
  | _ => none

/-- The code units of a text in UTF-16. -/
def codeUnits (t : Utf8.Text) : List Nat :=
  t.flatMap fun c =>
    if c.toNat < 0x10000 then [c.toNat]
    else [0xD800 + (c.toNat - 0x10000) / 0x400, 0xDC00 + (c.toNat - 0x10000) % 0x400]

/-- The code units of a string value. -/
def unitsOf : Val → Option (List Nat)
  | .str s => some (codeUnits s.toList)
  | .atom (.surrogate unit) => some [unit]
  | _ => none

def missingRealloc : String := "missing realloc during flat string lower"

/-- Bytes go to a pointer that the allocator answered. -/
def storeAt (ptr : Int) (bs : List UInt8) : LowerM Unit :=
  if ptr < 0 then throws .engine else store ptr.toNat bs

/-- `_utf8AllocateAndEncode`: pointer and length. -/
def utf8Encode (env : Env) (v : Val) : LowerM (Int × Nat) :=
  match textOf v with
  | none => throws (.typeError s!"expected a string, received [{v.typeof}]")
  | some [] => return (1, 0)
  | some t => do
      let buf := Utf8.encode t
      let ptr ← realloc env missingRealloc 1 buf.length
      storeAt ptr buf
      return (ptr, buf.length)

/-- `_utf16AllocateAndEncode`: pointer and length in code units. -/
def utf16Encode (env : Env) (v : Val) : LowerM (Int × Nat) :=
  match unitsOf v with
  | none => throws .engine
  | some units => do
      let ptr ← realloc env missingRealloc 2 (units.length * 2)
      if ptr % 2 ≠ 0 then throws .engine
      storeAt ptr (units.flatMap (LittleEndian.bytes 2))
      return (ptr, units.length)

/-- Pointer and length at `p`; the pointer is not aligned before. -/
def lowerPair (p : Nat) (ptr : Int) (len : Nat) : LowerM Nat := do
  store p (LittleEndian.bytes 4 (LittleEndian.word 4 ptr))
  store (p + 4) (LittleEndian.bytes 4 (LittleEndian.word 4 len))
  return p + 8

def lowerFlatStringUtf8 (env : Env) : Lowerer := fun v p => do
  if env.realloc.isNone then throws (.error missingRealloc)
  let (ptr, len) ← utf8Encode env v
  lowerPair p ptr len

def lowerFlatStringUtf16 (env : Env) : Lowerer := fun v p => do
  if env.realloc.isNone then throws (.error missingRealloc)
  let (ptr, len) ← utf16Encode env v
  lowerPair p ptr len

def lowerFlatStringAny (env : Env) : Lowerer := fun v p =>
  match env.stringEncoding with
  | .utf8 => lowerFlatStringUtf8 env v p
  | .utf16 => lowerFlatStringUtf16 env v p
  | enc =>
    throws (.error s!"missing/unrecognized/unsupported string encoding [{enc.literal}]")

end

end Jco.Codec

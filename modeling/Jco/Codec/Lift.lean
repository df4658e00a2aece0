import Mathlib
import Jco.Codec.Memory

/-! # Lifting from memory

The `LiftFlat*` intrinsics with a context whose `useDirectParams` is off, and the
function that `gen_flat_lift_fn_js_expr` puts together for a type.
-/

namespace Jco.Codec

open Jco.Js (JsError)
open Jco.Stream Jco.Lib

/-- The fields of a lift context that lifting moves. -/
structure Cursor where
  storagePtr : Nat
  /-- The bytes that may still be read; undefined without a limit. -/
  storageLen : Option Int
deriving DecidableEq, Repr

/-- A lift function: the value and the context afterwards. -/
abbrev Lifter := Memory → Cursor → Except JsError (Val × Cursor)

/-- Take bytes at the pointer, if the storage has as many left. -/
def liftBytes (what : String) (count : Nat) (m : Memory) (c : Cursor) :
    Except JsError (List UInt8 × Cursor) :=
  match c.storageLen with
  | none => do
      let bs ← getBytes m c.storagePtr count
      return (bs, ⟨c.storagePtr + count, none⟩)
  | some len =>
    if len < count then
      .error (.error s!"insufficient storage ([{len}] bytes) for lift ({what})")
    else do
      let bs ← getBytes m c.storagePtr count
      return (bs, ⟨c.storagePtr + count, some (len - count)⟩)

/-! ## Primitives -/

def liftFlatBool : Lifter := fun m c => do
  let (bs, c) ← liftBytes "bool requires 1 byte" 1 m c
  return (.bool (LittleEndian.value bs = 1), c)

/-- The signed integers, which only move on. -/
def liftSigned (ty : IntTy) (what : String) : Lifter := fun m c => do
  let (bs, c) ← liftBytes what ty.bytes m c
  return (.ofInt ty (ty.ofWord (LittleEndian.value bs)), c)

def liftFlatS8 : Lifter := liftSigned .s8 "s8 requires 1 byte"

def liftFlatS16 : Lifter := liftSigned .s16 "s16 requires 2 bytes"

def liftFlatS32 : Lifter := liftSigned .s32 "s32 requires 4 bytes"

def liftFlatS64 : Lifter := liftSigned .s64 "s64 requires 8 bytes"

/-- `_liftFlatU8`, for its number. -/
def liftU8 (m : Memory) (c : Cursor) : Except JsError (Nat × Cursor) := do
  let (bs, c) ← liftBytes "u8 requires 1 byte" 1 m c
  return (LittleEndian.value bs, c)

/-- `_liftFlatU16`, for its number. -/
def liftU16 (m : Memory) (c : Cursor) : Except JsError (Nat × Cursor) := do
  let (bs, c) ← liftBytes "u16 requires 2 bytes" 2 m c
  return (LittleEndian.value bs, { c with storagePtr := alignTo c.storagePtr 2 })

/-- `_liftFlatU32`, for its number. -/
def liftU32 (m : Memory) (c : Cursor) : Except JsError (Nat × Cursor) := do
  let (bs, c) ← liftBytes "u32 requires 4 bytes" 4 m c
  return (LittleEndian.value bs, c)

def liftFlatU8 : Lifter := fun m c => do
  let (n, c) ← liftU8 m c
  return (.num n, c)

def liftFlatU16 : Lifter := fun m c => do
  let (n, c) ← liftU16 m c
  return (.num n, c)

def liftFlatU32 : Lifter := fun m c => do
  let (n, c) ← liftU32 m c
  return (.num n, c)

def liftFlatU64 : Lifter := liftSigned .u64 "u64 requires 8 bytes"

def liftFloat (ty : FloatTy) (what : String) : Lifter := fun m c => do
  let (bs, c) ← liftBytes what ty.bytes m c
  return (.float ty (ty.canon (LittleEndian.value bs)), c)

def liftFlatFloat32 : Lifter := liftFloat .f32 "f32 requires 4 bytes"

def liftFlatFloat64 : Lifter := liftFloat .f64 "f64 requires 8 bytes"

/-- `String.fromCharCode(n)` -/
def fromCharCode (n : Nat) : Val :=
  let unit := n % 2 ^ 16
  if 0xD800 ≤ unit ∧ unit ≤ 0xDFFF then .atom (.surrogate unit)
  else .str (.ofList [Char.ofNat unit])

/-- `i32ToChar` of a number -/
def i32ToChar (n : Nat) : Except JsError Val :=
  if n = 0 then .error (.error "invalid i32")
  else if 0x110000 ≤ n then .error (.error "invalid i32, out of range")
  else if 0xD800 ≤ n ∧ n ≤ 0xDFFF then .error (.error "invalid i32 out of range")
  else .ok (fromCharCode n)

def liftFlatChar : Lifter := fun m c => do
  let (bs, c) ← liftBytes "char requires 4 bytes" 4 m c
  let v ← i32ToChar (LittleEndian.value bs)
  return (v, c)

/-! ## Strings -/

/-- `dv.getUint32(p, true)` -/
def getUint32 (m : Memory) (p : Nat) : Except JsError Nat := do
  let bs ← getBytes m p 4
  return LittleEndian.value bs

/-- The storage length is left alone: the assignment goes to `ctx.storagelen`. -/
def liftFlatStringUtf8 : Lifter := fun m c => do
  let ptr := alignTo c.storagePtr 4
  let start ← getUint32 m ptr
  let codeUnits ← getUint32 m (ptr + 4)
  let bs ← getBytes m start codeUnits
  return (.str (.ofList (Utf8.decode bs)), { c with storagePtr := ptr + 8 })

/-- Off direct parameters the function reads a variable that does not exist. -/
def liftFlatStringUtf16 : Lifter := fun _ _ => .error .engine

def liftFlatStringAny (env : Env) : Lifter := fun m c =>
  match env.stringEncoding with
  | .utf8 => liftFlatStringUtf8 m c
  | .utf16 => liftFlatStringUtf16 m c
  | enc => .error (.error s!"missing/unrecognized/unsupported string encoding [{enc.literal}]")

/-! ## Records and tuples -/

/-- `[key, liftFn, size32, align32]` -/
structure FieldLift where
  key : String
  liftFn : Lifter
  size32 : Nat
  align32 : Nat

/-- The loop over the fields: each starts aligned and takes at least its size, and
the storage that is left counts its size alone. -/
def liftFields : List FieldLift → Memory → Cursor → Except JsError (List (String × Val) × Cursor)
  | [], _, c => .ok ([], c)
  | f :: fs, m, c => do
      let fieldPtr := alignTo c.storagePtr f.align32
      let (v, c') ← f.liftFn m ⟨fieldPtr, c.storageLen⟩
      let (vs, c'') ← liftFields fs m
        ⟨max c'.storagePtr (fieldPtr + f.size32), c.storageLen.map (· - f.size32)⟩
      return ((f.key, v) :: vs, c'')

/-- The end of a record or a tuple that began at `originalPtr`. -/
def endOfFields (originalPtr size32 align32 : Nat) (c : Cursor) : Cursor :=
  { c with storagePtr := alignTo (max c.storagePtr (originalPtr + size32)) align32 }

def liftFlatRecord (fieldMetas : List FieldLift) (size32 align32 : Nat) : Lifter := fun m c => do
  let (vs, c') ← liftFields fieldMetas m c
  return (.objectOf vs, endOfFields c.storagePtr size32 align32 c')

/-- The elements of a tuple have no key. -/
def liftFlatTuple (elemLiftFns : List FieldLift) (size32 align32 : Nat) : Lifter := fun m c => do
  let (vs, c') ← liftFields elemLiftFns m c
  return (.arr none (vs.map (·.2)), endOfFields c.storagePtr size32 align32 c')

/-! ## Cases -/

/-- `[tag, liftFn, …]`, and what the function is given besides the cases. -/
structure VariantLift where
  caseMetas : List (String × Option Lifter)
  variantSize32 : Nat
  variantAlign32 : Nat
  variantPayloadOffset32 : Nat

/-- The discriminant by the number of cases. -/
def liftDiscriminant (numCases : Nat) (m : Memory) (c : Cursor) :
    Except JsError (Nat × Cursor) :=
  if numCases < 256 then liftU8 m c
  else if numCases < 65536 then liftU16 m c
  else if numCases < 4294967296 then liftU32 m c
  else .error (.error s!"unsupported number of variant cases [{numCases}]")

def liftFlatVariant (variant : VariantLift) : Lifter := fun m c => do
  let (caseIdx, c') ← liftDiscriminant variant.caseMetas.length m c
  match variant.caseMetas[caseIdx]? with
  | none => .error .engine
  | some (tag, none) =>
    let ptr := c.storagePtr + variant.variantSize32
    return (.obj [("tag", .str tag)], { c' with storagePtr := alignTo ptr variant.variantAlign32 })
  | some (tag, some liftFn) =>
    let (val, c'') ← liftFn m { c' with storagePtr := c.storagePtr + variant.variantPayloadOffset32 }
    return (.obj [("tag", .str tag), ("val", val)],
      { c'' with storagePtr := alignTo c''.storagePtr variant.variantAlign32 })

/-- The tag instead of the object. -/
def liftFlatEnum (variant : VariantLift) : Lifter := fun m c => do
  let (v, c) ← liftFlatVariant variant m c
  return (v.prop "tag", c)

def liftFlatOption (variant : VariantLift) : Lifter := liftFlatVariant variant

def liftFlatResult (variant : VariantLift) : Lifter := liftFlatVariant variant

/-- The object of flags that the low bits of a word spell. -/
def liftNames : List String → Nat → List (String × Val)
  | [], _ => []
  | name :: names, bits => (name, .bool (bits % 2 = 1)) :: liftNames names (bits / 2)

/-- The bytes that flags are given. -/
def intSizeBytes (count : Nat) : Nat := if count ≤ 8 then 1 else if count ≤ 16 then 2 else 4

def liftFlatFlags (names : List String) (align32 : Nat) : Lifter := fun m c => do
  let (bits, c) ←
    if intSizeBytes names.length = 1 then liftU8 m c
    else if intSizeBytes names.length = 2 then liftU16 m c
    else liftU32 m c
  return (.objectOf (liftNames names bits), { c with storagePtr := alignTo c.storagePtr align32 })

/-! ## Lists and maps -/

structure ListLift where
  elemLiftFn : Lifter
  elemSize32 : Nat
  knownLen : Option Nat
  typedArray : Option TypedArray

/-- The loop of `readValuesAndReset` from element `i` on. -/
def readValues (elemLiftFn : Lifter) (elemSize32 : Nat) (m : Memory) (dataPtr : Nat) :
    (count i : Nat) → Cursor → Except JsError (List Val × Cursor)
  | 0, _, c => .ok ([], c)
  | count + 1, i, c => do
      let elemPtr := dataPtr + i * elemSize32
      let (v, c') ← elemLiftFn m ⟨elemPtr, c.storageLen⟩
      let (vs, c'') ← readValues elemLiftFn elemSize32 m dataPtr count (i + 1)
        { c' with storagePtr := max c'.storagePtr (elemPtr + elemSize32) }
      return (v :: vs, c'')

def liftFlatList (list : ListLift) : Lifter := fun m c =>
  match list.knownLen with
  | some knownLen => do
      let (vs, c') ← readValues list.elemLiftFn list.elemSize32 m c.storagePtr knownLen 0
        { c with storageLen := some (knownLen * list.elemSize32 : Nat) }
      return (.arr list.typedArray vs, ⟨c'.storagePtr, c.storageLen⟩)
  | none => do
      let (dataPtr, c₁) ← liftU32 m { c with storageLen := some 8 }
      let (len, c₂) ← liftU32 m c₁
      let (vs, _) ← readValues list.elemLiftFn list.elemSize32 m dataPtr len 0
        ⟨dataPtr, some (len * list.elemSize32 : Nat)⟩
      return (.arr list.typedArray vs, ⟨c₂.storagePtr, c.storageLen⟩)

structure MapLift where
  keyLiftFn : Lifter
  valueLiftFn : Lifter
  entrySize32 : Nat
  valueOffset32 : Nat

/-- The loop of `readEntriesAndReset` from entry `i` on. -/
def readEntries (map : MapLift) (m : Memory) (dataPtr : Nat) :
    (count i : Nat) → Option Int → Except JsError (List (Val × Val))
  | 0, _, _ => .ok []
  | count + 1, i, len => do
      let entryPtr := dataPtr + i * map.entrySize32
      let (key, c) ← map.keyLiftFn m ⟨entryPtr, len⟩
      let (value, c') ← map.valueLiftFn m { c with storagePtr := entryPtr + map.valueOffset32 }
      let es ← readEntries map m dataPtr count (i + 1) c'.storageLen
      return ((key, value) :: es)

def liftFlatMap (map : MapLift) : Lifter := fun m c => do
  let (dataPtr, c₁) ← liftU32 m { c with storageLen := some 8 }
  let (len, c₂) ← liftU32 m c₁
  let es ← readEntries map m dataPtr len 0 (some (len * map.entrySize32 : Nat))
  return (.mapOf es, ⟨c₂.storagePtr, c.storageLen⟩)

/-! ## Handles -/

def liftFlatOwn (env : Env) (ty : HandleTy) : Lifter := fun m c => do
  let (handle, c) ← liftU32 m c
  let v ← env.liftHandle ty handle
  return (v, c)

def liftFlatBorrow : Lifter := fun _ _ =>
  .error (.error "flat lift for borrowed resources is not supported!")

def liftFlatFuture (env : Env) (ty : HandleTy) : Lifter := liftFlatOwn env ty

def liftFlatStream (env : Env) (ty : HandleTy) : Lifter := fun m c => do
  let (waitableIdx, c) ← liftU32 m c
  if waitableIdx = 0 then .error (.error "missing stream idx")
  else do
    let v ← env.liftHandle ty waitableIdx
    return (v, c)

def liftFlatErrorContext : Lifter := fun _ _ =>
  .error (.error "indirect flat lift for error-contexts not yet implemented!")

/-! ## The lift function of a type -/

/-- `js_typed_array_ctor` -/
def typedArrayCtor : Ty → Option TypedArray
  | .int ty => some (.ints ty)
  | .float ty => some (.floats ty)
  | _ => none

/-- The lift function of an integer type. -/
def liftFlatInt : IntTy → Lifter
  | .s8 => liftFlatS8
  | .u8 => liftFlatU8
  | .s16 => liftFlatS16
  | .u16 => liftFlatU16
  | .s32 => liftFlatS32
  | .u32 => liftFlatU32
  | .s64 => liftFlatS64
  | .u64 => liftFlatU64

def liftFlatFloat : FloatTy → Lifter
  | .f32 => liftFlatFloat32
  | .f64 => liftFlatFloat64

def liftFlatHandle (env : Env) : HandleTy → Lifter
  | .own idx => liftFlatOwn env (.own idx)
  | .borrow _ => liftFlatBorrow
  | .future idx => liftFlatFuture env (.future idx)
  | .stream idx => liftFlatStream env (.stream idx)
  | .errorContext _ => liftFlatErrorContext

def liftFlatCases : CaseKind → VariantLift → Lifter
  | .variant => liftFlatVariant
  | .enum => liftFlatEnum
  | .option => liftFlatOption
  | .result => liftFlatResult

/-- `gen_flat_lift_fn_js_expr` -/
def genLift (env : Env) : Ty → Lifter
  | .bool => liftFlatBool
  | .int ty => liftFlatInt ty
  | .float ty => liftFlatFloat ty
  | .char => liftFlatChar
  | .string => liftFlatStringAny env
  | .record names tys =>
    liftFlatRecord
      (List.ofFn fun i => ⟨names i, genLift env (tys i), (tys i).size, (tys i).align⟩)
      (Ty.record names tys).size (Ty.record names tys).align
  | .tuple tys =>
    liftFlatTuple (List.ofFn fun i => ⟨"", genLift env (tys i), (tys i).size, (tys i).align⟩)
      (Ty.tuple tys).size (Ty.tuple tys).align
  | .tagged kind names payload tys =>
    liftFlatCases kind
      { caseMetas := List.ofFn fun i => (names i, (payload i).map fun j => genLift env (tys j))
        variantSize32 := (Ty.tagged kind names payload tys).size
        variantAlign32 := (Ty.tagged kind names payload tys).align
        variantPayloadOffset32 := (Ty.caseLayout payload tys).payloadOffset }
  | .flags names => liftFlatFlags names (Ty.flags names).align
  | .list elem => liftFlatList ⟨genLift env elem, elem.size, none, typedArrayCtor elem⟩
  | .fixedList elem len => liftFlatList ⟨genLift env elem, elem.size, some len, none⟩
  | .map key value =>
    liftFlatMap ⟨genLift env key, genLift env value, (Ty.entryLayout key value).size,
      Ty.valueOffset key value⟩
  | .handle ty => liftFlatHandle env ty

end Jco.Codec

import Mathlib
import Jco.Lib.Collect

/-! # Generated lowering functions

`gen_flat_lower_fn_js_expr` writes the expression of the function that lowers a type, and
`gen_flat_lift_fn_js_expr` that of the one that lifts it. Both go down the type, and look up
a handle in the tables of the instantiator first, then in a map that the caller passes on.

The expressions are trees. Of the functions that are written for a resource the tree has
which of them it is, and the names and numbers in it. The intrinsics that are noted for the
module are left out.

1. Types, tables and expressions.
2. `gen_flat_lift_fn_js_expr` and `gen_flat_lower_fn_js_expr`.
-/

namespace Jco.Bindgen.FlatLower

open Jco.Lib

/-! ## Types -/

/-- The types without parts. -/
inductive Prim where
  | bool | s8 | u8 | s16 | u16 | s32 | u32 | s64 | u64 | float32 | float64 | char | string
deriving DecidableEq, Repr

/-- `InterfaceType`, with what the tables have for its indices. A future or a stream is of a
payload, or `empty`. -/
inductive InterfaceType where
  | prim (ty : Prim)
  | record {n : Nat} (names : Fin n → String) (tys : Fin n → InterfaceType)
  | variant (payloadOffset32 : Nat) {n k : Nat} (names : Fin n → String)
      (payload : Fin n → Option (Fin k)) (tys : Fin k → InterfaceType)
  | list (element : InterfaceType)
  | fixedLengthList (element : InterfaceType) (size : Nat)
  | tuple {n : Nat} (tys : Fin n → InterfaceType)
  | flags (names : List String)
  | enum (payloadOffset32 : Nat) (names : List String)
  | option (payloadOffset32 : Nat) (ty : InterfaceType)
  | result (payloadOffset32 : Nat) {k : Nat} (ok err : Option (Fin k)) (tys : Fin k → InterfaceType)
  | own (componentIdx resourceIdx : Nat)
  | borrow (tableIdx : Nat)
  | future (tableIdx componentIdx : Nat) (payload : InterfaceType)
  | emptyFuture (tableIdx componentIdx : Nat)
  | stream (tableIdx componentIdx : Nat) (payload : InterfaceType)
  | emptyStream (tableIdx componentIdx : Nat)
  | errorContext (tableIdx : Nat)
  | map (entrySize32 entryAlign32 valueOffset32 : Nat) (key value : InterfaceType)

/-- `CanonicalAbiInfo` -/
structure CanonicalAbiInfo where
  size32 : Nat
  align32 : Nat
  flatCount : Option Nat
deriving DecidableEq, Repr

/-! ## Resources -/

abbrev TypeId := Nat

/-- `ResourceData`. Of the extra data of a guest's only that there are some is kept. -/
inductive ResourceData where
  | host (tid rid : Nat) (localName : String) (dtorName : Option String)
  | guest (resourceName : String) (pre : Option String) (extra : Bool)
deriving DecidableEq, Repr

/-- `ResourceTable` -/
structure ResourceTable where
  imported : Bool
  data : ResourceData
deriving DecidableEq, Repr

abbrev ResourceMap := TypeId → Option ResourceTable

/-- What is read of the `Instantiator`, with `canonical_abi`, the names that `{:?}` writes for
types, and the case conversions. -/
structure Instantiator where
  importsResourceIndexTypes : Nat → Option TypeId
  exportsResourceIndexTypes : Nat → Option TypeId
  resourceImports : ResourceMap
  resourceExports : ResourceMap
  dealias : TypeId → TypeId
  canonicalAbi : InterfaceType → CanonicalAbiInfo
  debug : InterfaceType → String
  toLowerCamelCase : String → String
  toUpperCamelCase : String → String

/-! ## Expressions -/

/-- The functions that are written for an owned handle. -/
inductive ResourceFn where
  | missingMetadata
  | lowerImportedOwnedHost (tid rid : Nat) (localName : String)
  | lowerExportedOwnedHost (tid : Nat) (localName : String)
  | lowerImportedOwnedGuest (upperCamel lowerCamel pre : String)
  | lowerExportedOwnedGuest (upperCamel lowerCamel pre : String)
  | missingTypeData
  | missingInformation
  | createImported (tid rid : Nat) (localName : String)
  | createExported (tid : Nat) (localName : String) (dtorName : Option String)
deriving DecidableEq, Repr

inductive JsExpr where
  | name (s : String)
  | str (s : String)
  | num (n : Nat)
  | bool (b : Bool)
  | arr (elems : List JsExpr)
  | obj (props : List (String × JsExpr))
  /-- `f(...)`, of one argument -/
  | call (f : String) (arg : JsExpr)
  /-- `f.bind(null, idx)` -/
  | bind (f : String) (tableIdx : Nat)
  /-- A function that throws an error with the text. -/
  | throws (msg : String)
  | resourceFn (fn : ResourceFn)

namespace JsExpr

def null : JsExpr := .name "null"

/-- `flat_count_js_expr` -/
def flatCount (count : Option Nat) : JsExpr := (count.map num).getD null

end JsExpr

open JsExpr

/-- `MAX_FLAT_PARAMS` -/
def maxFlatParams : Nat := 16

/-- `flat_count(MAX_FLAT_PARAMS)` of a case, as an expression. -/
def caseFlatCount (abi : CanonicalAbiInfo) : JsExpr :=
  flatCount (abi.flatCount.filter (· ≤ maxFlatParams))

/-- `js_typed_array_ctor` -/
def jsTypedArrayCtor : InterfaceType → String
  | .prim .u8 => "Uint8Array"
  | .prim .s8 => "Int8Array"
  | .prim .u16 => "Uint16Array"
  | .prim .s16 => "Int16Array"
  | .prim .u32 => "Uint32Array"
  | .prim .s32 => "Int32Array"
  | .prim .u64 => "BigUint64Array"
  | .prim .s64 => "BigInt64Array"
  | .prim .float32 => "Float32Array"
  | .prim .float64 => "Float64Array"
  | _ => "undefined"

def isNumeric : InterfaceType → Bool
  | .prim .bool | .prim .char | .prim .string => false
  | .prim _ => true
  | _ => false

def isBorrowed : InterfaceType → Bool
  | .borrow _ => true
  | _ => false

def isAsyncValue : InterfaceType → Bool
  | .stream .. | .emptyStream .. | .future .. | .emptyFuture .. => true
  | _ => false

/-- How often a future is of a future. -/
def futureNesting : InterfaceType → Nat
  | .future _ _ payload => futureNesting payload + 1
  | .emptyFuture _ _ => 1
  | _ => 0

/-- `elem_size` of flags -/
def flagsIntSize (numFlags : Nat) : Nat :=
  if numFlags ≤ 8 then 1 else if numFlags ≤ 16 then 2 else 4

def liftName : Prim → String
  | .bool => "_liftFlatBool"
  | .s8 => "_liftFlatS8"
  | .u8 => "_liftFlatU8"
  | .s16 => "_liftFlatS16"
  | .u16 => "_liftFlatU16"
  | .s32 => "_liftFlatS32"
  | .u32 => "_liftFlatU32"
  | .s64 => "_liftFlatS64"
  | .u64 => "_liftFlatU64"
  | .float32 => "_liftFlatFloat32"
  | .float64 => "_liftFlatFloat64"
  | .char => "_liftFlatChar"
  | .string => "_liftFlatStringAny"

def lowerName : Prim → String
  | .bool => "_lowerFlatBool"
  | .s8 => "_lowerFlatS8"
  | .u8 => "_lowerFlatU8"
  | .s16 => "_lowerFlatS16"
  | .u16 => "_lowerFlatU16"
  | .s32 => "_lowerFlatS32"
  | .u32 => "_lowerFlatU32"
  | .s64 => "_lowerFlatS64"
  | .u64 => "_lowerFlatU64"
  | .float32 => "_lowerFlatFloat32"
  | .float64 => "_lowerFlatFloat64"
  | .char => "_lowerFlatChar"
  | .string => "_lowerFlatStringAny"

namespace Instantiator

variable (inst : Instantiator)

/-! ## Handles -/

/-- `get(key)` of the map that is passed, if one is. -/
def extraTable (extra : Option ResourceMap) (id : TypeId) : Option ResourceTable :=
  extra.bind (· id)

/-- The table of an owned handle that is lifted, for a type that has a definition. -/
def liftTable (extra : Option ResourceMap) (id : TypeId) : Option ResourceTable :=
  (inst.resourceExports id).or (extraTable extra id)

/-- `gen_flat_lift_fn_js_expr`, for `InterfaceType::Own`. -/
def liftOwn (extra : Option ResourceMap) (componentIdx resourceIdx : Nat) : Option JsExpr :=
  let write (className : JsExpr) (fn : ResourceFn) := call "_liftFlatOwn" (obj [
    ("componentIdx", num componentIdx), ("className", className),
    ("createResourceFn", resourceFn fn)])
  match inst.exportsResourceIndexTypes resourceIdx with
  | none => some (write null .missingTypeData)
  | some id =>
    match inst.liftTable extra id with
    | none => some (write null .missingInformation)
    | some ⟨imported, .host tid rid localName dtorName⟩ =>
      some (write (name localName) (if imported then .createImported tid rid localName
        else .createExported tid localName dtorName))
    -- `unimplemented!`
    | some ⟨_, .guest ..⟩ => none

/-- The table of an owned handle that is lowered. There is none at all, or it is missing. -/
def lowerTable (extra : Option ResourceMap) (resourceIdx : Nat) : Option (Option ResourceTable) :=
  match inst.importsResourceIndexTypes resourceIdx, inst.exportsResourceIndexTypes resourceIdx with
  | some id, _ => some ((inst.resourceImports (inst.dealias id)).or (extraTable extra id))
  | none, some id => some ((inst.resourceExports (inst.dealias id)).or (extraTable extra id))
  | none, none => none

/-- `lower_fn_js`. A plain handle carries no extra data. -/
def lowerFn : ResourceTable → Option ResourceFn
  | ⟨imported, .host tid rid localName _⟩ =>
    some (if imported then .lowerImportedOwnedHost tid rid localName
      else .lowerExportedOwnedHost tid localName)
  | ⟨imported, .guest resourceName pre extra⟩ =>
    if extra then none
    else
      let upperCamel := inst.toUpperCamelCase resourceName
      let lowerCamel := inst.toLowerCamelCase resourceName
      some (if imported then .lowerImportedOwnedGuest upperCamel lowerCamel (pre.getD "")
        else .lowerExportedOwnedGuest upperCamel lowerCamel (pre.getD ""))

/-- `gen_flat_lower_fn_js_expr`, for `InterfaceType::Own`. -/
def lowerOwn (extra : Option ResourceMap) (componentIdx resourceIdx : Nat) : Option JsExpr :=
  let write (fn : ResourceFn) := call "_lowerFlatOwn" (obj [
    ("componentIdx", num componentIdx), ("lowerFn", resourceFn fn)])
  match inst.lowerTable extra resourceIdx with
  | none => some (write .missingMetadata)
  -- `expect("missing imported resource table information")`, or the exported one
  | some none => none
  | some (some table) => (inst.lowerFn table).map write

/-! ## Parts of expressions -/

/-- An entry of `fieldMetas` -/
def fieldMeta (names : String) (ty : InterfaceType) (fn : JsExpr) : JsExpr :=
  arr [str (inst.toLowerCamelCase names), fn, num (inst.canonicalAbi ty).size32,
    num (inst.canonicalAbi ty).align32]

/-- An entry of `caseMetas`, for a case with a payload. -/
def caseMeta (names : String) (ty : InterfaceType) (fn : JsExpr) : JsExpr :=
  arr [str names, fn, num (inst.canonicalAbi ty).size32, num (inst.canonicalAbi ty).align32,
    caseFlatCount (inst.canonicalAbi ty)]

def emptyCaseMeta (names : String) : JsExpr := arr [str names, null, num 0, num 0, num 0]

/-- `fieldMetas`, `size32` and `align32` -/
def recordExpr (f : String) (ty : InterfaceType) (fieldMetas : List JsExpr) : JsExpr :=
  call f (obj [("fieldMetas", arr fieldMetas), ("size32", num (inst.canonicalAbi ty).size32),
    ("align32", num (inst.canonicalAbi ty).align32)])

/-- The types with cases share their keys. -/
def casesExpr (f : String) (ty : InterfaceType) (payloadOffset32 : Nat)
    (caseMetas : List JsExpr) : JsExpr :=
  call f (obj [("caseMetas", arr caseMetas),
    ("variantSize32", num (inst.canonicalAbi ty).size32),
    ("variantAlign32", num (inst.canonicalAbi ty).align32),
    ("variantPayloadOffset32", num payloadOffset32),
    ("variantFlatCount", flatCount (inst.canonicalAbi ty).flatCount)])

def tupleExpr (f metas : String) (ty : InterfaceType) (elemMetas : List JsExpr) : JsExpr :=
  call f (obj [(metas, arr elemMetas), ("size32", num (inst.canonicalAbi ty).size32),
    ("align32", num (inst.canonicalAbi ty).align32)])

def elemMeta (ty : InterfaceType) (fn : JsExpr) : JsExpr :=
  arr [fn, num (inst.canonicalAbi ty).size32, num (inst.canonicalAbi ty).align32]

def flagsExpr (f : String) (ty : InterfaceType) (names : List String) : JsExpr :=
  call f (obj [("names", arr (names.map fun s => str (inst.toLowerCamelCase s))),
    ("size32", num (inst.canonicalAbi ty).size32),
    ("align32", num (inst.canonicalAbi ty).align32),
    ("intSizeBytes", num (flagsIntSize names.length))])

def enumExpr (f : String) (ty : InterfaceType) (payloadOffset32 : Nat) (names : List String) :
    JsExpr :=
  inst.casesExpr f ty payloadOffset32 (names.map fun s =>
    arr [str s, null, num (inst.canonicalAbi ty).size32, num (inst.canonicalAbi ty).align32,
      num payloadOffset32])

/-- The cases of options and results, whose flat counts are not cut off. -/
def payloadMeta (key : String) (ty : InterfaceType) (fn : JsExpr) : JsExpr :=
  arr [str key, fn, num (inst.canonicalAbi ty).size32, num (inst.canonicalAbi ty).align32,
    flatCount (inst.canonicalAbi ty).flatCount]

def mapExpr (f keyFn valueFn : String) (entrySize32 entryAlign32 valueOffset32 : Nat)
    (key value : JsExpr) : JsExpr :=
  call f (obj [(keyFn, key), (valueFn, value), ("entrySize32", num entrySize32),
    ("entryAlign32", num entryAlign32), ("valueOffset32", num valueOffset32)])

/-! ## Lifting -/

/-- `gen_flat_lift_fn_js_expr` -/
def genFlatLiftFnJsExpr (extra : Option ResourceMap) : InterfaceType → Option JsExpr
  | .prim ty => some (name (liftName ty))
  | .record names tys =>
    (collect fun i =>
      (genFlatLiftFnJsExpr extra (tys i)).map (inst.fieldMeta (names i) (tys i))).map
        (inst.recordExpr "_liftFlatRecord" (.record names tys))
  | .variant payloadOffset32 names payload tys =>
    (collect fun i =>
      (payload i).elim (some (emptyCaseMeta (names i))) fun j =>
        (genFlatLiftFnJsExpr extra (tys j)).map (inst.caseMeta (names i) (tys j))).map
        (inst.casesExpr "_liftFlatVariant" (.variant payloadOffset32 names payload tys)
          payloadOffset32)
  | .list element =>
    (genFlatLiftFnJsExpr extra element).map fun fn => call "_liftFlatList" (obj [
      ("elemLiftFn", fn), ("elemAlign32", num (inst.canonicalAbi element).align32),
      ("elemSize32", num (inst.canonicalAbi element).size32),
      ("typedArray", name (jsTypedArrayCtor element))])
  | .fixedLengthList element size =>
    let abi := inst.canonicalAbi (.fixedLengthList element size)
    (genFlatLiftFnJsExpr extra element).map fun fn => call "_liftFlatList" (obj [
      ("elemLiftFn", fn), ("elemAlign32", num (inst.canonicalAbi element).align32),
      ("elemSize32", num (inst.canonicalAbi element).size32), ("listSize32", num abi.size32),
      ("listAlign32", num abi.align32), ("knownLen", num size)])
  | .tuple tys =>
    (collect fun i => (genFlatLiftFnJsExpr extra (tys i)).map (inst.elemMeta (tys i))).map
      (inst.tupleExpr "_liftFlatTuple" "elemLiftFns" (.tuple tys))
  | .flags names => some (inst.flagsExpr "_liftFlatFlags" (.flags names) names)
  | .enum payloadOffset32 names =>
    some (inst.enumExpr "_liftFlatEnum" (.enum payloadOffset32 names) payloadOffset32 names)
  | .option payloadOffset32 ty =>
    (genFlatLiftFnJsExpr extra ty).map fun fn =>
      inst.casesExpr "_liftFlatOption" (.option payloadOffset32 ty) payloadOffset32
        [emptyCaseMeta "none", inst.payloadMeta "some" ty fn]
  | .result payloadOffset32 ok err tys =>
    Option.map₂ (fun okMeta errMeta =>
        inst.casesExpr "_liftFlatResult" (.result payloadOffset32 ok err tys) payloadOffset32
          [okMeta, errMeta])
      (ok.elim (some (emptyCaseMeta "ok")) fun j =>
        (genFlatLiftFnJsExpr extra (tys j)).map (inst.payloadMeta "ok" (tys j)))
      (err.elim (some (emptyCaseMeta "err")) fun j =>
        (genFlatLiftFnJsExpr extra (tys j)).map (inst.payloadMeta "err" (tys j)))
  | .own componentIdx resourceIdx => inst.liftOwn extra componentIdx resourceIdx
  | .borrow tableIdx => some (bind "_liftFlatBorrow" tableIdx)
  | .future tableIdx componentIdx _ | .emptyFuture tableIdx componentIdx =>
    some (call "_liftFlatFuture" (obj [("futureTableIdx", num tableIdx),
      ("componentIdx", num componentIdx)]))
  | .stream tableIdx componentIdx _ | .emptyStream tableIdx componentIdx =>
    some (call "_liftFlatStream" (obj [("streamTableIdx", num tableIdx),
      ("componentIdx", num componentIdx)]))
  | .errorContext tableIdx => some (bind "_liftFlatErrorContext" tableIdx)
  | .map entrySize32 entryAlign32 valueOffset32 key value =>
    Option.map₂ (mapExpr "_liftFlatMap" "keyLiftFn" "valueLiftFn" entrySize32 entryAlign32
      valueOffset32) (genFlatLiftFnJsExpr extra key) (genFlatLiftFnJsExpr extra value)

/-! ## Lowering -/

/-- `elemMeta` of a future or a stream. -/
def payloadProps (payload : InterfaceType) (liftFn lowerFn : JsExpr) : List (String × JsExpr) :=
  [("liftFn", liftFn), ("lowerFn", lowerFn), ("payloadTypeName", str (inst.debug payload)),
    ("isNone", bool false), ("isNumeric", bool (isNumeric payload)),
    ("isBorrowed", bool (isBorrowed payload)), ("isAsyncValue", bool (isAsyncValue payload)),
    ("typedArray", name (jsTypedArrayCtor payload)),
    ("flatCount", flatCount (inst.canonicalAbi payload).flatCount),
    ("align32", num (inst.canonicalAbi payload).align32),
    ("size32", num (inst.canonicalAbi payload).size32)]

def emptyProps (msg : String) : List (String × JsExpr) :=
  [("liftFn", throws msg), ("lowerFn", throws msg), ("payloadTypeName", null),
    ("isNone", bool true), ("isNumeric", bool false), ("isBorrowed", bool false),
    ("isAsyncValue", bool false), ("typedArray", name "undefined"), ("flatCount", num 0),
    ("align32", num 0), ("size32", num 0)]

/-- A future has no typed array in its metadata. -/
def futureExpr (tableIdx componentIdx nesting : Nat) (props : List (String × JsExpr)) : JsExpr :=
  call "_lowerFlatFuture" (obj [("futureTableIdx", num tableIdx),
    ("futureNestingLevel", num nesting), ("componentIdx", num componentIdx),
    ("elemMeta", obj (props.filter fun p => p.1 ≠ "typedArray"))])

def streamExpr (tableIdx componentIdx : Nat) (props : List (String × JsExpr)) : JsExpr :=
  call "_lowerFlatStream" (obj [("streamTableIdx", num tableIdx),
    ("componentIdx", num componentIdx), ("elemMeta", obj props)])

/-- `gen_flat_lower_fn_js_expr` -/
def genFlatLowerFnJsExpr : (extra : Option ResourceMap) → InterfaceType → Option JsExpr
  | _, .prim ty => some (name (lowerName ty))
  -- the map is not passed on for fields and cases
  | _, .record names tys =>
    (collect fun i =>
      (genFlatLowerFnJsExpr none (tys i)).map (inst.fieldMeta (names i) (tys i))).map
        (inst.recordExpr "_lowerFlatRecord" (.record names tys))
  | _, .variant payloadOffset32 names payload tys =>
    (collect fun i =>
      (payload i).elim (some (emptyCaseMeta (names i))) fun j =>
        (genFlatLowerFnJsExpr none (tys j)).map (inst.caseMeta (names i) (tys j))).map
        (inst.casesExpr "_lowerFlatVariant" (.variant payloadOffset32 names payload tys)
          payloadOffset32)
  | extra, .list element =>
    (genFlatLowerFnJsExpr extra element).map fun fn => call "_lowerFlatList" (obj [
      ("elemLowerFn", fn), ("elemSize32", num (inst.canonicalAbi element).size32),
      ("elemAlign32", num (inst.canonicalAbi element).align32)])
  | extra, .fixedLengthList element size =>
    let abi := inst.canonicalAbi (.fixedLengthList element size)
    (genFlatLowerFnJsExpr extra element).map fun fn => call "_lowerFlatList" (obj [
      ("elemLowerFn", fn), ("elemAlign32", num (inst.canonicalAbi element).align32),
      ("elemSize32", num (inst.canonicalAbi element).size32), ("align32", num abi.size32),
      ("size32", num abi.size32), ("knownLen", num size)])
  | extra, .tuple tys =>
    (collect fun i => (genFlatLowerFnJsExpr extra (tys i)).map (inst.elemMeta (tys i))).map
      (inst.tupleExpr "_lowerFlatTuple" "elemLowerMetas" (.tuple tys))
  | _, .flags names => some (inst.flagsExpr "_lowerFlatFlags" (.flags names) names)
  | _, .enum payloadOffset32 names =>
    some (inst.enumExpr "_lowerFlatEnum" (.enum payloadOffset32 names) payloadOffset32 names)
  | extra, .option payloadOffset32 ty =>
    (genFlatLowerFnJsExpr extra ty).map fun fn =>
      inst.casesExpr "_lowerFlatOption" (.option payloadOffset32 ty) payloadOffset32
        [emptyCaseMeta "none", inst.payloadMeta "some" ty fn]
  | extra, .result payloadOffset32 ok err tys =>
    let abi := inst.canonicalAbi (.result payloadOffset32 ok err tys)
    let entry (key : String) (fn : JsExpr) :=
      arr [str key, fn, num abi.size32, num abi.align32, num payloadOffset32]
    Option.map₂ (fun okFn errFn =>
        inst.casesExpr "_lowerFlatResult" (.result payloadOffset32 ok err tys) payloadOffset32
          [entry "ok" okFn, entry "err" errFn])
      (ok.elim (some null) fun j => genFlatLowerFnJsExpr extra (tys j))
      (err.elim (some null) fun j => genFlatLowerFnJsExpr extra (tys j))
  | extra, .own componentIdx resourceIdx => inst.lowerOwn extra componentIdx resourceIdx
  | _, .borrow tableIdx => some (bind "_lowerFlatBorrow" tableIdx)
  | extra, .future tableIdx componentIdx payload =>
    Option.map₂ (fun liftFn lowerFn => futureExpr tableIdx componentIdx (futureNesting payload)
        (inst.payloadProps payload liftFn lowerFn))
      (inst.genFlatLiftFnJsExpr extra payload) (genFlatLowerFnJsExpr extra payload)
  | _, .emptyFuture tableIdx componentIdx =>
    some (futureExpr tableIdx componentIdx 0 (emptyProps "empty future payload"))
  | extra, .stream tableIdx componentIdx payload =>
    Option.map₂ (fun liftFn lowerFn => streamExpr tableIdx componentIdx
        (inst.payloadProps payload liftFn lowerFn))
      (inst.genFlatLiftFnJsExpr extra payload) (genFlatLowerFnJsExpr extra payload)
  | _, .emptyStream tableIdx componentIdx =>
    some (streamExpr tableIdx componentIdx (emptyProps "empty stream payload"))
  | _, .errorContext tableIdx => some (bind "_lowerFlatErrorContext" tableIdx)
  | extra, .map entrySize32 entryAlign32 valueOffset32 key value =>
    Option.map₂ (mapExpr "_lowerFlatMap" "keyLowerFn" "valueLowerFn" entrySize32 entryAlign32
      valueOffset32) (genFlatLowerFnJsExpr extra key) (genFlatLowerFnJsExpr extra value)

end Instantiator

end Jco.Bindgen.FlatLower

import Mathlib
import Jco.Js.Bytes
import Jco.Lib.Breadth

/-! # Optimising the core modules of a component

`runOptimizeComponent` and `optimizeComponent` run `wasm-opt` over every core
module of a component binary and write the component again around the results.

1. `metadataShow` tells modules and components breadth first, each with the
   range of its bytes and the position of the component around it.
2. `getChildren` gathers the tree again from that list and sizes it bottom-up.
3. `write` copies the bytes in between and writes the new sizes and modules.

Outside this repository and so parameters (`Tools`): the parser behind
`metadataShow`, `wasm-opt` and the printer that verifies the result. Names,
producers, the progress spinner and the report are left out.
-/

namespace Jco.Optimize

open Jco.Js Jco.Breadth

/-! ## Metadata -/

inductive PayloadKind where
  | component
  | module
deriving DecidableEq, Repr

/-- `wasm_metadata::Payload` without its children: what it is and the range of
its bytes. -/
structure Payload where
  kind : PayloadKind
  range : Nat × Nat
deriving DecidableEq, Repr

abbrev PayloadTree := Payload × Forest Payload

inductive ModuleMetaType where
  | component (children : Nat)
  | module
deriving DecidableEq, Repr

structure ModuleMetadata where
  parentIndex : Option Nat
  metaType : ModuleMetaType
  range : Nat × Nat
deriving DecidableEq, Repr

/-- The programs that are called. `wasmOpt` is told where its source starts, as
two runs on equal bytes may end differently. -/
structure Tools where
  fromBinary : Bytes → Except String PayloadTree
  wasmOpt : List String → Nat → Bytes → Except JsError (Option Bytes)
  print : Bytes → Except String Unit

/-- What `metadata_show` pushes for a payload it takes from the queue. -/
def moduleMetadata (visit : Visit Payload) : ModuleMetadata where
  parentIndex := visit.1
  metaType :=
    match visit.2.1.kind with
    | .component => .component visit.2.2.trees.length
    | .module => .module
  range := visit.2.1.range

/-- `metadata_show`, a component of 32-bit memory: it throws on what it cannot
hold, and its ranges fit in `u32`. -/
def metadataShow (tools : Tools) (binary : Bytes) : Except JsError (List ModuleMetadata) :=
  if 2 ^ 32 ≤ binary.length then
    .error .engine
  else
    match tools.fromBinary binary with
    | .error msg => .error (.error msg)
    | .ok payload => .ok ((listing payload).map moduleMetadata)

/-! ## Sizes -/

/-- The loop `do { val >>>= 7; len++; } while (val !== 0)`, after `ToUint32`. -/
def lengthLEB (val : Nat) : Nat :=
  if val / 0x80 = 0 then 1 else lengthLEB (val / 0x80) + 1
termination_by val

def byteLengthLEB128 (val : Int) : Nat := lengthLEB (toUint32 val)

/-- A metadata object with the fields the optimiser adds to it. -/
structure EnhancedModuleMetadata where
  metadata : ModuleMetadata
  index : Nat
  prevLEBLen : Nat
  newLEBLen : Option Nat := none
  optimized : Option Bytes := none
  sizeChange : Option Int := none

def rangeSize (range : Nat × Nat) : Int := range.2 - range.1

/-- The first loop over the metadata. -/
def enhance (index : Nat) (metadata : ModuleMetadata) : EnhancedModuleMetadata where
  metadata
  index
  prevLEBLen := byteLengthLEB128 (rangeSize metadata.range)

structure OptimizeOptions where
  asyncify : Bool := false
  optArgs : Option (List String) := none
  noVerify : Bool := false

def optimizeArgs (opts : OptimizeOptions) : List String :=
  let args := match opts.optArgs with
    | some optArgs => optArgs
    | none => ["-Oz", "--low-memory-unused", "--enable-bulk-memory", "--strip-debug"]
  if opts.asyncify then args ++ ["--asyncify"] else args

/-- What is stored for a core module once `wasm-opt` has answered. -/
def withOptimized (entry : EnhancedModuleMetadata) (optimized : Bytes) : EnhancedModuleMetadata :=
  { entry with
    newLEBLen := some (byteLengthLEB128 optimized.length)
    sizeChange := some (optimized.length - rangeSize entry.metadata.range)
    optimized := some optimized }

/-- One call of `wasm-opt`; `missing` is what a `null` answer makes of it. -/
def optimizeModule (tools : Tools) (missing : JsError) (args : List String)
    (componentBytes : Bytes) (entry : EnhancedModuleMetadata) :
    Except JsError EnhancedModuleMetadata :=
  match entry.metadata.metaType with
  | .component _ => .ok entry
  | .module =>
    let range := entry.metadata.range
    match tools.wasmOpt args range.1 (subarray componentBytes range.1 range.2) with
    | .error e => .error e
    | .ok none => .error missing
    | .ok (some optimized) => .ok (withOptimized entry optimized)

/-- `Promise.all`: one failure fails all. Which failure is told depends on the
timing of the runs; here it is the first. -/
def optimizeModules (tools : Tools) (missing : JsError) (args : List String)
    (componentBytes : Bytes) :
    List EnhancedModuleMetadata → Except JsError (List EnhancedModuleMetadata)
  | [] => .ok []
  | entry :: entries =>
    match optimizeModule tools missing args componentBytes entry with
    | .error e => .error e
    | .ok entry =>
      match optimizeModules tools missing args componentBytes entries with
      | .error e => .error e
      | .ok entries => .ok (entry :: entries)

/-! ## The tree -/

/-- The fields of an entry that are read once its children are known. -/
structure NodeInfo where
  range : Nat × Nat
  optimized : Option Bytes
  prevLEBLen : Nat
  newLEBLen : Nat
  sizeChange : Int

inductive Node where
  | mk (info : NodeInfo) (children : List Node)

def Node.info : Node → NodeInfo
  | mk info _ => info

/-- The callback of the inner `reduce`. -/
def addSizeChange (total : Int) (child : Node) : Int :=
  if child.info.sizeChange ≠ 0 then
    total + child.info.sizeChange + child.info.newLEBLen - child.info.prevLEBLen
  else
    total

/-- The size change and the length of the new size field of an entry. -/
def finishNode (range : Nat × Nat) (optimized : Option Bytes) (prevLEBLen : Nat)
    (ownChange : Option Int) (children : List Node) : Node :=
  let sizeChange := children.foldl addSizeChange (ownChange.getD 0)
  .mk {
    range, optimized, prevLEBLen, sizeChange
    newLEBLen := byteLengthLEB128 (rangeSize range + sizeChange) } children

def finish (entry : EnhancedModuleMetadata) (children : List Node) : Node :=
  finishNode entry.metadata.range entry.optimized entry.prevLEBLen entry.sizeChange children

/-- `getChildren`: the loop over the shared `nodes`, from which each entry is
spliced out once it is found. -/
def getChildren (nodes : List EnhancedModuleMetadata) (parentIndex : Nat) : List Node :=
  (rebuild EnhancedModuleMetadata.index (fun e => e.metadata.parentIndex) finish
    nodes.length parentIndex [] nodes).1

/-- The callback of the outer `reduce`. -/
def addTotalChange (total : Int) (node : Node) : Int :=
  total + node.info.sizeChange + node.info.newLEBLen - node.info.prevLEBLen

/-! ## Writing -/

structure Output where
  outComponentBytes : Bytes
  nextReadPos : Int
  nextWritePos : Int

/-- The loop that writes a size, after `ToUint32`. -/
def writeLEB (val : Nat) (st : Output) : Output :=
  let byte := val % 0x80
  let st' := { st with
    outComponentBytes := storeByte st.outComponentBytes st.nextWritePos
      (if val / 0x80 = 0 then .ofNat byte else .ofNat (byte + 0x80))
    nextWritePos := st.nextWritePos + 1 }
  if val / 0x80 = 0 then st' else writeLEB (val / 0x80) st'
termination_by val

/-- `outComponentBytes.set(source, nextWritePos)` and the step after it. -/
def writeBytes (source : Bytes) (st : Output) : Except JsError Output :=
  match setBytes st.outComponentBytes source st.nextWritePos with
  | .error e => .error e
  | .ok bytes => .ok { st with
      outComponentBytes := bytes
      nextWritePos := st.nextWritePos + source.length }

/-- From the last read to the start of the size field, as far as its length is
guessed right, then the new size. `nextWritePos` moves by the difference of the
positions, whatever has been copied. -/
def writeHead (componentBytes : Bytes) (info : NodeInfo) (st : Output) : Except JsError Output :=
  let start := (info.range.1 : Int) - info.prevLEBLen
  match setBytes st.outComponentBytes (subarray componentBytes st.nextReadPos start)
      st.nextWritePos with
  | .error e => .error e
  | .ok bytes => .ok (writeLEB (toUint32 (rangeSize info.range + info.sizeChange)) { st with
      outComponentBytes := bytes
      nextWritePos := st.nextWritePos + (start - st.nextReadPos) })

mutual

def write (componentBytes : Bytes) : Node → Output → Except JsError Output
  | .mk info children, st =>
    match writeHead componentBytes info st with
    | .error e => .error e
    | .ok st =>
      match info.optimized, children with
      | some optimized, _ =>
        writeBytes optimized { st with nextReadPos := info.range.2 }
      | none, child :: children =>
        writeAll componentBytes (child :: children) { st with nextReadPos := info.range.1 }
      | none, [] =>
        writeBytes (subarray componentBytes info.range.1 info.range.2)
          { st with nextReadPos := info.range.2 }

def writeAll (componentBytes : Bytes) : List Node → Output → Except JsError Output
  | [], st => .ok st
  | node :: nodes, st =>
    match write componentBytes node st with
    | .error e => .error e
    | .ok st => writeAll componentBytes nodes st

end

/-- `write` over the tree and what remains after it, into a new buffer. -/
def writeComponent (componentBytes : Bytes) (componentTree : List Node) : Except JsError Bytes :=
  let sizeChange := componentTree.foldl addTotalChange 0
  match newUint8Array (componentBytes.length + sizeChange) with
  | .error e => .error e
  | .ok bytes =>
    match writeAll componentBytes componentTree ⟨bytes, 0, 0⟩ with
    | .error e => .error e
    | .ok st =>
      setBytes st.outComponentBytes
        (subarray componentBytes st.nextReadPos componentBytes.length) st.nextWritePos

/-! ## The whole -/

structure CompressionInfo where
  beforeBytes : Int
  afterBytes : Option Nat
deriving DecidableEq, Repr

structure OptimizeResult where
  component : Bytes
  compressionInfo : List CompressionInfo
deriving DecidableEq, Repr

def compressionInfo (entry : EnhancedModuleMetadata) : CompressionInfo where
  beforeBytes := rangeSize entry.metadata.range
  afterBytes := entry.optimized.map List.length

/-- `verify it still parses ok` -/
def verify (tools : Tools) (opts : OptimizeOptions) (component : Bytes) : Except JsError Unit :=
  if opts.noVerify then
    .ok ()
  else
    match tools.print component with
    | .ok () => .ok ()
    | .error msg => .error (.error ("Internal error performing optimization.\n" ++ msg))

/-- The body both functions share. -/
def optimizeWith (tools : Tools) (missing : JsError) (componentBytes : Bytes)
    (opts : OptimizeOptions) : Except JsError OptimizeResult :=
  match metadataShow tools componentBytes with
  | .error e => .error e
  | .ok metadata =>
    let entries := metadata.zipIdx.map fun m => enhance m.2 m.1
    match optimizeModules tools missing (optimizeArgs opts) componentBytes entries with
    | .error e => .error e
    | .ok entries =>
      match writeComponent componentBytes (getChildren (entries.drop 1) 0) with
      | .error e => .error e
      | .ok component =>
        match verify tools opts component with
        | .error e => .error e
        | .ok () => .ok {
            component
            compressionInfo := (entries.filter fun e => e.metadata.metaType = .module).map
              compressionInfo }

/-- Of `jco-transpile`. Its checks for missing fields never fire: every entry
has been through the loops that set them. -/
def runOptimizeComponent (tools : Tools) (componentBytes : Bytes) (opts : OptimizeOptions) :
    Except JsError OptimizeResult :=
  optimizeWith tools (.error "failed to optimize binary with wasm-opt") componentBytes opts

/-- Of `jco`: the same steps without those checks. A missing answer of
`wasm-opt` fails where its length is read. -/
def optimizeComponent (tools : Tools) (componentBytes : Bytes) (opts : OptimizeOptions) :
    Except JsError OptimizeResult :=
  optimizeWith tools .engine componentBytes opts

end Jco.Optimize

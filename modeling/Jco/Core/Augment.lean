import Jco.Core.Wasm

/-! # Augmentation

The translator of `core.rs`: it drops every imported memory but the first, and
turns operators on the dropped ones into calls of imported helpers. Operators
are rewritten one at a time in the order of the binary format; `operators` is
that order for structured code.
-/

namespace Jco.Core

open Jco.Lib

variable {D P A : Type}

/-- `bail!` answers an error, a failed assertion or missing case panics. -/
inductive AugmentError where
  | bail (msg : String)
  | panic (msg : String)
deriving DecidableEq, Repr

/-- The fields that the first pass fills in. -/
structure Augmenter where
  importsRemoved : List (String × String)
  importsAdded : List (Nat × AugmentedOp)
  imports : List Import
  importedFuncs : Nat
  importedMemories : Nat

def Augmenter.empty : Augmenter where
  importsRemoved := []
  importsAdded := []
  imports := []
  importedFuncs := 0
  importedMemories := 0

def Import.key (i : Import) : String × String := (i.module, i.name)

mutual

/-- The operators of structured code in the order of the binary format. -/
def operators : List (Instr P) → List (Instr P)
  | [] => []
  | i :: is => i :: (nested i ++ operators is)

/-- The operators inside a structured one. -/
def nested : Instr P → List (Instr P)
  | .block _ _ body => operators body
  | .loop _ body => operators body
  | .ite _ _ thenBody elseBody => operators thenBody ++ operators elseBody
  | _ => []

end

/-- The `Debug` form of an operation, which names its import. -/
def AugmentedOp.name : AugmentedOp → String
  | .load .i32Load => "I32Load"
  | .load .i32Load8U => "I32Load8U"
  | .load .i32Load8S => "I32Load8S"
  | .load .i32Load16U => "I32Load16U"
  | .load .i32Load16S => "I32Load16S"
  | .load .i64Load => "I64Load"
  | .load .f32Load => "F32Load"
  | .load .f64Load => "F64Load"
  | .store .i32Store => "I32Store"
  | .store .i32Store8 => "I32Store8"
  | .store .i32Store16 => "I32Store16"
  | .store .i64Store => "I64Store"
  | .store .f32Store => "F32Store"
  | .store .f64Store => "F64Store"
  | .memorySize => "MemorySize"

/-- `encode_type`: the address comes first and the static offset last. -/
def AugmentedOp.encodeType : AugmentedOp → FuncType
  | .load .i32Load | .load .i32Load8U | .load .i32Load8S | .load .i32Load16U
  | .load .i32Load16S => ⟨[.i32, .i32], [.i32]⟩
  | .load .i64Load => ⟨[.i32, .i32], [.i64]⟩
  | .load .f32Load => ⟨[.i32, .i32], [.f32]⟩
  | .load .f64Load => ⟨[.i32, .i32], [.f64]⟩
  | .store .i32Store | .store .i32Store8 | .store .i32Store16 => ⟨[.i32, .i32, .i32], []⟩
  | .store .i64Store => ⟨[.i32, .i64, .i32], []⟩
  | .store .f32Store => ⟨[.i32, .f32, .i32], []⟩
  | .store .f64Store => ⟨[.i32, .f64, .i32], []⟩
  | .memorySize => ⟨[], [.i32]⟩

namespace Augmenter

variable (a : Augmenter)

/-- The names of the import for an added operation. -/
def addedKey (added : Nat × AugmentedOp) : String × String :=
  ("augments", s!"mem{added.1 + 1} {added.2.name}")

def remapFunc (index : Nat) : Nat :=
  if index < a.importedFuncs then index else index + a.importsAdded.length

/-- `self.augments[&(memory, op)]` -/
def augments (mem : Nat) (op : AugmentedOp) : Nat :=
  a.importedFuncs + a.importsAdded.idxOf (mem - 1, op)

mutual

/-- One operator of the rewritten code. -/
def translate : Instr P → List (Instr P)
  | .load op memarg =>
    if memarg.memory > 0 then
      [.i32Const memarg.offset, .call (a.augments memarg.memory (.load op))]
    else [.load op memarg]
  | .store op memarg =>
    if memarg.memory > 0 then
      [.i32Const memarg.offset, .call (a.augments memarg.memory (.store op))]
    else [.store op memarg]
  | .memorySize mem =>
    if mem > 0 then [.call (a.augments mem .memorySize)] else [.memorySize mem]
  | .refFunc f => [.refFunc (a.remapFunc f)]
  | .call f => [.call (a.remapFunc f)]
  | .returnCall f => [.returnCall (a.remapFunc f)]
  | .block params results body => [.block params results (translateAll body)]
  | .loop params body => [.loop params (translateAll body)]
  | .ite params results thenBody elseBody =>
    [.ite params results (translateAll thenBody) (translateAll elseBody)]
  | .otherMemory => [.otherMemory]
  | .i32Const c => [.i32Const c]
  | .callIndirect p ty => [.callIndirect p ty]
  | .plain p => [.plain p]
  | .br label => [.br label]
  | .brIf label => [.brIf label]
  | .brTable labels default => [.brTable labels default]
  | .ret => [.ret]
  | .unreachable => [.unreachable]

def translateAll : List (Instr P) → List (Instr P)
  | [] => []
  | i :: is => translate i ++ translateAll is

end

/-- Function exports are remapped, an exported memory has to be the first. -/
def remapExport (e : Export) : Except AugmentError Export :=
  match e.kind with
  | .func => .ok { e with index := a.remapFunc e.index }
  | .memory => if e.index < 1 then .ok e else .error (.panic "assertion failed: e.index < 1")
  | _ => .ok e

/-- The helper imports, whose types stand after the original ones. -/
def helperImports (firstType : Nat) : List (Nat × AugmentedOp) → List Import
  | [] => []
  | added :: rest =>
    ⟨(addedKey added).1, (addedKey added).2, .func firstType⟩ :: helperImports (firstType + 1) rest

def encode (m : Module P) : Except AugmentError (Module P) := do
  let exports ← m.exports.mapM a.remapExport
  .ok {
    types := m.types ++ a.importsAdded.map (·.2.encodeType)
    imports := a.imports ++ helperImports m.types.length a.importsAdded
    funcs := m.funcs
    exports
    code := m.code.map fun body => { body with code := a.translateAll body.code }
    other := [] }

end Augmenter

/-- A function import with its value. -/
def funcEntry (i : Import × AugmentedImport D) : Option (Nat × AugmentedImport D) :=
  match i.1.ty with
  | .func ty => some (ty, i.2)
  | _ => none

/-- A memory import with its value. -/
def memEntry (i : Import × AugmentedImport D) : Option D :=
  match i.1.ty, i.2 with
  | .memory, .coreDef d => some d
  | _, _ => none

/-- The instance for the values given to the imports, in order. -/
def Module.inst (m : Module P) (vals : List (AugmentedImport D)) : Inst D P where
  types := m.types
  imported := (m.imports.zip vals).filterMap funcEntry
  funcs := m.funcs
  code := m.code
  mems := (m.imports.zip vals).filterMap memEntry

/-- A helper is a function: no other import takes it. -/
def Import.accepts (i : Import) : AugmentedImport D → Bool
  | .coreDef _ => true
  | .memory _ _ =>
    match i.ty with
    | .func _ => true
    | _ => false

end Jco.Core

import Jco.Core.Augment

/-! # The rewritten code tracks the original

An instance of the rewritten module that is linked to an instance of the
original one denotes the same functions under remapped indices. Operator by
operator its code then tracks the original, up to accesses of dropped memories
that a helper performs at another address or with another value.
-/

namespace Jco.Core

open Jco.Lib Augmenter List Traced

variable {D P A : Type} [DecidableEq D]

/-! ## Accesses through helpers -/

section

variable (sem : Sem D P A) (mem : D) (base offset : BitVec 32) (s : Store D A)

end

/-! ## Linked instances -/

/-- An operator of a validated module whose accesses to dropped memories have
been collected: `nf` functions and `nt` types are in scope. -/
def OpOk (a : Augmenter) (nf nt : Nat) : Instr P → Prop
  | .load op memarg =>
    memarg.memory > 0 → (memarg.memory - 1, .load op) ∈ a.importsAdded
  | .store op memarg =>
    memarg.memory > 0 → (memarg.memory - 1, .store op) ∈ a.importsAdded
  | .memorySize mem => mem > 0 → (mem - 1, .memorySize) ∈ a.importsAdded
  | .refFunc f => f < nf
  | .call f => f < nf
  | .returnCall f => f < nf
  | .callIndirect _ ty => ty < nt
  | _ => True

/-- Every operator of the code, nested ones included. -/
def CodeOk (a : Augmenter) (nf nt : Nat) (is : List (Instr P)) : Prop :=
  ∀ i ∈ operators is, OpOk a nf nt i

/-- The number of functions of an instance. -/
def Inst.funcCount (inst : Inst D P) : Nat := inst.imported.length + inst.funcs.length

/-- `inst'` runs the rewritten module against the environment of `inst`. -/
structure Linked (a : Augmenter) (inst inst' : Inst D P) : Prop where
  types : ∀ ty, ty < inst.types.length → inst'.types[ty]? = inst.types[ty]?
  funcs : inst'.funcs = inst.funcs
  funcTypes : ∀ ty ∈ inst.funcs, ty < inst.types.length
  code : inst'.code =
    inst.code.map fun body => { body with code := a.translateAll body.code }
  codeOk : ∀ body ∈ inst.code, CodeOk a inst.funcCount inst.types.length body.code
  own : ∀ f mem op, inst.target f ≠ some (.helper mem op)
  target : ∀ f, f < inst.funcCount → inst'.target (a.remapFunc f) = inst.target f
  funcType : ∀ f, f < inst.funcCount → inst'.funcType (a.remapFunc f) = inst.funcType f
  first : inst'.mems[0]? = inst.mems[0]?
  helpers : ∀ mem op, (mem, op) ∈ a.importsAdded → ∃ d, inst.mems[mem + 1]? = some d ∧
    inst'.target (a.augments (mem + 1) op) = some (.helper d op) ∧
    inst'.funcType (a.augments (mem + 1) op) = some op.encodeType

/-! ## Sequences -/

section

variable {sem : Sem D P A} {a : Augmenter} {inst inst' : Inst D P} {exec exec' : Exec D P A}
variable {invoke invoke' : Invoke D A}

end

/-! ## All levels of fuel -/

variable {sem : Sem D P A} {a : Augmenter} {inst inst' : Inst D P}

end Jco.Core

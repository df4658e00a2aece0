import Mathlib.Data.BitVec
import Mathlib.Tactic.Ring
import Jco.Lib.Traced

/-! # Core modules with several memories

Abstract syntax and a fuel semantics of the core modules that the translator
of `core.rs` reads and writes. Operators that touch neither a memory nor a
function index are left to a parameter, as are the functions of other modules.
Fuel is spent by blocks, iterations and calls into a module, never by a single
operator, so that rewriting an operator into two leaves it unchanged.
-/

namespace Jco.Core

open Jco.Lib

/-! ## Syntax -/

inductive ValType where
  | i32 | i64 | f32 | f64 | funcref | externref
deriving DecidableEq, Repr

structure FuncType where
  params : List ValType
  results : List ValType
deriving DecidableEq, Repr

/-- The load operators that the translator knows. -/
inductive LoadOp where
  | i32Load | i32Load8U | i32Load8S | i32Load16U | i32Load16S | i64Load | f32Load | f64Load
deriving DecidableEq, Repr

/-- The store operators that the translator knows. -/
inductive StoreOp where
  | i32Store | i32Store8 | i32Store16 | i64Store | f32Store | f64Store
deriving DecidableEq, Repr

/-- What the JavaScript helpers do: `AugmentedOp` of the source. -/
inductive AugmentedOp where
  | load (op : LoadOp)
  | store (op : StoreOp)
  | memorySize
deriving DecidableEq, Repr

/-- The static part of a memory operator. -/
structure MemArg where
  memory : Nat
  offset : BitVec 32
deriving DecidableEq, Repr

/-- Operators; `P` are those without a memory or function index. -/
inductive Instr (P : Type) where
  | load (op : LoadOp) (memarg : MemArg)
  | store (op : StoreOp) (memarg : MemArg)
  | memorySize (mem : Nat)
  /-- Any other operator with a memory index. -/
  | otherMemory
  | i32Const (c : BitVec 32)
  | refFunc (f : Nat)
  | call (f : Nat)
  | returnCall (f : Nat)
  | callIndirect (p : P) (ty : Nat)
  | plain (p : P)
  | block (params results : Nat) (body : List (Instr P))
  | loop (params : Nat) (body : List (Instr P))
  | ite (params results : Nat) (thenBody elseBody : List (Instr P))
  | br (label : Nat)
  | brIf (label : Nat)
  | brTable (labels : List Nat) (default : Nat)
  | ret
  | unreachable

structure FunctionBody (P : Type) where
  locals : List ValType
  code : List (Instr P)

inductive TypeRef where
  | func (ty : Nat)
  | memory
  | table
  | global
  | tag
deriving DecidableEq, Repr

structure Import where
  module : String
  name : String
  ty : TypeRef
deriving DecidableEq, Repr

inductive ExternalKind where
  | func | table | memory | global | tag
deriving DecidableEq, Repr

structure Export where
  name : String
  kind : ExternalKind
  index : Nat
deriving DecidableEq, Repr

/-- The sections the translator does not support. -/
inductive OtherSection where
  | dataCount | global | table | memory | element | data | start | tag | unknown
deriving DecidableEq, Repr

structure Module (P : Type) where
  types : List FuncType
  imports : List Import
  funcs : List Nat
  exports : List Export
  code : List (FunctionBody P)
  other : List OtherSection

/-! ## Instances -/

/-- What an import is given: a core definition as it is, or a helper acting on
the memory `mem`. -/
inductive AugmentedImport (D : Type) where
  | coreDef (d : D)
  | memory (mem : D) (op : AugmentedOp)
deriving DecidableEq, Repr

/-- The identity of a function: one of another module, or the `j`-th of the
instance. -/
inductive FuncAddr (D : Type) where
  | host (d : D)
  | local (j : Nat)
deriving DecidableEq, Repr

/-- What an index of the function index space denotes. -/
inductive Target (D : Type) where
  | addr (f : FuncAddr D)
  | helper (mem : D) (op : AugmentedOp)
deriving DecidableEq, Repr

def AugmentedImport.target {D : Type} : AugmentedImport D → Target D
  | .coreDef d => .addr (.host d)
  | .memory mem op => .helper mem op

inductive Val (D : Type) where
  | i32 (b : BitVec 32)
  | i64 (b : BitVec 64)
  | f32 (b : BitVec 32)
  | f64 (b : BitVec 64)
  | ref (f : Option (FuncAddr D))
  | externref (x : Option Nat)
deriving DecidableEq, Repr

/-- A module instance: its index spaces of types, functions and memories. -/
structure Inst (D P : Type) where
  types : List FuncType
  imported : List (Nat × AugmentedImport D)
  funcs : List Nat
  code : List (FunctionBody P)
  mems : List D

variable {D P A : Type}

/-- The function behind an index of the function index space. -/
def Inst.target (inst : Inst D P) (f : Nat) : Option (Target D) :=
  if f < inst.imported.length then
    inst.imported[f]?.map fun i => i.2.target
  else if f - inst.imported.length < inst.funcs.length then
    some (.addr (.local (f - inst.imported.length)))
  else none

def Inst.funcType (inst : Inst D P) (f : Nat) : Option FuncType :=
  if f < inst.imported.length then
    inst.imported[f]?.bind fun i => inst.types[i.1]?
  else
    inst.funcs[f - inst.imported.length]?.bind fun ty => inst.types[ty]?

/-! ## Memories -/

/-- A linear memory as its size in bytes and its contents. -/
structure Memory where
  size : Nat
  byte : Nat → BitVec 8

namespace Memory

/-- The little-endian number in the `n` bytes from `addr` on. -/
def bytesAt (m : Memory) (addr : Nat) : Nat → Nat
  | 0 => 0
  | n + 1 => (m.byte addr).toNat + 256 * m.bytesAt (addr + 1) n

/-- Reading `n` bytes; `none` when they are not all inside. -/
def read (m : Memory) (n : Nat) (addr : Int) : Option Nat :=
  if 0 ≤ addr ∧ addr + n ≤ m.size then some (m.bytesAt addr.toNat n) else none

/-- Writing the low `n` bytes of `raw`. -/
def write (m : Memory) (n : Nat) (addr : Int) (raw : Nat) : Option Memory :=
  let inside (i : Nat) : Bool := addr.toNat ≤ i ∧ i < addr.toNat + n
  if 0 ≤ addr ∧ addr + n ≤ m.size then
    some ⟨m.size, fun i =>
      if inside i then BitVec.ofNat 8 (raw / 256 ^ (i - addr.toNat)) else m.byte i⟩
  else none

/-- `memory.size`, in pages. -/
def pages (m : Memory) : BitVec 32 := BitVec.ofNat 32 (m.size / 65536)

end Memory

def LoadOp.width : LoadOp → Nat
  | .i32Load8U | .i32Load8S => 1
  | .i32Load16U | .i32Load16S => 2
  | .i32Load | .f32Load => 4
  | .i64Load | .f64Load => 8

/-- The value made of the bytes read. -/
def LoadOp.value (raw : Nat) : LoadOp → Val D
  | .i32Load => .i32 (BitVec.ofNat 32 raw)
  | .i32Load8U => .i32 ((BitVec.ofNat 8 raw).zeroExtend 32)
  | .i32Load8S => .i32 ((BitVec.ofNat 8 raw).signExtend 32)
  | .i32Load16U => .i32 ((BitVec.ofNat 16 raw).zeroExtend 32)
  | .i32Load16S => .i32 ((BitVec.ofNat 16 raw).signExtend 32)
  | .i64Load => .i64 (BitVec.ofNat 64 raw)
  | .f32Load => .f32 (BitVec.ofNat 32 raw)
  | .f64Load => .f64 (BitVec.ofNat 64 raw)

def StoreOp.width : StoreOp → Nat
  | .i32Store8 => 1
  | .i32Store16 => 2
  | .i32Store | .f32Store => 4
  | .i64Store | .f64Store => 8

/-- The bits of a value of the operator's type. -/
def StoreOp.raw : StoreOp → Val D → Option Nat
  | .i32Store, .i32 b | .i32Store8, .i32 b | .i32Store16, .i32 b => some b.toNat
  | .i64Store, .i64 b => some b.toNat
  | .f32Store, .f32 b => some b.toNat
  | .f64Store, .f64 b => some b.toNat
  | _, _ => none

/-! ## Semantics -/

/-- The memories, and everything else that operators and hosts work on. -/
structure Store (D A : Type) where
  mems : D → Memory
  aux : A

/-- One access: to the first memory of the module (`first`), or to the memory
`mem`, at the effective address `ea`. -/
structure Access (D : Type) where
  first : Bool
  mem : D
  op : AugmentedOp
  base : BitVec 32
  offset : BitVec 32
  ea : Int
  val : Option (Val D)
deriving DecidableEq, Repr

abbrev Comp (D A α : Type) := Traced (Access D) (Store D A) α

/-- Code outside the instance: it ends, or calls a function and goes on with
the results, or with `none` when the call trapped. -/
inductive HostProg (D A : Type) where
  | done (results : List (Val D)) (s : Store D A)
  | trap (s : Store D A)
  | call (f : FuncAddr D) (args : List (Val D)) (s : Store D A)
      (k : Option (List (Val D)) → Store D A → HostProg D A)

/-- The parameters: plain operators on the stack, the locals and the auxiliary
store (`none` is a trap), the function an indirect call selects, the imported
functions, and what a round trip through a JavaScript number makes of a NaN. -/
structure Sem (D P A : Type) where
  plain : P → List (Val D) → List (Val D) → A → Option (List (Val D) × List (Val D) × A)
  select : P → FuncType → List (Val D) → A → Option (FuncAddr D × List (Val D))
  host : D → List (Val D) → Store D A → HostProg D A
  nan32 : BitVec 32 → BitVec 32
  nan64 : BitVec 64 → BitVec 64

/-- The stack and the locals of a running function. -/
structure Frame (D : Type) where
  stack : List (Val D)
  locals : List (Val D)

/-- How a sequence of operators is left. -/
inductive Ctl where
  | next
  | br (label : Nat)
  | ret
deriving DecidableEq, Repr

def ValType.default : ValType → Val D
  | .i32 => .i32 0
  | .i64 => .i64 0
  | .f32 => .f32 0
  | .f64 => .f64 0
  | .funcref => .ref none
  | .externref => .externref none

/-- A load of memory `mem` at `ea`, with `conv` applied to what was read. -/
def doLoad (conv : Val D → Val D) (first : Bool) (mem : D) (op : LoadOp)
    (base offset : BitVec 32) (ea : Int) (s : Store D A) : Comp D A (Val D) :=
  match (s.mems mem).read op.width ea with
  | some raw =>
    ⟨.done (conv (op.value raw)) s,
      [⟨first, mem, .load op, base, offset, ea, some (conv (op.value raw))⟩]⟩
  | none => ⟨.trapped s, [⟨first, mem, .load op, base, offset, ea, none⟩]⟩

section

variable [DecidableEq D]

/-- A store of `conv v` to memory `mem` at `ea`. -/
def doStore (conv : Val D → Val D) (first : Bool) (mem : D) (op : StoreOp)
    (base offset : BitVec 32) (ea : Int) (v : Val D) (s : Store D A) : Comp D A Unit :=
  match op.raw (conv v) with
  | none => .stuck
  | some raw =>
    match (s.mems mem).write op.width ea raw with
    | some m =>
      ⟨.done () { s with mems := fun d => if d = mem then m else s.mems d },
        [⟨first, mem, .store op, base, offset, ea, some (conv v)⟩]⟩
    | none => ⟨.trapped s, [⟨first, mem, .store op, base, offset, ea, some (conv v)⟩]⟩

/-- The unsigned effective address. -/
def effectiveAddress (base offset : BitVec 32) : Int := (base.toNat + offset.toNat : Nat)

/-- The address a helper computes from its arguments, two signed numbers. -/
def helperAddress (ptr off : BitVec 32) : Int := ptr.toInt + off.toInt

/-- The exponent bits are all set and the fraction is not zero. -/
def isNaN32 (b : BitVec 32) : Bool := b.toNat / 2 ^ 23 % 2 ^ 8 = 255 ∧ b.toNat % 2 ^ 23 ≠ 0

def isNaN64 (b : BitVec 64) : Bool := b.toNat / 2 ^ 52 % 2 ^ 11 = 2047 ∧ b.toNat % 2 ^ 52 ≠ 0

/-- A value after a round trip through JavaScript. -/
def Sem.jsValue (sem : Sem D P A) : Val D → Val D
  | .f32 b => .f32 (if isNaN32 b then sem.nan32 b else b)
  | .f64 b => .f64 (if isNaN64 b then sem.nan64 b else b)
  | v => v

/-- The JavaScript helpers of `augmented_import_def`. -/
def helper (sem : Sem D P A) (mem : D) (op : AugmentedOp) (args : List (Val D))
    (s : Store D A) : Comp D A (List (Val D)) :=
  match op, args with
  | .load op, [.i32 ptr, .i32 off] =>
    (doLoad sem.jsValue false mem op ptr off (helperAddress ptr off) s).bind
      fun v s => .pure [v] s
  | .store op, [.i32 ptr, val, .i32 offset] =>
    (doStore sem.jsValue false mem op ptr offset (helperAddress ptr offset) val s).bind
      fun _ s => .pure [] s
  | .memorySize, [] => .pure [.i32 (s.mems mem).pages] s
  | _, _ => .stuck

/-- The last `n` values pushed, in the order of pushing, and the rest. -/
def popArgs (n : Nat) (stack : List (Val D)) : Option (List (Val D) × List (Val D)) :=
  if n ≤ stack.length then some ((stack.take n).reverse, stack.drop n) else none

abbrev Exec (D P A : Type) :=
  List (Instr P) → Frame D → Store D A → Comp D A (Ctl × Frame D)

abbrev Invoke (D A : Type) := FuncAddr D → List (Val D) → Store D A → Comp D A (List (Val D))

/-- Calling a function with `n` arguments from the stack. -/
def callWith (f : List (Val D) → Store D A → Comp D A (List (Val D))) (n : Nat) (fr : Frame D)
    (s : Store D A) : Comp D A (Frame D) :=
  match popArgs n fr.stack with
  | none => .stuck
  | some (args, rest) =>
    (f args s).bind fun results s => .pure { fr with stack := results.reverse ++ rest } s

/-- Calling what an index denotes. -/
def callTarget (sem : Sem D P A) (invoke : Invoke D A) (target : Target D) (n : Nat)
    (fr : Frame D) (s : Store D A) : Comp D A (Frame D) :=
  match target with
  | .addr f => callWith (invoke f) n fr s
  | .helper mem op => callWith (helper sem mem op) n fr s

/-- Leaving a label: a branch to it keeps the top `arity` values. -/
def exitLabel (arity : Nat) (rest : List (Val D)) (out : Ctl × Frame D) : Ctl × Frame D :=
  match out with
  | (.next, fr) => (.next, { fr with stack := fr.stack ++ rest })
  | (.br 0, fr) => (.next, { fr with stack := fr.stack.take arity ++ rest })
  | (.br (label + 1), fr) => (.br label, fr)
  | (.ret, fr) => (.ret, fr)

/-- A body with `params` values of the stack, under a label. -/
def enter (exec : Exec D P A) (params results : Nat) (body : List (Instr P)) (fr : Frame D)
    (s : Store D A) : Comp D A (Ctl × Frame D) :=
  if params ≤ fr.stack.length then
    (exec body { fr with stack := fr.stack.take params } s).bind fun out s =>
      .pure (exitLabel results (fr.stack.drop params) out) s
  else .stuck

/-- One operator, given the meaning of nested code and of calls. -/
def step (sem : Sem D P A) (inst : Inst D P) (exec : Exec D P A) (invoke : Invoke D A)
    (i : Instr P) (fr : Frame D) (s : Store D A) : Comp D A (Ctl × Frame D) :=
  match i with
  | .load op memarg =>
    match fr.stack, inst.mems[memarg.memory]? with
    | .i32 base :: rest, some mem =>
      (doLoad id (memarg.memory == 0) mem op base memarg.offset
        (effectiveAddress base memarg.offset) s).bind
        fun v s => .pure (.next, { fr with stack := v :: rest }) s
    | _, _ => .stuck
  | .store op memarg =>
    match fr.stack, inst.mems[memarg.memory]? with
    | v :: .i32 base :: rest, some mem =>
      (doStore id (memarg.memory == 0) mem op base memarg.offset
        (effectiveAddress base memarg.offset) v s).bind
        fun _ s => .pure (.next, { fr with stack := rest }) s
    | _, _ => .stuck
  | .memorySize mem =>
    match inst.mems[mem]? with
    | some mem => .pure (.next, { fr with stack := .i32 (s.mems mem).pages :: fr.stack }) s
    | none => .stuck
  | .otherMemory => .stuck
  | .i32Const c => .pure (.next, { fr with stack := .i32 c :: fr.stack }) s
  | .refFunc f =>
    match inst.target f with
    | some (.addr f) => .pure (.next, { fr with stack := .ref (some f) :: fr.stack }) s
    | _ => .stuck
  | .call f =>
    match inst.target f, inst.funcType f with
    | some target, some ty =>
      (callTarget sem invoke target ty.params.length fr s).bind fun fr s =>
        .pure (.next, fr) s
    | _, _ => .stuck
  | .returnCall f =>
    match inst.target f, inst.funcType f with
    | some target, some ty =>
      (callTarget sem invoke target ty.params.length fr s).bind fun fr s =>
        .pure (.ret, fr) s
    | _, _ => .stuck
  | .callIndirect p ty =>
    match inst.types[ty]? with
    | none => .stuck
    | some ty =>
      match sem.select p ty fr.stack s.aux with
      | none => .trap s
      | some (f, stack) =>
        (callWith (invoke f) ty.params.length { fr with stack } s).bind
          fun fr s => .pure (.next, fr) s
  | .plain p =>
    match sem.plain p fr.stack fr.locals s.aux with
    | none => .trap s
    | some (stack, locals, aux) => .pure (.next, { stack, locals }) { s with aux }
  | .block params results body => enter exec params results body fr s
  | .loop params body =>
    if params ≤ fr.stack.length then
      (exec body { fr with stack := fr.stack.take params } s).bind fun out s =>
        match out with
        | (.br 0, fr') =>
          -- back to the loop, with its parameters on the stack again
          exec [.loop params body]
            { fr' with stack := fr'.stack.take params ++ fr.stack.drop params } s
        | out => .pure (exitLabel params (fr.stack.drop params) out) s
    else .stuck
  | .ite params results thenBody elseBody =>
    match fr.stack with
    | .i32 c :: stack =>
      if c = 0 then enter exec params results elseBody { fr with stack } s
      else enter exec params results thenBody { fr with stack } s
    | _ => .stuck
  | .br label => .pure (.br label, fr) s
  | .brIf label =>
    match fr.stack with
    | .i32 c :: stack => .pure (if c = 0 then .next else .br label, { fr with stack }) s
    | _ => .stuck
  | .brTable labels default =>
    match fr.stack with
    | .i32 c :: stack => .pure (.br (labels[c.toNat]?.getD default), { fr with stack }) s
    | _ => .stuck
  | .ret => .pure (.ret, fr) s
  | .unreachable => .trap s

/-- A sequence of operators. -/
def seq (step : Instr P → Frame D → Store D A → Comp D A (Ctl × Frame D)) : Exec D P A
  | [], fr, s => .pure (.next, fr) s
  | i :: is, fr, s =>
    (step i fr s).bind fun out s =>
      match out with
      | (.next, fr) => seq step is fr s
      | out => .pure out s

/-- Running host code; it sees whether a call came back. -/
def runHost (invoke : Invoke D A) : HostProg D A → Comp D A (List (Val D))
  | .done results s => .pure results s
  | .trap s => .trap s
  | .call f args s k => (invoke f args s).settle.bind fun r s => runHost invoke (k r s)

/-- Invoking a function, given the meaning of bodies and of calls from hosts. -/
def invokeWith (sem : Sem D P A) (inst : Inst D P) (exec : Exec D P A) (invoke : Invoke D A) :
    Invoke D A
  | .host d, args, s => runHost invoke (sem.host d args s)
  | .local j, args, s =>
    match inst.code[j]?, inst.funcs[j]?.bind (inst.types[·]?) with
    | some body, some ty =>
      (exec body.code ⟨[], args ++ body.locals.map ValType.default⟩ s).bind fun out s =>
        .pure (out.2.stack.take ty.results.length).reverse s
    | _, _ => .stuck

/-- Code and calls with fuel `n`. -/
def level (sem : Sem D P A) (inst : Inst D P) : Nat → Exec D P A × Invoke D A
  | 0 => (fun _ _ _ => .outOfFuel, fun _ _ _ => .outOfFuel)
  | n + 1 =>
    (seq (step sem inst (level sem inst n).1 (level sem inst n).2),
      invokeWith sem inst (level sem inst n).1 (level sem inst n).2)

/-- Invoking a function with fuel `n`. -/
def Inst.invoke (inst : Inst D P) (sem : Sem D P A) (n : Nat) : Invoke D A := (level sem inst n).2

end

/-! ## Exports -/

/-- What an exported name denotes. -/
inductive Exported (D : Type) where
  | func (target : Target D)
  | memory (mem : D)
  | other (kind : ExternalKind) (index : Nat)
deriving DecidableEq, Repr

/-- The denotation of an export entry in an instance. -/
def Inst.resolve (inst : Inst D P) (e : Export) : Option (String × Exported D) :=
  match e.kind with
  | .func => (inst.target e.index).map fun target => (e.name, .func target)
  | .memory => inst.mems[e.index]?.map fun mem => (e.name, .memory mem)
  | kind => some (e.name, .other kind e.index)

end Jco.Core

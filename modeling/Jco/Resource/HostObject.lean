import Mathlib.Logic.Function.Basic
import Jco.Lib.Run
import Jco.Resource.Table

/-! # Host objects for component-defined resources

An exported call that returns own handles wraps each of them in a JavaScript
object. The lifting code is emitted once per position of the result type and
runs once per value: a `for` loop of `ListLift` runs its body for every
element, on the same `var`s. The `dispose` function of an object is a closure
over these variables, which are modelled as such: it names the call and the
lifting site, and reads the variables when it runs.
-/

namespace Jco.Resource

open Jco.Js Jco.Lib

/-! ## Emitted lifting code -/

/-- A result type, as far as own handles of one resource are concerned. -/
inductive ResultTy where
  | own
  | plain
  | record (fields : List ResultTy)
  | variant (cases : List ResultTy)
  | list (element : ResultTy)

/-- The code `FunctionBindgen::emit` writes for a result type. -/
inductive LiftCode where
  | skip
  /-- `HandleLift`, which sets the variables `rsc{site}` and `handle{site}`. -/
  | handleLift (site : Nat)
  | seq (parts : List LiftCode)
  | switch (arms : List LiftCode)
  /-- `for (let i = 0; i < len; i++) { body }` -/
  | forLoop (body : LiftCode)

mutual

/-- Code for a type, with the next unused number of `self.tmp()`. -/
def emitLift : ResultTy → Nat → LiftCode × Nat
  | .own, tmp => (.handleLift tmp, tmp + 1)
  | .plain, tmp => (.skip, tmp)
  | .record fields, tmp =>
    let (parts, tmp) := emitLifts fields tmp
    (.seq parts, tmp)
  | .variant cases, tmp =>
    let (arms, tmp) := emitLifts cases tmp
    (.switch arms, tmp)
  | .list element, tmp =>
    let (body, tmp) := emitLift element tmp
    (.forLoop body, tmp + 1)

def emitLifts : List ResultTy → Nat → List LiftCode × Nat
  | [], tmp => ([], tmp)
  | ty :: tys, tmp =>
    let (code, tmp) := emitLift ty tmp
    let (codes, tmp) := emitLifts tys tmp
    (code :: codes, tmp)

end

/-- A returned value, with the handles in its own positions. -/
inductive ResultVal where
  | handle (h : Nat)
  | plain
  | record (fields : List ResultVal)
  | case (disc : Nat) (payload : ResultVal)
  | list (elements : List ResultVal)

mutual

/-- The `HandleLift` executions of a run of the code: the site and the handle,
in order. -/
def LiftCode.lifts : ResultVal → LiftCode → List (Nat × Nat)
  | .handle h, .handleLift site => [(site, h)]
  | .record vals, .seq parts => LiftCode.liftsAll vals parts
  | .case disc payload, .switch arms =>
    match arms[disc]? with
    | some arm => LiftCode.lifts payload arm
    | none => []
  | .list vals, .forLoop body => LiftCode.liftsEach vals body
  | _, _ => []

def LiftCode.liftsAll : List ResultVal → List LiftCode → List (Nat × Nat)
  | val :: vals, part :: parts => LiftCode.lifts val part ++ LiftCode.liftsAll vals parts
  | _, _ => []

def LiftCode.liftsEach : List ResultVal → LiftCode → List (Nat × Nat)
  | [], _ => []
  | val :: vals, body => LiftCode.lifts val body ++ LiftCode.liftsEach vals body

end

/-- The lifts of a call that returns `val` at the type `ty`. -/
def liftsOf (ty : ResultTy) (val : ResultVal) : List (Nat × Nat) :=
  (emitLift ty 0).1.lifts val

/-! ## Host state -/

/-- The two properties of a returned object: `symbolRscHandle`, and the closure
under `symbolDispose` as the call and the site whose variables it reads
(`none` is `emptyFunc`). -/
structure HostObj where
  handle : Option Nat
  dispose : Option (Nat × Nat)
deriving DecidableEq, Repr

/-- The class name used in messages, and whether the component defines a
destructor. -/
structure ResourceInfo where
  className : String
  hasDtor : Bool

/-- The exception of `HandleLower` for an object without a handle. -/
def ResourceInfo.invalid (info : ResourceInfo) : JsError :=
  .typeError s!"Resource error: Not a valid \"{info.className}\" resource."

/-- `vars` holds the variables `rsc` and `handle` of each site of each call,
`registry` the cells of the `FinalizationRegistry` with the object as target
and token, `dtorCalls` the reps passed to the destructor so far. -/
structure HostState where
  table : ResourceTable
  objs : Nat → Option HostObj
  objCount : Nat
  vars : Nat → Nat → Option (Nat × Nat)
  calls : Nat
  registry : List (Nat × Nat)
  dtorCalls : List Int

def HostState.init : HostState where
  table := .fresh
  objs _ := none
  objCount := 0
  vars _ _ := none
  calls := 0
  registry := []
  dtorCalls := []

/-- What an event answers. -/
inductive HostAnswer where
  | nothing
  | handle (h : Int)
  | objects (os : List Nat)
  | released (handle : Nat) (rep : Int)
  | threw (e : JsError)
deriving DecidableEq, Repr

namespace HostState

variable (info : ResourceInfo) (s : HostState)

def setObj (o : Nat) (obj : Option HostObj) : HostState :=
  { s with objs := Function.update s.objs o obj }

/-- `finalizationRegistry.unregister(o)` -/
def unregister (o : Nat) : HostState :=
  { s with registry := s.registry.filter (·.1 ≠ o) }

/-- Call the destructor, when the component defines one. -/
def runDtor (rep : Int) : HostState :=
  { s with dtorCalls := if info.hasDtor then s.dtorCalls ++ [rep] else s.dtorCalls }

/-- `HandleLift` at `site` of the running call: a new object, its registration
and its `dispose` closure. -/
def handleLift (site h : Nat) : HostState where
  table := s.table
  objs := Function.update s.objs s.objCount (some ⟨some h, some (s.calls, site)⟩)
  objCount := s.objCount + 1
  vars := Function.update s.vars s.calls
    (Function.update (s.vars s.calls) site (some (s.objCount, h)))
  calls := s.calls
  registry := (s.objCount, h) :: s.registry
  dtorCalls := s.dtorCalls

/-- The lifts of one call, in order. -/
def liftAll (s : HostState) : List (Nat × Nat) → HostState
  | [] => s
  | (site, h) :: rest => (s.handleLift site h).liftAll rest

/-- An exported call returns: lift its result and leave the function. -/
def callReturns (ty : ResultTy) (val : ResultVal) : HostState × HostAnswer :=
  let lifts := liftsOf ty val
  let s' := s.liftAll lifts
  ({ s' with calls := s'.calls + 1 }, .objects (List.range' s.objCount lifts.length))

/-- `o[Symbol.dispose]()` -/
def dispose (o : Nat) : HostState × HostAnswer :=
  match s.objs o with
  | none => (s, .nothing)
  | some { dispose := none, .. } => (s, .nothing)
  | some { dispose := some (call, site), .. } =>
    match s.vars call site with
    | none => (s, .threw .engine)
    | some (rsc, handle) =>
      let s := s.unregister rsc
      match rscTableRemove s.table handle with
      | .error e => (s, .threw e)
      | .ok (handleEntry, table) =>
        let s := { s with table }.setObj rsc (some ⟨none, none⟩)
        (s.runDtor info handleEntry.rep, .released handle handleEntry.rep)

/-- `HandleLower` of an own parameter. -/
def passBack (o : Nat) : HostState × HostAnswer :=
  match s.objs o with
  | some { handle := some (h + 1), .. } =>
    ((s.unregister o).setObj o (some ⟨none, none⟩), .handle (h + 1 : Nat))
  | _ => (s, .threw info.invalid)

/-- The engine collects `o` and runs the registered callback, if any. -/
def finalize (o : Nat) : HostState × HostAnswer :=
  match s.registry.find? (·.1 = o) with
  | none => (s.setObj o none, .nothing)
  | some (_, handle) =>
    let s := (s.unregister o).setObj o none
    match rscTableRemove s.table handle with
    | .error e => (s, .threw e)
    | .ok (handleEntry, table) =>
      ({ s with table }.runDtor info handleEntry.rep, .released handle handleEntry.rep)

/-- `resource.new` in the component. -/
def resourceNew (rep : Int) : HostState × HostAnswer :=
  let (handle, table) := rscTableCreateOwn s.table rep
  ({ s with table }, .handle handle)

/-- `resource.drop` in the component. -/
def resourceDrop (handle : Nat) : HostState × HostAnswer :=
  match rscTableRemove s.table handle with
  | .error e => (s, .threw e)
  | .ok (handleEntry, table) =>
    let s := { s with table }
    let s := if handleEntry.own then s.runDtor info handleEntry.rep else s
    (s, .released handle handleEntry.rep)

end HostState

/-! ## Events -/

inductive HostEvent where
  | resourceNew (rep : Int)
  | resourceDrop (handle : Nat)
  | callReturns (ty : ResultTy) (val : ResultVal)
  | dispose (o : Nat)
  | passBack (o : Nat)
  | finalize (o : Nat)

def HostEvent.run (info : ResourceInfo) (s : HostState) : HostEvent → HostState × HostAnswer
  | .resourceNew rep => s.resourceNew rep
  | .resourceDrop handle => s.resourceDrop info handle
  | .callReturns ty val => s.callReturns ty val
  | .dispose o => s.dispose info o
  | .passBack o => s.passBack info o
  | .finalize o => s.finalize info o

/-- One event with its answer. -/
def hostNext (info : ResourceInfo) : Action (HostEvent × HostAnswer) HostState :=
  fun l s s' => l.1.run info s = (s', l.2)

end Jco.Resource

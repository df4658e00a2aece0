import Jco.Component.RepTable
import Jco.Lib.Run
import Mathlib.Algebra.BigOperators.Fin
import Mathlib.Logic.Function.Basic

/-! # Error contexts

An error context lives in one table of the whole program, under its global rep.
A component holds it through a handle, the object `ErrCtx` in the table of its
waitables, and lists the handle in its own table of error contexts. Both objects
count references: the global one all of them, the local one those of the handle.

Every component instance has one table of error contexts, so that the component
stands for the index of the table as well.
-/

namespace Jco.ErrorContext

open Jco.Js Jco.Lib Jco.Component

variable {n : Nat}

/-! ## State -/

/-- What `errCtxCreateLocalHandle` makes. -/
structure ErrCtx where
  globalRep : Int
  refCount : Int
  localIdx : Int

/-- The handle that `error-context.new` has made. -/
structure Home (n : Nat) where
  componentIdx : Fin n
  waitableIdx : Int
  localIdx : Int

/-- What `errCtxReserveGlobalRep` makes. -/
structure GlobalErrCtx (n : Nat) where
  refCount : Int
  debugMessage : String
  home : Option (Home n)

/-- A waitable of a component: an error context, or an object without its
fields. -/
inductive Handle where
  | errCtx (e : ErrCtx)
  | other

/-- The tables of a program with `n` component instances. `hostHeld` is history:
how often the host has lifted the error context at a place of the global table,
and not lowered it again. -/
structure State (n : Nat) where
  global : RepTable (GlobalErrCtx n)
  localTables : Fin n → Option (RepTable Int)
  handles : Fin n → RepTable Handle
  hostHeld : Int → Nat

/-- A call that may throw; without an answer when the memory is used up. -/
abbrev Outcome (n : Nat) (β : Type) := Option (Except JsError β × State n)

/-! ## Cells as values -/

/-- An object, or a link other than `0`. -/
def truthy {α : Type} : Option (Cell α) → Bool
  | some (.val _) => true
  | some (.link next) => next ≠ 0
  | none => false

/-- A cell of a table of numbers. -/
def number : Cell Int → Int
  | .val x => x
  | .link next => next

def errCtx? : Option (Cell Handle) → Option ErrCtx
  | some (.val (.errCtx e)) => some e
  | _ => none

def ErrCtx.addRef (amount : Int) (e : ErrCtx) : ErrCtx := { e with refCount := e.refCount + amount }

/-- An assignment to a field of the error context. -/
def Handle.map (f : ErrCtx → ErrCtx) : Handle → Handle
  | .errCtx e => .errCtx (f e)
  | .other => .other

def GlobalErrCtx.addRef (amount : Int) (g : GlobalErrCtx n) : GlobalErrCtx n :=
  { g with refCount := g.refCount + amount }

namespace State

/-! ## Helpers -/

/-- `errCtxGetLocalTable` -/
def getLocalTable (s : State n) (componentIdx : Fin n) : Except JsError (RepTable Int) :=
  match s.localTables componentIdx with
  | some t => .ok t
  | none => .error (.error s!"missing local error context table for component [{componentIdx}] while getting local table")

/-- `errCtxGetLocalTable` with `upsert` -/
def upsertLocalTable (s : State n) (componentIdx : Fin n) : RepTable Int × State n :=
  match s.localTables componentIdx with
  | some t => (t, s)
  | none =>
    (.empty, { s with localTables := Function.update s.localTables componentIdx (some .empty) })

/-- The object of a handle changes. -/
def modifyHandle (s : State n) (componentIdx : Fin n) (handle : Int) (f : ErrCtx → ErrCtx) :
    State n :=
  let handles := (s.handles componentIdx).modify handle (.map f)
  { s with handles := Function.update s.handles componentIdx handles }

/-- `errCtxGlobalRefCountAdd`. A link is a number, which has no fields to assign. -/
def globalRefCountAdd (s : State n) (globalRep amount : Int) : Except JsError Int × State n :=
  match s.global.get globalRep with
  | .error err => (.error err, s)
  | .ok cell =>
    if truthy cell then
      match cell with
      | some (.val g) =>
        (.ok (g.refCount + amount),
          { s with global := s.global.modify globalRep (.addRef amount) })
      | _ => (.error .engine, s)
    else
      (.error (.error s!"missing global error-context [{globalRep}] while incrementing refcount"), s)

/-- `errCtxCreateLocalHandle`: the handle and its index in the local table. -/
def createLocalHandle (s : State n) (componentIdx : Fin n) (componentLocalTable : RepTable Int)
    (globalRep : Int) : Outcome n (Int × Int) :=
  if globalRep = 0 then
    some (.error (.error "invalid resource rep during contains, (cannot be 0)"), s)
  else if ¬truthy (s.global.cell globalRep) then
    some (.error (.error s!"missing global error-context [{globalRep}] during local handle create"), s)
  else
    match (s.handles componentIdx).insert (.errCtx ⟨globalRep, 1, 0⟩) with
    | none => none
    | some (waitableIdx, handles) =>
      match componentLocalTable.insert waitableIdx with
      | none => none
      | some (localIdx, localTable) =>
        let handles := handles.modify waitableIdx (.map fun e => { e with localIdx })
        let s := { s with
          handles := Function.update s.handles componentIdx handles
          localTables := Function.update s.localTables componentIdx (some localTable) }
        match s.globalRefCountAdd globalRep 1 with
        | (.error err, s) => some (.error err, s)
        | (.ok _, s) => some (.ok (waitableIdx, localIdx), s)

/-! ## Operations -/

/-- `errCtxNew`, behind the reading of the message. -/
def new (s : State n) (componentIdx : Fin n) (debugMessage : String) : Outcome n Int :=
  match s.getLocalTable componentIdx with
  | .error err => some (.error err, s)
  | .ok localTable =>
    match s.global.insert ⟨0, debugMessage, none⟩ with
    | none => none
    | some (globalRep, global) =>
      match { s with global }.createLocalHandle componentIdx localTable globalRep with
      | none => none
      | some (.error err, s) => some (.error err, s)
      | some (.ok (waitableIdx, localIdx), s) =>
        let home := some ⟨componentIdx, waitableIdx, localIdx⟩
        some (.ok waitableIdx,
          { s with global := s.global.modify globalRep fun g => { g with home } })

/-- The part of `errCtxDrop` for the component: the count of the handle, and its
end when nothing is left of it. -/
def release (s : State n) (componentIdx : Fin n) (handle : Int) (localErrCtxTable : RepTable Int)
    (e : ErrCtx) : Except JsError Unit × State n :=
  if e.refCount ≤ 0 then
    -- a second `remove` of one index would break a table; no handle is in the
    -- tables twice
    match localErrCtxTable.remove e.localIdx, (s.handles componentIdx).remove handle with
    | some localTable, some handles =>
      (.ok (), { s with
        localTables := Function.update s.localTables componentIdx (some localTable)
        handles := Function.update s.handles componentIdx handles })
    | _, _ => (.error .engine, s)
  else (.ok (), s.modifyHandle componentIdx handle fun _ => e)

/-- `errCtxDrop` -/
def drop (s : State n) (componentIdx : Fin n) (handle : Int) : Except JsError Unit × State n :=
  match (s.handles componentIdx).get handle with
  | .error err => (.error err, s)
  | .ok cell =>
  match errCtx? cell with
  | none =>
    (.error (.error s!"missing error context (handle [{handle}]) in component idx [{componentIdx}] during drop"), s)
  | some e =>
  match s.getLocalTable componentIdx with
  | .error err => (.error err, s)
  | .ok localErrCtxTable =>
  match localErrCtxTable.get e.localIdx with
  | .error err => (.error err, s)
  | .ok localCell =>
  if (localCell.elim 0 number) = 0 then
    (.error (.error s!"missing error-context with handle [{handle}] in component [{componentIdx}] during drop"), s)
  else
    let e := e.addRef (-1)
    match s.release componentIdx handle localErrCtxTable e with
    | (.error err, s) => (.error err, s)
    | (.ok (), s) =>
    match s.globalRefCountAdd e.globalRep (-1) with
    | (.error err, s) => (.error err, s)
    | (.ok globalRefCount, s) =>
      if globalRefCount ≠ 0 then (.ok (), s)
      else if e.refCount ≠ 0 then
        (.error (.error "local refCount exceeds global during removal"), s)
      else
        match s.global.remove e.globalRep with
        | some global => (.ok (), { s with global })
        | none => (.error .engine, s)

/-- `errCtxTransfer` -/
def transfer (s : State n) (waitableIdx : Int) (src dest : Fin n) : Outcome n Int :=
  match s.getLocalTable src with
  | .error err => some (.error err, s)
  | .ok _ =>
    let (toTbl, s) := s.upsertLocalTable dest
    match (s.handles src).get waitableIdx with
    | .error err => some (.error err, s)
    | .ok cell =>
      if ¬truthy cell then
        some (.error (.error s!"missing error context (waitable idx [{waitableIdx}])"), s)
      else
        match errCtx? cell with
        | none =>
          some (.error (.error "unexpectedly missing local idx from error context object"), s)
        | some e =>
          if e.localIdx = 0 then
            some (.error (.error "unexpectedly missing local idx from error context object"), s)
          else if e.globalRep = 0 then
            some (.error (.error "unexpectedly missing globalRep from error context object"), s)
          else
            match (s.modifyHandle src waitableIdx (.addRef (-1))).createLocalHandle dest toTbl
              e.globalRep with
            | none => none
            | some (.error err, s) => some (.error err, s)
            | some (.ok (newWaitableIdx, _), s) => some (.ok newWaitableIdx, s)

/-- `_liftFlatErrorContext`: the rep that the host gets. -/
def liftFlatErrorContext (s : State n) (errCtxTableIdx : Nat) (componentIdx : Fin n)
    (useDirectParams : Bool) (params : List Int) : Except JsError Int × State n :=
  if ¬useDirectParams then
    (.error (.error "indirect flat lift for error-contexts not yet implemented!"), s)
  else
    match params with
    | [] => (.error (.error "expected at least one single i32 argument"), s)
    | val :: _ =>
      match s.getLocalTable componentIdx with
      | .error err => (.error err, s)
      | .ok table =>
      match table.get val with
      | .error err => (.error err, s)
      | .ok none =>
        (.error (.error s!"missing  error ctx (handle [{val}], component [{componentIdx}], error context table [{errCtxTableIdx}])"), s)
      | .ok (some cell) =>
        let handle := number cell
        match (s.handles componentIdx).get handle with
        | .error err => (.error err, s)
        | .ok cell =>
        match errCtx? cell with
        | none =>
          (.error (.error s!"malformed error context (handle [{handle}], component [{componentIdx}])"), s)
        | some e =>
          match (s.modifyHandle componentIdx handle (.addRef (-1))).globalRefCountAdd
            e.globalRep 1 with
          | (.error err, s) => (.error err, s)
          | (.ok _, s) => (.ok e.globalRep, s)

/-- The clean-up of the previous handle in `_lowerFlatErrorContext`. Its
`prevComponentState.remove` is no method, so that the call throws. -/
def cleanUpPrevious (s : State n) (home : Option (Home n)) : Except JsError Unit :=
  match home with
  -- the state of the component `undefined` has an empty table
  | none => .ok ()
  | some home =>
    match (s.handles home.componentIdx).get home.waitableIdx with
    | .error err => .error err
    | .ok none => .error .engine
    | .ok (some (.val (.errCtx e))) => if e.refCount = 0 then .error .engine else .ok ()
    | .ok (some _) => .ok ()

/-- `_lowerFlatErrorContext` of a rep; `stored` is what `_lowerFlatU32` does at
the end. The handle is looked up under the number of the component, and the
handle that is found there is counted before `errCtx`, which is not defined. -/
def lowerFlatErrorContext (s : State n) (componentIdx : Fin n) (errCtxGlobalRep : Int)
    (stored : Except JsError Unit) : Outcome n Unit :=
  match s.global.get errCtxGlobalRep with
  | .error err => some (.error err, s)
  | .ok none => some (.error .engine, s)
  | .ok (some cell) =>
  match s.cleanUpPrevious (match cell with | .val g => g.home | .link _ => none) with
  | .error err => some (.error err, s)
  | .ok () =>
    let (localErrCtxTable, s) := s.upsertLocalTable componentIdx
    match localErrCtxTable.get componentIdx with
    | .error err => some (.error err, s)
    | .ok (some cell) =>
      let handle := number cell
      match (s.handles componentIdx).get handle with
      | .error err => some (.error err, s)
      | .ok _ => some (.error .engine, s.modifyHandle componentIdx handle (.addRef 1))
    | .ok none =>
    match s.createLocalHandle componentIdx localErrCtxTable errCtxGlobalRep with
    | none => none
    | some (.error err, s) => some (.error err, s)
    | some (.ok _, s) =>
    match s.globalRefCountAdd errCtxGlobalRep (-1) with
    | (.error err, s) => some (.error err, s)
    | (.ok _, s) => some (stored, s)

/-- Another object is put among the waitables. -/
def insertOther (s : State n) (componentIdx : Fin n) : Outcome n Int :=
  match (s.handles componentIdx).insert .other with
  | none => none
  | some (waitableIdx, handles) =>
    some (.ok waitableIdx,
      { s with handles := Function.update s.handles componentIdx handles })

/-- Another object is removed; its operations find no error context. -/
def removeOther (s : State n) (componentIdx : Fin n) (handle : Int) :
    Except JsError Unit × State n :=
  match (s.handles componentIdx).lookup handle, (s.handles componentIdx).remove handle with
  | some .other, some handles =>
    (.ok (), { s with handles := Function.update s.handles componentIdx handles })
  | _, _ => (.error .engine, s)

end State

/-! ## Runs -/

inductive Call (n : Nat) where
  | new (componentIdx : Fin n) (debugMessage : String)
  | drop (componentIdx : Fin n) (handle : Int)
  | transfer (waitableIdx : Int) (src dest : Fin n)
  | lift (errCtxTableIdx : Nat) (componentIdx : Fin n) (useDirectParams : Bool) (params : List Int)
  | lower (componentIdx : Fin n) (errCtxGlobalRep : Int) (stored : Except JsError Unit)
  | insertOther (componentIdx : Fin n)
  | removeOther (componentIdx : Fin n) (handle : Int)

inductive Answer where
  | idx (i : Int)
  | done
  | throws (err : JsError)

/-- What a call gives, and what the host holds after it. -/
def answered {β : Type} (f : β → Answer) (held : β → (Int → Nat) → Int → Nat) :
    Except JsError β × State n → Answer × State n
  | (.ok x, s) => (f x, { s with hostHeld := held x s.hostHeld })
  | (.error err, s) => (.throws err, s)

/-- A call, unless the host lowers what it does not have. -/
def State.call (s : State n) : Call n → Option (Answer × State n)
  | .new c debugMessage => (s.new c debugMessage).map (answered .idx fun _ held => held)
  | .drop c handle => some (answered (fun _ => .done) (fun _ held => held) (s.drop c handle))
  | .transfer waitableIdx src dest =>
    (s.transfer waitableIdx src dest).map (answered .idx fun _ held => held)
  | .lift errCtxTableIdx c useDirectParams params =>
    some (answered .idx
      (fun rep held => Function.update held (slot rep) (held (slot rep) + 1))
      (s.liftFlatErrorContext errCtxTableIdx c useDirectParams params))
  | .lower c rep stored =>
    if s.hostHeld (slot rep) = 0 then none
    else (s.lowerFlatErrorContext c rep stored).map
      (answered (fun _ => .done) fun _ held =>
        Function.update held (slot rep) (held (slot rep) - 1))
  | .insertOther c => (s.insertOther c).map (answered .idx fun _ held => held)
  | .removeOther c handle =>
    some (answered (fun _ => .done) (fun _ held => held) (s.removeOther c handle))

/-- The action of a program with error contexts. -/
def errCtxNext : Action (Call n × Answer) (State n) :=
  fun l s s' => s.call l.1 = some (l.2, s')

/-- The tables when the program starts: those of the components in `ensured` are
there, because they call `error-context.new`. -/
def State.init (ensured : Fin n → Bool) : State n where
  global := .empty
  localTables c := if ensured c then some .empty else none
  handles _ := .empty
  hostHeld _ := 0

/-! ## The property -/

/-- A handle to the error context at a place of the global table. -/
def Handle.isFor (place : Int) : Handle → Bool
  | .errCtx e => slot e.globalRep = place
  | .other => false

/-- What a handle counts for the error context at a place. -/
def Handle.countFor (place : Int) : Handle → Int
  | .errCtx e => if slot e.globalRep = place then e.refCount else 0
  | .other => 0

/-- How many handles to one error context a component has. -/
def State.heldBy (s : State n) (c : Fin n) (place : Int) : Int :=
  (s.handles c).total fun h => if h.isFor place then 1 else 0

/-- What a component counts for one error context. -/
def State.localCount (s : State n) (c : Fin n) (place : Int) : Int :=
  (s.handles c).total (Handle.countFor place)

/-- All live handles to an error context: those of the components, and the
host's. -/
def State.liveHandles (s : State n) (place : Int) : Int :=
  (∑ c, s.heldBy c place) + s.hostHeld place

/-- The reference counts are those of the live handles. -/
structure Counts (s : State n) : Prop where
  global : ∀ (i : Nat) g, s.global.cells[i]? = some (.val g) → g.refCount = s.liveHandles (i + 1)
  component : ∀ c place, s.localCount c place = s.heldBy c place
  /-- The entry is there as long as a handle is. -/
  kept : ∀ place, 0 < s.liveHandles place ↔ ∃ (i : Nat) (g : GlobalErrCtx n),
    place = i + 1 ∧ s.global.cells[i]? = some (.val g)
  drops : ∀ c handle e, (s.handles c).lookup handle = some (.errCtx e) →
    ∃ s', s.drop c handle = (.ok (), s')

/-! ## The condition -/

/-- No error context is transferred, and none is lifted: a transfer names a
handle that is none, and a lift fails before it gets to one. -/
def Safe (l : Call n × Answer) (s : State n) : Prop :=
  match l.1 with
  | .transfer waitableIdx src _ =>
    ∀ e, (s.handles src).lookup waitableIdx ≠ some (.errCtx e)
  | .lift _ c useDirectParams params =>
    useDirectParams = true → ∀ val rest, params = val :: rest → val ≠ 0 →
      ∀ table cell, s.localTables c = some table → table.cell val = some cell →
        number cell ≠ 0 → ∀ e, (s.handles c).lookup (number cell) ≠ some (.errCtx e)
  | _ => True

end Jco.ErrorContext

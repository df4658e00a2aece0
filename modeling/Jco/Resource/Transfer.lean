import Mathlib.Logic.Function.Basic
import Jco.Resource.Table

/-! # Moving handles between tables

The transfer intrinsics of `intrinsics/resource.rs` over the global
`HANDLE_TABLES`. A destination table that does not exist yet is created by the
transfer; a missing source table is a property access on `undefined`.
-/

namespace Jco.Resource

open Jco.Js

/-- The globals the transfer functions share: `HANDLE_TABLES`,
`RESOURCE_CALL_BORROWS` as pairs of a table and a handle, and `SCOPE_ID`. -/
structure HandleTables where
  tables : Nat → Option ResourceTable
  callBorrows : List (Nat × Int)
  scopeId : Int

namespace HandleTables

def setTable (s : HandleTables) (tid : Nat) (t : ResourceTable) : HandleTables where
  tables := Function.update s.tables tid (some t)
  callBorrows := s.callBorrows
  scopeId := s.scopeId

/-- The table of `tid`, or the fresh one a transfer creates for it. -/
def ensureTable (s : HandleTables) (tid : Nat) : ResourceTable :=
  (s.tables tid).getD .fresh

theorem tables_setTable (s : HandleTables) (tid tid' : Nat) (t : ResourceTable) :
    (s.setTable tid t).tables tid' = if tid' = tid then some t else s.tables tid' := by
  simp [setTable, Function.update_apply]

@[simp] theorem scopeId_setTable (s : HandleTables) (tid : Nat) (t : ResourceTable) :
    (s.setTable tid t).scopeId = s.scopeId := rfl

end HandleTables

/-- `HANDLE_TABLES[tid]`, read from or written to. -/
def tableOf (s : HandleTables) (tid : Nat) : Except JsError ResourceTable :=
  match s.tables tid with
  | some t => .ok t
  | none => .error .engine

def resourceTransferOwn (s : HandleTables) (handle : Int) (fromTid toTid : Nat) :
    Except JsError (Int × HandleTables) := do
  let fromTable ← tableOf s fromTid
  let ({ rep, .. }, fromTable) ← rscTableRemove fromTable handle
  let s := s.setTable fromTid fromTable
  let (newHandle, toTable) := rscTableCreateOwn (s.ensureTable toTid) rep
  .ok (newHandle, s.setTable toTid toTable)

/-- The rep a borrow transfer takes from the source table: the entry of
`handle` stays when it is an own, and a borrow is removed. The two functions
below differ in the handle they pass to `rscTableRemove`. -/
def takeRep (fromTable : ResourceTable) (handle removed : Int) :
    Except JsError (Int × ResourceTable) :=
  let val := num (fromTable.cells.get (shl handle 1 + 1))
  if bitAnd val T_FLAG ≠ 0 then
    .ok (bitAnd val (bitNot T_FLAG), fromTable)
  else do
    let ({ rep, .. }, fromTable) ← rscTableRemove fromTable removed
    .ok (rep, fromTable)

/-- The destination side of a borrow transfer: a table that created the rep
itself gets the rep, any other a new borrow handle. -/
def giveBorrow (s : HandleTables) (toTid : Nat) (rep : Int) :
    Except JsError (Int × Bool × HandleTables) :=
  let toTable := s.ensureTable toTid
  if rep ∈ toTable.createdReps then
    .ok (rep, false, s.setTable toTid toTable)
  else do
    let (newHandle, toTable) ← rscTableCreateBorrow toTable rep (some s.scopeId)
    .ok (newHandle, true, s.setTable toTid toTable)

def resourceTransferBorrow (s : HandleTables) (handle : Int) (fromTid toTid : Nat) :
    Except JsError (Int × HandleTables) := do
  let fromTable ← tableOf s fromTid
  -- `fromHandle` is the second cell of the pair, not the handle
  let fromHandle := num (fromTable.cells.get (shl handle 1 + 1))
  let (rep, fromTable) ← takeRep fromTable handle fromHandle
  let (newHandle, isNew, s) ← giveBorrow (s.setTable fromTid fromTable) toTid rep
  let callBorrows := if isNew then s.callBorrows ++ [(toTid, newHandle)] else s.callBorrows
  .ok (newHandle, { s with callBorrows })

def resourceTransferBorrowValidLifting (s : HandleTables) (handle : Int) (fromTid toTid : Nat) :
    Except JsError (Int × HandleTables) := do
  let fromTable ← tableOf s fromTid
  let (rep, fromTable) ← takeRep fromTable handle handle
  let (newHandle, _, s) ← giveBorrow (s.setTable fromTid fromTable) toTid rep
  .ok (newHandle, s)

end Jco.Resource

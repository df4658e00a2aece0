import Jco.Js.Array
import Jco.Js.Basic
import Jco.Js.Int32

/-! # Resource handle tables

The slab of `intrinsics/resource.rs`: a flat array of pairs, indexed by handle,
with a free list threaded through the first cell of the dead pairs and its head
in cell `0`. Bit `30` tells a free-list link from a scope in the first cell of
a pair, and an own entry from a borrow in the second.

The functions keep the names of the JavaScript intrinsics. A call that throws
does so before its first write, so it answers only the exception.
-/

namespace Jco.Resource

open Jco.Js

/-- `const T_FLAG = 1 << 30;` -/
def T_FLAG : Int := shl 1 30

/-- A handle table: the flat array and its `_createdReps` set. -/
structure ResourceTable where
  cells : JsArray Int
  createdReps : List Int

/-- The array literal `[T_FLAG, 0]` with an empty `_createdReps`. -/
def ResourceTable.fresh : ResourceTable where
  cells := .ofList [T_FLAG, 0]
  createdReps := []

/-- What `rscTableGet` and `rscTableRemove` answer. -/
structure Entry where
  rep : Int
  scope : Option Int
  own : Bool
deriving DecidableEq, Repr

/-- The common part of the two `create` functions: take the head of the free
list, or push a new pair when the list is empty. -/
def allocate (table : JsArray Int) (scope val : Int) : Int × JsArray Int :=
  let free := bitAnd (num (table.get 0)) (bitNot T_FLAG)
  if free = 0 then
    let table := (table.push scope).push val
    (shr table.length 1 - 1, table)
  else
    let table := table.set 0 (table.get (shl free 1))
    let table := table.set (shl free 1) (some scope)
    let table := table.set (shl free 1 + 1) (some val)
    (free, table)

def rscTableCreateBorrow (table : ResourceTable) (rep : Int) (scopeId : Option Int) :
    Except JsError (Int × ResourceTable) :=
  match scopeId with
  | none => .error (.error "missing scopeId")
  | some scopeId =>
    let (handle, cells) := allocate table.cells scopeId rep
    .ok (handle, { table with cells })

def rscTableCreateOwn (table : ResourceTable) (rep : Int) : Int × ResourceTable :=
  let (handle, cells) := allocate table.cells 0 (bitOr rep T_FLAG)
  (handle, { cells, createdReps := rep :: table.createdReps })

def rscTableGet (table : ResourceTable) (handle : Int) : Except JsError Entry :=
  let scope := table.cells.get (shl handle 1)
  let val := table.cells.get (shl handle 1 + 1)
  let own := bitAnd (num val) T_FLAG != 0
  let rep := bitAnd (num val) (bitNot T_FLAG)
  if rep = 0 ∨ bitAnd (num scope) T_FLAG ≠ 0 then
    .error (.typeError "Invalid handle")
  else
    .ok { rep, scope, own }

def rscTableRemove (table : ResourceTable) (handle : Int) :
    Except JsError (Entry × ResourceTable) :=
  let scope := table.cells.get (shl handle 1)
  let val := table.cells.get (shl handle 1 + 1)
  let own := bitAnd (num val) T_FLAG != 0
  let rep := bitAnd (num val) (bitNot T_FLAG)
  -- `val === 0`, where `rscTableGet` tests `rep === 0`: `undefined` passes.
  if val = some 0 ∨ bitAnd (num scope) T_FLAG ≠ 0 then
    .error (.typeError "Invalid handle")
  else
    let cells := table.cells.set (shl handle 1) (some (bitOr (num (table.cells.get 0)) T_FLAG))
    let cells := cells.set 0 (some (bitOr handle T_FLAG))
    .ok ({ rep, scope, own }, { table with cells })

/-- The first cell of the handle's pair carries the free-list flag. -/
def Flagged (t : ResourceTable) (handle : Int) : Prop :=
  bitAnd (num (t.cells.get (shl handle 1))) T_FLAG ≠ 0

instance (t : ResourceTable) (handle : Int) : Decidable (Flagged t handle) :=
  inferInstanceAs (Decidable (_ ≠ _))

/-! ## Flag arithmetic -/

theorem T_FLAG_eq : T_FLAG = 2 ^ 30 := by decide

/-- Values below the flag, which scopes, reps and handles are. -/
def Small (x : Int) : Prop := 0 ≤ x ∧ x < 2 ^ 30

instance (x : Int) : Decidable (Small x) := inferInstanceAs (Decidable (_ ∧ _))

variable {x : Int}

theorem bitAnd_flag_small (h : Small x) : bitAnd x T_FLAG = 0 := by
  unfold Small at h
  rw [T_FLAG_eq, bitAnd_pow30]
  unfold bit30
  omega

theorem bitAnd_flag_add (h : Small x) : bitAnd (x + T_FLAG) T_FLAG ≠ 0 := by
  unfold Small at h
  rw [T_FLAG_eq, bitAnd_pow30]
  unfold bit30
  omega

theorem bmod_small (h : -2 ^ 31 ≤ x) (h' : x < 2 ^ 31) : Int.bmod x (2 ^ 32) = x := by
  apply Int.bmod_eq_of_le
  · simpa using h
  · simpa using h'

theorem clear_flag_small (h : Small x) : bitAnd x (bitNot T_FLAG) = x := by
  unfold Small at h
  have hb : bit30 x = 0 := by unfold bit30; omega
  rw [T_FLAG_eq, bitAnd_not_pow30, hb, bmod_small] <;> omega

theorem clear_flag_add (h : Small x) : bitAnd (x + T_FLAG) (bitNot T_FLAG) = x := by
  unfold Small at h
  rw [T_FLAG_eq, bitAnd_not_pow30]
  have hb : bit30 (x + 2 ^ 30) = 1 := by unfold bit30; omega
  rw [hb, bmod_small] <;> omega

theorem bitOr_flag_small (h : Small x) : bitOr x T_FLAG = x + T_FLAG := by
  unfold Small at h
  have hb : bit30 x = 0 := by unfold bit30; omega
  rw [T_FLAG_eq, bitOr_pow30, hb, bmod_small] <;> omega

theorem bitOr_flag_add (h : Small x) : bitOr (x + T_FLAG) T_FLAG = x + T_FLAG := by
  unfold Small at h
  rw [T_FLAG_eq, bitOr_pow30]
  have hb : bit30 (x + 2 ^ 30) = 1 := by unfold bit30; omega
  rw [hb, bmod_small] <;> omega

theorem shl_small (h : Small x) : shl x 1 = 2 * x := by
  unfold Small at h
  rw [shl_one, bmod_small] <;> omega

end Jco.Resource

import Mathlib.Logic.Function.Basic
import Mathlib.Order.Basic

/-! # JavaScript arrays

An array is its `length` with a map from integral property keys to values;
`none` is `undefined`. A negative key is an ordinary property, which reads and
writes like an element but never counts towards `length`; writing past the end
extends `length` and leaves holes.
-/

namespace Jco.Js

/-- A JavaScript array whose elements come from `α`. -/
structure JsArray (α : Type*) where
  length : Nat
  get : Int → Option α

namespace JsArray

variable {α : Type*}

/-- The array literal `[x₀, x₁, …]`. -/
def ofList (xs : List α) : JsArray α where
  length := xs.length
  get k := if 0 ≤ k then xs[k.toNat]? else none

/-- `a[k] = v` -/
def set (a : JsArray α) (k : Int) (v : Option α) : JsArray α where
  length := if 0 ≤ k then max a.length (k.toNat + 1) else a.length
  get := Function.update a.get k v

/-- `a.push(v)` -/
def push (a : JsArray α) (v : α) : JsArray α where
  length := a.length + 1
  get := Function.update a.get a.length (some v)

@[simp] theorem get_set_self (a : JsArray α) (k : Int) (v : Option α) :
    (a.set k v).get k = v := by
  simp [set]

theorem get_set (a : JsArray α) (k j : Int) (v : Option α) :
    (a.set k v).get j = if j = k then v else a.get j := by
  simp [set, Function.update_apply]

/-- Writing inside the array keeps its length. -/
theorem length_set_of_lt (a : JsArray α) {k : Int} (v : Option α) (h : k < a.length) :
    (a.set k v).length = a.length := by
  simp only [set]
  split <;> omega

@[simp] theorem length_push (a : JsArray α) (v : α) : (a.push v).length = a.length + 1 := rfl

theorem get_push (a : JsArray α) (v : α) (j : Int) :
    (a.push v).get j = if j = a.length then some v else a.get j := by
  simp [push, Function.update_apply]

end JsArray

end Jco.Js

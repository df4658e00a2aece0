import Mathlib.Tactic.TypeStar

/-! # JavaScript exceptions and coercions -/

namespace Jco.Js

/-- What generated code throws: an `Error` or a `TypeError` with its message,
or an exception the engine raises with a text of its own. -/
inductive JsError where
  | error (msg : String)
  | typeError (msg : String)
  | engine
deriving DecidableEq, Repr

/-- Coercion of an integral number or `undefined` by a bitwise operator. -/
def num (x : Option Int) : Int := x.getD 0

@[simp] theorem num_some (x : Int) : num (some x) = x := rfl

@[simp] theorem num_none : num none = 0 := rfl

/-! ## Calls that may throw -/

section

variable {ε α β : Type*}

theorem bind_ok {x : Except ε α} {f : α → Except ε β} {b : β} (h : x.bind f = .ok b) :
    ∃ a, x = .ok a ∧ f a = .ok b := by
  cases x with
  | error e => cases h
  | ok a => exact ⟨a, rfl, h⟩

theorem map_ok {x : Except ε α} {f : α → β} {b : β} (h : x.map f = .ok b) :
    ∃ a, x = .ok a ∧ f a = b := by
  cases x with
  | error e => cases h
  | ok a => exact ⟨a, rfl, Except.ok.inj h⟩

end

end Jco.Js

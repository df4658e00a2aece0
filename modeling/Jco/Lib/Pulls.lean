import Mathlib.Data.List.Basic

/-! # Pulled streams

A stream that is pulled answers from its state: with an element and a new state, with the end,
or with a failure. Draining it to the end or the failure gives what it has delivered; a stream
that goes on for ever is not drained.
-/

namespace Jco.Lib

/-- An answer. -/
inductive Pull (α ε σ : Type*) where
  | close
  | fail (e : ε)
  | enqueue (a : α) (s : σ)

/-- How a stream has ended. -/
inductive Ending (ε : Type*) where
  | closed
  | failed (e : ε)
deriving DecidableEq, Repr

variable {α ε σ : Type*}

/-- `Drains pull s as e`: from `s` the stream delivers `as` and ends with `e`. -/
inductive Drains (pull : σ → Pull α ε σ) : σ → List α → Ending ε → Prop where
  | close {s : σ} : pull s = .close → Drains pull s [] .closed
  | fail {s : σ} {e : ε} : pull s = .fail e → Drains pull s [] (.failed e)
  | enqueue {s s' : σ} {a : α} {as : List α} {ending : Ending ε} :
      pull s = .enqueue a s' → Drains pull s' as ending → Drains pull s (a :: as) ending

namespace Drains

variable {pull : σ → Pull α ε σ} {s s' : σ} {as bs : List α} {e e' : Ending ε}

/-- Only the answer counts. -/
theorem of_pull_eq (heq : pull s = pull s') (h : Drains pull s' as e) : Drains pull s as e := by
  cases h with
  | close hpull => exact .close (heq.trans hpull)
  | fail hpull => exact .fail (heq.trans hpull)
  | enqueue hpull hrest => exact .enqueue (heq.trans hpull) hrest

/-- A stream drains in one way only. -/
theorem unique (h : Drains pull s as e) (h' : Drains pull s bs e') : as = bs ∧ e = e' := by
  induction h generalizing bs e' with
  | close hpull =>
    cases h' with
    | close _ => exact ⟨rfl, rfl⟩
    | fail hpull' => cases hpull.symm.trans hpull'
    | enqueue hpull' _ => cases hpull.symm.trans hpull'
  | fail hpull =>
    cases h' with
    | close hpull' => cases hpull.symm.trans hpull'
    | fail hpull' =>
      cases hpull.symm.trans hpull'
      exact ⟨rfl, rfl⟩
    | enqueue hpull' _ => cases hpull.symm.trans hpull'
  | enqueue hpull _ ih =>
    cases h' with
    | close hpull' => cases hpull.symm.trans hpull'
    | fail hpull' => cases hpull.symm.trans hpull'
    | enqueue hpull' hrest =>
      cases hpull.symm.trans hpull'
      rcases ih hrest with ⟨has, he⟩
      exact ⟨congrArg (List.cons _) has, he⟩

end Drains

end Jco.Lib

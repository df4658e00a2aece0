import Mathlib.Algebra.BigOperators.Group.List.Basic
import Mathlib.Data.List.Nodup

/-! # Counting in a list of which one element changes -/

namespace Jco.Lib

open List

variable {α : Type*}

/-- The predicate changes at one element of a list without repetitions. -/
theorem countP_of_ne [DecidableEq α] {p q : α → Bool} {a : α} {xs : List α} (hnodup : xs.Nodup)
    (h : ∀ x ∈ xs, x ≠ a → p x = q x) :
    xs.countP p + (if a ∈ xs ∧ q a then 1 else 0) =
      xs.countP q + (if a ∈ xs ∧ p a then 1 else 0) := by
  by_cases ha : a ∈ xs
  · induction xs with
    | nil => exact absurd ha not_mem_nil
    | cons x xs ih =>
      obtain ⟨hnot, hnodup⟩ := nodup_cons.1 hnodup
      rw [countP_cons, countP_cons]
      rcases mem_cons.1 ha with rfl | hmem
      · have htail : xs.countP p = xs.countP q := by
          apply countP_congr
          intro y hy
          rw [h y (mem_cons_of_mem _ hy)]
          rintro rfl
          exact hnot hy
        rw [htail]
        simp only [ha, true_and]
        omega
      · have hx : p x = q x := by
          apply h x mem_cons_self
          rintro rfl
          exact hnot hmem
        have := ih hnodup (fun y hy => h y (mem_cons_of_mem _ hy)) hmem
        rw [hx]
        simp only [ha, hmem, true_and] at this ⊢
        omega
  · have : xs.countP p = xs.countP q := by
      apply countP_congr
      intro x hx
      rw [h x hx]
      rintro rfl
      exact ha hx
    rw [this]
    simp [ha]

theorem countP_modify {p : α → Bool} {f : α → α} {xs : List α} {i : Nat} {x : α}
    (hx : xs[i]? = some x) :
    (xs.modify i f).countP p + (if p x then 1 else 0) =
      xs.countP p + (if p (f x) then 1 else 0) := by
  induction xs generalizing i with
  | nil => simp at hx
  | cons y xs ih =>
    cases i with
    | zero =>
      obtain rfl := Option.some.inj hx
      rw [modify_zero_cons, countP_cons, countP_cons]
      omega
    | succ i =>
      rw [modify_succ_cons, countP_cons, countP_cons]
      have := ih hx
      omega

theorem countP_set {p : α → Bool} {xs : List α} {i : Nat} {x y : α} (hx : xs[i]? = some x) :
    (xs.set i y).countP p + (if p x then 1 else 0) = xs.countP p + (if p y then 1 else 0) := by
  obtain ⟨hlt, rfl⟩ := List.getElem?_eq_some_iff.1 hx
  have hle := boole_getElem_le_countP (p := p) hlt
  rw [List.countP_set hlt]
  omega

/-- A weight summed up over a list of which one element changes. -/
theorem sum_map_set {M : Type*} [AddCommMonoid M] (f : α → M) {xs : List α} {i : Nat} {x : α}
    (hx : xs[i]? = some x) (y : α) :
    ((xs.set i y).map f).sum + f x = (xs.map f).sum + f y := by
  induction xs generalizing i with
  | nil => cases hx
  | cons z xs ih =>
    cases i with
    | zero =>
      obtain rfl : z = x := Option.some.inj hx
      rw [set_cons_zero, map_cons, map_cons, sum_cons, sum_cons]
      rw [add_right_comm, add_comm (f y), add_right_comm]
    | succ i =>
      have hrest := ih (i := i) hx
      rw [set_cons_succ, map_cons, map_cons, sum_cons, sum_cons,
        add_assoc, hrest, add_assoc]

/-- Elements counted for one of two reasons that exclude each other. -/
theorem countP_or {p q r : α → Bool} {xs : List α}
    (h : ∀ x ∈ xs, r x = true ↔ p x = true ∨ q x = true)
    (hno : ∀ x ∈ xs, p x = true → q x = false) :
    xs.countP r = xs.countP p + xs.countP q := by
  induction xs with
  | nil => rfl
  | cons x xs ih =>
    have := ih (fun y hy => h y (mem_cons_of_mem _ hy))
      fun y hy => hno y (mem_cons_of_mem _ hy)
    rw [countP_cons, countP_cons, countP_cons, this]
    have hx := h x mem_cons_self
    have hx' := hno x mem_cons_self
    cases hp : p x <;> cases hq : q x <;> cases hr : r x <;> simp_all <;> omega

end Jco.Lib

import Mathlib.Data.List.Infix

/-! # Walks in a tree

A walk goes down to a named child or up to the parent. From the root there is
no way up. The place a walk reaches is the list of names on the way down to it.
-/

namespace Jco.Lib

open List

/-- One move of a walk. -/
inductive Move (α : Type*) where
  | enter (name : α)
  | up
deriving DecidableEq, Repr

namespace Move

variable {α : Type*}

/-- The names entered by a walk, whether it leaves them again or not. -/
def entered : List (Move α) → Nat
  | [] => 0
  | enter _ :: ms => entered ms + 1
  | up :: ms => entered ms

/-- How often a walk goes up. -/
def ups : List (Move α) → Nat
  | [] => 0
  | enter _ :: ms => ups ms
  | up :: ms => ups ms + 1

/-- The place reached from `place`, `none` when a move goes up from the root. -/
def walk : List α → List (Move α) → Option (List α)
  | place, [] => some place
  | place, enter name :: ms => walk (place ++ [name]) ms
  | place, up :: ms => if place = [] then none else walk place.dropLast ms

@[simp] theorem walk_nil (place : List α) : walk place [] = some place := rfl

@[simp] theorem walk_enter (place : List α) (name : α) (ms : List (Move α)) :
    walk place (enter name :: ms) = walk (place ++ [name]) ms := rfl

@[simp] theorem walk_root_up (ms : List (Move α)) : walk [] (up :: ms) = none := by
  simp [walk]

@[simp] theorem walk_up (place : List α) (last : α) (ms : List (Move α)) :
    walk (place ++ [last]) (up :: ms) = walk place ms := by
  simp [walk]

/-- A walk leaves the root exactly when some prefix of it goes up more often
than it can. -/
theorem walk_eq_none_iff (place : List α) (ms : List (Move α)) :
    walk place ms = none ↔ ∃ pre, pre <+: ms ∧ place.length + entered pre < ups pre := by
  induction ms generalizing place with
  | nil =>
    constructor
    · simp
    · rintro ⟨pre, hpre, hlt⟩
      rw [prefix_nil.mp hpre] at hlt
      simp [ups] at hlt
  | cons m ms ih =>
    cases m with
    | enter name =>
      rw [walk_enter, ih]
      constructor
      · rintro ⟨pre, hpre, hlt⟩
        refine ⟨enter name :: pre, cons_prefix_cons.mpr ⟨rfl, hpre⟩, ?_⟩
        simp only [length_append, length_singleton] at hlt
        simp only [entered, ups]
        omega
      · rintro ⟨pre, hpre, hlt⟩
        cases pre with
        | nil => simp [ups] at hlt
        | cons m pre =>
          obtain ⟨rfl, htail⟩ := cons_prefix_cons.mp hpre
          refine ⟨pre, htail, ?_⟩
          simp only [entered, ups] at hlt
          simp only [length_append, length_singleton]
          omega
    | up =>
      rcases eq_nil_or_concat place with rfl | ⟨init, last, rfl⟩
      · -- going up from the root is the shortest prefix that goes up too often
        rw [walk_root_up]
        refine iff_of_true rfl ⟨[up], ?_, by simp [entered, ups]⟩
        exact cons_prefix_cons.mpr ⟨rfl, nil_prefix⟩
      · rw [concat_eq_append, walk_up, ih]
        constructor
        · rintro ⟨pre, hpre, hlt⟩
          refine ⟨up :: pre, cons_prefix_cons.mpr ⟨rfl, hpre⟩, ?_⟩
          simp only [length_append, length_singleton, entered, ups]
          omega
        · rintro ⟨pre, hpre, hlt⟩
          cases pre with
          | nil => simp [ups] at hlt
          | cons m pre =>
            obtain ⟨rfl, htail⟩ := cons_prefix_cons.mp hpre
            refine ⟨pre, htail, ?_⟩
            simp only [length_append, length_singleton, entered, ups] at hlt
            omega

/-- A walk that stays below its start can be taken from below any place. -/
theorem walk_append {place out : List α} {ms : List (Move α)} (front : List α)
    (h : walk place ms = some out) : walk (front ++ place) ms = some (front ++ out) := by
  induction ms generalizing place with
  | nil =>
    rw [walk_nil, Option.some.injEq] at h
    rw [walk_nil, h]
  | cons m ms ih =>
    cases m with
    | enter name =>
      rw [walk_enter] at h
      rw [walk_enter, append_assoc]
      exact ih h
    | up =>
      rcases eq_nil_or_concat place with rfl | ⟨init, last, rfl⟩
      · rw [walk_root_up] at h
        cases h
      · rw [concat_eq_append, walk_up] at h
        rw [concat_eq_append, ← append_assoc, walk_up]
        exact ih h

/-- Every name on the way to the place reached is one of the start or of the walk. -/
theorem mem_of_walk {place out : List α} {ms : List (Move α)} (h : walk place ms = some out)
    {name : α} (hmem : name ∈ out) : name ∈ place ∨ enter name ∈ ms := by
  induction ms generalizing place with
  | nil =>
    rw [walk_nil, Option.some.injEq] at h
    exact Or.inl (h ▸ hmem)
  | cons m ms ih =>
    cases m with
    | enter other =>
      rcases ih h with hold | hnew
      · rcases mem_append.mp hold with hold | hlast
        · exact Or.inl hold
        · rw [mem_singleton.mp hlast]
          exact Or.inr mem_cons_self
      · exact Or.inr (mem_cons_of_mem _ hnew)
    | up =>
      rcases eq_nil_or_concat place with rfl | ⟨init, last, rfl⟩
      · rw [walk_root_up] at h
        cases h
      · rw [concat_eq_append, walk_up] at h
        rcases ih h with hold | hnew
        · rw [concat_eq_append]
          exact Or.inl (mem_append_left _ hold)
        · exact Or.inr (mem_cons_of_mem _ hnew)

end Move

end Jco.Lib

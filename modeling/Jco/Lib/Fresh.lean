import Mathlib.Data.List.Nodup
import Mathlib.Data.List.Perm.Subperm
import Mathlib.Tactic.Common

/-! # Searching a fresh value

Candidates are tried one after the other until one is not in use. With
candidates that are all different the search ends after at most one round more
than there are values in use.
-/

namespace Jco.Lib

variable {α : Type*} [DecidableEq α]

/-- The first of `candidate i`, `candidate (i + 1)`, … that is not in use. -/
def firstFresh (used : List α) (candidate : Nat → α) : Nat → Nat → Option α
  | 0, _ => none
  | fuel + 1, i =>
    if candidate i ∈ used then firstFresh used candidate fuel (i + 1) else some (candidate i)

variable {used : List α} {candidate : Nat → α}

theorem firstFresh_eq_some {fuel i : Nat} {a : α}
    (h : firstFresh used candidate fuel i = some a) :
    a ∉ used ∧ ∃ k, a = candidate k := by
  induction fuel generalizing i with
  | zero => exact nomatch h
  | succ fuel ih =>
    rw [firstFresh] at h
    split at h
    · exact ih h
    next hfree =>
      cases h
      exact ⟨hfree, i, rfl⟩

/-- A search that fails has seen all its candidates in use. -/
theorem mem_of_firstFresh_eq_none {fuel i : Nat}
    (h : firstFresh used candidate fuel i = none) : ∀ k < fuel, candidate (i + k) ∈ used := by
  induction fuel generalizing i with
  | zero => exact fun k hk => absurd hk (Nat.not_lt_zero k)
  | succ fuel ih =>
    rw [firstFresh] at h
    split at h
    next hused =>
      intro k hk
      cases k with
      | zero => exact hused
      | succ k =>
        have hlater := ih h k (by omega)
        rwa [Nat.add_assoc, Nat.add_comm 1] at hlater
    next => exact nomatch h

/-- With more rounds than values in use a search of different candidates
succeeds. -/
theorem exists_firstFresh (hinj : Function.Injective candidate) {fuel : Nat}
    (hfuel : used.length < fuel) (i : Nat) : ∃ a, firstFresh used candidate fuel i = some a := by
  cases hsearch : firstFresh used candidate fuel i with
  | some a => exact ⟨a, rfl⟩
  | none =>
    -- then the values in use hold more different values than they are
    have hseen := mem_of_firstFresh_eq_none hsearch
    have hdistinct : ((List.range fuel).map fun k => candidate (i + k)).Nodup :=
      List.nodup_range.map fun k k' h => Nat.add_left_cancel (hinj h)
    have hsubset : ((List.range fuel).map fun k => candidate (i + k)) ⊆ used := by
      intro a ha
      obtain ⟨k, hk, rfl⟩ := List.mem_map.mp ha
      exact hseen k (List.mem_range.mp hk)
    have hle := (List.subperm_of_subset hdistinct hsubset).length_le
    rw [List.length_map, List.length_range] at hle
    omega

end Jco.Lib

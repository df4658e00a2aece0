import Mathlib.Order.Lattice
import Mathlib.Data.List.Basic
import Mathlib.Data.List.Nodup
import Jco.Lib.Keyed

/-! # Maps in the order of their keys

A map that is listed by growing keys: a table of rows, to which a key is added in its place.
What is under a key is read with `Keyed.lookup`.
-/

namespace Jco.Lib.BTreeMap

open Jco List

variable {κ α : Type*} [LinearOrder κ] [DecidableEq κ]

/-- Put `a` under `k`. -/
def insert (k : κ) (a : α) : List (κ × α) → List (κ × α)
  | [] => [(k, a)]
  | row :: m =>
    if k < row.1 then (k, a) :: row :: m
    else if row.1 = k then (k, a) :: m
    else row :: insert k a m

/-- The keys grow. -/
def Sorted (m : List (κ × α)) : Prop := (Keyed.keys m).Pairwise (· < ·)

theorem lookup_insert_self (k : κ) (a : α) (m : List (κ × α)) :
    Keyed.lookup (insert k a m) k = some a := by
  induction m with
  | nil => rw [insert, Keyed.lookup_cons, if_pos rfl]
  | cons row m ih =>
    rw [insert]
    split
    · rw [Keyed.lookup_cons, if_pos rfl]
    · split
      · rw [Keyed.lookup_cons, if_pos rfl]
      next hne => rw [Keyed.lookup_cons, if_neg hne, ih]

theorem lookup_insert_of_ne {k j : κ} (h : k ≠ j) (a : α) (m : List (κ × α)) :
    Keyed.lookup (insert k a m) j = Keyed.lookup m j := by
  induction m with
  | nil => rw [insert, Keyed.lookup_cons, if_neg h]
  | cons row m ih =>
    rw [insert]
    split
    · rw [Keyed.lookup_cons, if_neg h]
    · split
      next heq =>
        -- the row of `k` is replaced
        have hrow : row.1 ≠ j := heq ▸ h
        rw [Keyed.lookup_cons, if_neg h, Keyed.lookup_cons, if_neg hrow]
      · rw [Keyed.lookup_cons, Keyed.lookup_cons, ih]

theorem mem_keys_insert {k j : κ} {a : α} {m : List (κ × α)} :
    j ∈ Keyed.keys (insert k a m) ↔ j = k ∨ j ∈ Keyed.keys m := by
  induction m with
  | nil => exact mem_cons
  | cons row m ih =>
    rw [insert]
    split
    · exact mem_cons
    · split
      next heq =>
        rw [Keyed.keys_cons, Keyed.keys_cons, mem_cons, mem_cons, heq, ← or_assoc,
          or_self]
      · rw [Keyed.keys_cons, Keyed.keys_cons, mem_cons, mem_cons, ih]
        exact or_left_comm

theorem mem_insert {k : κ} {a : α} {m : List (κ × α)} {row : κ × α} (h : row ∈ insert k a m) :
    row = (k, a) ∨ row ∈ m := by
  induction m with
  | nil => exact .inl (mem_singleton.1 h)
  | cons row' m ih =>
    rw [insert] at h
    split at h
    · exact mem_cons.1 h
    · split at h
      · rcases mem_cons.1 h with rfl | h
        · exact .inl rfl
        · exact .inr (mem_cons_of_mem row' h)
      · rcases mem_cons.1 h with rfl | h
        · exact .inr mem_cons_self
        · exact (ih h).imp_right (mem_cons_of_mem row')

theorem Sorted.insert {m : List (κ × α)} (h : Sorted m) (k : κ) (a : α) :
    Sorted (insert k a m) := by
  induction m with
  | nil => exact pairwise_singleton _ k
  | cons row m ih =>
    rcases pairwise_cons.1 h with ⟨hrow, hm⟩
    rw [BTreeMap.insert]
    split
    next hlt =>
      -- all keys come after that of the first row
      refine pairwise_cons.2 ⟨?_, h⟩
      intro j hj
      rcases mem_cons.1 hj with rfl | hj
      · exact hlt
      · exact lt_trans hlt (hrow j hj)
    next hle =>
      split
      next heq =>
        refine pairwise_cons.2 ⟨?_, hm⟩
        intro j hj
        exact heq ▸ hrow j hj
      next hne =>
        refine pairwise_cons.2 ⟨?_, ih hm⟩
        intro j hj
        rcases mem_keys_insert.1 hj with rfl | hj
        · exact lt_of_le_of_ne (not_lt.1 hle) hne
        · exact hrow j hj

omit [DecidableEq κ] in
theorem Sorted.nodup {m : List (κ × α)} (h : Sorted m) : (Keyed.keys m).Nodup :=
  h.imp fun hlt => ne_of_lt hlt

end Jco.Lib.BTreeMap

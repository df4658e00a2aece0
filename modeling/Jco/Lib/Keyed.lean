import Mathlib.Data.List.Nodup
import Mathlib.Data.List.Perm.Subperm
import Mathlib.Data.List.Basic

/-! # Keyed lists

A table with insertion order: a list of keys with their values, no key twice. `alter` is the
one way to write. Where keys differ, what is under a key does not depend on the order.
-/

namespace Jco.Keyed

open List

variable {κ α : Type*} [DecidableEq κ]

def lookup (t : List (κ × α)) (k : κ) : Option α :=
  (t.find? fun row => row.1 = k).map Prod.snd

def keys (t : List (κ × α)) : List κ := t.map Prod.fst

/-- Give `k` the value that `f` makes of the one it has. A new key goes to the
end. -/
def alter (k : κ) (f : Option α → α) : List (κ × α) → List (κ × α)
  | [] => [(k, f none)]
  | row :: t => if row.1 = k then (k, f (some row.2)) :: t else row :: alter k f t

@[simp] theorem lookup_nil (k : κ) : lookup ([] : List (κ × α)) k = none := rfl

theorem lookup_cons (row : κ × α) (t : List (κ × α)) (k : κ) :
    lookup (row :: t) k = if row.1 = k then some row.2 else lookup t k := by
  unfold lookup
  by_cases h : row.1 = k <;> simp [h]

theorem lookup_alter_self (k : κ) (f : Option α → α) (t : List (κ × α)) :
    lookup (alter k f t) k = some (f (lookup t k)) := by
  induction t with
  | nil => simp [alter, lookup_cons]
  | cons row t ih =>
    by_cases h : row.1 = k
    · simp [alter, lookup_cons, h]
    · simp [alter, lookup_cons, h, ih]

variable {t : List (κ × α)}

theorem lookup_eq_none_iff {k : κ} : lookup t k = none ↔ k ∉ keys t := by
  induction t with
  | nil => simp [keys]
  | cons row t ih =>
    rw [lookup_cons, keys, map_cons, mem_cons, ← keys]
    by_cases h : row.1 = k
    · simp [h]
    · simp [h, ih, Ne.symm h]

omit [DecidableEq κ] in
theorem keys_cons (row : κ × α) (t : List (κ × α)) : keys (row :: t) = row.1 :: keys t := rfl

theorem lookup_eq_some_iff (h : (keys t).Nodup) {k : κ} {v : α} :
    lookup t k = some v ↔ (k, v) ∈ t := by
  induction t with
  | nil => simp
  | cons row t ih =>
    rw [keys_cons, nodup_cons] at h
    rw [lookup_cons, mem_cons]
    by_cases hrow : row.1 = k
    · have hrest : (k, v) ∉ t := fun hmem => h.1 (hrow ▸ mem_map_of_mem (f := Prod.fst) hmem)
      rw [if_pos hrow, Option.some.injEq, or_iff_left hrest, Prod.ext_iff, eq_comm (a := k)]
      exact ⟨fun hv => ⟨hrow, hv.symm⟩, fun hv => hv.2.symm⟩
    · rw [if_neg hrow, ih h.2, or_iff_right]
      rintro rfl
      exact hrow rfl

/-- The order of the rows does not matter. -/
theorem lookup_perm {t t' : List (κ × α)} (hperm : t.Perm t') (h : (keys t').Nodup) (k : κ) :
    lookup t k = lookup t' k := by
  have h' : (keys t).Nodup := (hperm.map Prod.fst).nodup_iff.mpr h
  refine Option.ext fun v => ?_
  rw [lookup_eq_some_iff h', lookup_eq_some_iff h, hperm.mem_iff]

end Jco.Keyed

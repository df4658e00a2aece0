import Mathlib.Data.List.Basic
import Jco.Lib.Run

/-! # Pools of numbered members

A pool hands out the numbers `0`, `1`, … to members that are created one after
the other and never reused. Every member has a state of its own, and a step is
the creation of a member or a step of one member. What holds of each member is
shown for one member.
-/

namespace Jco.Lib

variable {μ ε : Type*}

structure Pool (μ ε : Type*) where
  fresh : Nat → μ
  step : Nat → μ → ε → Option μ

inductive PoolEvent (ε : Type*) where
  | create
  | on (i : Nat) (e : ε)

/-- `P` holds of every member. -/
def Each (P : Nat → μ → Prop) (s : List μ) : Prop := ∀ i m, s[i]? = some m → P i m

namespace Each

variable {P Q : Nat → μ → Prop} {s : List μ}

theorem nil : Each P [] := nofun

theorem imp (himp : ∀ i m, P i m → Q i m) (h : Each P s) : Each Q s :=
  fun i m hm => himp i m (h i m hm)

theorem append (h : Each P s) {m : μ} (hm : P s.length m) : Each P (s ++ [m]) := by
  intro i m' hm'
  rcases Nat.lt_trichotomy i s.length with hlt | heq | hgt
  · rw [List.getElem?_append_left hlt] at hm'
    exact h i m' hm'
  · rw [heq, List.getElem?_concat_length] at hm'
    cases hm'
    exact heq ▸ hm
  · have hlength : (s ++ [m]).length ≤ i := by
      rw [List.length_append]
      exact hgt
    rw [List.getElem?_eq_none hlength] at hm'
    cases hm'

/-- A change of one member, of which nothing need have been known. -/
theorem set {i : Nat} {m' : μ} (h : ∀ j m, j ≠ i → s[j]? = some m → P j m) (hm' : P i m') :
    Each P (s.set i m') := by
  intro j n hn
  by_cases hij : i = j
  · cases hij
    have hlt : i < s.length := by simpa using (List.getElem?_eq_some_iff.1 hn).1
    rw [List.getElem?_set_self hlt] at hn
    cases hn
    exact hm'
  · rw [List.getElem?_set_ne hij] at hn
    exact h j n (Ne.symm hij) hn

/-- Where it holds of all, it holds after a change of one member iff it holds of that. -/
theorem set_iff (h : Each P s) {i : Nat} {m m' : μ} (hm : s[i]? = some m) :
    Each P (s.set i m') ↔ P i m' := by
  have hlt : i < s.length := (List.getElem?_eq_some_iff.1 hm).1
  constructor
  · intro hset
    exact hset i m' (by simp [hlt])
  · exact set fun j n _ hn => h j n hn

end Each

namespace Pool

variable (p : Pool μ ε)

def perform (s : List μ) : PoolEvent ε → Option (List μ)
  | .create => some (s ++ [p.fresh s.length])
  | .on i e =>
    match s[i]? with
    | none => none
    | some m => (p.step i m e).map (s.set i)

/-- The side condition of a step of one member, on the pool. -/
def lift (ok : Nat → ε → μ → Prop) : PoolEvent ε → List μ → Prop
  | .create, _ => True
  | .on i e, s => ∀ m, s[i]? = some m → ok i e m

variable {p} {good inv : Nat → μ → Prop} {ok : Nat → ε → μ → Prop}

/-- If the steps of one member are good exactly where they are `ok`, and keep the
invariant where they are good, so do those of the pool. -/
theorem step_each (hgood : ∀ i m, inv i m → good i m) (hfresh : ∀ i, inv i (p.fresh i))
    (hstep : ∀ i m e m', inv i m → p.step i m e = some m' →
      (good i m' ↔ ok i e m) ∧ (good i m' → inv i m'))
    {s s' : List μ} {l : PoolEvent ε} (hinv : Each inv s) (h : p.perform s l = some s') :
    (Each good s' ↔ lift ok l s) ∧ (Each good s' → Each inv s') := by
  cases l with
  | create =>
    cases Option.some.inj h
    refine ⟨iff_of_true ?_ trivial, fun _ => hinv.append (hfresh _)⟩
    exact (hinv.imp hgood).append (hgood _ _ (hfresh _))
  | on i e =>
    simp only [perform] at h
    split at h
    · cases h
    rename_i m hm
    obtain ⟨m', hm', rfl⟩ := Option.map_eq_some_iff.1 h
    have hmember := hstep i m e m' (hinv i m hm) hm'
    rw [(hinv.imp hgood).set_iff hm, hinv.set_iff hm]
    refine ⟨hmember.1.trans ⟨?_, fun hok => hok m hm⟩, hmember.2⟩
    intro hok n hn
    cases hm.symm.trans hn
    exact hok

end Pool

end Jco.Lib

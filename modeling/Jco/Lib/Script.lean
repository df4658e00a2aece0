import Mathlib.Tactic.TypeStar

/-! # Scripts

A script works on a state and may throw. What it has done to the state before it
throws is not undone, as in the languages where a caller may catch an exception and
go on. The rules are for the state that a script leaves, whether it throws or not:
a relation that every part keeps is kept by the whole, and a condition is carried
from part to part.
-/

namespace Jco.Lib

variable {ε σ α β : Type}

/-- A computation over the states `σ` that may throw `ε`. -/
structure Script (ε σ α : Type) where
  run : σ → Except ε α × σ

namespace Script

instance : Monad (Script ε σ) where
  pure a := ⟨fun s => (.ok a, s)⟩
  bind x f := ⟨fun s =>
    match x.run s with
    | (.ok a, s') => (f a).run s'
    | (.error e, s') => (.error e, s')⟩

def throw (e : ε) : Script ε σ α := ⟨fun s => (.error e, s)⟩

def get : Script ε σ σ := ⟨fun s => (.ok s, s)⟩

def modify (f : σ → σ) : Script ε σ Unit := ⟨fun s => (.ok (), f s)⟩

def throwIf (c : Bool) (e : ε) : Script ε σ Unit := if c then throw e else pure ()

def when (c : Bool) (x : Script ε σ Unit) : Script ε σ Unit := if c then x else pure ()

/-- The state that is left. -/
def leaves (x : Script ε σ α) (s : σ) : σ := (x.run s).2

def threw (x : Script ε σ α) (s : σ) : Bool :=
  match (x.run s).1 with
  | .ok _ => false
  | .error _ => true

/-! ## Evaluation -/

section

variable (s : σ) (x : Script ε σ α) (f : α → Script ε σ β) (a : α) (e : ε)

theorem run_bind : (x >>= f).run s =
    match x.run s with
    | (.ok a, s') => (f a).run s'
    | (.error e, s') => (.error e, s') := rfl

@[simp] theorem run_pure : (pure a : Script ε σ α).run s = (.ok a, s) := rfl

@[simp] theorem run_throw : (throw e : Script ε σ α).run s = (.error e, s) := rfl

@[simp] theorem run_get : (get : Script ε σ σ).run s = (.ok s, s) := rfl

@[simp] theorem run_modify (f : σ → σ) : (modify f : Script ε σ Unit).run s = (.ok (), f s) := rfl

@[simp] theorem pure_bind : (pure a >>= f).run s = (f a).run s := rfl

@[simp] theorem throw_bind : ((throw e : Script ε σ α) >>= f).run s = (.error e, s) := rfl

@[simp] theorem get_bind (f : σ → Script ε σ β) : (get >>= f).run s = (f s).run s := rfl

@[simp] theorem modify_bind (g : σ → σ) (f : Unit → Script ε σ β) :
    (modify g >>= f).run s = (f ()).run (g s) := rfl

theorem throwIf_bind (c : Bool) (f : Unit → Script ε σ β) :
    (throwIf c e >>= f).run s = if c then (.error e, s) else (f ()).run s := by
  cases c <;> rfl

theorem when_bind (c : Bool) (x : Script ε σ Unit) (f : Unit → Script ε σ β) :
    (when c x >>= f).run s = if c then (x >>= f).run s else (f ()).run s := by
  cases c <;> rfl

/-- The second part runs on what the first leaves. -/
theorem run_bind_ok {s s' : σ} {x : Script ε σ α} {a : α} (h : x.run s = (.ok a, s'))
    (f : α → Script ε σ β) : (x >>= f).run s = (f a).run s' := by
  rw [run_bind, h]

theorem run_bind_error {s s' : σ} {x : Script ε σ α} {e : ε} (h : x.run s = (.error e, s'))
    (f : α → Script ε σ β) : (x >>= f).run s = (.error e, s') := by
  rw [run_bind, h]

/-- A check at the end is not seen in what is left. -/
theorem leaves_bind_throwIf (x : Script ε σ α) (c : Bool) (e : ε) :
    (x >>= fun _ => throwIf c e).leaves s = x.leaves s := by
  unfold leaves
  rcases hx : x.run s with ⟨e' | a, t⟩
  · rw [run_bind_error hx]
  · rw [run_bind_ok hx]
    cases c with
    | false => rfl
    | true => rfl

end

/-! ## What a script keeps -/

/-- The relation holds between the state before the script and the one it leaves. -/
def Keeps (R : σ → σ → Prop) (x : Script ε σ α) : Prop := ∀ s, R s (x.leaves s)

/-- A relation that a script may keep step by step. -/
structure Preorder (R : σ → σ → Prop) : Prop where
  refl : ∀ s, R s s
  trans : ∀ {s₁ s₂ s₃}, R s₁ s₂ → R s₂ s₃ → R s₁ s₃

section

variable {R : σ → σ → Prop}

theorem Keeps.pure (hR : Preorder R) (a : α) : Keeps R (pure a : Script ε σ α) := hR.refl

theorem Keeps.throw (hR : Preorder R) (e : ε) : Keeps R (throw e : Script ε σ α) := hR.refl

theorem Keeps.get (hR : Preorder R) : Keeps R (get : Script ε σ σ) := hR.refl

theorem Keeps.modify {f : σ → σ} (h : ∀ s, R s (f s)) : Keeps R (modify f : Script ε σ Unit) := h

theorem Keeps.bind (hR : Preorder R) {x : Script ε σ α} {f : α → Script ε σ β} (hx : Keeps R x)
    (hf : ∀ a, Keeps R (f a)) : Keeps R (x >>= f) := by
  intro s
  have hs := hx s
  unfold leaves at hs ⊢
  rcases hxs : x.run s with ⟨e | a, s'⟩
  · rw [hxs] at hs
    rw [run_bind_error hxs]
    exact hs
  · rw [hxs] at hs
    rw [run_bind_ok hxs]
    exact hR.trans hs (hf a s')

theorem Keeps.ite {c : Prop} [Decidable c] {x y : Script ε σ α} (hx : Keeps R x) (hy : Keeps R y) :
    Keeps R (if c then x else y) := by
  split
  · exact hx
  · exact hy

theorem Keeps.throwIf (hR : Preorder R) (c : Bool) (e : ε) :
    Keeps R (throwIf c e : Script ε σ Unit) := .ite (.throw hR e) (.pure hR ())

theorem Keeps.when (hR : Preorder R) {c : Bool} {x : Script ε σ Unit} (hx : Keeps R x) :
    Keeps R (when c x) := .ite hx (.pure hR ())

end

end Script

end Jco.Lib

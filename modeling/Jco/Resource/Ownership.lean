import Jco.Lib.Run
import Jco.Resource.Transfer

/-! # Unique ownership across tables

An own entry is a pair without the free-list flag whose second cell carries the
own bit. The invariant ranges over all tables: it bounds what the cells can
hold (`Sane`) and lets a rep be held by one own pair only. Each operation is
first described on one array, by what it does to the own pairs, and then on
all tables.
-/

namespace Jco.Resource

open Jco.Js Jco.Lib JsArray HandleTables ResourceTable

/-! ## Own pairs of one array -/

/-- The pair at the even key `k` owns `rep`. -/
structure OwnAt (cells : JsArray Int) (k rep : Int) : Prop where
  even : k % 2 = 0
  live : bitAnd (num (cells.get k)) T_FLAG = 0
  own : bitAnd (num (cells.get (k + 1))) T_FLAG ≠ 0
  rep_eq : bitAnd (num (cells.get (k + 1))) (bitNot T_FLAG) = rep

/-- What the cells of a table can hold in a run, out of the reps in `used`. The
two values excluded from even keys are those whose link is a pair key `0`. -/
structure Sane (cells : JsArray Int) (used : Int → Prop) : Prop where
  length : 2 ≤ cells.length
  beyond : ∀ k : Int, cells.length ≤ k → cells.get k = none
  one : cells.get 1 = some 0
  even : ∀ k v : Int, k % 2 = 0 → cells.get k = some v →
    v % 2 ^ 32 ≠ 2 ^ 31 ∧ v % 2 ^ 32 ≠ 3 * 2 ^ 30
  odd : ∀ k v : Int, k % 2 = 1 → cells.get k = some v →
    0 ≤ v ∧ v < 2 ^ 31 ∧ (2 ^ 30 ≤ v → used (v - 2 ^ 30))

theorem bitAnd_flag_eq_zero (x : Int) : bitAnd x T_FLAG = 0 ↔ bit30 x = 0 := by
  rw [T_FLAG_eq, bitAnd_pow30]
  omega

theorem bitOr_flag_ne (x : Int) : bitAnd (bitOr x T_FLAG) T_FLAG ≠ 0 := by
  intro h
  rw [bitAnd_flag_eq_zero, T_FLAG_eq, bitOr_pow30, Int.bmod_def] at h
  unfold bit30 at h
  split at h <;> omega

theorem shl_even (x : Int) : shl x 1 % 2 = 0 := by
  rw [shl_one, Int.bmod_def]
  split <;> omega

/-- An own pair has its second cell in the array, with a used rep. -/
theorem OwnAt.cell {cells : JsArray Int} {used : Int → Prop} (hs : Sane cells used)
    {k rep : Int} (h : OwnAt cells k rep) :
    cells.get (k + 1) = some (rep + 2 ^ 30) ∧ 0 ≤ rep ∧ rep < 2 ^ 30 ∧ used rep := by
  have heven := h.even
  have hown := h.own
  have hrep := h.rep_eq
  rw [Ne, bitAnd_flag_eq_zero] at hown
  rw [T_FLAG_eq, bitAnd_not_pow30] at hrep
  rcases hv : cells.get (k + 1) with _ | v
  · rw [hv] at hown
    exact absurd (by decide) hown
  · rw [hv, num_some] at hown hrep
    have hodd := hs.odd (k + 1) v (by omega) hv
    have hbit : bit30 v = 1 := by
      unfold bit30 at hown ⊢
      omega
    rw [hbit, bmod_small (by omega) (by omega)] at hrep
    unfold bit30 at hbit
    have hused := hodd.2.2 (by omega)
    refine ⟨by rw [← hrep]; congr 1; omega, by omega, by omega, ?_⟩
    rw [← hrep]
    simpa using hused

theorem Sane.mono {cells : JsArray Int} {used used' : Int → Prop} (h : Sane cells used)
    (hle : ∀ r, used r → used' r) : Sane cells used' := by
  constructor
  case length => exact h.length
  case beyond => exact h.beyond
  case one => exact h.one
  case even => exact h.even
  case odd =>
    intro k v hk hv
    have hodd := h.odd k v hk hv
    exact ⟨hodd.1, hodd.2.1, fun hflag => hle _ (hodd.2.2 hflag)⟩

theorem sane_fresh (used : Int → Prop) : Sane fresh.cells used := by
  have hget : ∀ (k v : Int), fresh.cells.get k = some v →
      k = 0 ∧ v = 2 ^ 30 ∨ k = 1 ∧ v = 0 := by
    intro k v hv
    simp only [fresh, ofList] at hv
    split at hv
    case isFalse => cases hv
    case isTrue hk =>
      rcases Int.eq_ofNat_of_zero_le hk with ⟨i, rfl⟩
      match i, hv with
      | 0, hv => exact Or.inl ⟨rfl, (Option.some.inj hv).symm⟩
      | 1, hv => exact Or.inr ⟨rfl, (Option.some.inj hv).symm⟩
  constructor
  case length => exact le_refl 2
  case beyond =>
    intro k hk
    rcases hv : fresh.cells.get k with _ | v
    · rfl
    · have hlen : fresh.cells.length = 2 := rfl
      rcases hget k v hv with ⟨rfl, -⟩ | ⟨rfl, -⟩ <;> omega
  case one => rfl
  case even =>
    intro k v hk hv
    rcases hget k v hv with ⟨-, rfl⟩ | ⟨rfl, -⟩
    · decide
    · omega
  case odd =>
    intro k v hk hv
    rcases hget k v hv with ⟨rfl, -⟩ | ⟨-, rfl⟩
    · omega
    · exact ⟨le_refl 0, by decide, by omega⟩

theorem fresh_ownAt {k rep : Int} : ¬ OwnAt fresh.cells k rep := by
  intro h
  have hcell := (h.cell (sane_fresh fun _ => False)).2.2.2
  exact hcell

/-! ### Remove -/

/-- The only handles, modulo `2 ^ 32`, whose free-list link would lead to the
pair of the list head. -/
def LinksHead (handle : Int) : Prop := handle % 2 ^ 32 = 3 * 2 ^ 30

instance (handle : Int) : Decidable (LinksHead handle) := inferInstanceAs (Decidable (_ = _))

/-- What a successful `rscTableRemove` does to the cells. -/
theorem remove_cases {t t' : ResourceTable} {handle : Int} {e : Entry}
    (h : rscTableRemove t handle = .ok (e, t')) :
    t.cells.get (shl handle 1 + 1) ≠ some 0 ∧
      bitAnd (num (t.cells.get (shl handle 1))) T_FLAG = 0 ∧
      e.rep = bitAnd (num (t.cells.get (shl handle 1 + 1))) (bitNot T_FLAG) ∧
      t'.createdReps = t.createdReps ∧
      t'.cells = (t.cells.set (shl handle 1) (some (bitOr (num (t.cells.get 0)) T_FLAG))).set 0
        (some (bitOr handle T_FLAG)) := by
  simp only [rscTableRemove] at h
  split at h
  case isTrue => cases h
  case isFalse hguard =>
    cases h
    rw [not_or, not_not] at hguard
    exact ⟨hguard.1, hguard.2, rfl, rfl, rfl⟩

section

variable {t t' : ResourceTable} {handle : Int} {e : Entry} {used : Int → Prop}

theorem remove_key_ne (hs : Sane t.cells used) (h : rscTableRemove t handle = .ok (e, t')) :
    shl handle 1 ≠ 0 := by
  intro hkey
  have hval := (remove_cases h).1
  rw [hkey] at hval
  exact hval hs.one

/-- The cells after a remove: the head names the pair, which takes over its link. -/
theorem remove_get (h : rscTableRemove t handle = .ok (e, t')) (j : Int) :
    t'.cells.get j = if j = 0 then some (bitOr handle T_FLAG) else
      if j = shl handle 1 then some (bitOr (num (t.cells.get 0)) T_FLAG) else t.cells.get j := by
  rcases remove_cases h with ⟨-, -, -, -, hcells⟩
  rw [hcells]
  simp only [get_set]

/-- A remove unlinks the own pair of its handle and touches no other. -/
theorem remove_ownAt (h : rscTableRemove t handle = .ok (e, t'))
    {k rep : Int} (hown : OwnAt t'.cells k rep) : OwnAt t.cells k rep ∧ k ≠ shl handle 1 := by
  have heven := shl_even handle
  have hget := remove_get h
  have hk := hown.even
  have hodd : t'.cells.get (k + 1) = t.cells.get (k + 1) := by
    rw [hget, if_neg (by omega), if_neg (by omega)]
  have hlive := hown.live
  have hk0 : k ≠ 0 := by
    rintro rfl
    rw [hget, if_pos rfl, num_some] at hlive
    exact bitOr_flag_ne _ hlive
  have hkh : k ≠ shl handle 1 := by
    rintro rfl
    rw [hget, if_neg hk0, if_pos rfl, num_some] at hlive
    exact bitOr_flag_ne _ hlive
  rw [hget, if_neg hk0, if_neg hkh] at hlive
  exact ⟨⟨hk, hlive, hodd ▸ hown.own, hodd ▸ hown.rep_eq⟩, hkh⟩

theorem bitOr_flag_link {x : Int} (h : x % 2 ^ 32 ≠ 2 ^ 31) (h' : x % 2 ^ 32 ≠ 3 * 2 ^ 30) :
    bitOr x T_FLAG % 2 ^ 32 ≠ 2 ^ 31 ∧ bitOr x T_FLAG % 2 ^ 32 ≠ 3 * 2 ^ 30 := by
  rw [T_FLAG_eq, bitOr_pow30, Int.bmod_def]
  unfold bit30
  split <;> omega

theorem remove_sane (hs : Sane t.cells used) (h : rscTableRemove t handle = .ok (e, t'))
    (hlink : ¬ LinksHead handle) : Sane t'.cells used := by
  have hkey := remove_key_ne hs h
  rcases remove_cases h with ⟨-, -, -, -, hcells⟩
  have heven := shl_even handle
  have hlen := hs.length
  have hget := remove_get h
  have hle : t.cells.length ≤ t'.cells.length ∧ shl handle 1 < t'.cells.length := by
    rw [hcells]
    simp only [JsArray.set]
    split <;> split <;> omega
  constructor
  case length => omega
  case beyond =>
    intro k hk
    rw [hget, if_neg (by omega), if_neg (by omega)]
    exact hs.beyond k (by omega)
  case one =>
    rw [hget, if_neg (by omega), if_neg (by omega)]
    exact hs.one
  case even =>
    intro k v hk hv
    rw [hget] at hv
    split at hv
    · cases hv
      apply bitOr_flag_link
      · intro hh
        apply hkey
        rw [shl_one, Int.bmod_def]
        split <;> omega
      · exact hlink
    · split at hv
      · cases hv
        rcases hv0 : t.cells.get 0 with _ | v₀
        · decide
        · have hv₀ := hs.even 0 v₀ (by decide) hv0
          exact bitOr_flag_link hv₀.1 hv₀.2
      · exact hs.even k v hk hv
  case odd =>
    intro k v hk hv
    rw [hget, if_neg (by omega), if_neg (by omega)] at hv
    exact hs.odd k v hk hv

end

/-! ### Create -/

/-- A value for the second cell of a new pair: a rep, with the own bit only
when it is used. -/
structure NewVal (used : Int → Prop) (val : Int) : Prop where
  nonneg : 0 ≤ val
  lt : val < 2 ^ 31
  used_of_own : 2 ^ 30 ≤ val → used (val - 2 ^ 30)

section

variable {cells : JsArray Int} {used : Int → Prop} {scope val : Int}

/-- The head of the free list is never a link to the pair `0` with more to
follow. -/
theorem free_key_ne (hs : Sane cells used)
    (hfree : bitAnd (num (cells.get 0)) (bitNot T_FLAG) ≠ 0) :
    shl (bitAnd (num (cells.get 0)) (bitNot T_FLAG)) 1 ≠ 0 := by
  rcases hv : cells.get 0 with _ | v
  · rw [hv] at hfree
    exact absurd (by decide) hfree
  · have hv0 := hs.even 0 v (by decide) hv
    rw [hv, num_some, T_FLAG_eq, bitAnd_not_pow30] at hfree
    rw [num_some, T_FLAG_eq, bitAnd_not_pow30, shl_one]
    unfold bit30 at hfree ⊢
    simp only [Int.bmod_def] at hfree ⊢
    split_ifs at hfree ⊢ <;> omega

/-- The two shapes of `allocate`. -/
theorem allocate_cases (cells : JsArray Int) (scope val : Int) :
    (bitAnd (num (cells.get 0)) (bitNot T_FLAG) = 0 ∧
      (allocate cells scope val).2 = (cells.push scope).push val) ∨
    ∃ f : Int, bitAnd (num (cells.get 0)) (bitNot T_FLAG) = f ∧ f ≠ 0 ∧
      (allocate cells scope val).2 = ((cells.set 0 (cells.get (shl f 1))).set (shl f 1)
        (some scope)).set (shl f 1 + 1) (some val) := by
  unfold allocate
  by_cases h : bitAnd (num (cells.get 0)) (bitNot T_FLAG) = 0
  · left
    exact ⟨h, by simp only [if_pos h]⟩
  · right
    exact ⟨_, rfl, h, by simp only [if_neg h]⟩

theorem createBorrow_cases {t t' : ResourceTable} {rep scopeId handle : Int}
    (h : rscTableCreateBorrow t rep (some scopeId) = .ok (handle, t')) :
    t'.cells = (allocate t.cells scopeId rep).2 ∧ t'.createdReps = t.createdReps := by
  cases h
  exact ⟨rfl, rfl⟩

theorem allocate_sane (hs : Sane cells used) (hscope : Small scope) (hval : NewVal used val) :
    Sane (allocate cells scope val).2 used := by
  have hlen := hs.length
  have hscope0 := hscope.1
  have hscope1 := hscope.2
  have hval0 := hval.nonneg
  have hval1 := hval.lt
  rcases allocate_cases cells scope val with ⟨-, hcells⟩ | ⟨f, hf, hne, hcells⟩
  · -- nothing was free: a pair is pushed
    have hget : ∀ j : Int, (allocate cells scope val).2.get j =
        if j = cells.length + 1 then some val else if j = cells.length then some scope else
          cells.get j := by
      intro j
      rw [hcells]
      simp only [get_push, length_push]
      push_cast
      rfl
    have hle : (allocate cells scope val).2.length = cells.length + 2 := by rw [hcells]; rfl
    constructor
    case length => omega
    case beyond =>
      intro k hk
      rw [hget, if_neg (by omega), if_neg (by omega)]
      exact hs.beyond k (by omega)
    case one =>
      rw [hget, if_neg (by omega), if_neg (by omega)]
      exact hs.one
    case even =>
      intro k v hk hv
      rw [hget] at hv
      split at hv
      · cases hv
        omega
      · split at hv
        · cases hv
          omega
        · exact hs.even k v hk hv
    case odd =>
      intro k v hk hv
      rw [hget] at hv
      split at hv
      · cases hv
        exact ⟨hval0, hval1, hval.used_of_own⟩
      · split at hv
        · cases hv
          exact ⟨by omega, by omega, by omega⟩
        · exact hs.odd k v hk hv
  · -- the pair of the first link is written, which is not the head
    have hkey : shl f 1 ≠ 0 := hf ▸ free_key_ne hs (hf ▸ hne)
    have heven := shl_even f
    have hget : ∀ j : Int, (allocate cells scope val).2.get j =
        if j = shl f 1 + 1 then some val else if j = shl f 1 then some scope else
          if j = 0 then cells.get (shl f 1) else cells.get j := by
      intro j
      rw [hcells]
      simp only [get_set]
    have hle : cells.length ≤ (allocate cells scope val).2.length ∧
        shl f 1 + 1 < (allocate cells scope val).2.length := by
      rw [hcells]
      simp only [JsArray.set]
      split_ifs <;> omega
    constructor
    case length => omega
    case beyond =>
      intro k hk
      rw [hget, if_neg (by omega), if_neg (by omega), if_neg (by omega)]
      exact hs.beyond k (by omega)
    case one =>
      rw [hget, if_neg (by omega), if_neg (by omega), if_neg (by omega)]
      exact hs.one
    case even =>
      intro k v hk hv
      rw [hget, if_neg (by omega)] at hv
      split at hv
      · cases hv
        omega
      · split at hv
        · exact hs.even _ v heven hv
        · exact hs.even k v hk hv
    case odd =>
      intro k v hk hv
      rw [hget] at hv
      split at hv
      · cases hv
        exact ⟨hval0, hval1, hval.used_of_own⟩
      · rw [if_neg (by omega), if_neg (by omega)] at hv
        exact hs.odd k v hk hv

/-- A create adds at most one own pair, with the rep of the new value. -/
theorem allocate_ownAt (hs : Sane cells used) (hscope : Small scope) (hval : NewVal used val) :
    ∃ k₀ : Int, ∀ k rep, OwnAt (allocate cells scope val).2 k rep →
      OwnAt cells k rep ∨ (k = k₀ ∧ val = rep + 2 ^ 30) := by
  have hsane := allocate_sane hs hscope hval
  rcases allocate_cases cells scope val with ⟨-, hcells⟩ | ⟨f, hf, hne, hcells⟩
  · refine ⟨cells.length, ?_⟩
    intro k rep hown
    have hget : ∀ j : Int, (allocate cells scope val).2.get j =
        if j = cells.length + 1 then some val else if j = cells.length then some scope else
          cells.get j := by
      intro j
      rw [hcells]
      simp only [get_push, length_push]
      push_cast
      rfl
    have hcell := (hown.cell hsane).1
    rw [hget] at hcell
    split at hcell
    case isTrue hk =>
      right
      exact ⟨by omega, Option.some.inj hcell⟩
    case isFalse hk =>
      split at hcell
      case isTrue hk' =>
        -- the scope cell of a misaligned push carries no own bit
        have hcellRep := (hown.cell hsane).2.1
        have hscopeVal := Option.some.inj hcell
        have hscope1 := hscope.2
        omega
      case isFalse hk' =>
        left
        by_cases hk₁ : k = cells.length + 1
        · -- past the new end there is no second cell
          rw [hs.beyond (k + 1) (by omega)] at hcell
          cases hcell
        · have hodd : (allocate cells scope val).2.get (k + 1) = cells.get (k + 1) := by
            rw [hget, if_neg hk, if_neg hk']
          have hlive := hown.live
          by_cases hk₂ : k = cells.length
          · omega
          · rw [hget, if_neg hk₁, if_neg hk₂] at hlive
            exact ⟨hown.even, hlive, hodd ▸ hown.own, hodd ▸ hown.rep_eq⟩
  · have heven := shl_even f
    refine ⟨shl f 1, ?_⟩
    intro k rep hown
    have hk := hown.even
    have hget : ∀ j : Int, (allocate cells scope val).2.get j =
        if j = shl f 1 + 1 then some val else if j = shl f 1 then some scope else
          if j = 0 then cells.get (shl f 1) else cells.get j := by
      intro j
      rw [hcells]
      simp only [get_set]
    have hcell := (hown.cell hsane).1
    by_cases hkf : k = shl f 1
    · right
      rw [hkf, hget, if_pos rfl] at hcell
      exact ⟨hkf, Option.some.inj hcell⟩
    · left
      have hodd : (allocate cells scope val).2.get (k + 1) = cells.get (k + 1) := by
        rw [hget, if_neg (by omega), if_neg (by omega), if_neg (by omega)]
      by_cases hk0 : k = 0
      · -- the head pair has `0` in its second cell
        rw [hodd, hk0, show (0 : Int) + 1 = 1 from rfl, hs.one] at hcell
        have hcellRep := (hown.cell hsane).2.1
        have hzero := Option.some.inj hcell
        omega
      · have hlive := hown.live
        rw [hget, if_neg (by omega), if_neg hkf, if_neg hk0] at hlive
        exact ⟨hk, hlive, hodd ▸ hown.own, hodd ▸ hown.rep_eq⟩

end

/-! ## All tables -/

/-- The table `tid` owns `rep` in the pair at the key `k`. -/
def OwnsAt (s : HandleTables) (tid : Nat) (k rep : Int) : Prop :=
  ∃ t, s.tables tid = some t ∧ OwnAt t.cells k rep

/-- Some table has created the rep as an own. -/
def Created (s : HandleTables) (rep : Int) : Prop :=
  ∃ tid t, s.tables tid = some t ∧ rep ∈ t.createdReps

/-- The ownership invariant. -/
structure UniqueOwners (s : HandleTables) : Prop where
  sane : ∀ tid t, s.tables tid = some t → Sane t.cells (Created s)
  unique : ∀ tid tid' k k' rep, OwnsAt s tid k rep → OwnsAt s tid' k' rep → tid = tid' ∧ k = k'
  scope : Small s.scopeId

variable {s : HandleTables}

theorem OwnsAt.created (h : UniqueOwners s) {tid : Nat} {k rep : Int}
    (hown : OwnsAt s tid k rep) : Created s rep := by
  rcases hown with ⟨t, ht, hown⟩
  exact (hown.cell (h.sane tid t ht)).2.2.2

section

variable {s : HandleTables}

variable {tid : Nat}

theorem Created.setTable {t' : ResourceTable}
    (hreps : ∀ t, s.tables tid = some t → t.createdReps ⊆ t'.createdReps) {rep : Int}
    (h : Created s rep) : Created (s.setTable tid t') rep := by
  rcases h with ⟨tid₀, t₀, ht₀, hmem⟩
  by_cases hid : tid₀ = tid
  · refine ⟨tid, t', by simp [tables_setTable], ?_⟩
    exact hreps t₀ (hid ▸ ht₀) hmem
  · exact ⟨tid₀, t₀, by simp [tables_setTable, hid, ht₀], hmem⟩

/-- Replacing one table keeps the invariant when its own pairs are old ones,
up to one whose rep no table owned. -/
theorem UniqueOwners.setTable (h : UniqueOwners s) {t' : ResourceTable}
    (hsane : Sane t'.cells (Created (s.setTable tid t')))
    (hreps : ∀ t, s.tables tid = some t → t.createdReps ⊆ t'.createdReps) (k₀ rep₀ : Int)
    (hown : ∀ k rep, OwnAt t'.cells k rep → OwnsAt s tid k rep ∨
      (k = k₀ ∧ rep = rep₀ ∧ ∀ tid k, ¬ OwnsAt s tid k rep₀)) :
    UniqueOwners (s.setTable tid t') := by
  have hold : ∀ tid₁ k rep, OwnsAt (s.setTable tid t') tid₁ k rep → OwnsAt s tid₁ k rep ∨
      (tid₁ = tid ∧ k = k₀ ∧ rep = rep₀ ∧ ∀ tid k, ¬ OwnsAt s tid k rep₀) := by
    intro tid₁ k rep hk
    rcases hk with ⟨t₁, ht₁, hk⟩
    rw [tables_setTable] at ht₁
    split at ht₁
    case isTrue hid =>
      cases ht₁
      subst hid
      rcases hown k rep hk with hk | hnew
      · exact Or.inl hk
      · exact Or.inr ⟨rfl, hnew⟩
    case isFalse => exact Or.inl ⟨t₁, ht₁, hk⟩
  constructor
  case sane =>
    intro tid₁ t₁ ht₁
    rw [tables_setTable] at ht₁
    split at ht₁
    · cases ht₁
      exact hsane
    · exact (h.sane tid₁ t₁ ht₁).mono fun r hr => hr.setTable hreps
  case unique =>
    intro tid₁ tid₂ k₁ k₂ rep h₁ h₂
    rcases hold _ _ _ h₁ with h₁ | ⟨hid₁, hk₁, hrep₁, hnone⟩
    · rcases hold _ _ _ h₂ with h₂ | ⟨-, -, hrep₂, hnone⟩
      · exact h.unique _ _ _ _ _ h₁ h₂
      · exact absurd (hrep₂ ▸ h₁) (hnone _ _)
    · rcases hold _ _ _ h₂ with h₂ | ⟨hid₂, hk₂, -, -⟩
      · exact absurd (hrep₁ ▸ h₂) (hnone _ _)
      · exact ⟨hid₁.trans hid₂.symm, hk₁.trans hk₂.symm⟩
  case scope => exact h.scope

theorem ensureTable_sane (h : UniqueOwners s) (tid : Nat) :
    Sane (s.ensureTable tid).cells (Created s) := by
  unfold ensureTable
  rcases ht : s.tables tid with _ | t
  · exact sane_fresh _
  · exact h.sane tid t ht

theorem ensureTable_ownAt {k rep : Int} (h : OwnAt (s.ensureTable tid).cells k rep) :
    OwnsAt s tid k rep := by
  unfold ensureTable at h
  rcases ht : s.tables tid with _ | t
  · rw [ht] at h
    exact absurd h fresh_ownAt
  · rw [ht] at h
    exact ⟨t, ht, h⟩

theorem ensureTable_reps {t : ResourceTable} (h : s.tables tid = some t) :
    s.ensureTable tid = t := by
  simp [ensureTable, h]

/-- Creating an own of a rep that no table owns. -/
theorem createOwn_owners (h : UniqueOwners s) (tid : Nat) {rep : Int} (hrep : Small rep)
    (hnone : ∀ tid k, ¬ OwnsAt s tid k rep) :
    UniqueOwners (s.setTable tid (rscTableCreateOwn (s.ensureTable tid) rep).2) := by
  have hreps : ∀ t, s.tables tid = some t →
      t.createdReps ⊆ (rscTableCreateOwn (s.ensureTable tid) rep).2.createdReps := by
    intro t ht
    rw [ensureTable_reps ht]
    exact List.subset_cons_self _ _
  have hcreated :
      Created (s.setTable tid (rscTableCreateOwn (s.ensureTable tid) rep).2) rep := by
    refine ⟨tid, _, by simp [tables_setTable]; rfl, ?_⟩
    exact List.mem_cons_self
  have hbit : bitOr rep T_FLAG = rep + 2 ^ 30 := by rw [bitOr_flag_small hrep, T_FLAG_eq]
  have hval : NewVal (Created (s.setTable tid (rscTableCreateOwn (s.ensureTable tid) rep).2))
      (bitOr rep T_FLAG) := by
    unfold Small at hrep
    rw [hbit]
    refine ⟨by omega, by omega, fun _ => ?_⟩
    simpa using hcreated
  have hsane := (ensureTable_sane h tid).mono fun r hr => hr.setTable hreps
  have hzero : Small 0 := by decide
  rcases allocate_ownAt hsane hzero hval with ⟨k₀, hk₀⟩
  apply h.setTable (allocate_sane hsane hzero hval) hreps k₀ rep
  intro k rep' hown
  rcases hk₀ k rep' hown with hold | ⟨hk, hrep'⟩
  · exact Or.inl (ensureTable_ownAt hold)
  · right
    refine ⟨hk, ?_, hnone⟩
    omega

/-- Creating a borrow, or handing back a rep, adds no own pair. -/
theorem giveBorrow_owners (h : UniqueOwners s) {rep handle : Int} {isNew : Bool}
    {s' : HandleTables} (hrep : Small rep)
    (hcall : giveBorrow s tid rep = .ok (handle, isNew, s')) : UniqueOwners s' := by
  have hreps : ∀ t, s.tables tid = some t →
      t.createdReps ⊆ (s.ensureTable tid).createdReps := by
    intro t ht
    rw [ensureTable_reps ht]
    exact List.Subset.refl _
  have hsane := ensureTable_sane h tid
  simp only [giveBorrow] at hcall
  split at hcall
  case isTrue =>
    cases hcall
    have hsane' := hsane.mono fun r hr => hr.setTable hreps
    exact h.setTable hsane' hreps 0 0 fun k rep' hown => Or.inl (ensureTable_ownAt hown)
  case isFalse =>
    rcases bind_ok hcall with ⟨⟨newHandle, t'⟩, hcreate, hcall⟩
    cases hcall
    rcases createBorrow_cases hcreate with ⟨hcells, hcreated⟩
    have hval : NewVal (Created s) rep := by
      unfold Small at hrep
      exact ⟨by omega, by omega, by omega⟩
    rcases allocate_ownAt hsane h.scope hval with ⟨k₀, hk₀⟩
    have hsane' := allocate_sane hsane h.scope hval
    rw [← hcells] at hk₀ hsane'
    rw [← hcreated] at hreps
    apply h.setTable (hsane'.mono fun r hr => hr.setTable hreps) hreps k₀ rep
    intro k rep' hown
    left
    rcases hk₀ k rep' hown with hold | ⟨-, hrep'⟩
    · exact ensureTable_ownAt hold
    · -- the value of a borrow has no own bit
      have hcell := (hown.cell hsane').2.1
      unfold Small at hrep
      omega

/-- The second cell of a pair, read as a number. -/
theorem Sane.num_odd {cells : JsArray Int} {used : Int → Prop} (hs : Sane cells used) {k : Int}
    (hk : k % 2 = 1) : 0 ≤ num (cells.get k) ∧ num (cells.get k) < 2 ^ 31 := by
  rcases hv : cells.get k with _ | v
  · decide
  · have hodd := hs.odd k v hk hv
    exact ⟨hodd.1, hodd.2.1⟩

theorem clear_flag_range {x : Int} (h : 0 ≤ x) (h' : x < 2 ^ 31) :
    Small (bitAnd x (bitNot T_FLAG)) := by
  rw [T_FLAG_eq, bitAnd_not_pow30]
  unfold Small bit30
  rw [bmod_small] <;> omega

/-- A remove keeps the invariant and answers a rep that, when it was an own,
no table owns any longer. -/
theorem remove_owners (h : UniqueOwners s) {t t' : ResourceTable} {handle : Int}
    {e : Entry} (ht : s.tables tid = some t) (hcall : rscTableRemove t handle = .ok (e, t'))
    (hlink : LinksHead handle → Flagged t handle) :
    UniqueOwners (s.setTable tid t') ∧ Small e.rep ∧
      (bitAnd (num (t.cells.get (shl handle 1 + 1))) T_FLAG ≠ 0 →
        ∀ tid₁ k, ¬ OwnsAt (s.setTable tid t') tid₁ k e.rep) := by
  have hsane := h.sane tid t ht
  have heven := shl_even handle
  rcases remove_cases hcall with ⟨-, hlive, hrep, hcreated, -⟩
  have hreps : ∀ t₁, s.tables tid = some t₁ → t₁.createdReps ⊆ t'.createdReps := by
    intro t₁ ht₁
    rw [ht] at ht₁
    cases ht₁
    rw [hcreated]
    exact List.Subset.refl _
  refine ⟨?_, ?_, ?_⟩
  · have hhead : ¬ LinksHead handle := fun hh => hlink hh hlive
    have hsane' := (remove_sane hsane hcall hhead).mono fun r hr => hr.setTable hreps
    apply h.setTable hsane' hreps 0 0
    intro k rep hown
    exact Or.inl ⟨t, ht, (remove_ownAt hcall hown).1⟩
  · have hnum := hsane.num_odd (k := shl handle 1 + 1) (by omega)
    rw [hrep]
    exact clear_flag_range hnum.1 hnum.2
  · intro hbit tid₁ k hown
    -- the removed pair was the one owner of its rep
    have hthis : OwnsAt s tid (shl handle 1) e.rep := ⟨t, ht, heven, hlive, hbit, hrep.symm⟩
    rcases hown with ⟨t₁, ht₁, hown⟩
    rw [tables_setTable] at ht₁
    split at ht₁
    case isTrue hid =>
      cases ht₁
      rcases remove_ownAt hcall hown with ⟨hold, hne⟩
      exact hne (h.unique _ _ _ _ _ ⟨t, ht, hold⟩ hthis).2
    case isFalse hid =>
      exact hid (h.unique _ _ _ _ _ ⟨t₁, ht₁, hown⟩ hthis).1

/-- Taking the rep of a borrow transfer keeps the invariant. -/
theorem takeRep_owners (h : UniqueOwners s) {t t' : ResourceTable}
    {handle removed rep : Int} (ht : s.tables tid = some t)
    (hcall : takeRep t handle removed = .ok (rep, t'))
    (hlink : bitAnd (num (t.cells.get (shl handle 1 + 1))) T_FLAG = 0 →
      LinksHead removed → Flagged t removed) :
    UniqueOwners (s.setTable tid t') ∧ Small rep := by
  have hsane := h.sane tid t ht
  have heven := shl_even handle
  simp only [takeRep] at hcall
  split at hcall
  case isTrue =>
    cases hcall
    have hreps : ∀ t₁, s.tables tid = some t₁ → t₁.createdReps ⊆ t.createdReps := by
      intro t₁ ht₁
      rw [ht] at ht₁
      cases ht₁
      exact List.Subset.refl _
    have hnum := hsane.num_odd (k := shl handle 1 + 1) (by omega)
    refine ⟨?_, clear_flag_range hnum.1 hnum.2⟩
    exact h.setTable (hsane.mono fun r hr => hr.setTable hreps) hreps 0 0
      fun k rep' hown => Or.inl ⟨t, ht, hown⟩
  case isFalse hbit =>
    rcases hrem : rscTableRemove t removed with err | ⟨e, t₁⟩
    · rw [hrem] at hcall
      cases hcall
    · rw [hrem] at hcall
      cases hcall
      have howners := remove_owners h ht hrem (hlink (not_not.1 hbit))
      exact ⟨howners.1, howners.2.1⟩

end

/-! ## Runs of transfers -/

/-- The steps of the ownership law. `scope` stands for the calls around them,
which change `SCOPE_ID`. -/
inductive TransferOp where
  | createOwn (tid : Nat) (rep : Int)
  | transferOwn (handle : Int) (fromTid toTid : Nat)
  | transferBorrow (handle : Int) (fromTid toTid : Nat)
  | transferBorrowValidLifting (handle : Int) (fromTid toTid : Nat)
  | remove (tid : Nat) (handle : Int)
  | scope (scopeId : Int)
deriving DecidableEq, Repr

/-- The state after the step, or what it throws. -/
def TransferOp.run (s : HandleTables) : TransferOp → Except JsError HandleTables
  | .createOwn tid rep => do
      let t ← tableOf s tid
      .ok (s.setTable tid (rscTableCreateOwn t rep).2)
  | .transferOwn handle fromTid toTid => (resourceTransferOwn s handle fromTid toTid).map (·.2)
  | .transferBorrow handle fromTid toTid =>
    (resourceTransferBorrow s handle fromTid toTid).map (·.2)
  | .transferBorrowValidLifting handle fromTid toTid =>
    (resourceTransferBorrowValidLifting s handle fromTid toTid).map (·.2)
  | .remove tid handle => do
      let t ← tableOf s tid
      let (_, t) ← rscTableRemove t handle
      .ok (s.setTable tid t)
  | .scope scopeId => .ok { s with scopeId }

/-- A created rep is fresh. -/
def TransferOp.Args (s : HandleTables) : TransferOp → Prop
  | .createOwn _ rep => Small rep ∧ rep ≠ 0 ∧ ¬ Created s rep
  | .scope scopeId => Small scopeId
  | _ => True

/-- One step; when it throws the tables stay as they were. -/
def transferNext : Action TransferOp HandleTables :=
  fun op s s' => op.Args s ∧ (op.run s = .ok s' ∨ ((∃ e, op.run s = .error e) ∧ s' = s))

/-- The handle is not removed when its free-list link would lead to the list
head: `rscTableRemove` has no bounds check, and such a handle is past the end. -/
def KeepsHead (s : HandleTables) (tid : Nat) (handle : Int) : Prop :=
  ∀ t, s.tables tid = some t → LinksHead handle → Flagged t handle

/-- When a step keeps ownership unique: `resourceTransferOwn` moves an own, or
fails on a pair that is free or empty, and no step links the list head. -/
def MovesOwn (op : TransferOp) (s : HandleTables) : Prop :=
  match op with
  | .transferOwn handle fromTid _ => KeepsHead s fromTid handle ∧
      ∀ t, s.tables fromTid = some t →
        bitAnd (num (t.cells.get (shl handle 1 + 1))) T_FLAG ≠ 0 ∨ Flagged t handle ∨
          t.cells.get (shl handle 1 + 1) = some 0
  | .transferBorrowValidLifting handle fromTid _ => KeepsHead s fromTid handle
  | .remove tid handle => KeepsHead s tid handle
  | _ => True

theorem tableOf_ok {tid : Nat} {t : ResourceTable} (h : tableOf s tid = .ok t) :
    s.tables tid = some t := by
  unfold tableOf at h
  split at h
  case h_1 t' ht =>
    cases h
    exact ht
  case h_2 => cases h

variable {handle newHandle : Int} {fromTid toTid : Nat}

theorem transferOwn_owners {s s' : HandleTables}
    (h : UniqueOwners s) (hok : MovesOwn (.transferOwn handle fromTid toTid) s)
    (hcall : resourceTransferOwn s handle fromTid toTid = .ok (newHandle, s')) :
    UniqueOwners s' := by
  rcases bind_ok hcall with ⟨t, ht, hcall⟩
  rcases bind_ok hcall with ⟨⟨e, t'⟩, hrem, hcall⟩
  cases hcall
  have ht := tableOf_ok ht
  rcases remove_owners h ht hrem (hok.1 t ht) with ⟨howners, hrep, hgone⟩
  rcases remove_cases hrem with ⟨hval, hlive, -⟩
  rcases hok.2 t ht with hown | hflagged | hzero
  · exact createOwn_owners howners toTid hrep (hgone hown)
  · exact absurd hlive hflagged
  · exact absurd hzero hval

theorem transferBorrow_owners {s s' : HandleTables}
    (h : UniqueOwners s)
    (hcall : resourceTransferBorrow s handle fromTid toTid = .ok (newHandle, s')) :
    UniqueOwners s' := by
  rcases bind_ok hcall with ⟨t, ht, hcall⟩
  rcases bind_ok hcall with ⟨⟨rep, t'⟩, htake, hcall⟩
  rcases bind_ok hcall with ⟨⟨newHandle', isNew, s₁⟩, hgive, hcall⟩
  cases hcall
  have ht := tableOf_ok ht
  have heven := shl_even handle
  have hnum := (h.sane fromTid t ht).num_odd (k := shl handle 1 + 1) (by omega)
  have hlink : ¬ LinksHead (num (t.cells.get (shl handle 1 + 1))) := by
    intro hlink
    unfold LinksHead at hlink
    omega
  rcases takeRep_owners h ht htake (fun _ hh => absurd hh hlink) with ⟨howners, hrep⟩
  have howners' := giveBorrow_owners howners hrep hgive
  exact ⟨howners'.sane, howners'.unique, howners'.scope⟩

theorem transferBorrowValidLifting_owners {s s' : HandleTables}
    (h : UniqueOwners s) (hhead : KeepsHead s fromTid handle)
    (hcall : resourceTransferBorrowValidLifting s handle fromTid toTid = .ok (newHandle, s')) :
    UniqueOwners s' := by
  rcases bind_ok hcall with ⟨t, ht, hcall⟩
  rcases bind_ok hcall with ⟨⟨rep, t'⟩, htake, hcall⟩
  rcases bind_ok hcall with ⟨⟨newHandle', isNew, s₁⟩, hgive, hcall⟩
  cases hcall
  have ht := tableOf_ok ht
  rcases takeRep_owners h ht htake (fun _ => hhead t ht) with ⟨howners, hrep⟩
  exact giveBorrow_owners howners hrep hgive

/-- The step lemma. -/
theorem transferNext_owners (op : TransferOp) (s s' : HandleTables)
    (hnext : guarded MovesOwn transferNext op s s') (h : UniqueOwners s) : UniqueOwners s' := by
  rcases hnext with ⟨hok, hargs, hrun | ⟨-, rfl⟩⟩
  · cases op with
    | createOwn tid rep =>
      rcases bind_ok hrun with ⟨t, ht, hrun⟩
      cases hrun
      rw [← ensureTable_reps (tableOf_ok ht)]
      exact createOwn_owners h tid hargs.1 fun tid₁ k hown => hargs.2.2 (hown.created h)
    | transferOwn handle fromTid toTid =>
      rcases map_ok hrun with ⟨⟨newHandle, s₁⟩, hcall, rfl⟩
      exact transferOwn_owners h hok hcall
    | transferBorrow handle fromTid toTid =>
      rcases map_ok hrun with ⟨⟨newHandle, s₁⟩, hcall, rfl⟩
      exact transferBorrow_owners h hcall
    | transferBorrowValidLifting handle fromTid toTid =>
      rcases map_ok hrun with ⟨⟨newHandle, s₁⟩, hcall, rfl⟩
      exact transferBorrowValidLifting_owners h hok hcall
    | remove tid handle =>
      rcases bind_ok hrun with ⟨t, ht, hrun⟩
      rcases bind_ok hrun with ⟨⟨e, t'⟩, hrem, hrun⟩
      cases hrun
      have ht := tableOf_ok ht
      exact (remove_owners h ht hrem (hok t ht)).1
    | scope scopeId =>
      cases hrun
      exact ⟨h.sane, h.unique, hargs⟩
  · exact h

/-- Every table is missing or fresh. -/
structure Initial (s : HandleTables) : Prop where
  tables : ∀ tid t, s.tables tid = some t → t = .fresh
  scope : Small s.scopeId

theorem Initial.owners (h : Initial s) : UniqueOwners s := by
  have hno : ∀ tid k rep, ¬ OwnsAt s tid k rep := by
    rintro tid k rep ⟨t, ht, hown⟩
    rw [h.tables tid t ht] at hown
    exact fresh_ownAt hown
  constructor
  case sane =>
    intro tid t ht
    rw [h.tables tid t ht]
    exact sane_fresh _
  case unique => exact fun tid _ k _ rep hown _ => absurd hown (hno tid k rep)
  case scope => exact h.scope

/-- `rscTableGet` answers an own entry of `rep` for the handle. -/
def HoldsOwn (s : HandleTables) (tid : Nat) (handle rep : Int) : Prop :=
  ∃ t scope, s.tables tid = some t ∧ rscTableGet t handle = .ok ⟨rep, scope, true⟩

theorem HoldsOwn.ownsAt {tid : Nat} {handle rep : Int}
    (h : HoldsOwn s tid handle rep) : OwnsAt s tid (shl handle 1) rep := by
  rcases h with ⟨t, scope, ht, hget⟩
  simp only [rscTableGet] at hget
  split at hget
  case isTrue => cases hget
  case isFalse hguard =>
    rw [not_or, not_not] at hguard
    simp only [Except.ok.injEq, Entry.mk.injEq, bne_iff_ne] at hget
    exact ⟨t, ht, shl_even handle, hguard.2, hget.2.2, hget.1⟩

/-- Each rep is held by at most one own entry over all tables. -/
def OneOwner (s : HandleTables) : Prop :=
  ∀ tid tid' handle handle' rep, HoldsOwn s tid handle rep → HoldsOwn s tid' handle' rep →
    tid = tid' ∧ shl handle 1 = shl handle' 1

/-- Ownership is unique in every state that a run of own-moving transfers
reaches. -/
theorem unique_ownership {s₀ s : HandleTables} {tr : List TransferOp} (hinit : Initial s₀)
    (hrun : Run (guarded MovesOwn transferNext) s₀ tr s) : OneOwner s := by
  have howners := hrun.invariant transferNext_owners hinit.owners
  intro tid tid' handle handle' rep h h'
  exact howners.unique _ _ _ _ _ h.ownsAt h'.ownsAt

/-- One table, in the scope `1`. -/
def oneTable : HandleTables where
  tables tid := if tid = 0 then some .fresh else none
  callBorrows := []
  scopeId := 1

theorem initial_oneTable : Initial oneTable := by
  constructor
  case tables =>
    intro tid t ht
    simp only [oneTable] at ht
    split at ht
    · exact (Option.some.inj ht).symm
    · cases ht
  case scope => decide

theorem not_created_oneTable (rep : Int) : ¬ Created oneTable rep := by
  rintro ⟨tid, t, ht, hmem⟩
  rw [initial_oneTable.tables tid t ht] at hmem
  cases hmem

/-- Lend the rep `5` to the table `1`, move the own to the table `2`. -/
def lendAndMove : List TransferOp :=
  [.createOwn 0 5, .transferBorrow 1 0 1, .transferOwn 1 0 2]

theorem lendAndMove_run : ∃ s, Run (guarded MovesOwn transferNext) oneTable lendAndMove s := by
  have hhead : ¬ LinksHead 1 := by decide
  refine ⟨_, .cons ⟨trivial, ⟨by decide, by decide, not_created_oneTable 5⟩, Or.inl rfl⟩ <|
    .cons ⟨trivial, trivial, Or.inl rfl⟩ <|
    .cons ⟨⟨fun _ _ hh => absurd hh hhead, ?_⟩, trivial, Or.inl rfl⟩ <| .nil _⟩
  intro t ht
  cases ht
  decide

theorem unique_ownership_lendAndMove :
    ∃ s, Run (guarded MovesOwn transferNext) oneTable lendAndMove s ∧ OneOwner s := by
  rcases lendAndMove_run with ⟨s, hrun⟩
  exact ⟨s, hrun, unique_ownership initial_oneTable hrun⟩

/-- The table `1` passes on the borrow as an own: the tables `0` and `2` both
own the rep `5`. -/
theorem borrow_becomes_own :
    ¬ ∀ (s₀ s : HandleTables) (tr : List TransferOp), Initial s₀ →
      Run transferNext s₀ tr s → OneOwner s := by
  intro h
  have hone := h oneTable _ [.createOwn 0 5, .transferBorrow 1 0 1, .transferOwn 1 1 2]
    initial_oneTable
    (.cons ⟨⟨by decide, by decide, not_created_oneTable 5⟩, Or.inl rfl⟩ <|
      .cons ⟨trivial, Or.inl rfl⟩ <|
      .cons ⟨trivial, Or.inl rfl⟩ <| .nil _)
  have hsame := hone 0 2 1 1 5 ⟨_, some 0, rfl, by decide⟩ ⟨_, some 0, rfl, by decide⟩
  exact absurd hsame.1 (by decide)

end Jco.Resource

import Jco.ErrorContext.Basic
import Mathlib.Algebra.Order.BigOperators.Group.Finset

/-! # The reference counts of error contexts

As long as no error context is transferred or lifted, each handle counts one, and
is listed in the table of its component. A transfer or a lift takes one from the
count of a handle that stays.
-/

namespace Jco.ErrorContext

open Jco.Js Jco.Lib Jco.Component Function RepTable Int State Handle

variable {n : Nat} {s s' : State n}

/-! ## The invariant -/

/-- The handle at the place `i` is listed in the table of its component. -/
def Listed (s : State n) (c : Fin n) (i : Nat) (e : ErrCtx) : Prop :=
  ∃ (t : RepTable Int) (k : Nat) (handle : Int), s.localTables c = some t ∧
    slot e.localIdx = k + 1 ∧ t.cells[k]? = some (.val handle) ∧ slot handle = i + 1

structure Inv (s : State n) : Prop where
  one : ∀ c (i : Nat) e, (s.handles c).cells[i]? = some (.val (.errCtx e)) → e.refCount = 1
  listed : ∀ c (i : Nat) e, (s.handles c).cells[i]? = some (.val (.errCtx e)) → Listed s c i e
  global : ∀ c (i : Nat) e, (s.handles c).cells[i]? = some (.val (.errCtx e)) →
    ∃ (j : Nat) (g : GlobalErrCtx n), slot e.globalRep = j + 1 ∧ s.global.cells[j]? = some (.val g)
  counted : ∀ (j : Nat) g, s.global.cells[j]? = some (.val g) →
    g.refCount = ∑ c, s.heldBy c (j + 1) ∧ 0 < g.refCount
  unheld : ∀ place, s.hostHeld place = 0

/-- An index with a place is not `0`. -/
theorem ne_zero_of_slot {rep : Int} {i : Nat} (h : slot rep = i + 1) : rep ≠ 0 := by
  rintro rfl
  have hzero : slot 0 = 0 := by decide
  omega

/-- One component's part of a sum changes. -/
theorem sum_eq_of_ne {f g : Fin n → Int} (c : Fin n) (h : ∀ d, d ≠ c → g d = f d) :
    ∑ d, g d = ∑ d, f d - f c + g c := by
  have hf := Finset.add_sum_erase Finset.univ f (Finset.mem_univ c)
  have hg := Finset.add_sum_erase Finset.univ g (Finset.mem_univ c)
  have hsame : ∑ d ∈ Finset.univ.erase c, g d = ∑ d ∈ Finset.univ.erase c, f d :=
    Finset.sum_congr rfl fun d hd => h d (Finset.ne_of_mem_erase hd)
  omega

theorem heldBy_nonneg (s : State n) (c : Fin n) (place : Int) : 0 ≤ s.heldBy c place := by
  refine total_nonneg fun h => ?_
  split
  · exact Int.one_nonneg
  · exact le_refl 0

/-! ## New handles -/

/-- What `errCtxCreateLocalHandle` makes: a handle at the place `i` and its index
at the place `k` of the local table `t`. -/
structure Created (s s' : State n) (c : Fin n) (t : RepTable Int) (globalRep waitableIdx localIdx : Int)
    (i k : Nat) : Prop where
  waitable : slot waitableIdx = i + 1
  index : slot localIdx = k + 1
  handle : (s'.handles c).cells[i]? = some (.val (.errCtx ⟨globalRep, 1, localIdx⟩))
  handles : ∀ j, j ≠ i → (s'.handles c).cells[j]? = (s.handles c).cells[j]?
  others : ∀ d, d ≠ c → s'.handles d = s.handles d
  total : ∀ f, (s'.handles c).total f = (s.handles c).total f + f (.errCtx ⟨globalRep, 1, localIdx⟩)
  localTable : ∃ t', s'.localTables c = some t' ∧ t'.cells[k]? = some (.val waitableIdx) ∧
    (∀ w, t.cells[k]? ≠ some (.val w)) ∧ ∀ j, j ≠ k → t'.cells[j]? = t.cells[j]?
  localTables : ∀ d, d ≠ c → s'.localTables d = s.localTables d
  global : s'.global = s.global.modify globalRep (.addRef 1)
  hostHeld : s'.hostHeld = s.hostHeld

variable {g : GlobalErrCtx n}

theorem globalRefCountAdd_eq {globalRep amount : Int} {j : Nat}
    (hslot : slot globalRep = j + 1) (hcell : s.global.cells[j]? = some (.val g)) :
    s.globalRefCountAdd globalRep amount = (.ok (g.refCount + amount),
      { s with global := s.global.modify globalRep (.addRef amount) }) := by
  unfold globalRefCountAdd RepTable.get
  rw [if_neg (ne_zero_of_slot hslot),
    lookup_eq_some.1 (lookup_of_cells hslot hcell)]
  rfl

variable {c : Fin n} {t : RepTable Int}

theorem createLocalHandle_spec {globalRep : Int} {j : Nat}
    (hslot : slot globalRep = j + 1)
    (hcell : s.global.cells[j]? = some (.val g)) {res : Except JsError (Int × Int)}
    (hcreate : s.createLocalHandle c t globalRep = some (res, s')) :
    ∃ waitableIdx localIdx i k, res = .ok (waitableIdx, localIdx) ∧
      Created s s' c t globalRep waitableIdx localIdx i k := by
  unfold createLocalHandle at hcreate
  rw [if_neg (ne_zero_of_slot hslot),
    lookup_eq_some.1 (lookup_of_cells hslot hcell)] at hcreate
  rw [if_neg (by simp [truthy])] at hcreate
  split at hcreate
  case h_1 => cases hcreate
  case h_2 waitableIdx handles hinsert =>
  split at hcreate
  case h_1 => cases hcreate
  case h_2 localIdx localTable hlocal =>
  -- the handle is inserted first, then listed, then the global count goes up
  obtain ⟨i, hinserted⟩ := insert_spec hinsert
  obtain ⟨k, hlisted⟩ := insert_spec hlocal
  have hmodified := modify_spec hinserted.slot hinserted.cell
    (.map fun e => { e with localIdx })
  dsimp only at hcreate
  rw [globalRefCountAdd_eq (j := j) (g := g) hslot ?_] at hcreate
  swap
  · exact hcell
  cases hcreate
  refine ⟨waitableIdx, localIdx, i, k, rfl, ?_⟩
  constructor
  case waitable => exact hinserted.slot
  case index => exact hlisted.slot
  case handle =>
    dsimp only
    rw [update_self]
    exact hmodified.cell
  case handles =>
    intro m hm
    dsimp only
    rw [update_self, hmodified.other m hm, hinserted.other m hm]
  case others => exact fun d hd => update_of_ne hd _ _
  case total =>
    intro f
    dsimp only
    rw [update_self, hmodified.total, hinserted.total]
    rw [Int.add_sub_cancel]
    rfl
  case localTable =>
    exact ⟨localTable, update_self _ _ _, hlisted.cell, hlisted.fresh, hlisted.other⟩
  case localTables => exact fun d hd => update_of_ne hd _ _
  case global => rfl
  case hostHeld => rfl

variable {globalRep waitableIdx localIdx : Int}

/-- Who holds the error context at a place, after a handle has been made. -/
theorem Created.heldBy {c d : Fin n}
    {i k : Nat} (h : Created s s' c t globalRep waitableIdx localIdx i k) (place : Int) :
    s'.heldBy d place = s.heldBy d place + if d = c ∧ slot globalRep = place then 1 else 0 := by
  unfold State.heldBy
  by_cases hd : d = c
  · subst hd
    rw [h.total]
    simp [isFor]
  · rw [h.others d hd, if_neg fun hcond => hd hcond.1, add_zero]

theorem Created.sum_heldBy
    {i k : Nat} (h : Created s s' c t globalRep waitableIdx localIdx i k) (place : Int) :
    ∑ d, s'.heldBy d place = ∑ d, s.heldBy d place + if slot globalRep = place then 1 else 0 := by
  rw [sum_eq_of_ne (f := fun d => s.heldBy d place) c]
  · rw [h.heldBy]
    simp only [true_and]
    omega
  · intro d hd
    rw [h.heldBy, if_neg fun hcond => hd hcond.1, add_zero]

/-- Nobody holds what is not in the global table. -/
theorem Inv.sum_heldBy_eq_zero (hinv : Inv s) {j : Nat}
    (hnone : ∀ g, s.global.cells[j]? ≠ some (.val g)) : ∑ c, s.heldBy c (j + 1) = 0 := by
  refine Finset.sum_eq_zero fun c _ => ?_
  by_contra hne
  have hpos : 0 < s.heldBy c (j + 1) :=
    lt_of_le_of_ne (heldBy_nonneg s c _) (Ne.symm hne)
  obtain ⟨i, v, hcell, hfor⟩ := exists_of_total_pos hpos
  cases v with
  | other =>
    rw [if_neg (show ¬isFor _ .other = true from Bool.false_ne_true)] at hfor
    exact absurd hfor (lt_irrefl 0)
  | errCtx e =>
    have hslot : slot e.globalRep = j + 1 := by
      by_contra hslot
      simp [isFor, hslot] at hfor
    obtain ⟨j', g, hj', hg⟩ := hinv.global c i e hcell
    obtain rfl : j' = j := by omega
    exact hnone g hg

variable {e : ErrCtx}

/-- The handle at a place is the new one, or an old one. -/
theorem Created.cases {c d : Fin n}
    {i k m : Nat} (h : Created s s' c t globalRep waitableIdx localIdx i k)
    (hcell : (s'.handles d).cells[m]? = some (.val (.errCtx e))) :
    (d = c ∧ m = i ∧ e = ⟨globalRep, 1, localIdx⟩) ∨
      (s.handles d).cells[m]? = some (.val (.errCtx e)) := by
  by_cases hd : d = c
  · subst hd
    by_cases hm : m = i
    · subst hm
      rw [h.handle] at hcell
      cases hcell
      exact .inl ⟨rfl, rfl, rfl⟩
    · rw [h.handles m hm] at hcell
      exact .inr hcell
  · rw [h.others d hd] at hcell
    exact .inr hcell

/-- The old handles are listed as before. -/
theorem Created.listed {c d : Fin n}
    {i k m : Nat} (h : Created s s' c t globalRep waitableIdx localIdx i k)
    (ht : s.localTables c = some t) (hlisted : Listed s d m e) : Listed s' d m e := by
  obtain ⟨t₀, k₀, handle, ht₀, hindex, hcell, hslot⟩ := hlisted
  by_cases hd : d = c
  · subst hd
    cases ht.symm.trans ht₀
    obtain ⟨t', ht', -, hfresh, hother⟩ := h.localTable
    have hk : k₀ ≠ k := by
      rintro rfl
      exact hfresh handle hcell
    exact ⟨t', k₀, handle, ht', hindex, (hother k₀ hk).trans hcell, hslot⟩
  · exact ⟨t₀, k₀, handle, (h.localTables d hd).trans ht₀, hindex, hcell, hslot⟩

variable {res : Except JsError Int}

theorem Inv.new {debugMessage : String} (hinv : Inv s)
    (hnew : s.new c debugMessage = some (res, s')) : Inv s' := by
  unfold State.new at hnew
  split at hnew
  case h_1 =>
    obtain ⟨-, rfl⟩ := hnew
    exact hinv
  case h_2 localTable hlocal =>
  have htable : s.localTables c = some localTable := by
    unfold getLocalTable at hlocal
    split at hlocal
    case h_1 t ht =>
      cases hlocal
      exact ht
    case h_2 => cases hlocal
  split at hnew
  case h_1 => cases hnew
  case h_2 globalRep global hinsert =>
  obtain ⟨j, hreserved⟩ := insert_spec hinsert
  -- the new entry is there before its first handle
  obtain ⟨u, hu⟩ : ∃ u : State n, u = { s with global } := ⟨_, rfl⟩
  have hucell : u.global.cells[j]? = some (.val ⟨0, debugMessage, none⟩) := by
    rw [hu]
    exact hreserved.cell
  have huheld : ∀ d place, u.heldBy d place = s.heldBy d place := by
    intro d place
    rw [hu]
    rfl
  rw [← hu] at hnew
  split at hnew
  case h_1 => cases hnew
  case h_2 err v hcreate =>
    obtain ⟨waitableIdx, localIdx, i, k, hres, -⟩ :=
      createLocalHandle_spec hreserved.slot hucell hcreate
    cases hres
  case h_3 waitableIdx localIdx v hcreate =>
  obtain ⟨waitableIdx, localIdx, i, k, hres, hcreated⟩ :=
    createLocalHandle_spec hreserved.slot hucell hcreate
  cases hres
  cases hnew
  -- the entry with its count and its home
  have hcount := modify_spec hreserved.slot hucell (.addRef 1)
  rw [← hcreated.global] at hcount
  have hhome := modify_spec hreserved.slot hcount.cell
    fun g => { g with home := some ⟨c, waitableIdx, localIdx⟩ }
  have hother : ∀ m, m ≠ j → (v.global.modify globalRep fun g => { g with
      home := some ⟨c, waitableIdx, localIdx⟩ }).cells[m]? = s.global.cells[m]? := by
    intro m hm
    rw [hhome.other m hm, hcount.other m hm, hu]
    exact hreserved.other m hm
  have hsame : ∀ d (m : Nat) e, (u.handles d).cells[m]? = some (.val (.errCtx e)) →
      (s.handles d).cells[m]? = some (.val (.errCtx e)) := by
    intro d m e hcell
    rw [hu] at hcell
    exact hcell
  have hsum : ∀ place, ∑ d, v.heldBy d place =
      ∑ d, s.heldBy d place + if slot globalRep = place then 1 else 0 := by
    intro place
    rw [hcreated.sum_heldBy place]
    simp only [huheld]
  constructor
  case one =>
    intro d m e hcell
    rcases hcreated.cases hcell with ⟨-, -, rfl⟩ | hcell
    · rfl
    · exact hinv.one d m e (hsame d m e hcell)
  case listed =>
    intro d m e hcell
    rcases hcreated.cases hcell with ⟨rfl, rfl, rfl⟩ | hcell
    · obtain ⟨t', ht', hlisted, -, -⟩ := hcreated.localTable
      exact ⟨t', k, waitableIdx, ht', hcreated.index, hlisted, hcreated.waitable⟩
    · have hlisted := hinv.listed d m e (hsame d m e hcell)
      have hlisted' : Listed u d m e := by
        rw [hu]
        exact hlisted
      exact hcreated.listed (by rw [hu]; exact htable) hlisted'
  case global =>
    intro d m e hcell
    rcases hcreated.cases hcell with ⟨rfl, rfl, rfl⟩ | hcell
    · exact ⟨j, _, hreserved.slot, hhome.cell⟩
    · obtain ⟨j', g, hslot, hg⟩ := hinv.global d m e (hsame d m e hcell)
      have hj : j' ≠ j := by
        rintro rfl
        exact hreserved.fresh g hg
      exact ⟨j', g, hslot, (hother j' hj).trans hg⟩
  case counted =>
    intro m g hg
    show g.refCount = ∑ d, v.heldBy d (m + 1) ∧ _
    rw [hsum]
    by_cases hm : m = j
    · subst hm
      rw [hhome.cell] at hg
      cases hg
      rw [hinv.sum_heldBy_eq_zero hreserved.fresh, if_pos hreserved.slot]
      exact ⟨rfl, one_pos⟩
    · have hne : ¬slot globalRep = m + 1 := by
        rw [hreserved.slot]
        omega
      rw [if_neg hne, add_zero]
      exact hinv.counted m g ((hother m hm).symm.trans hg)
  case unheld =>
    intro place
    rw [hcreated.hostHeld, hu]
    exact hinv.unheld place

/-! ## Dropped handles -/

/-- What the drop of the handle at the place `i`, listed at the place `k`, takes
away; the error context is at the place `j`. -/
structure Dropped (s s' : State n) (c : Fin n) (i k j : Nat) (e : ErrCtx) (g : GlobalErrCtx n) :
    Prop where
  handles : ∀ w, (s'.handles c).cells[i]? ≠ some (.val w)
  handlesOther : ∀ m, m ≠ i → (s'.handles c).cells[m]? = (s.handles c).cells[m]?
  total : ∀ f, (s'.handles c).total f = (s.handles c).total f - f (.errCtx e)
  others : ∀ d, d ≠ c → s'.handles d = s.handles d
  localTable : ∃ t t', s.localTables c = some t ∧ s'.localTables c = some t' ∧
    ∀ m, m ≠ k → t'.cells[m]? = t.cells[m]?
  localTables : ∀ d, d ≠ c → s'.localTables d = s.localTables d
  last : g.refCount = 1 → ∀ w, s'.global.cells[j]? ≠ some (.val w)
  counts : g.refCount ≠ 1 → s'.global.cells[j]? = some (.val (g.addRef (-1)))
  globalOther : ∀ m, m ≠ j → s'.global.cells[m]? = s.global.cells[m]?
  hostHeld : s'.hostHeld = s.hostHeld

variable {handle : Int}

/-- A live handle is dropped. -/
theorem Inv.drop_eq (hinv : Inv s)
    (hlookup : (s.handles c).lookup handle = some (.errCtx e)) :
    ∃ (i k j : Nat) (g : GlobalErrCtx n) (s' : State n), (s.handles c).cells[i]? = some (.val (.errCtx e)) ∧ slot e.localIdx = k + 1 ∧
      slot e.globalRep = j + 1 ∧ s.global.cells[j]? = some (.val g) ∧
      s.drop c handle = (.ok (), s') ∧ Dropped s s' c i k j e g := by
  obtain ⟨i, hslot, hcell⟩ := lookup_cells hlookup
  obtain ⟨t, k, listed, ht, hindex, hlisted, hback⟩ := hinv.listed c i e hcell
  obtain ⟨j, g, hrep, hg⟩ := hinv.global c i e hcell
  have hone := hinv.one c i e hcell
  -- both tables give up the handle
  obtain ⟨t', hremove, hremoved⟩ := remove_spec hindex hlisted
  obtain ⟨handles, hremove', hremoved'⟩ := remove_spec hslot hcell
  obtain ⟨u, hu⟩ : ∃ u : State n, u = { s with
      localTables := update s.localTables c (some t')
      handles := update s.handles c handles } := ⟨_, rfl⟩
  have hrelease : s.release c handle t (e.addRef (-1)) = (.ok (), u) := by
    have hle : (e.addRef (-1)).refCount ≤ 0 := by
      show e.refCount + -1 ≤ 0
      omega
    have hsame : (e.addRef (-1)).localIdx = e.localIdx := rfl
    unfold release
    rw [if_pos hle, hsame, hremove, hremove', hu]
  have hframe : u.global = s.global ∧ u.hostHeld = s.hostHeld := by
    rw [hu]
    exact ⟨rfl, rfl⟩
  obtain ⟨huglobal, huheld⟩ := hframe
  have hug : u.global.cells[j]? = some (.val g) := by
    rw [huglobal]
    exact hg
  have hmodified := modify_spec hrep hug (.addRef (-1))
  -- the global table gives up its entry when this was the last handle
  obtain ⟨global, hglobal, hlast, hcounts, hother⟩ : ∃ global : RepTable (GlobalErrCtx n),
      s.drop c handle = (.ok (), { u with global }) ∧
      (g.refCount = 1 → ∀ w, global.cells[j]? ≠ some (.val w)) ∧
      (g.refCount ≠ 1 → global.cells[j]? = some (.val (g.addRef (-1)))) ∧
      ∀ m, m ≠ j → global.cells[m]? = s.global.cells[m]? := by
    have hget : (s.handles c).get handle = .ok (some (.val (.errCtx e))) := by
      unfold RepTable.get
      rw [if_neg (ne_zero_of_slot hslot), lookup_eq_some.1 hlookup]
    have hget' : t.get e.localIdx = .ok (some (.val listed)) := by
      unfold RepTable.get
      rw [if_neg (ne_zero_of_slot hindex),
        lookup_eq_some.1 (lookup_of_cells hindex hlisted)]
    have htable : s.getLocalTable c = .ok t := by
      unfold getLocalTable
      rw [ht]
    have hlive : ¬(Option.elim (some (Cell.val listed)) 0 number) = 0 := ne_zero_of_slot hback
    have hrep' : slot (e.addRef (-1)).globalRep = j + 1 := hrep
    unfold drop
    rw [hget]
    dsimp only [errCtx?]
    rw [htable]
    dsimp only
    rw [hget']
    dsimp only
    rw [if_neg hlive, hrelease]
    dsimp only
    rw [globalRefCountAdd_eq hrep' hug]
    dsimp only
    have hcount : (e.addRef (-1)).refCount = 0 := by
      show e.refCount + -1 = 0
      omega
    by_cases hg1 : g.refCount = 1
    · obtain ⟨global, hfreed, hfree⟩ := remove_spec hrep' hmodified.cell
      refine ⟨global, ?_, fun _ => hfree.cell, fun hne => absurd hg1 hne, ?_⟩
      · rw [if_neg (by omega), if_neg (not_not.2 hcount)]
        have hfreed' : (u.global.modify (e.addRef (-1)).globalRep (.addRef (-1))).remove
            (e.addRef (-1)).globalRep = some global := hfreed
        rw [hfreed']
      · intro m hm
        rw [hfree.other m hm, hmodified.other m hm, huglobal]
    · refine ⟨u.global.modify e.globalRep (.addRef (-1)), ?_, fun h => absurd h hg1,
        fun _ => hmodified.cell, ?_⟩
      · rw [if_pos (by omega)]
        rfl
      · intro m hm
        rw [hmodified.other m hm, huglobal]
  refine ⟨i, k, j, g, _, hcell, hindex, hrep, hg, hglobal, ?_⟩
  constructor
  case handles =>
    intro w
    rw [hu]
    dsimp only
    rw [update_self]
    exact hremoved'.cell w
  case handlesOther =>
    intro m hm
    rw [hu]
    dsimp only
    rw [update_self]
    exact hremoved'.other m hm
  case total =>
    intro f
    rw [hu]
    dsimp only
    rw [update_self]
    exact hremoved'.total f
  case others =>
    intro d hd
    rw [hu]
    exact update_of_ne hd _ _
  case localTable =>
    refine ⟨t, t', ht, ?_, hremoved.other⟩
    rw [hu]
    exact update_self _ _ _
  case localTables =>
    intro d hd
    rw [hu]
    exact update_of_ne hd _ _
  case last => exact hlast
  case counts => exact hcounts
  case globalOther => exact hother
  case hostHeld => exact huheld

/-- The other handles stay. -/
theorem Dropped.cell {c d : Fin n} {i k j m : Nat} {e w : ErrCtx}
    (h : Dropped s s' c i k j e g) (hcell : (s'.handles d).cells[m]? = some (.val (.errCtx w))) :
    (s.handles d).cells[m]? = some (.val (.errCtx w)) ∧ ¬(d = c ∧ m = i) := by
  by_cases hd : d = c
  · subst hd
    have hm : m ≠ i := by
      rintro rfl
      exact h.handles _ hcell
    rw [h.handlesOther m hm] at hcell
    exact ⟨hcell, fun hcond => hm hcond.2⟩
  · rw [h.others d hd] at hcell
    exact ⟨hcell, fun hcond => hd hcond.1⟩

theorem Dropped.sum_heldBy {i k j : Nat}
    (h : Dropped s s' c i k j e g) (place : Int) :
    ∑ d, s'.heldBy d place = ∑ d, s.heldBy d place - if slot e.globalRep = place then 1 else 0 := by
  rw [sum_eq_of_ne (f := fun d => s.heldBy d place) c]
  · have hc : s'.heldBy c place = s.heldBy c place - if slot e.globalRep = place then 1 else 0 := by
      unfold heldBy
      rw [h.total]
      simp [isFor]
    rw [hc]
    omega
  · intro d hd
    unfold heldBy
    rw [h.others d hd]

/-- A handle for a place is one of those that are summed up. -/
theorem sum_heldBy_pos {i : Nat}
    (hcell : (s.handles c).cells[i]? = some (.val (.errCtx e))) :
    0 < ∑ d, s.heldBy d (slot e.globalRep) := by
  refine Finset.sum_pos' (fun d _ => heldBy_nonneg s d _) ⟨c, Finset.mem_univ c, ?_⟩
  -- without the handle, the weight of the table is not negative
  have hmodified := (modify_spec (slot_cells _ hcell) hcell fun _ => .other).total
    fun h => if h.isFor (slot e.globalRep) then 1 else 0
  have hrest : 0 ≤ ((s.handles c).modify (i + 1) fun _ => other).total
      fun h => if h.isFor (slot e.globalRep) then 1 else 0 := by
    refine total_nonneg fun h => ?_
    split
    · exact Int.one_nonneg
    · exact le_refl 0
  unfold heldBy
  simp [isFor] at hmodified hrest ⊢
  omega

theorem errCtx?_eq_none {t : RepTable Handle}
    (h : ∀ e, t.lookup handle ≠ some (.errCtx e)) : errCtx? (t.cell handle) = none := by
  unfold errCtx?
  split
  case h_1 e hcell => exact absurd (lookup_eq_some.2 hcell) (h e)
  case h_2 => rfl

/-- The drop of anything else fails, and changes nothing. -/
theorem drop_of_ne
    (h : ∀ e, (s.handles c).lookup handle ≠ some (.errCtx e)) :
    s.drop c handle = ((s.drop c handle).1, s) := by
  have hnone := errCtx?_eq_none h
  unfold drop RepTable.get
  by_cases hzero : handle = 0
  · rw [if_pos hzero]
  · rw [if_neg hzero]
    dsimp only
    rw [hnone]

theorem Inv.drop {res : Except JsError Unit} (hinv : Inv s)
    (hdrop : s.drop c handle = (res, s')) : Inv s' := by
  by_cases hlive : ∃ e, (s.handles c).lookup handle = some (.errCtx e)
  swap
  · rw [drop_of_ne fun e he => hlive ⟨e, he⟩] at hdrop
    cases hdrop
    exact hinv
  obtain ⟨e, hlookup⟩ := hlive
  obtain ⟨i, k, j, g, s'', hcell, hindex, hrep, hg, heq, hdropped⟩ := hinv.drop_eq hlookup
  cases hdrop.symm.trans heq
  have hcounted := hinv.counted j g hg
  have hsum := hdropped.sum_heldBy
  constructor
  case one => exact fun d m w hw => hinv.one d m w (hdropped.cell hw).1
  case listed =>
    intro d m w hw
    obtain ⟨hw', hne⟩ := hdropped.cell hw
    obtain ⟨t₀, k₀, handle₀, ht₀, hindex₀, hlisted₀, hslot₀⟩ := hinv.listed d m w hw'
    by_cases hd : d = c
    · subst hd
      obtain ⟨t, t', ht, ht', hother⟩ := hdropped.localTable
      cases ht.symm.trans ht₀
      -- two handles are not listed at one place
      obtain ⟨t₁, k₁, handle₁, ht₁, hindex₁, hlisted₁, hslot₁⟩ := hinv.listed d i e hcell
      cases ht.symm.trans ht₁
      have hk : k₀ ≠ k := by
        rintro rfl
        obtain rfl : k₁ = k₀ := by omega
        rw [hlisted₁] at hlisted₀
        cases hlisted₀
        exact hne ⟨rfl, by omega⟩
      exact ⟨t', k₀, handle₀, ht', hindex₀, (hother k₀ hk).trans hlisted₀, hslot₀⟩
    · exact ⟨t₀, k₀, handle₀, (hdropped.localTables d hd).trans ht₀, hindex₀, hlisted₀, hslot₀⟩
  case global =>
    intro d m w hw
    obtain ⟨hw', -⟩ := hdropped.cell hw
    obtain ⟨j', g', hrep', hg'⟩ := hinv.global d m w hw'
    by_cases hj : j' = j
    · subst hj
      -- this other handle is counted as well
      have hpos := sum_heldBy_pos hw
      rw [hsum, hrep', if_pos hrep, ← hcounted.1] at hpos
      exact ⟨j', _, hrep', hdropped.counts (by omega)⟩
    · exact ⟨j', g', hrep', (hdropped.globalOther j' hj).trans hg'⟩
  case counted =>
    intro m w hw
    rw [hsum]
    by_cases hm : m = j
    · subst hm
      by_cases hg1 : g.refCount = 1
      · exact absurd hw (hdropped.last hg1 w)
      · rw [hdropped.counts hg1] at hw
        cases hw
        rw [if_pos hrep, ← hcounted.1]
        show g.refCount + -1 = _ ∧ 0 < g.refCount + -1
        omega
    · have hne : ¬slot e.globalRep = m + 1 := by
        rw [hrep]
        omega
      rw [if_neg hne, sub_zero]
      exact hinv.counted m w ((hdropped.globalOther m hm).symm.trans hw)
  case unheld =>
    intro place
    rw [hdropped.hostHeld]
    exact hinv.unheld place

/-! ## Steps -/

/-- The waitables change, but no error context among them. -/
theorem Inv.withHandles (hinv : Inv s) {handles : RepTable Handle}
    (hsame : ∀ (m : Nat) e, handles.cells[m]? = some (.val (.errCtx e)) ↔
      (s.handles c).cells[m]? = some (.val (.errCtx e)))
    (hheld : ∀ place, handles.total (fun h => if h.isFor place then 1 else 0) =
      s.heldBy c place) :
    Inv { s with handles := update s.handles c handles } := by
  have hcells : ∀ d (m : Nat) e,
      (update s.handles c handles d).cells[m]? = some (.val (.errCtx e)) →
        (s.handles d).cells[m]? = some (.val (.errCtx e)) := by
    intro d m e hcell
    by_cases hd : d = c
    · subst hd
      rw [update_self] at hcell
      exact (hsame m e).1 hcell
    · rw [update_of_ne hd] at hcell
      exact hcell
  constructor
  case one => exact fun d m e hcell => hinv.one d m e (hcells d m e hcell)
  case listed => exact fun d m e hcell => hinv.listed d m e (hcells d m e hcell)
  case global => exact fun d m e hcell => hinv.global d m e (hcells d m e hcell)
  case counted =>
    intro j g hg
    have hsum : ∀ d, heldBy { s with handles := update s.handles c handles } d
        (j + 1) = s.heldBy d (j + 1) := by
      intro d
      unfold heldBy
      dsimp only
      by_cases hd : d = c
      · subst hd
        rw [update_self]
        exact hheld (j + 1)
      · rw [update_of_ne hd]
    rw [Finset.sum_congr rfl fun d _ => hsum d]
    exact hinv.counted j g hg
  case unheld => exact hinv.unheld

theorem Inv.insertOther (hinv : Inv s)
    (hinsert : s.insertOther c = some (res, s')) : Inv s' := by
  unfold State.insertOther at hinsert
  split at hinsert
  case h_1 => cases hinsert
  case h_2 waitableIdx handles hinserts =>
  cases hinsert
  obtain ⟨i, hinserted⟩ := insert_spec hinserts
  refine hinv.withHandles ?_ fun place => ?_
  · intro m e
    by_cases hm : m = i
    · subst hm
      rw [hinserted.cell]
      refine ⟨fun h => ?_, fun h => absurd h (hinserted.fresh _)⟩
      cases h
    · rw [hinserted.other m hm]
  · rw [hinserted.total]
    exact add_zero _

theorem Inv.removeOther {res : Except JsError Unit} (hinv : Inv s)
    (hremove : s.removeOther c handle = (res, s')) : Inv s' := by
  unfold State.removeOther at hremove
  split at hremove
  case h_2 =>
    cases hremove
    exact hinv
  case h_1 handles hlookup hremoves =>
  cases hremove
  obtain ⟨i, hslot, hcell⟩ := lookup_cells hlookup
  obtain ⟨handles', hremoves', hremoved⟩ := remove_spec hslot hcell
  cases hremoves.symm.trans hremoves'
  refine hinv.withHandles ?_ fun place => ?_
  · intro m e
    by_cases hm : m = i
    · subst hm
      rw [hcell]
      refine ⟨fun h => absurd h (hremoved.cell _), fun h => ?_⟩
      cases h
    · rw [hremoved.other m hm]
  · rw [hremoved.total]
    exact sub_zero _

/-- A component may get a table. -/
theorem Inv.upsertLocalTable (hinv : Inv s) (c : Fin n) : Inv (s.upsertLocalTable c).2 := by
  unfold State.upsertLocalTable
  split
  case h_1 => exact hinv
  case h_2 hnone =>
  refine ⟨hinv.one, ?_, hinv.global, hinv.counted, hinv.unheld⟩
  intro d m e hcell
  obtain ⟨t, k, handle, ht, hlisted⟩ := hinv.listed d m e hcell
  have hd : d ≠ c := by
    rintro rfl
    rw [hnone] at ht
    cases ht
  exact ⟨t, k, handle, (update_of_ne hd _ _).trans ht, hlisted⟩

theorem upsertLocalTable_handles (s : State n) (c : Fin n) :
    (s.upsertLocalTable c).2.handles = s.handles := by
  unfold upsertLocalTable
  split <;> rfl

/-- A transfer of anything else fails. -/
theorem Inv.transfer_of_ne {waitableIdx : Int} {src dest : Fin n}
    (hinv : Inv s) (hne : ∀ e, (s.handles src).lookup waitableIdx ≠ some (.errCtx e))
    (htransfer : s.transfer waitableIdx src dest = some (res, s')) : Inv s' := by
  have hnone := errCtx?_eq_none hne
  have hupserted := hinv.upsertLocalTable dest
  unfold transfer RepTable.get at htransfer
  split at htransfer
  case h_1 =>
    cases htransfer
    exact hinv
  case h_2 =>
  dsimp only at htransfer
  rw [upsertLocalTable_handles] at htransfer
  split at htransfer
  case h_1 =>
    cases htransfer
    exact hupserted
  case h_2 cell hget =>
  split at htransfer
  case isTrue =>
    cases htransfer
    exact hupserted
  case isFalse =>
  split at hget
  case isTrue => cases hget
  case isFalse =>
  cases hget
  rw [hnone] at htransfer
  cases htransfer
  exact hupserted

/-- A lift that finds no error context fails, and changes nothing. -/
theorem lift_of_safe {errCtxTableIdx : Nat} {useDirectParams : Bool}
    {params : List Int} {answer : Answer}
    (hsafe : Safe (.lift errCtxTableIdx c useDirectParams params, answer) s) :
    ∃ err, s.liftFlatErrorContext errCtxTableIdx c useDirectParams params = (.error err, s) := by
  unfold liftFlatErrorContext
  by_cases hdirect : useDirectParams = true
  swap
  · rw [if_pos hdirect]
    exact ⟨_, rfl⟩
  rw [if_neg (not_not.2 hdirect)]
  cases params with
  | nil => exact ⟨_, rfl⟩
  | cons val rest =>
  unfold getLocalTable RepTable.get
  cases htable : s.localTables c with
  | none => exact ⟨_, rfl⟩
  | some table =>
  dsimp only
  by_cases hval : val = 0
  · rw [if_pos hval]
    exact ⟨_, rfl⟩
  rw [if_neg hval]
  cases hcell : table.cell val with
  | none => exact ⟨_, rfl⟩
  | some cell =>
  dsimp only
  by_cases hnumber : number cell = 0
  · rw [if_pos hnumber]
    exact ⟨_, rfl⟩
  rw [if_neg hnumber]
  dsimp only
  rw [errCtx?_eq_none (hsafe hdirect val rest rfl hval table cell htable hcell hnumber)]
  exact ⟨_, rfl⟩

theorem errCtxNext_inv {l : Call n × Answer} (hstep : errCtxNext l s s') (hsafe : Safe l s)
    (hinv : Inv s) : Inv s' := by
  obtain ⟨call, answer⟩ := l
  unfold errCtxNext State.call at hstep
  -- what the host holds is not changed by a call that is no lift or lower
  have hanswered : ∀ {β : Type} (f : β → Answer) (res : Except JsError β) (u : State n), Inv u →
      answered f (fun _ held => held) (res, u) = (answer, s') → Inv s' := by
    intro β f res u hu heq
    unfold answered at heq
    cases res with
    | ok x =>
      cases heq
      exact hu
    | error err =>
      cases heq
      exact hu
  cases call with
  | new c debugMessage =>
    obtain ⟨⟨res, u⟩, hnew, heq⟩ := Option.map_eq_some_iff.1 hstep
    exact hanswered _ res u (hinv.new hnew) heq
  | drop c handle => exact hanswered _ _ _ (hinv.drop rfl) (Option.some.inj hstep)
  | transfer waitableIdx src dest =>
    obtain ⟨⟨res, u⟩, htransfer, heq⟩ := Option.map_eq_some_iff.1 hstep
    exact hanswered _ res u (hinv.transfer_of_ne hsafe htransfer) heq
  | lift errCtxTableIdx c useDirectParams params =>
    obtain ⟨err, hlift⟩ := lift_of_safe hsafe
    dsimp only at hstep
    rw [hlift] at hstep
    cases hstep
    exact hinv
  | lower c rep stored =>
    dsimp only at hstep
    rw [if_pos (hinv.unheld (slot rep))] at hstep
    cases hstep
  | insertOther c =>
    obtain ⟨⟨res, u⟩, hinsert, heq⟩ := Option.map_eq_some_iff.1 hstep
    exact hanswered _ res u (hinv.insertOther hinsert) heq
  | removeOther c handle => exact hanswered _ _ _ (hinv.removeOther rfl) (Option.some.inj hstep)

theorem Inv.init (ensured : Fin n → Bool) : Inv (.init ensured) := by
  constructor
  case one =>
    intro c i e hcell
    cases hcell
  case listed =>
    intro c i e hcell
    cases hcell
  case global =>
    intro c i e hcell
    cases hcell
  case counted =>
    intro j g hg
    cases hg
  case unheld => exact fun _ => rfl

theorem Inv.counts (hinv : Inv s) : Counts s := by
  have hlive : ∀ place, s.liveHandles place = ∑ c, s.heldBy c place := by
    intro place
    unfold liveHandles
    rw [hinv.unheld]
    exact add_zero _
  constructor
  case global =>
    intro i g hg
    rw [hlive]
    exact (hinv.counted i g hg).1
  case component =>
    intro c place
    refine total_congr fun i h hcell => ?_
    cases h with
    | other => rfl
    | errCtx e =>
      have hone := hinv.one c i e hcell
      simp [countFor, isFor, hone]
  case kept =>
    intro place
    rw [hlive]
    constructor
    · intro hpos
      by_contra hnone
      -- a handle for the place is one to an entry
      have hzero : ∑ c, s.heldBy c place = 0 := by
        refine Finset.sum_eq_zero fun c _ => ?_
        by_contra hne
        obtain ⟨i, h, hcell, hfor⟩ := exists_of_total_pos
          (lt_of_le_of_ne (heldBy_nonneg s c place) (Ne.symm hne))
        cases h with
        | other =>
          rw [if_neg (show ¬isFor _ .other = true from Bool.false_ne_true)] at hfor
          exact absurd hfor (lt_irrefl 0)
        | errCtx e =>
          obtain ⟨j, g, hslot, hg⟩ := hinv.global c i e hcell
          have hplace : slot e.globalRep = place := by
            by_contra hplace
            simp [isFor, hplace] at hfor
          exact hnone ⟨j, g, hplace ▸ hslot, hg⟩
      omega
    · rintro ⟨i, g, rfl, hg⟩
      obtain ⟨hcount, hpos⟩ := hinv.counted i g hg
      omega
  case drops =>
    intro c handle e hlookup
    obtain ⟨i, k, j, g, s', -, -, -, -, hdrop, -⟩ := hinv.drop_eq hlookup
    exact ⟨s', hdrop⟩

/-! ## What a transfer or a lift does -/

/-- A handle that stays has lost one of its count. -/
theorem not_counts_of_modified {u : State n} {i : Nat} {x : Int}
    (hcounts : Counts s)
    (hmodified : RepTable.Modified (s.handles c) (u.handles c) (.errCtx e)
      (.errCtx (e.addRef (-1))) i)
    (hlocal : s'.localCount c (slot e.globalRep) = u.localCount c (slot e.globalRep) + x)
    (hheld : s'.heldBy c (slot e.globalRep) = u.heldBy c (slot e.globalRep) + x) : ¬Counts s' := by
  intro hcounts'
  have hbefore := hcounts.component c (slot e.globalRep)
  have hafter := hcounts'.component c (slot e.globalRep)
  have hu : u.localCount c (slot e.globalRep) = s.localCount c (slot e.globalRep) - 1 := by
    unfold localCount
    rw [hmodified.total]
    simp [countFor, ErrCtx.addRef]
    omega
  have hu' : u.heldBy c (slot e.globalRep) = s.heldBy c (slot e.globalRep) := by
    unfold heldBy
    rw [hmodified.total]
    simp [isFor, ErrCtx.addRef]
  omega

theorem Inv.not_counts_of_transfer {waitableIdx : Int} {src dest : Fin n}
    (hinv : Inv s)
    (hlookup : (s.handles src).lookup waitableIdx = some (.errCtx e))
    (htransfer : s.transfer waitableIdx src dest = some (res, s')) : ¬Counts s' := by
  obtain ⟨i, hslot, hcell⟩ := lookup_cells hlookup
  obtain ⟨t, k, listed, ht, hindex, -⟩ := hinv.listed src i e hcell
  obtain ⟨j, g, hrep, hg⟩ := hinv.global src i e hcell
  have hlocal : s.getLocalTable src = .ok t := by
    unfold getLocalTable
    rw [ht]
  obtain ⟨toTbl, u, hu⟩ : ∃ toTbl u, s.upsertLocalTable dest = (toTbl, u) := ⟨_, _, rfl⟩
  have huhandles : u.handles = s.handles := by
    rw [← upsertLocalTable_handles s dest, hu]
  have huglobal : u.global = s.global := by
    have hsame : (s.upsertLocalTable dest).2.global = s.global := by
      unfold State.upsertLocalTable
      split <;> rfl
    rw [← hsame, hu]
  have hget : (u.handles src).get waitableIdx = .ok (some (.val (.errCtx e))) := by
    unfold RepTable.get
    rw [huhandles, if_neg (ne_zero_of_slot hslot), lookup_eq_some.1 hlookup]
  have hmodified := modify_spec hslot hcell (.map (.addRef (-1)))
  obtain ⟨v, hv⟩ : ∃ v, v = u.modifyHandle src waitableIdx (.addRef (-1)) := ⟨_, rfl⟩
  have hvhandles : v.handles src = (s.handles src).modify waitableIdx (.map (.addRef (-1))) := by
    rw [hv, ← huhandles]
    exact update_self _ _ _
  have hvglobal : v.global.cells[j]? = some (.val g) := by
    rw [hv]
    show u.global.cells[j]? = _
    rw [huglobal]
    exact hg
  unfold transfer at htransfer
  rw [hlocal, hu] at htransfer
  dsimp only at htransfer
  rw [hget] at htransfer
  dsimp only at htransfer
  rw [if_neg (by simp [truthy])] at htransfer
  dsimp only [errCtx?] at htransfer
  rw [if_neg (ne_zero_of_slot hindex), if_neg (ne_zero_of_slot hrep), ← hv] at htransfer
  -- the new handle counts as much as it is held
  have hcreated : ∃ waitableIdx' localIdx i' k',
      Created v s' dest toTbl e.globalRep waitableIdx' localIdx i' k' := by
    split at htransfer
    case h_1 => cases htransfer
    case h_2 err w hcreate =>
      obtain ⟨waitableIdx', localIdx, i', k', hres, -⟩ :=
        createLocalHandle_spec hrep hvglobal hcreate
      cases hres
    case h_3 waitableIdx' localIdx w hcreate =>
      obtain ⟨waitableIdx', localIdx, i', k', hres, hcreated⟩ :=
        createLocalHandle_spec hrep hvglobal hcreate
      cases hres
      cases htransfer
      exact ⟨_, _, _, _, hcreated⟩
  obtain ⟨waitableIdx', localIdx, i', k', hcreated⟩ := hcreated
  intro hcounts
  refine not_counts_of_modified (c := src) (x := if src = dest then 1 else 0) hinv.counts
    (hvhandles ▸ hmodified) ?_ ?_ hcounts
  · unfold localCount
    by_cases hd : src = dest
    · subst hd
      rw [hcreated.total, if_pos rfl]
      simp [countFor]
    · rw [hcreated.others src hd, if_neg hd, add_zero]
  · rw [hcreated.heldBy]
    simp

theorem Inv.not_counts_of_lift (errCtxTableIdx : Nat) (rest : List Int) {val : Int}
    {table : RepTable Int} {cell : Cell Int} (hinv : Inv s) (hval : val ≠ 0)
    (htable : s.localTables c = some table) (hcell : table.cell val = some cell)
    (hnumber : number cell ≠ 0)
    (hlookup : (s.handles c).lookup (number cell) = some (.errCtx e)) :
    ∃ s', s.liftFlatErrorContext errCtxTableIdx c true (val :: rest) = (.ok e.globalRep, s') ∧
      ∀ hostHeld, ¬Counts { s' with hostHeld } := by
  obtain ⟨i, hslot, hi⟩ := lookup_cells hlookup
  obtain ⟨j, g, hrep, hg⟩ := hinv.global c i e hi
  have hmodified := modify_spec hslot hi (.map (.addRef (-1)))
  obtain ⟨u, hu⟩ : ∃ u, u = s.modifyHandle c (number cell) (.addRef (-1)) := ⟨_, rfl⟩
  have huhandles : u.handles c = (s.handles c).modify (number cell) (.map (.addRef (-1))) := by
    rw [hu]
    exact update_self _ _ _
  have huglobal : u.global.cells[j]? = some (.val g) := by
    rw [hu]
    exact hg
  refine ⟨{ u with global := u.global.modify e.globalRep (.addRef 1) }, ?_, fun hostHeld => ?_⟩
  · unfold liftFlatErrorContext getLocalTable RepTable.get
    rw [htable]
    dsimp only
    rw [if_neg (not_not.2 rfl), if_neg hval, hcell]
    dsimp only
    rw [if_neg hnumber, lookup_eq_some.1 hlookup]
    dsimp only [errCtx?]
    rw [← hu, globalRefCountAdd_eq hrep huglobal]
  · have hchanged : RepTable.Modified (s.handles c) (u.handles c) (.errCtx e)
        (.errCtx (e.addRef (-1))) i := by
      rw [huhandles]
      exact hmodified
    exact not_counts_of_modified (x := 0) hinv.counts hchanged (add_zero _).symm
      (add_zero _).symm

/-! ## Runs -/

/-- As long as no error context is transferred or lifted, the reference counts
are those of the live handles; and the first transfer or lift is their end. -/
theorem errCtx_counts {ensured : Fin n → Bool} {ls : List (Call n × Answer)}
    (hrun : Run (guarded Safe errCtxNext) (.init ensured) ls s) :
    Counts s ∧ ∀ l s', errCtxNext l s s' → (Counts s' ↔ Safe l s) := by
  have hstep : ∀ (l : Call n × Answer) (t t' : State n), guarded Safe errCtxNext l t t' →
      Inv t → Inv t' :=
    fun l t t' h hi => errCtxNext_inv h.2 h.1 hi
  have hinv : Inv s := Run.invariant hstep hrun (Inv.init ensured)
  refine ⟨hinv.counts, fun l s' hstep => ⟨fun hcounts => ?_, fun hsafe => ?_⟩⟩
  swap
  · exact (errCtxNext_inv hstep hsafe hinv).counts
  obtain ⟨call, answer⟩ := l
  unfold errCtxNext State.call at hstep
  cases call with
  | new c debugMessage => trivial
  | drop c handle => trivial
  | lower c rep stored => trivial
  | insertOther c => trivial
  | removeOther c handle => trivial
  | transfer waitableIdx src dest =>
    intro e hlookup
    obtain ⟨⟨res, u⟩, htransfer, heq⟩ := Option.map_eq_some_iff.1 hstep
    have hu : s' = u := by
      unfold answered at heq
      cases res with
      | ok x => exact (Prod.mk.inj heq).2.symm
      | error err => exact (Prod.mk.inj heq).2.symm
    exact hinv.not_counts_of_transfer hlookup (hu ▸ htransfer) hcounts
  | lift errCtxTableIdx c useDirectParams params =>
    intro hdirect val rest hparams hval table cell htable hcell hnumber e hlookup
    subst hdirect hparams
    obtain ⟨u, hlift, hno⟩ := hinv.not_counts_of_lift errCtxTableIdx rest hval htable hcell hnumber
      hlookup
    dsimp only at hstep
    rw [hlift] at hstep
    cases hstep
    exact hno _ hcounts

/-- Two error contexts in one component, of which the first is dropped. -/
def newNewDrop : List (Call 2 × Answer) :=
  [(.new ⟨0, Nat.two_pos⟩ "first", .idx 1), (.new ⟨0, Nat.two_pos⟩ "second", .idx 2),
    (.drop ⟨0, Nat.two_pos⟩ 1, .done)]

theorem newNewDrop_run : ∃ s : State 2,
    Run (guarded Safe errCtxNext) (.init fun _ => true) newNewDrop s :=
  ⟨_, .cons ⟨trivial, rfl⟩ <| .cons ⟨trivial, rfl⟩ <| .cons ⟨trivial, rfl⟩ <| .nil _⟩

theorem errCtx_counts_newNewDrop : ∃ s : State 2,
    Run (guarded Safe errCtxNext) (.init fun _ => true) newNewDrop s ∧ Counts s := by
  obtain ⟨s, hrun⟩ := newNewDrop_run
  exact ⟨s, hrun, (errCtx_counts hrun).1⟩

/-- A component transfers its error context, and the receiver is the first to
drop its handle. -/
def transferDrop : List (Call 2 × Answer) :=
  [(.new ⟨0, Nat.two_pos⟩ "message", .idx 1),
    (.transfer 1 ⟨0, Nat.two_pos⟩ ⟨1, Nat.one_lt_two⟩, .idx 1), (.drop ⟨1, Nat.one_lt_two⟩ 1, .done)]

/-- The first handle is live, and cannot be dropped. -/
theorem transferDrop_run : ∃ (s : State 2) (e : ErrCtx),
    Run errCtxNext (.init fun _ => true) transferDrop s ∧
      (s.handles 0).lookup 1 = some (.errCtx e) ∧
      (s.drop 0 1).1 = .error (.error "local refCount exceeds global during removal") :=
  ⟨_, _, .cons rfl <| .cons rfl <| .cons rfl <| .nil _, rfl, rfl⟩

theorem transferDrop_not_counts : ¬ ∀ (ls : List (Call 2 × Answer)) (s : State 2),
    Run errCtxNext (.init fun _ => true) ls s → Counts s := by
  intro hall
  obtain ⟨s, e, hrun, hlookup, hfails⟩ := transferDrop_run
  obtain ⟨s', hdrop⟩ := (hall _ s hrun).drops 0 1 e hlookup
  rw [hdrop] at hfails
  cases hfails

end Jco.ErrorContext

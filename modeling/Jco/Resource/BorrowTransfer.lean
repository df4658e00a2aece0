import Jco.Resource.Ownership
import Jco.Resource.TableLaw

/-! # Releasing a transferred borrow

A borrow transfer takes the rep of a live handle out of the source table and gives
it to the destination. An own handle stays where it is and a borrow handle is
removed; the two transfer functions differ in the handle that they remove.
-/

namespace Jco.Resource

open Jco.Js Jco.Lib JsArray HandleTables

variable {t t' : ResourceTable} {m m' : HandleMap} {h : Nat} {b : Binding}

/-! ## Cells and bindings -/

theorem live_small (hR : Refines t m) (hh : m h = some b) : 0 < h ∧ Small (h : Int) := by
  rcases hR with ⟨n, free, hst⟩
  have hlive := hst.live_lt hh
  exact ⟨hlive.1, hst.small_of_lt hlive.2⟩

theorem live_cells (hR : Refines t m) (hh : m h = some b) :
    t.cells.get (2 * h) = some b.scope ∧ t.cells.get (2 * h + 1) = some b.val := by
  rcases hR with ⟨n, free, hst⟩
  exact ⟨hst.scope h b hh, hst.val h b hh⟩

theorem live_valid (hR : Refines t m) (hh : m h = some b) : b.Valid := by
  rcases hR with ⟨n, free, hst⟩
  exact hst.valid h b hh

/-- The first cell of a pair that is not live carries the flag, if it is there. -/
theorem dead_cell (hR : Refines t m) (hs : Small (h : Int)) (hm : m h = none) {v : Int}
    (hv : t.cells.get (2 * h) = some v) : bitAnd v T_FLAG ≠ 0 := by
  have hs' := hs
  unfold Small at hs'
  rcases handle_cases hR (i := h) (by omega) with ⟨b, hb⟩ | ⟨-, hflag | hpast⟩
  · rw [hm] at hb
    cases hb
  · unfold Flagged at hflag
    rw [shl_small hs, hv] at hflag
    exact hflag
  · unfold PastEnd at hpast
    rw [shl_small hs, hv] at hpast
    cases hpast

/-- A table stores one map only. -/
theorem refines_unique (hR : Refines t m) (hR' : Refines t m') : m = m' := by
  have hcell : ∀ {m m' : HandleMap} {i : Nat} {b : Binding}, Refines t m → Refines t m' →
      m i = some b → m' i ≠ none := by
    intro m m' i b hR hR' hb hnone
    have hscope := (live_cells hR hb).1
    exact dead_cell hR' (live_small hR hb).2 hnone hscope
      (bitAnd_flag_small (live_valid hR hb).scope)
  funext i
  rcases hb : m i with _ | b <;> rcases hb' : m' i with _ | b'
  · rfl
  · exact absurd hb (hcell hR' hR hb')
  · exact absurd hb' (hcell hR hR' hb)
  · have hv := live_valid hR hb
    have hv' := live_valid hR' hb'
    have hscope : b.scope = b'.scope :=
      Option.some.inj ((live_cells hR hb).1.symm.trans (live_cells hR' hb').1)
    have hval : b.val = b'.val :=
      Option.some.inj ((live_cells hR hb).2.symm.trans (live_cells hR' hb').2)
    have hrep : b.rep = b'.rep := by rw [← hv.rep_val, hval, hv'.rep_val]
    have hown : b.own = b'.own := by rw [← hv.own_val, hval, hv'.own_val]
    obtain ⟨scope, rep, own⟩ := b
    obtain ⟨scope', rep', own'⟩ := b'
    exact congrArg some (by congr)

/-! ## Taking the rep -/

theorem takeRep_own (hR : Refines t m) (hh : m h = some b) (hown : b.own = true) (removed : Int) :
    takeRep t h removed = .ok (b.rep, t) := by
  have hv := live_valid hR hh
  have hbit : bitAnd b.val T_FLAG ≠ 0 := by
    have := hv.own_val
    rw [hown] at this
    simpa using this
  unfold takeRep
  rw [shl_small (live_small hR hh).2, (live_cells hR hh).2, num_some]
  rw [if_pos hbit, hv.rep_val]

theorem takeRep_borrow (hR : Refines t m) (hh : m h = some b) (hown : b.own = false)
    (removed : Int) :
    takeRep t h removed = (rscTableRemove t removed).map fun r => (r.1.rep, r.2) := by
  have hv := live_valid hR hh
  have hbit : bitAnd b.val T_FLAG = 0 := by
    have := hv.own_val
    rw [hown] at this
    simpa using this
  unfold takeRep
  rw [shl_small (live_small hR hh).2, (live_cells hR hh).2, num_some]
  rw [if_neg (not_not.2 hbit)]
  rcases rscTableRemove t removed with e | ⟨⟨rep, scope, own⟩, t₁⟩ <;> rfl

/-- What is left of the source table: all of it, or all but the borrow `h`. -/
def Left (m : HandleMap) (h : Nat) (b : Binding) (t t' : ResourceTable) : Prop :=
  if b.own then t' = t else Refines t' (m.unbind h)

/-- Passing the handle itself takes the right rep and releases the right handle. -/
theorem takeRep_self (hR : Refines t m) (hh : m h = some b) :
    ∃ t', takeRep t h h = .ok (b.rep, t') ∧ Left m h b t t' := by
  unfold Left
  cases hown : b.own with
  | true => exact ⟨t, takeRep_own hR hh hown h, rfl⟩
  | false =>
    obtain ⟨t', hrem, hR'⟩ := remove_live_refines hR hh
    refine ⟨t', ?_, hR'⟩
    rw [takeRep_borrow hR hh hown, hrem]
    rfl

/-! ## Giving the borrow -/

/-- The destination side never throws. -/
theorem giveBorrow_cases (s : HandleTables) (toTid : Nat) (rep : Int) :
    (rep ∈ (s.ensureTable toTid).createdReps ∧
      giveBorrow s toTid rep = .ok (rep, false, s.setTable toTid (s.ensureTable toTid))) ∨
    rep ∉ (s.ensureTable toTid).createdReps ∧
      giveBorrow s toTid rep = .ok ((allocate (s.ensureTable toTid).cells s.scopeId rep).1, true,
        s.setTable toTid { s.ensureTable toTid with
          cells := (allocate (s.ensureTable toTid).cells s.scopeId rep).2 }) := by
  unfold giveBorrow
  dsimp only
  by_cases hmem : rep ∈ (s.ensureTable toTid).createdReps
  · exact .inl ⟨hmem, by rw [if_pos hmem]⟩
  · exact .inr ⟨hmem, by rw [if_neg hmem]; rfl⟩

theorem giveBorrow_ok (s : HandleTables) (toTid : Nat) (rep : Int) :
    ∃ newHandle isNew s', giveBorrow s toTid rep = .ok (newHandle, isNew, s') ∧
      s'.callBorrows = s.callBorrows := by
  rcases giveBorrow_cases s toTid rep with ⟨-, hgive⟩ | ⟨-, hgive⟩
  · exact ⟨_, _, _, hgive, rfl⟩
  · exact ⟨_, _, _, hgive, rfl⟩

/-- A new pair is the only one that changes. -/
theorem allocate_frame (hR : Refines t m) (hs : (h : Int) + 2 ≤ 2 ^ 30) (h0 : 0 < h)
    (scope val : Int) :
    (allocate t.cells scope val).2.get (2 * h) = t.cells.get (2 * h) ∨
      (allocate t.cells scope val).1 = h := by
  rcases hR with ⟨n, free, hst⟩
  have hlen := hst.length
  cases free with
  | nil =>
    have hhead : t.cells.get 0 = some T_FLAG := hst.links
    have hfree : bitAnd (num (t.cells.get 0)) (bitNot T_FLAG) = 0 := by
      rw [hhead]
      decide
    have halloc : allocate t.cells scope val =
        (shr (t.cells.length + 1 + 1 : Nat) 1 - 1, (t.cells.push scope).push val) := by
      simp only [allocate, hfree, if_true, length_push]
    rw [halloc]
    by_cases hn : h = n
    · right
      rw [shr_one _ (by omega) (by omega)]
      omega
    · left
      rw [get_push, get_push, length_push, if_neg (by push_cast; omega),
        if_neg (by omega)]
  | cons i rest =>
    have hdead : 0 < i ∧ i < n ∧ m i = none := (hst.dead i).1 (by simp)
    have hsmall := hst.small_of_lt hdead.2.1
    have hfree : bitAnd (num (t.cells.get 0)) (bitNot T_FLAG) = i := by
      rw [hst.links.1, num_some, clear_flag_add hsmall]
    have halloc : allocate t.cells scope val = ((i : Int),
        ((t.cells.set 0 (t.cells.get (2 * i))).set (2 * i) (some scope)).set (2 * i + 1)
          (some val)) := by
      simp only [allocate, hfree, if_neg (show (i : Int) ≠ 0 by omega), shl_small hsmall]
    rw [halloc]
    by_cases hi : h = i
    · exact .inr (congrArg _ hi.symm)
    · left
      rw [get_set, get_set, get_set, if_neg (by omega),
        if_neg (by omega), if_neg (by omega)]

/-! ## The transfers -/

/-- The transfer of the live handle `h` leaves of the source what it should, gives
the rep of `h` to the destination, and both functions agree but for the entry that
one of them records. -/
def Releases (s : HandleTables) (fromTid toTid h : Nat) (m : HandleMap) (b : Binding) : Prop :=
  ∃ t t' newHandle isNew s', s.tables fromTid = some t ∧ Left m h b t t' ∧
    giveBorrow (s.setTable fromTid t') toTid b.rep = .ok (newHandle, isNew, s') ∧
    resourceTransferBorrow s h fromTid toTid = .ok (newHandle, { s' with
      callBorrows := if isNew then s.callBorrows ++ [(toTid, newHandle)] else s.callBorrows }) ∧
    resourceTransferBorrowValidLifting s h fromTid toTid = .ok (newHandle, s')

section

variable {s : HandleTables} {fromTid toTid : Nat}

theorem tableOf_eq (ht : s.tables fromTid = some t) : tableOf s fromTid = .ok t := by
  unfold tableOf
  rw [ht]

theorem transferBorrow_eq (ht : s.tables fromTid = some t) (hR : Refines t m) (hh : m h = some b)
    (toTid : Nat) :
    resourceTransferBorrow s h fromTid toTid =
      (takeRep t h b.val).bind fun r =>
        (giveBorrow (s.setTable fromTid r.2) toTid r.1).map fun g =>
          (g.1, { g.2.2 with
            callBorrows := if g.2.1 then g.2.2.callBorrows ++ [(toTid, g.1)]
              else g.2.2.callBorrows }) := by
  have hval : num (t.cells.get (shl h 1 + 1)) = b.val := by
    rw [shl_small (live_small hR hh).2, (live_cells hR hh).2, num_some]
  unfold resourceTransferBorrow
  rw [tableOf_eq ht]
  show (takeRep t h (num (t.cells.get (shl h 1 + 1))) >>= _) = _
  rw [hval]
  rcases takeRep t h b.val with e | ⟨rep, t'⟩
  · rfl
  · show (giveBorrow (s.setTable fromTid t') toTid rep >>= _) =
      (giveBorrow (s.setTable fromTid t') toTid rep).map _
    rcases giveBorrow (s.setTable fromTid t') toTid rep with e | ⟨newHandle, isNew, s'⟩ <;> rfl

theorem transferBorrowValidLifting_eq (ht : s.tables fromTid = some t) (toTid : Nat) :
    resourceTransferBorrowValidLifting s h fromTid toTid =
      (takeRep t h h).bind fun r =>
        (giveBorrow (s.setTable fromTid r.2) toTid r.1).map fun g => (g.1, g.2.2) := by
  unfold resourceTransferBorrowValidLifting
  rw [tableOf_eq ht]
  show (takeRep t h h >>= _) = _
  rcases takeRep t h h with e | ⟨rep, t'⟩
  · rfl
  · show (giveBorrow (s.setTable fromTid t') toTid rep >>= _) =
      (giveBorrow (s.setTable fromTid t') toTid rep).map _
    rcases giveBorrow (s.setTable fromTid t') toTid rep with e | ⟨newHandle, isNew, s'⟩ <;> rfl

theorem releases_of (ht : s.tables fromTid = some t) (hR : Refines t m) (hh : m h = some b)
    (hok : b.own = true ∨ b.rep = h) : Releases s fromTid toTid h m b := by
  obtain ⟨t', htake, hleft⟩ := takeRep_self hR hh
  obtain ⟨newHandle, isNew, s', hgive, hborrows⟩ :=
    giveBorrow_ok (s.setTable fromTid t') toTid b.rep
  -- The second cell is the handle itself, or an own pair is not removed at all.
  have htake' : takeRep t h b.val = .ok (b.rep, t') := by
    cases hown : b.own with
    | true =>
      rw [takeRep_own hR hh hown] at htake ⊢
      exact htake
    | false =>
      have hval : b.val = h := by
        unfold Binding.val
        rw [hown]
        exact hok.resolve_left (by rw [hown]; decide)
      rw [hval]
      exact htake
  refine ⟨t, t', newHandle, isNew, s', ht, hleft, hgive, ?_, ?_⟩
  · rw [transferBorrow_eq ht hR hh, htake']
    show ((giveBorrow (s.setTable fromTid t') toTid b.rep).map _) = _
    rw [hgive]
    dsimp only [Except.map]
    rw [hborrows]
    rfl
  · rw [transferBorrowValidLifting_eq ht, htake]
    show ((giveBorrow (s.setTable fromTid t') toTid b.rep).map _) = _
    rw [hgive]
    rfl

/-- The source table after the borrow was given: as it was, or with a new pair if it
is the destination too. -/
theorem given_source {tx : ResourceTable} {rep newHandle : Int} {isNew : Bool} {s' : HandleTables}
    (hgive : giveBorrow (s.setTable fromTid tx) toTid rep = .ok (newHandle, isNew, s')) :
    ∃ tf, s'.tables fromTid = some tf ∧
      (tf.cells = tx.cells ∧ (toTid = fromTid → isNew = false) ∨
        toTid = fromTid ∧ isNew = true ∧ tf.cells = (allocate tx.cells s.scopeId rep).2 ∧
          newHandle = (allocate tx.cells s.scopeId rep).1) := by
  have hother : ∀ t₁, fromTid ≠ toTid →
      ((s.setTable fromTid tx).setTable toTid t₁).tables fromTid = some tx := by
    intro t₁ hne
    rw [tables_setTable, if_neg hne, tables_setTable, if_pos rfl]
  have hself : toTid = fromTid → (s.setTable fromTid tx).ensureTable toTid = tx := by
    rintro rfl
    exact ensureTable_reps (by rw [tables_setTable, if_pos rfl])
  by_cases hsame : toTid = fromTid
  · rcases giveBorrow_cases (s.setTable fromTid tx) toTid rep with ⟨-, heq⟩ | ⟨-, heq⟩
    · cases hgive.symm.trans heq
      rw [hself hsame, hsame]
      exact ⟨tx, by rw [tables_setTable, if_pos rfl], .inl ⟨rfl, fun _ => rfl⟩⟩
    · cases hgive.symm.trans heq
      rw [hself hsame, hsame]
      exact ⟨_, by rw [tables_setTable, if_pos rfl], .inr ⟨rfl, rfl, rfl, rfl⟩⟩
  · rcases giveBorrow_cases (s.setTable fromTid tx) toTid rep with ⟨-, heq⟩ | ⟨-, heq⟩
    · cases hgive.symm.trans heq
      exact ⟨tx, hother _ (Ne.symm hsame), .inl ⟨rfl, fun h => absurd h hsame⟩⟩
    · cases hgive.symm.trans heq
      exact ⟨tx, hother _ (Ne.symm hsame), .inl ⟨rfl, fun h => absurd h hsame⟩⟩

/-- Removing the rep of a borrow in place of its handle leaves the borrow live. -/
theorem remove_rep_keeps {e : Entry} {t₁ : ResourceTable} (hR : Refines t m) (hh : m h = some b)
    (hne : b.rep ≠ h) (hrem : rscTableRemove t b.rep = .ok (e, t₁)) :
    t₁.cells.get (2 * h) = some b.scope ∧ t₁.cells.get 0 = some (b.rep + T_FLAG) := by
  have hv := live_valid hR hh
  have hrep := hv.rep
  have hpos := (live_small hR hh).1
  have hcells := (remove_cases hrem).2.2.2.2
  rw [shl_small hrep, bitOr_flag_small hrep] at hcells
  rw [hcells, get_set, get_set, if_neg (by omega), if_neg (by omega),
    get_set, if_pos rfl]
  exact ⟨(live_cells hR hh).1, rfl⟩

/-- The next pair that is allocated is the one that was removed. -/
theorem allocate_head {cells : JsArray Int} {r : Int} (hr : Small r) (hne : r ≠ 0)
    (hhead : cells.get 0 = some (r + T_FLAG)) (scope val : Int) :
    (allocate cells scope val).1 = r ∧ ∀ k, k ≠ 0 → k ≠ 2 * r → k ≠ 2 * r + 1 →
      (allocate cells scope val).2.get k = cells.get k := by
  have hfree : bitAnd (num (cells.get 0)) (bitNot T_FLAG) = r := by
    rw [hhead, num_some, clear_flag_add hr]
  have halloc : allocate cells scope val = (r,
      ((cells.set 0 (cells.get (2 * r))).set (2 * r) (some scope)).set (2 * r + 1) (some val)) := by
    simp only [allocate, hfree, if_neg hne, shl_small hr]
  rw [halloc]
  refine ⟨rfl, fun k h0 h1 h2 => ?_⟩
  rw [get_set, get_set, get_set, if_neg h2, if_neg h1, if_neg h0]

theorem of_releases (ht : s.tables fromTid = some t) (hR : Refines t m) (hh : m h = some b)
    (hrel : Releases s fromTid toTid h m b) : b.own = true ∨ b.rep = h := by
  by_contra hbad
  rw [not_or, Bool.not_eq_true] at hbad
  obtain ⟨hown, hne⟩ := hbad
  obtain ⟨t₀, t', newHandle, isNew, s', ht₀, hleft, hgive, hborrow, -⟩ := hrel
  have hv := live_valid hR hh
  have hval : b.val = b.rep := by
    unfold Binding.val
    rw [hown]
    rfl
  have hR' : Refines t' (m.unbind h) := by
    unfold Left at hleft
    rw [hown] at hleft
    exact hleft
  have hdead : m.unbind h h = none := by rw [HandleMap.unbind_apply, if_pos rfl]
  have hsmall := (live_small hR hh).2
  have hpos := (live_small hR hh).1
  -- What the call does: it removes the rep.
  rw [transferBorrow_eq ht hR hh, hval, takeRep_borrow hR hh hown] at hborrow
  rcases hrem : rscTableRemove t b.rep with e | ⟨e, t₁⟩
  · rw [hrem] at hborrow
    cases hborrow
  rw [hrem] at hborrow
  obtain ⟨hkeep, hhead⟩ := remove_rep_keeps hR hh hne hrem
  obtain ⟨⟨handle₁, isNew₁, s₁⟩, hgive₁, heq⟩ := map_ok hborrow
  obtain ⟨rfl, hstate⟩ := Prod.mk.inj heq
  obtain ⟨htables, hborrows, -⟩ := mk.inj hstate
  obtain ⟨_, _, _, hgive₂, hcb⟩ := giveBorrow_ok (s.setTable fromTid t₁) toTid e.rep
  rw [hgive₁] at hgive₂
  obtain ⟨rfl, hrest⟩ := Prod.mk.inj (Except.ok.inj hgive₂)
  obtain ⟨rfl, rfl⟩ := Prod.mk.inj hrest
  -- Afterwards the pair of `h` is live, and a new pair would be that of the rep.
  obtain ⟨tf, htf, hcells⟩ := given_source hgive₁
  have halloc := allocate_head hv.rep hv.rep_ne hhead s.scopeId e.rep
  have hlive : tf.cells.get (2 * h) = some b.scope := by
    rcases hcells with ⟨hcells, -⟩ | ⟨-, -, hcells, -⟩
    · rw [hcells, hkeep]
    · rw [hcells, halloc.2 _ (by omega) (by omega) (by omega), hkeep]
  -- It is not live where the borrow was released, unless the new pair is that of `h`.
  obtain ⟨tg, htg, hcells'⟩ := given_source hgive
  obtain rfl : tf = tg := by
    rw [htables, htg] at htf
    exact (Option.some.inj htf).symm
  have hflag := bitAnd_flag_small hv.scope
  rcases hcells' with ⟨hcells', -⟩ | ⟨hsame, rfl, hcells', hnew⟩
  · rw [hcells'] at hlive
    exact dead_cell hR' hsmall hdead hlive hflag
  · have hbound : (h : Int) + 2 ≤ 2 ^ 30 := by
      rcases hR with ⟨n, free, hst⟩
      have := hst.live_lt hh
      have := hst.bound
      omega
    rcases allocate_frame hR' hbound hpos s.scopeId b.rep with hframe | hhandle
    · rw [hcells', hframe] at hlive
      exact dead_cell hR' hsmall hdead hlive hflag
    · -- One call recorded a new handle, so the other has allocated one as well.
      rcases hcells with ⟨-, hold⟩ | ⟨-, -, -, hnew₁⟩
      · rw [hold hsame, hcb] at hborrows
        simp [setTable] at hborrows
      · rw [halloc.1] at hnew₁
        exact hne (hnew₁.symm.trans (hnew.trans hhandle))

/-- A borrow transfer releases the handle that it was given exactly when the pair
is an own, which stays, or a borrow whose rep is the number of its handle. -/
theorem releases_iff (ht : s.tables fromTid = some t) (hR : Refines t m) (hh : m h = some b) :
    Releases s fromTid toTid h m b ↔ b.own = true ∨ b.rep = h :=
  ⟨of_releases ht hR hh, releases_of ht hR hh⟩

end

/-- A table with one borrow of the rep `rep`, in the scope `1`. -/
def borrowTable (rep : Int) : ResourceTable where
  cells := (allocate ResourceTable.fresh.cells 1 rep).2
  createdReps := []

theorem borrowTable_refines {rep : Int} (hrep : Small rep) (hne : rep ≠ 0) :
    Refines (borrowTable rep) (HandleMap.empty.bind 1 ⟨1, rep, false⟩) := by
  have hroom : HasRoom .fresh := .inr (by decide)
  have hscope : Small 1 := by decide
  obtain ⟨i, t', hcreate, -, -, hR⟩ := createBorrow_refines refines_fresh hrep hne hscope hroom
  have hi : (allocate ResourceTable.fresh.cells 1 rep).1 = i :=
    congrArg Prod.fst (Except.ok.inj hcreate)
  have ht' : borrowTable rep = t' := congrArg Prod.snd (Except.ok.inj hcreate)
  have hfree : bitAnd (num (ResourceTable.fresh.cells.get 0)) (bitNot T_FLAG) = 0 := by decide
  have hone : (allocate ResourceTable.fresh.cells 1 rep).1 = 1 := by
    unfold allocate
    simp only [hfree, if_true, length_push]
    decide
  rw [hone] at hi
  obtain rfl : 1 = i := by omega
  rw [← ht'] at hR
  exact hR

/-- The tables where the table `1` borrows `rep`. -/
def lentTables (rep : Int) : HandleTables := oneTable.setTable 1 (borrowTable rep)

theorem releases_iff_lentTables :
    Releases (lentTables 1) 1 2 1 (HandleMap.empty.bind 1 ⟨1, 1, false⟩) ⟨1, 1, false⟩ :=
  (releases_iff rfl (borrowTable_refines (by decide) (by decide)) rfl).2 (.inr rfl)

/-- The rep `5` is removed in place of the handle `1`: the borrow stays live and the
list head becomes a pair past the end of the table. -/
theorem borrow_not_released :
    ¬ ∀ (s : HandleTables) (fromTid toTid h : Nat) (t : ResourceTable) (m : HandleMap)
      (b : Binding), s.tables fromTid = some t → Refines t m → m h = some b →
        Releases s fromTid toTid h m b := by
  intro hall
  have hR : Refines (borrowTable 5) _ := borrowTable_refines (by decide) (by decide)
  have hrel := hall (lentTables 5) 1 2 1 _ _ _ rfl hR rfl
  exact absurd (of_releases rfl hR rfl hrel) (by decide)

end Jco.Resource

import Jco.Resource.BorrowTransfer

/-! # Lending to an implementer and to others

A borrow that goes to the component that implements the resource is passed as
the bare rep, and any other component gets a handle for it. The transfer takes a
table for an implementer when its `_createdReps` has the rep, and that set also
holds every rep whose own was ever transferred to the table.
-/

namespace Jco.Resource

open Jco.Js Jco.Lib HandleTables

/-! ## Handles in a table -/

/-- The pair of the handle lies in the array and is not on the free list. -/
def LiveAt (t : ResourceTable) (handle : Int) : Prop :=
  0 ≤ handle ∧ handle < 2 ^ 31 ∧ ¬ Flagged t handle ∧ ¬ PastEnd t handle

instance (t : ResourceTable) (handle : Int) : Decidable (LiveAt t handle) :=
  inferInstanceAs (Decidable (_ ∧ _))

def OwnBit (t : ResourceTable) (handle : Int) : Prop :=
  bitAnd (num (t.cells.get (shl handle 1 + 1))) T_FLAG ≠ 0

instance (t : ResourceTable) (handle : Int) : Decidable (OwnBit t handle) :=
  inferInstanceAs (Decidable (_ ≠ _))

section

variable {t : ResourceTable} {m : HandleMap} {handle : Int}

theorem liveAt_iff (hR : Refines t m) : LiveAt t handle ↔ ∃ (i : Nat) (b : Binding),
    handle = i ∧ m i = some b := by
  constructor
  · rintro ⟨h0, h31, hflag, hpast⟩
    obtain ⟨i, rfl⟩ := Int.eq_ofNat_of_zero_le h0
    rcases handle_cases hR (i := i) (by omega) with ⟨b, hb⟩ | ⟨-, hdead⟩
    · exact ⟨i, b, rfl, hb⟩
    · exact absurd hdead (not_or.2 ⟨hflag, hpast⟩)
  · rintro ⟨i, b, rfl, hb⟩
    have hsmall := (live_small hR hb).2
    have hscope := (live_cells hR hb).1
    have hflag : ¬ Flagged t i := by
      unfold Flagged
      rw [shl_small hsmall, hscope, num_some, not_not]
      exact bitAnd_flag_small (live_valid hR hb).scope
    have hpast : ¬ PastEnd t i := by
      unfold PastEnd
      rw [shl_small hsmall, hscope]
      simp
    unfold Small at hsmall
    exact ⟨by omega, by omega, hflag, hpast⟩

theorem ownBit_iff (hR : Refines t m) {i : Nat} {b : Binding} (hb : m i = some b) :
    OwnBit t i ↔ b.own = true := by
  have hown := (live_valid hR hb).own_val
  unfold OwnBit
  rw [shl_small (live_small hR hb).2, (live_cells hR hb).2, num_some, ← hown, bne_iff_ne]

theorem takeRep_reps {t' : ResourceTable} {removed rep : Int}
    (h : takeRep t handle removed = .ok (rep, t')) : t'.createdReps = t.createdReps := by
  unfold takeRep at h
  dsimp only at h
  split at h
  · cases h
    rfl
  · rcases hrem : rscTableRemove t removed with e | ⟨e, t₁⟩
    · rw [hrem] at h
      cases h
    · rw [hrem] at h
      cases h
      exact (remove_cases hrem).2.2.2.1

end

/-! ## What the tables hold -/

/-- The table, for each table, of the component that implements its resource. Tables
of one resource share it. -/
structure Homes where
  home : Nat → Nat
  home_home : ∀ tid, home (home tid) = home tid

namespace HandleTables

/-- `HANDLE_TABLES[tid]._createdReps`. -/
def reps (s : HandleTables) (tid : Nat) : List Int := (s.ensureTable tid).createdReps

theorem ensureTable_setTable (s : HandleTables) (tid tid' : Nat) (t : ResourceTable) :
    (s.setTable tid t).ensureTable tid' = if tid' = tid then t else s.ensureTable tid' := by
  unfold ensureTable
  rw [tables_setTable]
  split <;> rfl

theorem reps_setTable (s : HandleTables) (tid tid' : Nat) (t : ResourceTable) :
    (s.setTable tid t).reps tid' = if tid' = tid then t.createdReps else s.reps tid' := by
  unfold reps
  rw [ensureTable_setTable]
  split <;> rfl

end HandleTables

/-- The tables store the maps `M`. -/
def Represents (s : HandleTables) (M : Nat → HandleMap) : Prop :=
  ∀ tid, Refines (s.ensureTable tid) (M tid)

theorem represents_unique {s : HandleTables} {M M' : Nat → HandleMap} (h : Represents s M)
    (h' : Represents s M') : M = M' :=
  funext fun tid => refines_unique (h tid) (h' tid)

/-- The invariant of lending, with the pairs of a table and a rep whose own the
table has received. -/
structure Lends (hs : Homes) (M : Nat → HandleMap) (received : List (Nat × Int))
    (s : HandleTables) : Prop where
  tables : Represents s M
  scope : Small s.scopeId
  known : ∀ tid i b, M tid i = some b → b.rep ∈ s.reps (hs.home tid)
  owned : ∀ tid i b, hs.home tid = tid → M tid i = some b → b.own = true
  came : ∀ tid rep, (tid, rep) ∈ received → rep ∈ s.reps tid
  origin : ∀ tid rep, rep ∈ s.reps tid → hs.home tid = tid ∨ (tid, rep) ∈ received

section

variable {hs : Homes} {M : Nat → HandleMap} {received received' : List (Nat × Int)}
  {s : HandleTables} {tid : Nat} {t' : ResourceTable} {m' : HandleMap}

/-- Replacing one table: its reps only grow, by ones that are accounted for, and its
new bindings are known to the implementer. -/
theorem Lends.setTable (h : Lends hs M received s) (hR : Refines t' m')
    (hgrow : s.reps tid ⊆ t'.createdReps)
    (hsub : received ⊆ received')
    (hcame : ∀ tid₁ rep, (tid₁, rep) ∈ received' →
      (tid₁, rep) ∈ received ∨ tid₁ = tid ∧ rep ∈ t'.createdReps)
    (hnew : ∀ rep ∈ t'.createdReps, rep ∈ s.reps tid ∨ hs.home tid = tid ∨
      (tid, rep) ∈ received')
    (hknown : ∀ i b, m' i = some b → M tid i = some b ∨
      b.rep ∈ (s.setTable tid t').reps (hs.home tid) ∧ (hs.home tid = tid → b.own = true)) :
    Lends hs (Function.update M tid m') received' (s.setTable tid t') := by
  have hreps : ∀ tid₁, s.reps tid₁ ⊆ (s.setTable tid t').reps tid₁ := by
    intro tid₁
    rw [reps_setTable]
    split
    case isTrue htid => exact htid ▸ hgrow
    case isFalse => exact List.Subset.refl _
  -- A binding is an old one, or a new one of the table that was replaced.
  have hold : ∀ tid₁ i b, Function.update M tid m' tid₁ i = some b → M tid₁ i = some b ∨
      b.rep ∈ (s.setTable tid t').reps (hs.home tid₁) ∧ (hs.home tid₁ = tid₁ → b.own = true) := by
    intro tid₁ i b hb
    rw [Function.update_apply] at hb
    split at hb
    case isTrue htid =>
      subst htid
      exact hknown i b hb
    case isFalse => exact .inl hb
  constructor
  case tables =>
    intro tid₁
    rw [ensureTable_setTable, Function.update_apply]
    split
    · exact hR
    · exact h.tables tid₁
  case scope => exact h.scope
  case known =>
    intro tid₁ i b hb
    rcases hold tid₁ i b hb with hb | ⟨hmem, -⟩
    · exact hreps _ (h.known tid₁ i b hb)
    · exact hmem
  case owned =>
    intro tid₁ i b hhome hb
    rcases hold tid₁ i b hb with hb | ⟨-, hown⟩
    · exact h.owned tid₁ i b hhome hb
    · exact hown hhome
  case came =>
    intro tid₁ rep hmem
    rcases hcame tid₁ rep hmem with hmem | ⟨rfl, hmem⟩
    · exact hreps _ (h.came tid₁ rep hmem)
    · rwa [reps_setTable, if_pos rfl]
  case origin =>
    intro tid₁ rep hmem
    rw [reps_setTable] at hmem
    split at hmem
    case isTrue htid =>
      subst htid
      rcases hnew rep hmem with hmem | hhome | hmem
      · exact (h.origin tid₁ rep hmem).imp_right fun hmem => hsub hmem
      · exact .inl hhome
      · exact .inr hmem
    case isFalse => exact (h.origin tid₁ rep hmem).imp_right fun hmem => hsub hmem

/-- Releasing a live handle. -/
theorem Lends.release (h : Lends hs M received s) {i : Nat}
    (hR : Refines t' ((M tid).unbind i)) (hreps : t'.createdReps = s.reps tid) :
    Lends hs (Function.update M tid ((M tid).unbind i)) received (s.setTable tid t') := by
  refine h.setTable hR ?_ (List.Subset.refl _) (fun _ _ hmem => .inl hmem) ?_ ?_
  · rw [hreps]
    exact List.Subset.refl _
  · intro rep hmem
    rw [hreps] at hmem
    exact .inl hmem
  · intro j c hb
    rw [HandleMap.unbind_apply] at hb
    split at hb
    · cases hb
    · exact .inl hb

/-- Rewriting a table as it is, which creates it when it was missing. -/
theorem Lends.touch (h : Lends hs M received s) (tid : Nat) :
    Lends hs M received (s.setTable tid (s.ensureTable tid)) := by
  have hmaps : Function.update M tid (M tid) = M := Function.update_eq_self tid M
  rw [← hmaps]
  exact h.setTable (h.tables tid) (List.Subset.refl _) (List.Subset.refl _)
    (fun _ _ hmem => .inl hmem) (fun _ hmem => .inl hmem) fun _ _ hb => .inl hb

/-- Creating an own in a home table, or receiving one of a rep that the implementer
knows. -/
theorem Lends.createOwn (h : Lends hs M received s) {rep : Int} (hrep : Small rep)
    (hne : rep ≠ 0) (hroom : HasRoom (s.ensureTable tid))
    (hfrom : hs.home tid = tid ∧ received' = received ∨
      rep ∈ s.reps (hs.home tid) ∧ received' = (tid, rep) :: received) :
    ∃ M', Lends hs M' received'
      (s.setTable tid (rscTableCreateOwn (s.ensureTable tid) rep).2) := by
  obtain ⟨i, -, -, -, hR⟩ := createOwn_refines (h.tables tid) hrep hne hroom
  have hreps : (rscTableCreateOwn (s.ensureTable tid) rep).2.createdReps = rep :: s.reps tid := rfl
  refine ⟨_, h.setTable hR ?_ ?_ ?_ ?_ ?_⟩
  · rw [hreps]
    exact List.subset_cons_self _ _
  · rcases hfrom with ⟨-, rfl⟩ | ⟨-, rfl⟩
    · exact List.Subset.refl _
    · exact List.subset_cons_self _ _
  -- The rep that came is among those of the table now.
  · intro tid₁ r hmem
    rcases hfrom with ⟨-, rfl⟩ | ⟨-, rfl⟩
    · exact .inl hmem
    · rcases List.mem_cons.1 hmem with heq | hmem
      · cases heq
        rw [hreps]
        exact .inr ⟨rfl, List.mem_cons_self⟩
      · exact .inl hmem
  -- It was made at home or it came.
  · intro r hmem
    rw [hreps] at hmem
    rcases List.mem_cons.1 hmem with rfl | hmem
    · rcases hfrom with ⟨hhome, -⟩ | ⟨-, rfl⟩
      · exact .inr (.inl hhome)
      · exact .inr (.inr List.mem_cons_self)
    · exact .inl hmem
  · intro j b hb
    rw [HandleMap.bind_apply] at hb
    split at hb
    case isFalse => exact .inl hb
    case isTrue =>
      cases hb
      refine .inr ⟨?_, fun _ => rfl⟩
      rw [reps_setTable, hreps]
      split
      · exact List.mem_cons_self
      case isFalse hhome =>
        rcases hfrom with ⟨hhome', -⟩ | ⟨hmem, -⟩
        · exact absurd hhome' hhome
        · exact hmem

/-! ## Lending -/

/-- What a transferred borrow is for its receiver, once the source is released: the
bare rep for the implementer, and a new live handle for any other. -/
def Usable (hs : Homes) (M : Nat → HandleMap) (scopeId : Int) (toTid : Nat) (rep newHandle : Int)
    (s' : HandleTables) : Prop :=
  if hs.home toTid = toTid then newHandle = rep ∧ Represents s' M
  else ∃ i : Nat, newHandle = i ∧ M toTid i = none ∧
    Represents s' (Function.update M toTid ((M toTid).bind i ⟨scopeId, rep, false⟩)) ∧
    rscTableGet (s'.ensureTable toTid) newHandle = .ok ⟨rep, some scopeId, false⟩

/-- Giving a borrow of a rep that the implementer knows. -/
theorem Lends.give (h : Lends hs M received s) {rep : Int} (hrep : Small rep) (hne : rep ≠ 0)
    (hknown : rep ∈ s.reps (hs.home tid)) (hroom : HasRoom (s.ensureTable tid)) :
    ∃ newHandle isNew s' M', giveBorrow s tid rep = .ok (newHandle, isNew, s') ∧
      Lends hs M' received s' ∧
      (Usable hs M s.scopeId tid rep newHandle s' ↔
        hs.home tid = tid ∨ (tid, rep) ∉ received) := by
  rcases giveBorrow_cases s tid rep with ⟨hmem, hgive⟩ | ⟨hmem, hgive⟩
  · -- The table has the rep: nothing changes.
    have htouch := h.touch tid
    refine ⟨_, _, _, M, hgive, htouch, ?_⟩
    unfold Usable
    split
    case isTrue hhome => exact iff_of_true ⟨rfl, htouch.tables⟩ (.inl hhome)
    case isFalse hhome =>
      have hcame : (tid, rep) ∈ received := (h.origin tid rep hmem).resolve_left hhome
      refine iff_of_false ?_ (not_or.2 ⟨hhome, not_not.2 hcame⟩)
      rintro ⟨i, -, hnone, hR, -⟩
      have hM := congrFun (congrFun (represents_unique htouch.tables hR) tid) i
      rw [Function.update_self, HandleMap.bind_apply, if_pos rfl, hnone] at hM
      cases hM
  · -- It does not: a new handle.
    obtain ⟨i, t', hcreate, -, hnone, hR⟩ :=
      createBorrow_refines (h.tables tid) hrep hne h.scope hroom
    have hhandle : (allocate (s.ensureTable tid).cells s.scopeId rep).1 = i :=
      congrArg Prod.fst (Except.ok.inj hcreate)
    have ht' : { s.ensureTable tid with
        cells := (allocate (s.ensureTable tid).cells s.scopeId rep).2 } = t' :=
      congrArg Prod.snd (Except.ok.inj hcreate)
    have hreps : t'.createdReps = s.reps tid := by
      rw [← ht']
      rfl
    rw [hhandle, ht'] at hgive
    -- The implementer has all reps that are lent, so this is not its table.
    have hhome : hs.home tid ≠ tid := by
      intro hhome
      rw [hhome] at hknown
      exact hmem hknown
    have hcame : (tid, rep) ∉ received := fun hin => hmem (h.came tid rep hin)
    have hlends : Lends hs (Function.update M tid ((M tid).bind i ⟨s.scopeId, rep, false⟩)) received
        (s.setTable tid t') := by
      refine h.setTable hR ?_ (List.Subset.refl _) (fun _ _ hin => .inl hin) ?_ ?_
      · rw [hreps]
        exact List.Subset.refl _
      · intro r hin
        rw [hreps] at hin
        exact .inl hin
      · intro j b hb
        rw [HandleMap.bind_apply] at hb
        split at hb
        case isFalse => exact .inl hb
        case isTrue =>
          cases hb
          refine .inr ⟨?_, fun h => absurd h hhome⟩
          rwa [reps_setTable, if_neg hhome]
    refine ⟨_, _, _, _, hgive, hlends, iff_of_true ?_ (.inr hcame)⟩
    unfold Usable
    rw [if_neg hhome]
    refine ⟨i, rfl, hnone, hlends.tables, ?_⟩
    have hget := get_live (hlends.tables tid) (i := i) (b := ⟨s.scopeId, rep, false⟩) (by
      rw [Function.update_self, HandleMap.bind_apply, if_pos rfl])
    exact hget

/-! ## Taking from the source -/

/-- The maps after the transfer of the live handle `i` was taken from its table: a
borrow is gone. -/
def released (M : Nat → HandleMap) (tid i : Nat) (b : Binding) : Nat → HandleMap :=
  if b.own then M else Function.update M tid ((M tid).unbind i)

/-- A table that something was removed from has room. -/
theorem remove_room {t t' : ResourceTable} {m : HandleMap} (hR : Refines t m) {i : Nat}
    {b : Binding} (hb : m i = some b) {e : Entry} (hrem : rscTableRemove t i = .ok (e, t')) :
    HasRoom t' := by
  have hlive := live_small hR hb
  have hcells := (remove_cases hrem).2.2.2.2
  -- The list of free pairs begins with the one that was removed.
  left
  rw [hcells, JsArray.get_set, if_pos rfl, bitOr_flag_small hlive.2]
  intro heq
  have := Option.some.inj heq
  omega

section

variable {fromTid toTid i : Nat} {b : Binding} {t : ResourceTable}

/-- Removing a live handle leaves room in its own table, and takes none elsewhere. -/
theorem Lends.remove (h : Lends hs M received s) (ht : s.tables fromTid = some t)
    (hb : M fromTid i = some b) (hroom : HasRoom (s.ensureTable toTid)) :
    ∃ t', rscTableRemove t i = .ok (b.toEntry, t') ∧
      Lends hs (Function.update M fromTid ((M fromTid).unbind i)) received
        (s.setTable fromTid t') ∧
      HasRoom ((s.setTable fromTid t').ensureTable toTid) := by
  have hens := ensureTable_reps ht
  have hR : Refines t (M fromTid) := hens ▸ h.tables fromTid
  obtain ⟨t', hrem, hR'⟩ := remove_live_refines hR hb
  have hreps : t'.createdReps = s.reps fromTid := by
    rw [(remove_cases hrem).2.2.2.1, ← hens]
    rfl
  refine ⟨t', hrem, h.release hR' hreps, ?_⟩
  rw [ensureTable_setTable]
  split
  · exact remove_room hR hb hrem
  · exact hroom

theorem Lends.take (h : Lends hs M received s) (ht : s.tables fromTid = some t)
    (hb : M fromTid i = some b) {removed : Int} (hok : b.own = true ∨ removed = i)
    (hroom : HasRoom (s.ensureTable toTid)) :
    ∃ t', takeRep t i removed = .ok (b.rep, t') ∧
      Lends hs (released M fromTid i b) received (s.setTable fromTid t') ∧
      HasRoom ((s.setTable fromTid t').ensureTable toTid) := by
  have hens := ensureTable_reps ht
  have hR : Refines t (M fromTid) := hens ▸ h.tables fromTid
  unfold released
  cases hown : b.own with
  | true =>
    -- An own handle stays in its table.
    have htouch := h.touch fromTid
    rw [hens] at htouch
    refine ⟨t, takeRep_own hR hb hown removed, htouch, ?_⟩
    rw [ensureTable_setTable]
    split
    case isTrue hsame =>
      rw [hsame, hens] at hroom
      exact hroom
    case isFalse => exact hroom
  | false =>
    obtain rfl := hok.resolve_left (by rw [hown]; decide)
    obtain ⟨t', hrem, hlends, hroom'⟩ := h.remove ht hb hroom
    refine ⟨t', ?_, hlends, hroom'⟩
    rw [takeRep_borrow hR hb hown, hrem]
    rfl

/-- The implementer still knows the rep when the table that had it has changed. -/
theorem Lends.known_kept (h : Lends hs M received s) (ht : s.tables fromTid = some t)
    (hb : M fromTid i = some b) {t' : ResourceTable} (hreps : t'.createdReps = t.createdReps) :
    b.rep ∈ (s.setTable fromTid t').reps (hs.home fromTid) := by
  have hmem := h.known fromTid i b hb
  rw [reps_setTable, hreps]
  split
  case isTrue hself =>
    rw [hself] at hmem
    rw [← ensureTable_reps ht]
    exact hmem
  case isFalse => exact hmem

theorem Lends.binding_valid (h : Lends hs M received s) (hb : M fromTid i = some b) : b.Valid :=
  live_valid (h.tables fromTid) hb

end

/-! ## The trampoline -/

/-- `Trampoline::ResourceTransferBorrow`, under the option of the transpiler. -/
def transferBorrowTrampoline (validLiftingOptimization : Bool) :
    HandleTables → Int → Nat → Nat → Except JsError (Int × HandleTables) :=
  if validLiftingOptimization then resourceTransferBorrowValidLifting else resourceTransferBorrow

/-- The handle that the trampoline passes to `rscTableRemove`. -/
def removedHandle (validLiftingOptimization : Bool) (t : ResourceTable) (handle : Int) : Int :=
  if validLiftingOptimization then handle else num (t.cells.get (shl handle 1 + 1))

/-- The transfer names a live handle, and the one that is removed is that handle when
it is a borrow. -/
def BorrowsRight (validLiftingOptimization : Bool) (t : ResourceTable) (handle : Int) : Prop :=
  LiveAt t handle ∧
    (OwnBit t handle ∨ removedHandle validLiftingOptimization t handle = handle)

instance (validLiftingOptimization : Bool) (t : ResourceTable) (handle : Int) :
    Decidable (BorrowsRight validLiftingOptimization t handle) :=
  inferInstanceAs (Decidable (_ ∧ _))

theorem Lends.borrow (h : Lends hs M received s) {opt : Bool} {handle : Int} {fromTid toTid : Nat}
    {t : ResourceTable} (ht : s.tables fromTid = some t) (hok : BorrowsRight opt t handle)
    (hhome : hs.home fromTid = hs.home toTid) (hroom : HasRoom (s.ensureTable toTid)) :
    ∃ (i : Nat) (b : Binding) (newHandle : Int) (s' : HandleTables) (M' : Nat → HandleMap),
      handle = i ∧ M fromTid i = some b ∧
      transferBorrowTrampoline opt s handle fromTid toTid = .ok (newHandle, s') ∧
      Lends hs M' received s' ∧
      (Usable hs (released M fromTid i b) s.scopeId toTid b.rep newHandle s' ↔
        hs.home toTid = toTid ∨ (toTid, b.rep) ∉ received) := by
  have hR : Refines t (M fromTid) := ensureTable_reps ht ▸ h.tables fromTid
  obtain ⟨i, b, rfl, hb⟩ := (liveAt_iff hR).1 hok.1
  have hremoved : b.own = true ∨ removedHandle opt t i = i :=
    hok.2.imp_left (ownBit_iff hR hb).1
  obtain ⟨t', htake, hlends, hroom'⟩ := h.take ht hb hremoved hroom
  have hv := h.binding_valid hb
  have hknown := h.known_kept ht hb (takeRep_reps htake)
  rw [hhome] at hknown
  obtain ⟨newHandle, isNew, s', M', hgive, hlends', hiff⟩ :=
    hlends.give hv.rep hv.rep_ne hknown hroom'
  cases opt with
  | true =>
    refine ⟨i, b, newHandle, s', M', rfl, hb, ?_, hlends', hiff⟩
    show resourceTransferBorrowValidLifting s i fromTid toTid = _
    have htake' : takeRep t i i = .ok (b.rep, t') := htake
    rw [transferBorrowValidLifting_eq ht, htake']
    show (giveBorrow _ toTid b.rep).map _ = _
    rw [hgive]
    rfl
  | false =>
    -- This one also records the handle for the end of the call.
    let callBorrows := if isNew then s'.callBorrows ++ [(toTid, newHandle)] else s'.callBorrows
    refine ⟨i, b, newHandle, { s' with callBorrows }, M', rfl, hb, ?_, { hlends' with }, hiff⟩
    show resourceTransferBorrow s i fromTid toTid = _
    have hcell : removedHandle false t i = b.val := by
      show num (t.cells.get (shl i 1 + 1)) = b.val
      rw [shl_small (live_small hR hb).2, (live_cells hR hb).2, num_some]
    rw [hcell] at htake
    rw [transferBorrow_eq ht hR hb, htake]
    show (giveBorrow _ toTid b.rep).map _ = _
    rw [hgive]
    rfl

end

/-! ## Runs -/

/-- The reps of the owns that the step hands to a table. -/
def receives (s : HandleTables) : TransferOp → List (Nat × Int)
  | .transferOwn handle fromTid toTid =>
    match (tableOf s fromTid).bind fun t => rscTableGet t handle with
    | .ok e => [(toTid, e.rep)]
    | .error _ => []
  | _ => []

/-- One step, which remembers the owns that were handed over; when it throws all
stays as it was. -/
def lendingNext : Action TransferOp (HandleTables × List (Nat × Int)) :=
  fun op x x' => (op.run x.1 = .ok x'.1 ∧ x'.2 = receives x.1 op ++ x.2) ∨
    ((∃ e, op.run x.1 = .error e) ∧ x' = x)

/-- What a borrow transfer needs: a live handle of the resource, or one it throws on. -/
def BorrowInOrder (hs : Homes) (validLiftingOptimization : Bool) (s : HandleTables) (handle : Int)
    (fromTid toTid : Nat) : Prop :=
  hs.home fromTid = hs.home toTid ∧ HasRoom (s.ensureTable toTid) ∧
    ∀ t, s.tables fromTid = some t → BorrowsRight validLiftingOptimization t handle ∨
      ¬ OwnBit t handle ∧ Flagged t (removedHandle validLiftingOptimization t handle)

/-- The steps under which the tables keep what they were given: reps fit, tables have
room, resources go between tables of one resource, a removed handle is live or
flagged, and a borrow transfer removes its own handle. -/
def InOrder (hs : Homes) (op : TransferOp) (x : HandleTables × List (Nat × Int)) : Prop :=
  match op with
  | .createOwn tid rep => hs.home tid = tid ∧ Small rep ∧ rep ≠ 0 ∧ HasRoom (x.1.ensureTable tid)
  | .transferOwn handle fromTid toTid => hs.home fromTid = hs.home toTid ∧
      HasRoom (x.1.ensureTable toTid) ∧
      ∀ t, x.1.tables fromTid = some t → LiveAt t handle ∨ Flagged t handle
  | .transferBorrow handle fromTid toTid => BorrowInOrder hs false x.1 handle fromTid toTid
  | .transferBorrowValidLifting handle fromTid toTid =>
    BorrowInOrder hs true x.1 handle fromTid toTid
  | .remove tid handle => ∀ t, x.1.tables tid = some t → LiveAt t handle ∨ Flagged t handle
  | .scope scopeId => Small scopeId

section

variable {hs : Homes} {M : Nat → HandleMap} {received received' : List (Nat × Int)}
  {s s' : HandleTables}

theorem Lends.transferOwn (h : Lends hs M received s) {handle newHandle : Int} {fromTid toTid : Nat}
    (hok : InOrder hs (.transferOwn handle fromTid toTid) (s, received))
    (hcall : resourceTransferOwn s handle fromTid toTid = .ok (newHandle, s')) :
    ∃ M', Lends hs M' (receives s (.transferOwn handle fromTid toTid) ++ received) s' := by
  obtain ⟨hhome, hroom, hlive⟩ := hok
  obtain ⟨t, htable, hcall⟩ := bind_ok hcall
  obtain ⟨⟨e, t'⟩, hrem, hcall⟩ := bind_ok hcall
  have ht := tableOf_ok htable
  have hR : Refines t (M fromTid) := ensureTable_reps ht ▸ h.tables fromTid
  have hlive : LiveAt t handle := by
    rcases hlive t ht with hlive | hflag
    · exact hlive
    · rw [remove_flagged hflag] at hrem
      cases hrem
  obtain ⟨i, b, rfl, hb⟩ := (liveAt_iff hR).1 hlive
  obtain ⟨t₁, hrem₁, hlends, hroom'⟩ := h.remove ht hb hroom
  cases hrem.symm.trans hrem₁
  have hv := h.binding_valid hb
  have hreceives : receives s (.transferOwn i fromTid toTid) = [(toTid, b.rep)] := by
    have hget : (tableOf s fromTid).bind (fun t => rscTableGet t i) = .ok b.toEntry := by
      rw [htable]
      exact get_live hR hb
    simp only [receives, hget]
    rfl
  have hknown := h.known_kept ht hb (remove_cases hrem).2.2.2.1
  rw [hhome] at hknown
  rw [hreceives]
  cases hcall
  exact hlends.createOwn hv.rep hv.rep_ne hroom' (.inr ⟨hknown, rfl⟩)

/-- A borrow transfer that does not throw names a live handle. -/
theorem Lends.transferBorrow (h : Lends hs M received s) (opt : Bool) {handle newHandle : Int}
    {fromTid toTid : Nat} (hok : BorrowInOrder hs opt s handle fromTid toTid)
    (hcall : transferBorrowTrampoline opt s handle fromTid toTid = .ok (newHandle, s')) :
    ∃ M', Lends hs M' received s' := by
  obtain ⟨hhome, hroom, hlive⟩ := hok
  rcases ht : s.tables fromTid with _ | t
  · have htable : tableOf s fromTid = .error .engine := by
      unfold tableOf
      rw [ht]
    cases opt with
    | true =>
      change resourceTransferBorrowValidLifting s handle fromTid toTid = _ at hcall
      unfold resourceTransferBorrowValidLifting at hcall
      rw [htable] at hcall
      cases hcall
    | false =>
      change resourceTransferBorrow s handle fromTid toTid = _ at hcall
      unfold resourceTransferBorrow at hcall
      rw [htable] at hcall
      cases hcall
  rcases hlive t ht with hright | ⟨hbit, hflag⟩
  · obtain ⟨i, b, newHandle', s₁, M', -, -, hcall', hlends, -⟩ := h.borrow ht hright hhome hroom
    rw [hcall] at hcall'
    cases hcall'
    exact ⟨M', hlends⟩
  · -- `rscTableRemove` throws.
    have htake : takeRep t handle (removedHandle opt t handle) =
        .error (.typeError "Invalid handle") := by
      unfold OwnBit at hbit
      unfold takeRep
      dsimp only
      rw [if_neg hbit, remove_flagged hflag]
      rfl
    cases opt with
    | true =>
      obtain ⟨t', ht', hcall⟩ := bind_ok hcall
      cases (tableOf_ok ht').symm.trans ht
      obtain ⟨r, htake', -⟩ := bind_ok hcall
      cases htake.symm.trans htake'
    | false =>
      obtain ⟨t', ht', hcall⟩ := bind_ok hcall
      cases (tableOf_ok ht').symm.trans ht
      obtain ⟨r, htake', -⟩ := bind_ok hcall
      cases htake.symm.trans htake'

/-- The step lemma. -/
theorem lendingNext_lends (op : TransferOp) (x x' : HandleTables × List (Nat × Int))
    (hnext : guarded (InOrder hs) lendingNext op x x') (h : ∃ M, Lends hs M x.2 x.1) :
    ∃ M', Lends hs M' x'.2 x'.1 := by
  obtain ⟨M, h⟩ := h
  obtain ⟨s, received⟩ := x
  obtain ⟨s', received'⟩ := x'
  obtain ⟨hok, ⟨hrun, hrec⟩ | ⟨-, heq⟩⟩ := hnext
  case inr =>
    cases heq
    exact ⟨M, h⟩
  dsimp only at hrun hrec
  cases op with
  | createOwn tid rep =>
    obtain ⟨hhome, hrep, hne, hroom⟩ := hok
    obtain ⟨t, ht, hrun⟩ := bind_ok hrun
    cases hrun
    rw [← ensureTable_reps (tableOf_ok ht)]
    exact h.createOwn hrep hne hroom (.inl ⟨hhome, hrec⟩)
  | transferOwn handle fromTid toTid =>
    obtain ⟨⟨newHandle, s₁⟩, hcall, rfl⟩ := map_ok hrun
    rw [hrec]
    exact h.transferOwn hok hcall
  | transferBorrow handle fromTid toTid =>
    obtain ⟨⟨newHandle, s₁⟩, hcall, rfl⟩ := map_ok hrun
    rw [hrec]
    exact h.transferBorrow false hok hcall
  | transferBorrowValidLifting handle fromTid toTid =>
    obtain ⟨⟨newHandle, s₁⟩, hcall, rfl⟩ := map_ok hrun
    rw [hrec]
    exact h.transferBorrow true hok hcall
  | remove tid handle =>
    obtain ⟨t, ht, hrun⟩ := bind_ok hrun
    obtain ⟨⟨e, t'⟩, hrem, hrun⟩ := bind_ok hrun
    cases hrun
    have ht := tableOf_ok ht
    have hR : Refines t (M tid) := ensureTable_reps ht ▸ h.tables tid
    rcases hok t ht with hlive | hflag
    · obtain ⟨i, b, rfl, hb⟩ := (liveAt_iff hR).1 hlive
      obtain ⟨t₁, hrem₁, hR'⟩ := remove_live_refines hR hb
      cases hrem.symm.trans hrem₁
      rw [hrec]
      refine ⟨_, h.release hR' ?_⟩
      rw [(remove_cases hrem).2.2.2.1, ← ensureTable_reps ht]
      rfl
    · rw [remove_flagged hflag] at hrem
      cases hrem
  | scope scopeId =>
    cases hrun
    rw [hrec]
    exact ⟨M, h.tables, hok, h.known, h.owned, h.came, h.origin⟩

end

theorem Initial.ensureTable {s : HandleTables} (h : Initial s) (tid : Nat) :
    s.ensureTable tid = .fresh := by
  unfold HandleTables.ensureTable
  rcases ht : s.tables tid with _ | t
  · rfl
  · exact h.tables tid t ht

theorem Initial.lends {s : HandleTables} (h : Initial s) (hs : Homes) :
    Lends hs (fun _ => .empty) [] s := by
  have hreps : ∀ tid, s.reps tid = [] := by
    intro tid
    unfold reps
    rw [h.ensureTable]
    rfl
  constructor
  case tables =>
    intro tid
    rw [h.ensureTable]
    exact refines_fresh
  case scope => exact h.scope
  case known =>
    intro tid i b hb
    cases hb
  case owned =>
    intro tid i b _ hb
    cases hb
  case came =>
    intro tid rep hmem
    cases hmem
  case origin =>
    intro tid rep hmem
    rw [hreps] at hmem
    cases hmem

/-- The run lemma. -/
theorem lends_of_run {hs : Homes} {s₀ s : HandleTables} {tr : List TransferOp}
    {received : List (Nat × Int)} (hinit : Initial s₀)
    (hrun : Run (guarded (InOrder hs) lendingNext) (s₀, []) tr (s, received)) :
    ∃ M, Lends hs M received s :=
  hrun.invariant lendingNext_lends ⟨_, hinit.lends hs⟩

/-- Wherever a run leads, a borrow transfer serves its receiver exactly when that is
the implementer, or one that was never handed an own of the rep. -/
theorem transferred_borrow_usable {hs : Homes} {s₀ s : HandleTables} {tr : List TransferOp}
    {received : List (Nat × Int)} (hinit : Initial s₀)
    (hrun : Run (guarded (InOrder hs) lendingNext) (s₀, []) tr (s, received)) :
    ∃ M, Represents s M ∧ ∀ (opt : Bool) (handle : Int) (fromTid toTid : Nat) (t : ResourceTable),
      s.tables fromTid = some t → BorrowsRight opt t handle →
      hs.home fromTid = hs.home toTid → HasRoom (s.ensureTable toTid) →
      ∃ (i : Nat) (b : Binding) (newHandle : Int) (s' : HandleTables),
        handle = i ∧ M fromTid i = some b ∧
        transferBorrowTrampoline opt s handle fromTid toTid = .ok (newHandle, s') ∧
        (Usable hs (released M fromTid i b) s.scopeId toTid b.rep newHandle s' ↔
          hs.home toTid = toTid ∨ (toTid, b.rep) ∉ received) := by
  obtain ⟨M, h⟩ := lends_of_run hinit hrun
  refine ⟨M, h.tables, ?_⟩
  intro opt handle fromTid toTid t ht hok hhome hroom
  obtain ⟨i, b, newHandle, s', M', hi, hb, hcall, -, hiff⟩ := h.borrow ht hok hhome hroom
  exact ⟨i, b, newHandle, s', hi, hb, hcall, hiff⟩

/-- All tables are of one resource, which the component of the table `0` implements. -/
def zeroImplements : Homes where
  home _ := 0
  home_home _ := rfl

/-- The rep `5` goes to the table `1` as an own and comes back. -/
def thereAndBack : List TransferOp :=
  [.createOwn 0 5, .transferOwn 1 0 1, .transferOwn 1 1 0]

theorem lendingNext_ok {op : TransferOp} {s s' : HandleTables} (received : List (Nat × Int))
    (h : op.run s = .ok s') : lendingNext op (s, received) (s', receives s op ++ received) :=
  .inl ⟨h, rfl⟩

theorem thereAndBack_run : ∃ s t s', Run (guarded (InOrder zeroImplements) lendingNext)
    (oneTable, []) thereAndBack (s, [(0, 5), (1, 5)]) ∧
    s.tables 0 = some t ∧ BorrowsRight false t 1 ∧ HasRoom (s.ensureTable 1) ∧
    resourceTransferBorrow s 1 0 1 = .ok (5, s') ∧
    rscTableGet (s'.ensureTable 1) 5 = .error (.typeError "Invalid handle") := by
  refine ⟨_, _, _, .cons ⟨⟨rfl, by decide, by decide, by decide⟩, lendingNext_ok [] rfl⟩ <|
    .cons ⟨⟨rfl, by decide, ?_⟩, lendingNext_ok [] rfl⟩ <|
    .cons ⟨⟨rfl, by decide, ?_⟩, lendingNext_ok [(1, 5)] rfl⟩ <| .nil _,
    rfl, by decide, by decide, rfl, by decide⟩
  · intro t ht
    cases ht
    decide
  · intro t ht
    cases ht
    decide

theorem transferred_borrow_usable_thereAndBack :
    ∃ s M, Represents s M ∧
      ∀ (opt : Bool) (handle : Int) (fromTid toTid : Nat) (t : ResourceTable),
        s.tables fromTid = some t → BorrowsRight opt t handle →
        zeroImplements.home fromTid = zeroImplements.home toTid → HasRoom (s.ensureTable toTid) →
        ∃ (i : Nat) (b : Binding) (newHandle : Int) (s' : HandleTables),
          handle = i ∧ M fromTid i = some b ∧
          transferBorrowTrampoline opt s handle fromTid toTid = .ok (newHandle, s') ∧
          (Usable zeroImplements (released M fromTid i b) s.scopeId toTid b.rep newHandle s' ↔
            zeroImplements.home toTid = toTid ∨ (toTid, b.rep) ∉ [(0, 5), (1, 5)]) := by
  obtain ⟨s, -, -, hrun, -⟩ := thereAndBack_run
  exact ⟨s, transferred_borrow_usable initial_oneTable hrun⟩

/-- The component of the table `1` has given the own back. Lent the resource again, it
gets the bare rep `5`, which is no handle of its table. -/
theorem former_owner_gets_rep :
    ¬ ∀ (hs : Homes) (s₀ s : HandleTables) (tr : List TransferOp) (received : List (Nat × Int)),
      Initial s₀ → Run (guarded (InOrder hs) lendingNext) (s₀, []) tr (s, received) →
      ∃ M, Represents s M ∧
        ∀ (opt : Bool) (handle : Int) (fromTid toTid : Nat) (t : ResourceTable),
          s.tables fromTid = some t → BorrowsRight opt t handle →
          hs.home fromTid = hs.home toTid → HasRoom (s.ensureTable toTid) →
          ∃ (i : Nat) (b : Binding) (newHandle : Int) (s' : HandleTables),
            handle = i ∧ M fromTid i = some b ∧
            transferBorrowTrampoline opt s handle fromTid toTid = .ok (newHandle, s') ∧
            Usable hs (released M fromTid i b) s.scopeId toTid b.rep newHandle s' := by
  intro hall
  obtain ⟨s, t, s₁, hrun, ht, hok, hroom, hcall, hget⟩ := thereAndBack_run
  obtain ⟨M, -, hlend⟩ := hall zeroImplements oneTable s thereAndBack _ initial_oneTable hrun
  obtain ⟨i, b, newHandle, s', -, -, hcall', husable⟩ := hlend false 1 0 1 t ht hok rfl hroom
  cases hcall.symm.trans hcall'
  unfold Usable at husable
  rw [if_neg (by decide)] at husable
  obtain ⟨-, -, -, -, hlive⟩ := husable
  rw [hget] at hlive
  cases hlive

end Jco.Resource

import Jco.Resource.Lending

/-! # Reading a rep

`resource.rep` of a component that implements the resource. The trampoline reads
the second cell of the pair, which `rscTableRemove` leaves as it was.
-/

namespace Jco.Resource

open Jco.Js Jco.Lib

/-- The function that `Trampoline::ResourceRep` emits. -/
def resourceRep (handleTable : ResourceTable) (handle : Int) : Except JsError Int :=
  .ok (bitAnd (num (handleTable.cells.get (shl handle 1 + 1))) (bitNot T_FLAG))

/-- The answer is the rep of the own that is live at the handle, and an exception when
there is none. -/
structure RepExact (t : ResourceTable) (m : HandleMap) (handle : Int) : Prop where
  live : ∀ (i : Nat) (b : Binding), handle = i → m i = some b → b.own = true →
    resourceRep t handle = .ok b.rep
  dead : (∀ (i : Nat) (b : Binding), handle = i → m i = some b → b.own = false) →
    ∃ e, resourceRep t handle = .error e

theorem resourceRep_live {t : ResourceTable} {m : HandleMap} (hR : Refines t m) {i : Nat}
    {b : Binding} (hb : m i = some b) : resourceRep t i = .ok b.rep := by
  unfold resourceRep
  rw [shl_small (live_small hR hb).2, (live_cells hR hb).2, num_some, (live_valid hR hb).rep_val]

theorem repExact_iff {hs : Homes} {M : Nat → HandleMap} {received : List (Nat × Int)}
    {s : HandleTables} (h : Lends hs M received s) {tid : Nat} (hhome : hs.home tid = tid)
    {t : ResourceTable} (ht : s.tables tid = some t) (handle : Int) :
    RepExact t (M tid) handle ↔ LiveAt t handle := by
  have hR : Refines t (M tid) := ensureTable_reps ht ▸ h.tables tid
  constructor
  · intro hexact
    by_contra hdead
    -- The trampoline has no check that could throw.
    obtain ⟨e, he⟩ := hexact.dead fun i b hi hb =>
      absurd ((liveAt_iff hR).2 ⟨i, b, hi, hb⟩) hdead
    cases he
  · intro hlive
    obtain ⟨i, b, rfl, hb⟩ := (liveAt_iff hR).1 hlive
    constructor
    case live =>
      intro j c hj hc _
      obtain rfl : i = j := Int.ofNat.inj hj
      exact resourceRep_live hR hc
    case dead =>
      -- The implementer's own table holds no borrows.
      intro hnone
      have hown := h.owned tid i b hhome hb
      rw [hnone i b rfl hb] at hown
      cases hown

/-- Wherever a run leads, `resource.rep` is right for the live handles only. -/
theorem resource_rep_exact {hs : Homes} {s₀ s : HandleTables} {tr : List TransferOp}
    {received : List (Nat × Int)} (hinit : Initial s₀)
    (hrun : Run (guarded (InOrder hs) lendingNext) (s₀, []) tr (s, received)) :
    ∃ M, Represents s M ∧ ∀ (tid : Nat) (t : ResourceTable) (handle : Int),
      hs.home tid = tid → s.tables tid = some t →
      (RepExact t (M tid) handle ↔ LiveAt t handle) := by
  obtain ⟨M, h⟩ := lends_of_run hinit hrun
  exact ⟨M, h.tables, fun tid t handle hhome ht => repExact_iff h hhome ht handle⟩

/-- The rep `5` is made and dropped. -/
def madeAndDropped : List TransferOp := [.createOwn 0 5, .remove 0 1]

theorem madeAndDropped_run : ∃ s t, Run (guarded (InOrder zeroImplements) lendingNext)
    (oneTable, []) madeAndDropped (s, []) ∧ s.tables 0 = some t ∧ ¬ LiveAt t 1 ∧
    resourceRep t 1 = .ok 5 := by
  refine ⟨_, _, .cons ⟨⟨rfl, by decide, by decide, by decide⟩, lendingNext_ok [] rfl⟩ <|
    .cons ⟨?_, lendingNext_ok [] rfl⟩ <| .nil _, rfl, by decide, by decide⟩
  intro t ht
  cases ht
  decide

theorem resource_rep_exact_madeAndDropped :
    ∃ s M, Represents s M ∧ ∀ (tid : Nat) (t : ResourceTable) (handle : Int),
      zeroImplements.home tid = tid → s.tables tid = some t →
      (RepExact t (M tid) handle ↔ LiveAt t handle) := by
  obtain ⟨s, -, hrun, -⟩ := madeAndDropped_run
  exact ⟨s, resource_rep_exact initial_oneTable hrun⟩

/-- The dropped handle still answers its rep. -/
theorem rep_of_dropped :
    ¬ ∀ (hs : Homes) (s₀ s : HandleTables) (tr : List TransferOp) (received : List (Nat × Int)),
      Initial s₀ → Run (guarded (InOrder hs) lendingNext) (s₀, []) tr (s, received) →
      ∃ M, Represents s M ∧ ∀ (tid : Nat) (t : ResourceTable) (handle : Int),
        hs.home tid = tid → s.tables tid = some t → RepExact t (M tid) handle := by
  intro hall
  obtain ⟨s, t, hrun, ht, hdead, hrep⟩ := madeAndDropped_run
  obtain ⟨M, hM, hexact⟩ := hall zeroImplements oneTable s madeAndDropped _ initial_oneTable hrun
  have hR : Refines t (M 0) := ensureTable_reps ht ▸ hM 0
  obtain ⟨e, he⟩ := (hexact 0 t 1 rfl ht).dead fun i b hi hb =>
    absurd ((liveAt_iff hR).2 ⟨i, b, hi, hb⟩) hdead
  cases hrep.symm.trans he

end Jco.Resource

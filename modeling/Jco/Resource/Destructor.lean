import Jco.Resource.HostObject
import Jco.Resource.TableLaw

/-! # Destructor exactly once

The abstract machine says who holds each live own: the component or one host
object. Every creation gets an id of its own, and releasing an own moves its
id to `destroyed`. The generated code refines this machine in runs where the
component hands out what it holds and `dispose` is called on the object that
its closure names.
-/

namespace Jco.Resource

open Jco.Js Jco.Lib Function List HostState

/-! ## The abstract machine -/

/-- A live own: the id of its creation, its rep, and the host object holding
it (`none` for the component). -/
structure Own where
  id : Nat
  rep : Int
  holder : Option Nat
deriving DecidableEq, Repr

structure OwnState where
  owns : Nat → Option Own
  nextId : Nat
  objCount : Nat
  destroyed : List (Nat × Int)

def OwnState.init : OwnState where
  owns _ := none
  nextId := 0
  objCount := 0
  destroyed := []

namespace OwnState

variable (a : OwnState)

/-- The component creates an own. -/
def create (h : Nat) (rep : Int) : OwnState where
  owns := Function.update a.owns h (some ⟨a.nextId, rep, none⟩)
  nextId := a.nextId + 1
  objCount := a.objCount
  destroyed := a.destroyed

/-- The own `w` under `h` changes its holder. -/
def move (h : Nat) (w : Own) (holder : Option Nat) : OwnState where
  owns := Function.update a.owns h (some { w with holder })
  nextId := a.nextId
  objCount := a.objCount
  destroyed := a.destroyed

/-- The own `w` under `h` is removed and destroyed. -/
def release (h : Nat) (w : Own) : OwnState where
  owns := Function.update a.owns h none
  nextId := a.nextId
  objCount := a.objCount
  destroyed := a.destroyed ++ [(w.id, w.rep)]

/-- A host object is made for an own of the component. -/
def lift (h : Nat) (w : Own) : OwnState :=
  { a.move h w (some a.objCount) with objCount := a.objCount + 1 }

/-- `o` holds the own `w` under `h`. -/
def Holds (o h : Nat) (w : Own) : Prop := a.owns h = some w ∧ w.holder = some o

/-- `o` holds nothing. -/
def HoldsNothing (o : Nat) : Prop := ∀ h w, ¬ a.Holds o h w

end OwnState

/-- Lifting handles, all of them held by the component. -/
inductive LiftsAll : OwnState → List Nat → OwnState → Prop where
  | nil (a : OwnState) : LiftsAll a [] a
  | cons {a a' : OwnState} {h : Nat} {hs : List Nat} {w : Own} :
      a.owns h = some w → w.holder = none → LiftsAll (a.lift h w) hs a' → LiftsAll a (h :: hs) a'

/-- Releasing what `o` holds, or nothing when it holds nothing. -/
def ReleasesHeld (a : OwnState) (o : Nat) (ans : HostAnswer) (a' : OwnState) : Prop :=
  (∃ h w, a.Holds o h w ∧ ans = .released h w.rep ∧ a' = a.release h w) ∨
    (a.HoldsNothing o ∧ ans = .nothing ∧ a' = a)

/-- The abstract machine as a labelled action. -/
def ownNext (info : ResourceInfo) : Action (HostEvent × HostAnswer) OwnState :=
  fun l a a' =>
    match l.1 with
    | .resourceNew rep => ∃ h : Nat, l.2 = .handle h ∧ a.owns h = none ∧ a' = a.create h rep
    | .resourceDrop h =>
      ∃ w, a.owns h = some w ∧ w.holder = none ∧ l.2 = .released h w.rep ∧ a' = a.release h w
    | .callReturns ty val =>
      l.2 = .objects (List.range' a.objCount (liftsOf ty val).length) ∧
        LiftsAll a ((liftsOf ty val).map (·.2)) a'
    | .dispose o => ReleasesHeld a o l.2 a'
    | .passBack o =>
      (∃ (h : Nat) (w : Own), a.Holds o h w ∧ l.2 = .handle h ∧ a' = a.move h w none) ∨
        (a.HoldsNothing o ∧ l.2 = .threw info.invalid ∧ a' = a)
    | .finalize o => ReleasesHeld a o l.2 a'

/-- Ids are never reused: a live own has a fresh one, a destroyed one is listed
once, and an object holds one own. -/
structure OwnState.Inv (a : OwnState) : Prop where
  live_lt : ∀ h w, a.owns h = some w → w.id < a.nextId
  live_inj : ∀ h h' w w', a.owns h = some w → a.owns h' = some w' → w.id = w'.id → h = h'
  dead : ∀ d ∈ a.destroyed, d.1 < a.nextId ∧ ∀ h w, a.owns h = some w → w.id ≠ d.1
  once : (a.destroyed.map (·.1)).Nodup
  holder_lt : ∀ o h w, a.Holds o h w → o < a.objCount
  holder_inj : ∀ o h h' w w', a.Holds o h w → a.Holds o h' w' → h = h'

namespace OwnState

theorem inv_init : init.Inv := by
  constructor
  case once => exact nodup_nil
  case dead => exact fun d hd => absurd hd not_mem_nil
  case live_lt => exact fun h w hw => absurd hw (by simp [init])
  case live_inj => exact fun h h' w w' hw => absurd hw (by simp [init])
  case holder_lt => exact fun o h w hw => absurd hw.1 (by simp [init])
  case holder_inj => exact fun o h h' w w' hw => absurd hw.1 (by simp [init])

variable {a : OwnState}

theorem owns_create (h j : Nat) (rep : Int) :
    (a.create h rep).owns j = if j = h then some ⟨a.nextId, rep, none⟩ else a.owns j := by
  simp [create, update_apply]

theorem owns_move (h j : Nat) (w : Own) (holder : Option Nat) :
    (a.move h w holder).owns j = if j = h then some { w with holder } else a.owns j := by
  simp [move, update_apply]

theorem owns_release (h j : Nat) (w : Own) :
    (a.release h w).owns j = if j = h then none else a.owns j := by
  simp [release, update_apply]

theorem owns_lift (h j : Nat) (w : Own) :
    (a.lift h w).owns j = if j = h then some { w with holder := some a.objCount }
      else a.owns j := by
  simp [lift, move, update_apply]

theorem Inv.create (hi : a.Inv) {h : Nat} (rep : Int) : (a.create h rep).Inv := by
  have hcases : ∀ j w, (a.create h rep).owns j = some w →
      (j = h ∧ w.id = a.nextId ∧ w.holder = none) ∨ (j ≠ h ∧ a.owns j = some w) := by
    intro j w hw
    rw [owns_create] at hw
    split at hw
    case isTrue hj =>
      cases hw
      exact Or.inl ⟨hj, rfl, rfl⟩
    case isFalse hj => exact Or.inr ⟨hj, hw⟩
  have hheld : ∀ o j w, (a.create h rep).Holds o j w → a.Holds o j w := by
    rintro o j w ⟨hw, ho⟩
    rcases hcases j w hw with ⟨-, -, hnone⟩ | ⟨-, hw⟩
    · rw [hnone] at ho
      cases ho
    · exact ⟨hw, ho⟩
  constructor
  case once => exact hi.once
  case live_lt =>
    intro j w hw
    have hid : w.id ≤ a.nextId := by
      rcases hcases j w hw with ⟨-, hid, -⟩ | ⟨-, hw⟩
      · omega
      · exact Nat.le_of_lt (hi.live_lt j w hw)
    exact Nat.lt_succ_of_le hid
  case live_inj =>
    intro j j' w w' hw hw' hid
    rcases hcases j w hw with ⟨hj, hn, -⟩ | ⟨-, hw⟩
    · rcases hcases j' w' hw' with ⟨hj', -, -⟩ | ⟨-, hw'⟩
      · omega
      · have := hi.live_lt j' w' hw'
        omega
    · rcases hcases j' w' hw' with ⟨-, hn, -⟩ | ⟨-, hw'⟩
      · have := hi.live_lt j w hw
        omega
      · exact hi.live_inj j j' w w' hw hw' hid
  case dead =>
    intro d hd
    have hdead := hi.dead d hd
    refine ⟨Nat.lt_succ_of_lt hdead.1, ?_⟩
    intro j w hw
    rcases hcases j w hw with ⟨-, hid, -⟩ | ⟨-, hw⟩
    · omega
    · exact hdead.2 j w hw
  case holder_lt => exact fun o j w hw => hi.holder_lt o j w (hheld o j w hw)
  case holder_inj =>
    intro o j j' w w' hw hw'
    exact hi.holder_inj o j j' w w' (hheld o j w hw) (hheld o j' w' hw')

/-- Changing the holder to nobody, or to an object that holds nothing. -/
theorem Inv.move (hi : a.Inv) {h : Nat} {w : Own} (hw : a.owns h = some w) {holder : Option Nat}
    (hnew : ∀ o, holder = some o → o < a.objCount ∧ a.HoldsNothing o) : (a.move h w holder).Inv := by
  have hcases : ∀ j v, (a.move h w holder).owns j = some v →
      ∃ v', a.owns j = some v' ∧ v.id = v'.id ∧ (j = h → v.holder = holder) ∧
        (j ≠ h → v = v') := by
    intro j v hv
    rw [owns_move] at hv
    split at hv
    case isTrue hj =>
      cases hv
      exact ⟨w, hj ▸ hw, rfl, fun _ => rfl, fun hne => absurd hj hne⟩
    case isFalse hj => exact ⟨v, hv, rfl, fun he => absurd he hj, fun _ => rfl⟩
  have hheld : ∀ o j v, (a.move h w holder).Holds o j v →
      (j = h ∧ holder = some o) ∨ (j ≠ h ∧ a.Holds o j v) := by
    rintro o j v ⟨hv, ho⟩
    rcases hcases j v hv with ⟨v', hv', -, hsame, hother⟩
    by_cases hj : j = h
    · exact Or.inl ⟨hj, hsame hj ▸ ho⟩
    · exact Or.inr ⟨hj, hother hj ▸ hv', ho⟩
  constructor
  case once => exact hi.once
  case live_lt =>
    intro j v hv
    rcases hcases j v hv with ⟨v', hv', hid, -⟩
    exact hid ▸ hi.live_lt j v' hv'
  case live_inj =>
    intro j j' v v' hv hv' hid
    rcases hcases j v hv with ⟨u, hu, hidu, -⟩
    rcases hcases j' v' hv' with ⟨u', hu', hidu', -⟩
    exact hi.live_inj j j' u u' hu hu' (by omega)
  case dead =>
    intro d hd
    refine ⟨(hi.dead d hd).1, ?_⟩
    intro j v hv
    rcases hcases j v hv with ⟨v', hv', hid, -⟩
    exact hid ▸ (hi.dead d hd).2 j v' hv'
  case holder_lt =>
    intro o j v hv
    rcases hheld o j v hv with ⟨-, ho⟩ | ⟨-, hv⟩
    · exact (hnew o ho).1
    · exact hi.holder_lt o j v hv
  case holder_inj =>
    intro o j j' v v' hv hv'
    rcases hheld o j v hv with ⟨hj, ho⟩ | ⟨-, hv⟩
    · rcases hheld o j' v' hv' with ⟨hj', -⟩ | ⟨-, hv'⟩
      · exact hj.trans hj'.symm
      · exact absurd hv' ((hnew o ho).2 j' v')
    · rcases hheld o j' v' hv' with ⟨-, ho⟩ | ⟨-, hv'⟩
      · exact absurd hv ((hnew o ho).2 j v)
      · exact hi.holder_inj o j j' v v' hv hv'

theorem Inv.release (hi : a.Inv) {h : Nat} {w : Own} (hw : a.owns h = some w) :
    (a.release h w).Inv := by
  have hcases : ∀ j v, (a.release h w).owns j = some v → j ≠ h ∧ a.owns j = some v := by
    intro j v hv
    rw [owns_release] at hv
    split at hv
    case isTrue => cases hv
    case isFalse hj => exact ⟨hj, hv⟩
  have hheld : ∀ o j v, (a.release h w).Holds o j v → a.Holds o j v :=
    fun o j v hv => ⟨(hcases j v hv.1).2, hv.2⟩
  constructor
  case live_lt => exact fun j v hv => hi.live_lt j v (hcases j v hv).2
  case live_inj =>
    exact fun j j' v v' hv hv' => hi.live_inj j j' v v' (hcases j v hv).2 (hcases j' v' hv').2
  case dead =>
    intro d hd
    rcases mem_append.1 hd with hd | hd
    · exact ⟨(hi.dead d hd).1, fun j v hv => (hi.dead d hd).2 j v (hcases j v hv).2⟩
    · rw [mem_singleton] at hd
      subst hd
      refine ⟨hi.live_lt h w hw, ?_⟩
      intro j v hv hid
      exact (hcases j v hv).1 (hi.live_inj j h v w (hcases j v hv).2 hw hid)
  case once =>
    show ((a.destroyed ++ [(w.id, w.rep)]).map (·.1)).Nodup
    rw [map_append, nodup_append]
    refine ⟨hi.once, nodup_singleton _, ?_⟩
    intro x hx y hy
    rcases mem_map.1 hx with ⟨d, hd, rfl⟩
    rw [map_singleton, mem_singleton] at hy
    subst hy
    exact fun he => (hi.dead d hd).2 h w hw he.symm
  case holder_lt => exact fun o j v hv => hi.holder_lt o j v (hheld o j v hv)
  case holder_inj =>
    exact fun o j j' v v' hv hv' => hi.holder_inj o j j' v v' (hheld o j v hv) (hheld o j' v' hv')

/-- The next object holds nothing yet. -/
theorem Inv.next_holdsNothing (hi : a.Inv) : a.HoldsNothing a.objCount := by
  intro h w hw
  exact absurd (hi.holder_lt _ h w hw) (Nat.lt_irrefl _)

theorem Inv.lift (hi : a.Inv) {h : Nat} {w : Own} (hw : a.owns h = some w) : (a.lift h w).Inv := by
  have hcount : Inv { a with objCount := a.objCount + 1 } := by
    constructor
    case live_lt => exact hi.live_lt
    case live_inj => exact hi.live_inj
    case dead => exact hi.dead
    case once => exact hi.once
    case holder_lt => exact fun o j v hv => Nat.lt_succ_of_lt (hi.holder_lt o j v hv)
    case holder_inj => exact hi.holder_inj
  refine hcount.move hw ?_
  intro o ho
  cases ho
  exact ⟨Nat.lt_succ_self _, hi.next_holdsNothing⟩

end OwnState

/-! ## The refinement relation -/

/-- The live bindings of the handle table. -/
def OwnState.bindings (a : OwnState) : HandleMap :=
  fun h => (a.owns h).map fun w => ⟨0, w.rep, true⟩

/-- `o` holds the handle `h`: both properties are set, the variables of its
closure name `h` exactly if they name `o`, and `h` is registered for it. -/
structure Holding (s : HostState) (a : OwnState) (o h : Nat) : Prop where
  holds : ∃ w, a.Holds o h w
  obj : ∃ call site, s.objs o = some ⟨some h, some (call, site)⟩ ∧
    ∃ rsc handle, s.vars call site = some (rsc, handle) ∧ (rsc = o ↔ handle = h)
  registered : ∀ x, (o, x) ∈ s.registry ↔ x = h

/-- `o` holds nothing: it was collected or its properties are cleared. -/
structure Cleared (s : HostState) (a : OwnState) (o : Nat) : Prop where
  holds : a.HoldsNothing o
  obj : s.objs o = none ∨ s.objs o = some ⟨none, none⟩
  registered : ∀ x, (o, x) ∉ s.registry

def ObjMatches (s : HostState) (a : OwnState) (o : Nat) : Prop :=
  (∃ h, Holding s a o h) ∨ Cleared s a o

/-- The relation between the host state and the abstract machine. -/
structure HostMatches (info : ResourceInfo) (s : HostState) (a : OwnState) : Prop where
  table : Refines s.table a.bindings
  objs : ∀ o, ObjMatches s a o
  count : s.objCount = a.objCount
  inv : a.Inv
  dtors : s.dtorCalls = if info.hasDtor then a.destroyed.map (·.2) else []

theorem matches_init (info : ResourceInfo) : HostMatches info .init .init := by
  constructor
  case table => exact refines_fresh
  case objs =>
    intro o
    refine Or.inr ⟨?_, Or.inl rfl, fun x => not_mem_nil⟩
    intro h w hw
    exact absurd hw.1 (by simp [OwnState.init])
  case count => rfl
  case inv => exact OwnState.inv_init
  case dtors => simp [init, OwnState.init]

/-- Frame rule: an object keeps matching when its properties, its registrations
and its holdings stay, and variables change only to name another object with
another handle. -/
theorem ObjMatches.frame {s s' : HostState} {a a' : OwnState} {o : Nat}
    (h : ObjMatches s a o) (hobj : s'.objs o = s.objs o)
    (hvars : ∀ call site, s'.vars call site = s.vars call site ∨
      ∃ rsc handle, s'.vars call site = some (rsc, handle) ∧ rsc ≠ o ∧ ∀ w, ¬ a.Holds o handle w)
    (hreg : ∀ x, (o, x) ∈ s'.registry ↔ (o, x) ∈ s.registry)
    (hholds : ∀ h w, a'.Holds o h w ↔ a.Holds o h w) : ObjMatches s' a' o := by
  rcases h with ⟨h, hh⟩ | hc
  · left
    refine ⟨h, ?_, ?_, fun x => (hreg x).trans (hh.registered x)⟩
    · rcases hh.holds with ⟨w, hw⟩
      exact ⟨w, (hholds h w).2 hw⟩
    · rcases hh.obj with ⟨call, site, hset, rsc, handle, hvar, hname⟩
      refine ⟨call, site, hobj.trans hset, ?_⟩
      rcases hvars call site with hsame | ⟨rsc', handle', hnew, hne, hfree⟩
      · exact ⟨rsc, handle, hsame.trans hvar, hname⟩
      · refine ⟨rsc', handle', hnew, fun he => absurd he hne, ?_⟩
        rintro rfl
        rcases hh.holds with ⟨w, hw⟩
        exact absurd hw (hfree w)
  · right
    refine ⟨?_, ?_, fun x hx => hc.registered x ((hreg x).1 hx)⟩
    · intro h w hw
      exact hc.holds h w ((hholds h w).1 hw)
    · rw [hobj]
      exact hc.obj

/-! ### Holdings after each abstract step -/

section

variable {a : OwnState} {o o' h : Nat} {w : Own}

theorem holds_create (hfree : a.owns h = none) {rep : Int} (j : Nat) (v : Own) :
    (a.create h rep).Holds o j v ↔ a.Holds o j v := by
  unfold OwnState.Holds
  rw [OwnState.owns_create]
  split
  case isTrue hj =>
    rw [hj, hfree]
    constructor
    · rintro ⟨hv, ho⟩
      cases hv
      cases ho
    · rintro ⟨hv, -⟩
      cases hv
  case isFalse => exact Iff.rfl

theorem holds_move_ne (hw : a.owns h = some w) {holder : Option Nat} (hold : w.holder ≠ some o)
    (hnew : holder ≠ some o) (j : Nat) (v : Own) :
    (a.move h w holder).Holds o j v ↔ a.Holds o j v := by
  unfold OwnState.Holds
  rw [OwnState.owns_move]
  split
  case isTrue hj =>
    rw [hj, hw]
    constructor
    · rintro ⟨hv, ho⟩
      cases hv
      exact absurd ho hnew
    · rintro ⟨hv, ho⟩
      cases hv
      exact absurd ho hold
  case isFalse => exact Iff.rfl

theorem holds_release_ne (hw : a.owns h = some w) (hold : w.holder ≠ some o) (j : Nat) (v : Own) :
    (a.release h w).Holds o j v ↔ a.Holds o j v := by
  unfold OwnState.Holds
  rw [OwnState.owns_release]
  split
  case isTrue hj =>
    rw [hj, hw]
    constructor
    · rintro ⟨hv, -⟩
      cases hv
    · rintro ⟨hv, ho⟩
      cases hv
      exact absurd ho hold
  case isFalse => exact Iff.rfl

/-- After a release the former holder holds nothing. -/
theorem holdsNothing_release (hi : a.Inv) (hw : a.Holds o h w) :
    (a.release h w).HoldsNothing o := by
  rintro j v ⟨hv, ho⟩
  rw [OwnState.owns_release] at hv
  split at hv
  case isTrue => cases hv
  case isFalse hj => exact hj (hi.holder_inj o j h v w ⟨hv, ho⟩ hw)

theorem holdsNothing_move (hi : a.Inv) (hw : a.Holds o h w) :
    (a.move h w none).HoldsNothing o := by
  rintro j v ⟨hv, ho⟩
  rw [OwnState.owns_move] at hv
  split at hv
  case isTrue =>
    cases hv
    cases ho
  case isFalse hj => exact hj (hi.holder_inj o j h v w ⟨hv, ho⟩ hw)

theorem bindings_release : (a.release h w).bindings = a.bindings.unbind h := by
  funext j
  rw [HandleMap.unbind_apply]
  unfold OwnState.bindings
  rw [OwnState.owns_release]
  split <;> rfl

theorem bindings_move (hw : a.owns h = some w) (holder : Option Nat) :
    (a.move h w holder).bindings = a.bindings := by
  funext j
  unfold OwnState.bindings
  rw [OwnState.owns_move]
  split
  case isTrue hj => rw [hj, hw]; rfl
  case isFalse => rfl

theorem bindings_create (rep : Int) :
    (a.create h rep).bindings = a.bindings.bind h ⟨0, rep, true⟩ := by
  funext j
  rw [HandleMap.bind_apply]
  unfold OwnState.bindings
  rw [OwnState.owns_create]
  split <;> rfl

theorem bindings_some (hw : a.owns h = some w) : a.bindings h = some ⟨0, w.rep, true⟩ := by
  unfold OwnState.bindings
  rw [hw]
  rfl

end

theorem mem_unregister {s : HostState} {o o' x : Nat} :
    (o, x) ∈ (s.unregister o').registry ↔ (o, x) ∈ s.registry ∧ o ≠ o' := by
  simp [unregister, mem_filter]

theorem dtors_release {info : ResourceInfo} {s : HostState} {a : OwnState} {h : Nat} {w : Own}
    (hm : s.dtorCalls = if info.hasDtor then a.destroyed.map (·.2) else []) :
    (s.runDtor info w.rep).dtorCalls =
      if info.hasDtor then (a.release h w).destroyed.map (·.2) else [] := by
  simp only [runDtor, OwnState.release, hm]
  split <;> simp

/-! ## The events -/

section

variable {info : ResourceInfo} {s s' : HostState} {a : OwnState} {ans : HostAnswer}

/-- What the code may assume about a handle of the component: it is the handle
of a live own that no host object holds. -/
def GuestHolds (s : HostState) (h : Nat) : Prop :=
  h < 2 ^ 31 ∧ (∃ e, rscTableGet s.table h = .ok e ∧ e.own = true) ∧
    ∀ o obj, s.objs o = some obj → obj.handle ≠ some h

/-- A handle held by the component belongs to an own without a holder. -/
theorem GuestHolds.own (hm : HostMatches info s a) {h : Nat} (hg : GuestHolds s h) :
    ∃ w, a.owns h = some w ∧ w.holder = none := by
  rcases hg with ⟨hlt, ⟨e, hget, -⟩, hobjs⟩
  rcases handle_cases hm.table hlt with ⟨b, hb⟩ | ⟨-, hfl | hpe⟩
  · rcases hw : a.owns h with _ | w
    · simp [OwnState.bindings, hw] at hb
    · refine ⟨w, rfl, ?_⟩
      rcases ho : w.holder with _ | o
      · rfl
      · rcases hm.objs o with ⟨h', hh⟩ | hc
        · rcases hh.holds with ⟨w', hw'⟩
          have hsame := hm.inv.holder_inj o h' h w' w hw' ⟨hw, ho⟩
          rcases hh.obj with ⟨call, site, hset, -⟩
          exact absurd (by rw [hsame]) (hobjs o _ hset)
        · exact absurd ⟨hw, ho⟩ (hc.holds h w)
  · rw [get_flagged hfl] at hget
    cases hget
  · rw [get_pastEnd hm.table hpe] at hget
    cases hget

/-- Removing the handle of a live own. -/
theorem remove_own (hm : HostMatches info s a) {h : Nat} {w : Own} (hw : a.owns h = some w) :
    ∃ table, rscTableRemove s.table h = .ok (⟨w.rep, some 0, true⟩, table) ∧
      Refines table (a.release h w).bindings := by
  rcases remove_live_refines hm.table (bindings_some hw) with ⟨table, hcall, href⟩
  exact ⟨table, hcall, bindings_release ▸ href⟩

/-- A release matches when the former holder, if any, is cleared. -/
theorem matches_release (hm : HostMatches info s a) {h : Nat} {w : Own} (hw : a.owns h = some w)
    {table : ResourceTable} (href : Refines table (a.release h w).bindings)
    {objs : Nat → Option HostObj} {registry : List (Nat × Nat)}
    (hobjs : ∀ o, w.holder ≠ some o → objs o = s.objs o ∧
      ∀ x, (o, x) ∈ registry ↔ (o, x) ∈ s.registry)
    (hholder : ∀ o, w.holder = some o → (objs o = none ∨ objs o = some ⟨none, none⟩) ∧
      ∀ x, (o, x) ∉ registry) :
    HostMatches info ({ s with table, objs, registry }.runDtor info w.rep) (a.release h w) := by
  constructor
  case table => exact href
  case count => exact hm.count
  case inv => exact hm.inv.release hw
  case dtors => exact dtors_release hm.dtors
  case objs =>
    intro o
    by_cases ho : w.holder = some o
    · right
      rcases hholder o ho with ⟨hcleared, hreg⟩
      exact ⟨holdsNothing_release hm.inv ⟨hw, ho⟩, hcleared, hreg⟩
    · rcases hobjs o ho with ⟨hsame, hreg⟩
      exact (hm.objs o).frame hsame (fun _ _ => Or.inl rfl) hreg (holds_release_ne hw ho)

theorem resourceNew_matches (hm : HostMatches info s a) {rep : Int} (hrep : Small rep)
    (hne : rep ≠ 0) (hroom : HasRoom s.table) (hcall : s.resourceNew rep = (s', ans)) :
    ∃ a', ownNext info (.resourceNew rep, ans) a a' ∧ HostMatches info s' a' := by
  rcases createOwn_refines hm.table hrep hne hroom with ⟨h, hh, -, hdead, href⟩
  have hfree : a.owns h = none := by
    rcases hw : a.owns h with _ | w
    · rfl
    · rw [bindings_some hw] at hdead
      cases hdead
  cases hcall
  refine ⟨a.create h rep, ⟨h, congrArg _ hh, hfree, rfl⟩, ?_⟩
  constructor
  case table =>
    rw [bindings_create]
    exact href
  case count => exact hm.count
  case inv => exact hm.inv.create rep
  case dtors => exact hm.dtors
  case objs =>
    exact fun o => (hm.objs o).frame rfl (fun _ _ => Or.inl rfl) (fun _ => Iff.rfl)
      (holds_create hfree)

theorem resourceDrop_matches (hm : HostMatches info s a) {h : Nat} (hg : GuestHolds s h)
    (hcall : s.resourceDrop info h = (s', ans)) :
    ∃ a', ownNext info (.resourceDrop h, ans) a a' ∧ HostMatches info s' a' := by
  rcases hg.own hm with ⟨w, hw, hnone⟩
  rcases remove_own hm hw with ⟨table, hremove, href⟩
  simp only [resourceDrop, hremove, if_true] at hcall
  cases hcall
  refine ⟨a.release h w, ⟨w, hw, hnone, rfl, rfl⟩, ?_⟩
  apply matches_release hm hw href
  · exact fun o _ => ⟨rfl, fun _ => Iff.rfl⟩
  · intro o ho
    rw [hnone] at ho
    cases ho

theorem finalize_matches (hm : HostMatches info s a) {o : Nat}
    (hcall : s.finalize info o = (s', ans)) :
    ∃ a', ownNext info (.finalize o, ans) a a' ∧ HostMatches info s' a' := by
  have hother : ∀ o', o' ≠ o → (s.setObj o none).objs o' = s.objs o' := by
    intro o' hne
    simp [setObj, update_of_ne hne]
  -- the object holds its handle, or it has been cleared and nothing is registered
  rcases hm.objs o with ⟨h, hh⟩ | hc
  · rcases hh.holds with ⟨w, hw, ho⟩
    rcases remove_own hm hw with ⟨table, hremove, href⟩
    have hfind : ∃ c, s.registry.find? (·.1 = o) = some c ∧ c.2 = h := by
      rcases hf : s.registry.find? (·.1 = o) with _ | ⟨o', x⟩
      · have hnone := List.find?_eq_none.1 hf (o, h) ((hh.registered h).2 rfl)
        simp at hnone
      · have hmem := mem_of_find?_eq_some hf
        have hkey : o' = o := by simpa using List.find?_some hf
        exact ⟨(o', x), hf, (hh.registered x).1 (hkey ▸ hmem)⟩
    rcases hfind with ⟨⟨o', x⟩, hfind, rfl⟩
    simp only [finalize, hfind] at hcall
    have hremove' : rscTableRemove ((s.unregister o).setObj o none).table x =
        .ok (⟨w.rep, some 0, true⟩, table) := hremove
    simp only [hremove'] at hcall
    cases hcall
    refine ⟨a.release x w, Or.inl ⟨x, w, ⟨hw, ho⟩, rfl, rfl⟩, ?_⟩
    apply matches_release hm hw href
    · intro o' ho'
      have hne : o' ≠ o := by
        rintro rfl
        exact ho' ho
      refine ⟨hother o' hne, fun y => ?_⟩
      exact mem_unregister.trans (and_iff_left hne)
    · intro o' ho'
      rw [ho] at ho'
      cases ho'
      refine ⟨Or.inl ?_, fun y hy => (mem_unregister.1 hy).2 rfl⟩
      simp [setObj]
  · have hfind : s.registry.find? (·.1 = o) = none := by
      rw [List.find?_eq_none]
      rintro ⟨o', x⟩ hmem hkey
      have hkey : o' = o := by simpa using hkey
      exact hc.registered x (hkey ▸ hmem)
    simp only [finalize, hfind] at hcall
    cases hcall
    refine ⟨a, Or.inr ⟨hc.holds, rfl, rfl⟩, ?_⟩
    constructor
    case table => exact hm.table
    case count => exact hm.count
    case inv => exact hm.inv
    case dtors => exact hm.dtors
    case objs =>
      intro o'
      by_cases hne : o' = o
      · subst hne
        exact Or.inr ⟨hc.holds, Or.inl (by simp [setObj]), hc.registered⟩
      · exact (hm.objs o').frame (hother o' hne) (fun _ _ => Or.inl rfl) (fun _ => Iff.rfl)
          (fun _ _ => Iff.rfl)

/-- The variables of the `dispose` closure of `o` still name `o`. -/
def OwnClosure (s : HostState) (o : Nat) : Prop :=
  ∀ obj call site, s.objs o = some obj → obj.dispose = some (call, site) →
    ∃ handle, s.vars call site = some (o, handle)

theorem dispose_matches (hm : HostMatches info s a) {o : Nat} (hown : OwnClosure s o)
    (hcall : s.dispose info o = (s', ans)) :
    ∃ a', ownNext info (.dispose o, ans) a a' ∧ HostMatches info s' a' := by
  rcases hm.objs o with ⟨h, hh⟩ | hc
  · rcases hh.holds with ⟨w, hw, ho⟩
    rcases remove_own hm hw with ⟨table, hremove, href⟩
    rcases hh.obj with ⟨call, site, hset, rsc, handle, hvar, hname⟩
    rcases hown _ call site hset rfl with ⟨handle', hvar'⟩
    rw [hvar] at hvar'
    cases hvar'
    have hsame := hname.1 rfl
    subst hsame
    have hremove' : rscTableRemove (s.unregister o).table handle =
        .ok (⟨w.rep, some 0, true⟩, table) := hremove
    simp only [dispose, hset, hvar, hremove'] at hcall
    cases hcall
    refine ⟨a.release handle w, Or.inl ⟨handle, w, ⟨hw, ho⟩, rfl, rfl⟩, ?_⟩
    apply matches_release hm hw href
    · intro o' ho'
      have hne : o' ≠ o := by
        rintro rfl
        exact ho' ho
      refine ⟨?_, fun y => ?_⟩
      · exact update_of_ne hne _ _
      · exact mem_unregister.trans (and_iff_left hne)
    · intro o' ho'
      rw [ho] at ho'
      cases ho'
      refine ⟨Or.inr ?_, fun y hy => (mem_unregister.1 hy).2 rfl⟩
      exact update_self _ _ _
  · have hsame : s.dispose info o = (s, .nothing) := by
      rcases hc.obj with hnone | hset
      · simp only [dispose, hnone]
      · simp only [dispose, hset]
    rw [hsame] at hcall
    cases hcall
    exact ⟨a, Or.inr ⟨hc.holds, rfl, rfl⟩, hm⟩

theorem passBack_matches (hm : HostMatches info s a) {o : Nat}
    (hcall : s.passBack info o = (s', ans)) :
    ∃ a', ownNext info (.passBack o, ans) a a' ∧ HostMatches info s' a' := by
  rcases hm.objs o with ⟨h, hh⟩ | hc
  · rcases hh.holds with ⟨w, hw, ho⟩
    rcases hh.obj with ⟨call, site, hset, -⟩
    have hpos : h ≠ 0 := by
      rintro rfl
      rcases hm.table with ⟨n, free, hst⟩
      have hzero := hst.zero
      rw [bindings_some hw] at hzero
      cases hzero
    rcases Nat.exists_eq_succ_of_ne_zero hpos with ⟨k, rfl⟩
    simp only [passBack, hset] at hcall
    cases hcall
    refine ⟨a.move (k + 1) w none, Or.inl ⟨k + 1, w, ⟨hw, ho⟩, rfl, rfl⟩, ?_⟩
    constructor
    case table =>
      rw [bindings_move hw]
      exact hm.table
    case count => exact hm.count
    case inv => exact hm.inv.move hw fun o' ho' => by cases ho'
    case dtors => exact hm.dtors
    case objs =>
      intro o'
      by_cases hne : o' = o
      · subst hne
        right
        refine ⟨holdsNothing_move hm.inv ⟨hw, ho⟩, Or.inr ?_, fun y hy => ?_⟩
        · exact update_self _ _ _
        · exact (mem_unregister.1 hy).2 rfl
      · have hholder : w.holder ≠ some o' := by
          rw [ho]
          intro he
          exact hne (Option.some.inj he).symm
        apply (hm.objs o').frame
        · exact update_of_ne hne _ _
        · exact fun _ _ => Or.inl rfl
        · exact fun y => mem_unregister.trans (and_iff_left hne)
        · exact holds_move_ne hw hholder (by simp)
  · have hthrow : s.passBack info o = (s, .threw info.invalid) := by
      rcases hc.obj with hnone | hset
      · simp only [passBack, hnone]
      · simp only [passBack, hset]
    rw [hthrow] at hcall
    cases hcall
    exact ⟨a, Or.inr ⟨hc.holds, rfl, rfl⟩, hm⟩

/-- One `HandleLift` of a handle that the component holds. -/
theorem handleLift_matches (hm : HostMatches info s a) (site : Nat) {h : Nat} {w : Own}
    (hw : a.owns h = some w) (hnone : w.holder = none) :
    HostMatches info (s.handleLift site h) (a.lift h w) := by
  have hfresh : (s.handleLift site h).objs s.objCount = some ⟨some h, some (s.calls, site)⟩ :=
    update_self _ _ _
  constructor
  case table =>
    have hb : (a.lift h w).bindings = a.bindings := bindings_move hw (some a.objCount)
    rw [hb]
    exact hm.table
  case count =>
    show s.objCount + 1 = a.objCount + 1
    rw [hm.count]
  case inv => exact hm.inv.lift hw
  case dtors => exact hm.dtors
  case objs =>
    intro o
    -- the new object holds the handle; the others keep what they held
    by_cases ho : o = s.objCount
    · left
      subst ho
      have hno : Cleared s a s.objCount := by
        rcases hm.objs s.objCount with ⟨h', hh⟩ | hc
        · rcases hh.holds with ⟨w', hw'⟩
          exact absurd hw' (hm.count ▸ hm.inv.next_holdsNothing h' w')
        · exact hc
      refine ⟨h, ⟨{ w with holder := some a.objCount }, ?_, ?_⟩, ?_, ?_⟩
      · rw [OwnState.owns_lift, if_pos rfl]
      · rw [hm.count]
      · refine ⟨s.calls, site, hfresh, s.objCount, h, ?_, iff_of_true rfl rfl⟩
        simp [handleLift]
      · intro x
        have hold := hno.registered x
        simp [handleLift, hold]
    · have hholds : ∀ j v, (a.lift h w).Holds o j v ↔ a.Holds o j v := by
        have hold : w.holder ≠ some o := by simp [hnone]
        have hnew : some a.objCount ≠ some o := by
          intro he
          exact ho (hm.count ▸ (Option.some.inj he).symm)
        exact holds_move_ne hw hold hnew
      apply (hm.objs o).frame
      · exact update_of_ne ho _ _
      · intro call site'
        by_cases hcall : call = s.calls ∧ site' = site
        · right
          rcases hcall with ⟨rfl, rfl⟩
          refine ⟨s.objCount, h, by simp [handleLift], fun he => ho he.symm, ?_⟩
          rintro w' ⟨hw', ho'⟩
          rw [hw] at hw'
          cases hw'
          rw [hnone] at ho'
          cases ho'
        · left
          simp only [handleLift, update_apply]
          by_cases hc : call = s.calls
          · subst hc
            rw [if_pos rfl, update_apply, if_neg fun hs => hcall ⟨rfl, hs⟩]
          · rw [if_neg hc]
      · intro x
        simp [handleLift, ho]
      · exact hholds

/-- The lifts of a call, for distinct handles that the component holds. -/
theorem liftAll_matches (hm : HostMatches info s a) {lifts : List (Nat × Nat)}
    (hdistinct : (lifts.map (·.2)).Nodup)
    (hheld : ∀ h ∈ lifts.map (·.2), ∃ w, a.owns h = some w ∧ w.holder = none) :
    ∃ a', LiftsAll a (lifts.map (·.2)) a' ∧ HostMatches info (s.liftAll lifts) a' := by
  induction lifts generalizing s a with
  | nil => exact ⟨a, .nil a, hm⟩
  | cons lift rest ih =>
    rcases lift with ⟨site, h⟩
    rcases hheld h (by simp) with ⟨w, hw, hnone⟩
    rw [map_cons, nodup_cons] at hdistinct
    have hrest : ∀ j ∈ rest.map (·.2), ∃ v, (a.lift h w).owns j = some v ∧ v.holder = none := by
      intro j hj
      have hne : j ≠ h := fun he => hdistinct.1 (he ▸ hj)
      rw [OwnState.owns_lift, if_neg hne]
      exact hheld j (by simp only [map_cons, mem_cons, hj, or_true])
    rcases ih (handleLift_matches hm site hw hnone) hdistinct.2 hrest with ⟨a', hlifts, hm'⟩
    exact ⟨a', .cons hw hnone hlifts, hm'⟩

/-- The returned handles are distinct handles of the component. -/
def ReturnsOwns (s : HostState) (ty : ResultTy) (val : ResultVal) : Prop :=
  ((liftsOf ty val).map (·.2)).Nodup ∧ ∀ h ∈ (liftsOf ty val).map (·.2), GuestHolds s h

theorem callReturns_matches (hm : HostMatches info s a) {ty : ResultTy} {val : ResultVal}
    (hret : ReturnsOwns s ty val) (hcall : s.callReturns ty val = (s', ans)) :
    ∃ a', ownNext info (.callReturns ty val, ans) a a' ∧ HostMatches info s' a' := by
  rcases liftAll_matches hm hret.1 fun h hh => (hret.2 h hh).own hm with ⟨a', hlifts, hm'⟩
  cases hcall
  refine ⟨a', ⟨by rw [hm.count], hlifts⟩, ?_⟩
  constructor
  case table => exact hm'.table
  case count => exact hm'.count
  case inv => exact hm'.inv
  case dtors => exact hm'.dtors
  case objs =>
    exact fun o => (hm'.objs o).frame rfl (fun _ _ => Or.inl rfl) (fun _ => Iff.rfl)
      (fun _ _ => Iff.rfl)

/-- `dispose` releases what the object holds exactly when its closure still
names the object. -/
theorem dispose_conforms_iff (hm : HostMatches info s a) (o : Nat) :
    (∃ a', ReleasesHeld a o (s.dispose info o).2 a') ↔ OwnClosure s o := by
  constructor
  · rintro ⟨a', hrel⟩
    rcases hm.objs o with ⟨h, hh⟩ | hc
    · rcases hh.obj with ⟨call, site, hset, rsc, handle, hvar, hname⟩
      rcases hh.holds with ⟨w, hw⟩
      rcases hrel with ⟨h', w', hw', hans, -⟩ | ⟨hnothing, -⟩
      · have hsame := hm.inv.holder_inj o h h' w w' hw hw'
        simp only [dispose, hset, hvar] at hans
        split at hans
        case h_1 => cases hans
        case h_2 =>
          injection hans with hhandle
          have hrsc : rsc = o := hname.2 (by omega)
          intro obj call' site' hobj hdispose
          rw [hset] at hobj
          cases hobj
          cases hdispose
          exact ⟨handle, hrsc ▸ hvar⟩
      · exact absurd hw (hnothing h w)
    · intro obj call site hobj hdispose
      rcases hc.obj with hnone | hset
      · rw [hnone] at hobj
        cases hobj
      · rw [hset] at hobj
        cases hobj
        cases hdispose
  · intro hown
    rcases dispose_matches hm hown rfl with ⟨a', hrel, -⟩
    exact ⟨a', hrel⟩

end

/-! ## Runs -/

/-- The component behaves: it creates reps that fit the table, and drops and
returns only handles that it holds. -/
def GuestOk (l : HostEvent × HostAnswer) (s : HostState) : Prop :=
  match l.1 with
  | .resourceNew rep => Small rep ∧ rep ≠ 0 ∧ HasRoom s.table
  | .resourceDrop h => GuestHolds s h
  | .callReturns ty val => ReturnsOwns s ty val
  | _ => True

/-- The component behaves, and a disposed object is the one its closure names:
the last that its lifting site made in its call. -/
def DisposesOwn (l : HostEvent × HostAnswer) (s : HostState) : Prop :=
  GuestOk l s ∧ ∀ o, l.1 = .dispose o → OwnClosure s o

/-- The step lemma of the refinement. -/
theorem hostNext_matches {info : ResourceInfo} (l : HostEvent × HostAnswer) (s s' : HostState)
    (a : OwnState) (hnext : guarded DisposesOwn (hostNext info) l s s')
    (hm : HostMatches info s a) : ∃ a', ownNext info l a a' ∧ HostMatches info s' a' := by
  rcases l with ⟨event, ans⟩
  rcases hnext with ⟨⟨hguest, hown⟩, hcall⟩
  cases event with
  | resourceNew rep => exact resourceNew_matches hm hguest.1 hguest.2.1 hguest.2.2 hcall
  | resourceDrop h => exact resourceDrop_matches hm hguest hcall
  | callReturns ty val => exact callReturns_matches hm hguest hcall
  | dispose o => exact dispose_matches hm (hown o rfl) hcall
  | passBack o => exact passBack_matches hm hcall
  | finalize o => exact finalize_matches hm hcall

/-- Destructor exactly once: in a run where objects are disposed through their
own closure, every event answers what the abstract machine does, so that
`dispose` releases the handle lifted for its object or nothing, no creation is
destroyed twice, and the destructor ran on the destroyed reps in order. In each
state reached, the condition on `dispose` is exact. -/
theorem destructor_exactly_once {info : ResourceInfo} {s : HostState}
    {tr : List (HostEvent × HostAnswer)}
    (hrun : Run (guarded DisposesOwn (hostNext info)) .init tr s) :
    ∃ a, Run (ownNext info) .init tr a ∧ Refines s.table a.bindings ∧
      (a.destroyed.map (·.1)).Nodup ∧
      (s.dtorCalls = if info.hasDtor then a.destroyed.map (·.2) else []) ∧
      ∀ o, (∃ a', ReleasesHeld a o (s.dispose info o).2 a') ↔ OwnClosure s o := by
  rcases hrun.simulation hostNext_matches (matches_init info) with ⟨a, habs, hm⟩
  exact ⟨a, habs, hm.table, hm.inv.once, hm.dtors, dispose_conforms_iff hm⟩

/-- A resource with a destructor. -/
def thing : ResourceInfo := ⟨"Thing", true⟩

/-- Two owns of the guest can be returned in a list. -/
theorem returnsOwns_two {s : HostState} (h₁ : GuestHolds s 1) (h₂ : GuestHolds s 2) :
    ReturnsOwns s (.list .own) (.list [.handle 1, .handle 2]) := by
  refine ⟨by decide, ?_⟩
  intro h hh
  have hcases : h = 1 ∨ h = 2 := by simpa [liftsOf, emitLift, LiftCode.lifts,
    LiftCode.liftsEach] using hh
  rcases hcases with rfl | rfl
  · exact h₁
  · exact h₂

/-- A call returns a list of two owns, whose last object is disposed twice. -/
def disposeLastOfTwo : List (HostEvent × HostAnswer) :=
  [(.resourceNew 7, .handle 1), (.resourceNew 8, .handle 2),
    (.callReturns (.list .own) (.list [.handle 1, .handle 2]), .objects [0, 1]),
    (.dispose 1, .released 2 8), (.dispose 1, .nothing)]

theorem disposeLastOfTwo_run :
    ∃ s, Run (guarded DisposesOwn (hostNext thing)) .init disposeLastOfTwo s := by
  refine ⟨_, .cons ⟨⟨⟨by decide, by decide, by decide⟩, fun o he => by cases he⟩, rfl⟩ <|
    .cons ⟨⟨⟨by decide, by decide, by decide⟩, fun o he => by cases he⟩, rfl⟩ <|
    .cons ⟨⟨returnsOwns_two ?_ ?_, fun o he => by cases he⟩, rfl⟩ <|
    .cons ⟨⟨trivial, ?_⟩, rfl⟩ <| .cons ⟨⟨trivial, ?_⟩, rfl⟩ <| .nil _⟩
  · exact ⟨by decide, ⟨_, rfl, rfl⟩, fun o obj hobj => by cases hobj⟩
  · exact ⟨by decide, ⟨_, rfl, rfl⟩, fun o obj hobj => by cases hobj⟩
  · -- the closure names the last object
    intro o he obj call site hobj hdispose
    cases he
    cases hobj
    cases hdispose
    exact ⟨2, rfl⟩
  · -- and has been taken off it
    intro o he obj call site hobj hdispose
    cases he
    cases hobj
    cases hdispose

theorem destructor_exactly_once_disposeLastOfTwo :
    ∃ s, Run (guarded DisposesOwn (hostNext thing)) .init disposeLastOfTwo s ∧
      ∃ a, Run (ownNext thing) .init disposeLastOfTwo a ∧ Refines s.table a.bindings ∧
        (a.destroyed.map (·.1)).Nodup ∧
        (s.dtorCalls = if thing.hasDtor then a.destroyed.map (·.2) else []) ∧
        ∀ o, (∃ a', ReleasesHeld a o (s.dispose thing o).2 a') ↔ OwnClosure s o := by
  rcases disposeLastOfTwo_run with ⟨s, hrun⟩
  exact ⟨s, hrun, destructor_exactly_once hrun⟩

/-- A call returns a list of two owns; disposing the first object releases the
handle of the second. -/
def disposeFirstOfTwo : List (HostEvent × HostAnswer) :=
  [(.resourceNew 7, .handle 1), (.resourceNew 8, .handle 2),
    (.callReturns (.list .own) (.list [.handle 1, .handle 2]), .objects [0, 1]),
    (.dispose 0, .released 2 8)]

theorem dispose_releases_another_handle :
    ¬ ∀ (tr : List (HostEvent × HostAnswer)) (s : HostState),
      Run (guarded GuestOk (hostNext thing)) .init tr s → ∃ a, Run (ownNext thing) .init tr a := by
  intro hall
  have hrun : ∃ s, Run (guarded GuestOk (hostNext thing)) .init disposeFirstOfTwo s := by
    refine ⟨_, .cons ⟨⟨by decide, by decide, by decide⟩, rfl⟩ <|
      .cons ⟨⟨by decide, by decide, by decide⟩, rfl⟩ <|
      .cons ⟨returnsOwns_two ?_ ?_, rfl⟩ <| .cons ⟨trivial, rfl⟩ <| .nil _⟩
    · exact ⟨by decide, ⟨_, rfl, rfl⟩, fun o obj hobj => by cases hobj⟩
    · exact ⟨by decide, ⟨_, rfl, rfl⟩, fun o obj hobj => by cases hobj⟩
  rcases hrun with ⟨s, hrun⟩
  rcases hall _ s hrun with ⟨a, habs⟩
  rcases habs with - | ⟨hnew₁, habs⟩
  rcases habs with - | ⟨hnew₂, habs⟩
  rcases habs with - | ⟨hcall, habs⟩
  rcases habs with - | ⟨hdispose, -⟩
  rcases hnew₁ with ⟨h₁, -, -, rfl⟩
  rcases hnew₂ with ⟨h₂, -, -, rfl⟩
  have hlifts := hcall.2
  simp only [liftsOf, emitLift, LiftCode.lifts, LiftCode.liftsEach, append_nil,
    map_cons, map_nil, cons_append, nil_append] at hlifts
  rcases hlifts with - | ⟨-, -, hlifts⟩
  rcases hlifts with - | ⟨-, -, hlifts⟩
  cases hlifts
  rcases hdispose with ⟨h, w, ⟨hw, ho⟩, hans, -⟩ | ⟨-, hans, -⟩
  · -- the handle `2` is held by the object `1`
    injection hans with hh
    subst hh
    rw [OwnState.owns_lift, if_pos rfl] at hw
    cases hw
    cases ho
  · cases hans

end Jco.Resource

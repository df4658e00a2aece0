import Jco.Lib.Run
import Jco.Resource.TableLaw

/-! # The capture table of an imported resource

Host objects of an imported class enter the component through `HandleLower`,
which files the object in `captureTable` under a rep and creates a handle with
that rep. `HandleLift` reads the rep back from the handle table and looks the
object up; `ResourceDrop` disposes it. A handle without a captured object is
lifted to a proxy, which carries its handle and rep as properties.
-/

namespace Jco.Resource

open Jco.Js Jco.Lib HandleMap

/-- The imported class: its name in messages, whether its prototype has a
`symbolDispose`, and whether it has a static `symbolCabiDispose`. -/
structure ImportedClass where
  className : String
  dispose : Bool
  cabiDispose : Bool

/-- An instance of the class: the properties `symbolRscHandle`, `symbolRscRep`
and whether it has a `symbolDispose`. -/
structure Instance where
  handle : Option Int
  rep : Option Int
  dispose : Bool
deriving DecidableEq, Repr

/-- `x || …` takes `x` when it is neither `undefined` nor `0`. -/
def truthy (x : Option Int) : Option Int := x.filter (· ≠ 0)

/-- `disposed` and `cabiDisposed` record the calls of the two destructors, and
`lowered` the object a handle was last returned for. -/
structure CaptureState where
  handleTable : ResourceTable
  captureTable : Int → Option Nat
  captureCnt : Int
  objs : Nat → Option Instance
  objCount : Nat
  curResourceBorrows : List Nat
  lowered : Int → Option Nat
  disposed : List Nat
  cabiDisposed : List Int

def CaptureState.init : CaptureState where
  handleTable := .fresh
  captureTable _ := none
  captureCnt := 0
  objs _ := none
  objCount := 0
  curResourceBorrows := []
  lowered _ := none
  disposed := []
  cabiDisposed := []

inductive CaptureAnswer where
  | nothing
  | handle (h : Int)
  | obj (o : Nat)
  | threw (e : JsError)
deriving DecidableEq, Repr

namespace CaptureState

/-- A new object of the class. Hybrid bindings give it a rep of their own. -/
def newObj (s : CaptureState) (obj : Instance) : CaptureState × Nat :=
  ({ s with objs := Function.update s.objs s.objCount (some obj), objCount := s.objCount + 1 },
    s.objCount)

/-- The rep an object without a handle is captured under, and `captureCnt`
after it was chosen. -/
def captureRep (s : CaptureState) (obj : Instance) : Int × Int :=
  match truthy obj.rep with
  | some rep => (rep, s.captureCnt)
  | none => (s.captureCnt + 1, s.captureCnt + 1)

/-- `captureTable.set(rep, op)` -/
def capture (s : CaptureState) (obj : Instance) (o : Nat) : CaptureState :=
  let (rep, captureCnt) := s.captureRep obj
  { s with captureTable := Function.update s.captureTable rep (some o), captureCnt }

/-- The handle `h` of the new table was created for the object `o`. -/
def created (s : CaptureState) (o : Nat) (h : Int) (handleTable : ResourceTable) : CaptureState :=
  { s with handleTable, lowered := Function.update s.lowered h (some o) }

/-- `HandleLower` of an own (no scope) or of a borrow. -/
def lower (cls : ImportedClass) (s : CaptureState) (o : Nat) (scopeId : Option Int) :
    CaptureState × CaptureAnswer :=
  match s.objs o with
  | none => (s, .threw (.typeError s!"Resource error: Not a valid \"{cls.className}\" resource."))
  | some obj =>
    match truthy obj.handle with
    | some h => (s.created o h s.handleTable, .handle h)
    | none =>
      let rep := (s.captureRep obj).1
      let s := s.capture obj o
      match scopeId with
      | none =>
        let (h, table) := rscTableCreateOwn s.handleTable rep
        (s.created o h table, .handle h)
      | some scopeId =>
        match rscTableCreateBorrow s.handleTable rep (some scopeId) with
        | .ok (h, table) => (s.created o h table, .handle h)
        | .error e => (s, .threw e)

/-- `handleTable[(handle << 1) + 1] & ~T_FLAG` -/
def readRep (s : CaptureState) (handle : Int) : Int :=
  bitAnd (num (s.handleTable.cells.get (shl handle 1 + 1))) (bitNot T_FLAG)

/-- `captureTable.delete(rep)` -/
def release (s : CaptureState) (rep : Int) : CaptureState :=
  { s with captureTable := Function.update s.captureTable rep none }

/-- The object a handle is lifted to, with whether it was captured. -/
def liftObj (cls : ImportedClass) (s : CaptureState) (handle : Int) :
    CaptureState × Nat × Bool :=
  let rep := s.readRep handle
  match s.captureTable rep with
  | some o => (s, o, true)
  | none =>
    let (s, o) := s.newObj ⟨some handle, some rep, cls.dispose⟩
    (s, o, false)

variable {s : CaptureState} {handle : Int}

theorem liftObj_captured {cls : ImportedClass} {o : Nat}
    (h : s.captureTable (s.readRep handle) = some o) : s.liftObj cls handle = (s, o, true) := by
  simp only [liftObj, h]

theorem liftObj_proxy {cls : ImportedClass}
    (h : s.captureTable (s.readRep handle) = none) :
    s.liftObj cls handle =
      ((s.newObj ⟨some handle, some (s.readRep handle), cls.dispose⟩).1, s.objCount, false) := by
  simp only [liftObj, h]
  rfl

/-- `HandleLift` of an own: the entry leaves both tables, the capture table
before `rscTableRemove` has checked the handle. -/
def liftOwn (cls : ImportedClass) (s : CaptureState) (handle : Int) :
    CaptureState × CaptureAnswer :=
  let rep := s.readRep handle
  let (s, o, captured) := s.liftObj cls handle
  let s := if captured then s.release rep else s
  match rscTableRemove s.handleTable handle with
  | .ok (_, handleTable) => ({ s with handleTable }, .obj o)
  | .error e => (s, .threw e)

/-- `HandleLift` of a borrow. -/
def liftBorrow (cls : ImportedClass) (s : CaptureState) (handle : Int) :
    CaptureState × CaptureAnswer :=
  let (s, o, _) := s.liftObj cls handle
  ({ s with curResourceBorrows := s.curResourceBorrows ++ [o] }, .obj o)

/-- The end of a call: each borrowed object loses its handle. -/
def endCall (s : CaptureState) : CaptureState :=
  { s with
    objs := fun o =>
      (s.objs o).map fun obj =>
        if o ∈ s.curResourceBorrows then { obj with handle := none } else obj
    curResourceBorrows := [] }

/-- The destructor part of `ResourceDrop`. -/
def dtor (cls : ImportedClass) (s : CaptureState) (rep : Int) : CaptureState :=
  match s.captureTable rep with
  | some o =>
    let disposes := (s.objs o).any (·.dispose)
    { s.release rep with disposed := if disposes then s.disposed ++ [o] else s.disposed }
  | none =>
    if cls.cabiDispose then { s with cabiDisposed := s.cabiDisposed ++ [rep] } else s

theorem dtor_captured (cls : ImportedClass) {rep : Int} {o : Nat}
    (h : s.captureTable rep = some o) :
    s.dtor cls rep = { s.release rep with
      disposed := if (s.objs o).any (·.dispose) then s.disposed ++ [o] else s.disposed } := by
  simp only [dtor, h]

/-- The trampoline of `ResourceDrop`. -/
def drop (cls : ImportedClass) (s : CaptureState) (handle : Int) : CaptureState × CaptureAnswer :=
  match rscTableRemove s.handleTable handle with
  | .error e => (s, .threw e)
  | .ok (handleEntry, handleTable) =>
    let s := { s with handleTable }
    (if handleEntry.own then s.dtor cls handleEntry.rep else s, .nothing)

theorem drop_ok (cls : ImportedClass) {e : Entry}
    {table : ResourceTable} (h : rscTableRemove s.handleTable handle = .ok (e, table)) :
    (s.drop cls handle).1 = if e.own then { s with handleTable := table }.dtor cls e.rep
      else { s with handleTable := table } := by
  simp only [drop, h]

end CaptureState

/-! ## Runs -/

inductive CaptureCall where
  | newObj (rep : Option Int) (dispose : Bool)
  | lowerOwn (o : Nat)
  | lowerBorrow (o : Nat) (scopeId : Int)
  | liftOwn (handle : Int)
  | liftBorrow (handle : Int)
  | drop (handle : Int)
  | endCall
deriving DecidableEq, Repr

namespace CaptureCall

variable (cls : ImportedClass)

def run (s : CaptureState) : CaptureCall → CaptureState × CaptureAnswer
  | .newObj rep dispose =>
    let (s, o) := s.newObj ⟨none, rep, dispose⟩
    (s, .obj o)
  | .lowerOwn o => s.lower cls o none
  | .lowerBorrow o scopeId => s.lower cls o (some scopeId)
  | .liftOwn handle => s.liftOwn cls handle
  | .liftBorrow handle => s.liftBorrow cls handle
  | .drop handle => s.drop cls handle
  | .endCall => (s.endCall, .nothing)

end CaptureCall

/-- A step of the host and the guest: a call with its answer. -/
def captureNext (cls : ImportedClass) : Action (CaptureCall × CaptureAnswer) CaptureState :=
  fun l s s' => l.1.run cls s = (s', l.2)

/-! ## What is promised -/

namespace CaptureState

/-- The entry of a live handle. -/
def entry (s : CaptureState) (handle : Int) : Option Entry :=
  if 0 ≤ handle ∧ handle.toNat < 2 ^ 31 then (rscTableGet s.handleTable handle).toOption else none

/-- Some other live handle has this rep. -/
def Shared (s : CaptureState) (handle rep : Int) : Prop :=
  ∃ h < s.handleTable.cells.length, (h : Int) ≠ handle ∧ (s.entry h).any (·.rep = rep)

instance (s : CaptureState) (handle rep : Int) : Decidable (s.Shared handle rep) :=
  inferInstanceAs (Decidable (∃ h < _, _ ∧ _))

/-- Every live handle is bound, through its rep, to the object it was lowered
for, and nothing is captured without a live handle. -/
structure Captured (s : CaptureState) : Prop where
  live : ∀ h e, s.entry h = some e → ∃ o, s.lowered h = some o ∧ s.captureTable e.rep = some o
  ended : ∀ rep o, s.captureTable rep = some o → ∃ h e, s.entry h = some e ∧ e.rep = rep

/-- The objects a call has to dispose: the one lowered for the own handle it
drops, when that has a `symbolDispose`. -/
def dueDisposals (s : CaptureState) : CaptureCall → List Nat
  | .drop handle =>
    match s.entry handle with
    | some e =>
      if e.own then
        ((s.lowered handle).filter fun o => (s.objs o).any (·.dispose)).toList
      else []
    | none => []
  | _ => []

/-- A lowering of an object of the class answers a handle that is live after it. -/
def Lowers (s : CaptureState) (o : Nat) (ans : CaptureAnswer) (own : Bool) (s' : CaptureState) :
    Prop :=
  s.objs o ≠ none → ∃ h e, ans = .handle h ∧ s'.entry h = some e ∧ e.own = own ∧
    s'.lowered h = some o

/-- A lift of a live handle answers the object that was lowered for it. -/
def Lifts (s : CaptureState) (handle : Int) (ans : CaptureAnswer) : Prop :=
  s.entry handle ≠ none → ∃ o, s.lowered handle = some o ∧ ans = .obj o

end CaptureState

/-- The promise of one step. -/
def CaptureAnswers (l : CaptureCall × CaptureAnswer) (s s' : CaptureState) : Prop :=
  s'.disposed = s.disposed ++ s.dueDisposals l.1 ∧ s'.cabiDisposed = s.cabiDisposed ∧
    match l.1 with
    | .lowerOwn o => s.Lowers o l.2 true s'
    | .lowerBorrow o _ => s.Lowers o l.2 false s'
    | .liftOwn handle => s.Lifts handle l.2
    | .liftBorrow handle => s.Lifts handle l.2
    | _ => True

namespace CaptureState

/-- A lowering keeps the promise: the object has no handle left over from a
lift, its rep is below the flag and not taken by another object, and the handle
table has room. -/
def LowerSafe (s : CaptureState) (o : Nat) : Prop :=
  ∀ obj ∈ s.objs o, truthy obj.handle = none ∧ Small (s.captureRep obj).1 ∧
    HasRoom s.handleTable ∧ ∀ o' ∈ s.captureTable (s.captureRep obj).1, o' = o

instance (s : CaptureState) (o : Nat) : Decidable (s.LowerSafe o) :=
  inferInstanceAs (Decidable (∀ obj ∈ s.objs o, _))

/-- A removal of the handle of no live entry throws. -/
def RemoveThrows (s : CaptureState) (handle : Int) : Prop :=
  (rscTableRemove s.handleTable handle).toOption = none

instance (s : CaptureState) (handle : Int) : Decidable (s.RemoveThrows handle) :=
  inferInstanceAs (Decidable (_ = none))

/-- A handle that leaves with its captured object is the only one of its rep;
the rep a dead handle still shows is not captured. -/
def LiftOwnSafe (s : CaptureState) (handle : Int) : Prop :=
  (∀ e ∈ s.entry handle, ¬ s.Shared handle e.rep) ∧
    (s.entry handle = none → s.RemoveThrows handle ∧ s.captureTable (s.readRep handle) = none)

instance (s : CaptureState) (handle : Int) : Decidable (s.LiftOwnSafe handle) :=
  inferInstanceAs (Decidable ((∀ e ∈ s.entry handle, _) ∧ (_ → _)))

/-- An own is dropped as the only handle of its rep, since the drop releases
the captured object, and a borrow as one of several, since it does not. -/
def DropSafe (s : CaptureState) (handle : Int) : Prop :=
  (∀ e ∈ s.entry handle, if e.own then ¬ s.Shared handle e.rep else s.Shared handle e.rep) ∧
    (s.entry handle = none → s.RemoveThrows handle)

instance (s : CaptureState) (handle : Int) : Decidable (s.DropSafe handle) :=
  inferInstanceAs (Decidable ((∀ e ∈ s.entry handle, _) ∧ (_ → _)))

end CaptureState

/-- When a step keeps the promise. -/
def CaptureSafe (l : CaptureCall × CaptureAnswer) (s : CaptureState) : Prop :=
  match l.1 with
  | .newObj _ _ => True
  | .lowerOwn o => s.LowerSafe o
  | .lowerBorrow o scopeId => s.LowerSafe o ∧ Small scopeId
  | .liftOwn handle => s.LiftOwnSafe handle
  | .liftBorrow _ => True
  | .drop handle => s.DropSafe handle
  | .endCall => True

instance (l : CaptureCall × CaptureAnswer) (s : CaptureState) : Decidable (CaptureSafe l s) :=
  match l with
  | (.newObj _ _, _) => inferInstanceAs (Decidable True)
  | (.lowerOwn o, _) => inferInstanceAs (Decidable (s.LowerSafe o))
  | (.lowerBorrow o scopeId, _) => inferInstanceAs (Decidable (s.LowerSafe o ∧ Small scopeId))
  | (.liftOwn handle, _) => inferInstanceAs (Decidable (s.LiftOwnSafe handle))
  | (.liftBorrow _, _) => inferInstanceAs (Decidable True)
  | (.drop handle, _) => inferInstanceAs (Decidable (s.DropSafe handle))
  | (.endCall, _) => inferInstanceAs (Decidable True)

/-! ## Reading the handle table -/

section

variable {s : CaptureState} {m : HandleMap}

/-- `entry` reads the map. -/
theorem entry_nat (h : Refines s.handleTable m) (i : Nat) :
    s.entry i = (m i).map Binding.toEntry := by
  unfold CaptureState.entry
  by_cases hi : i < 2 ^ 31
  · rw [if_pos (by omega)]
    rcases handle_cases h hi with ⟨b, hb⟩ | ⟨hm, hfl | hpe⟩
    · rw [get_live h hb, hb]
      rfl
    · rw [get_flagged hfl, hm]
      rfl
    · rw [get_pastEnd h hpe, hm]
      rfl
  · rw [if_neg (by omega), wrapped_dead h (Nat.le_of_not_lt hi)]
    rfl

theorem entry_live (h : Refines s.handleTable m) {i : Nat} {b : Binding} (hb : m i = some b) :
    s.entry i = some b.toEntry := by
  rw [entry_nat h, hb]
  rfl

/-- A live handle is a number of the map. -/
theorem of_entry (h : Refines s.handleTable m) {handle : Int} {e : Entry}
    (he : s.entry handle = some e) :
    ∃ (i : Nat) (b : Binding), handle = i ∧ m i = some b ∧ e = b.toEntry := by
  have hpos : 0 ≤ handle := by
    by_contra hneg
    unfold CaptureState.entry at he
    rw [if_neg (by omega)] at he
    cases he
  rcases Int.eq_ofNat_of_zero_le hpos with ⟨i, rfl⟩
  rw [entry_nat h] at he
  rcases hm : m i with _ | b
  · rw [hm] at he
    cases he
  · rw [hm] at he
    cases he
    exact ⟨i, b, rfl, hm, rfl⟩

end

/-! ## The invariant -/

/-- `Captured` over the abstract map of the handle table. -/
structure CaptureInv (s : CaptureState) (m : HandleMap) : Prop where
  refines : Refines s.handleTable m
  cnt : 0 ≤ s.captureCnt
  live : ∀ (i : Nat) b, m i = some b →
    ∃ o, s.lowered i = some o ∧ s.captureTable b.rep = some o
  ended : ∀ rep o, s.captureTable rep = some o → ∃ i b, m i = some b ∧ b.rep = rep

namespace CaptureInv

variable {s : CaptureState} {m : HandleMap}

theorem init : CaptureInv .init .empty := by
  refine ⟨refines_fresh, le_refl 0, ?_, ?_⟩
  · intro i b hb
    cases hb
  · intro rep o ho
    cases ho

/-- Objects, borrows and the records of destructor calls are outside the
invariant. -/
theorem congr (h : CaptureInv s m) {s' : CaptureState} (htable : s'.handleTable = s.handleTable)
    (hcapture : s'.captureTable = s.captureTable) (hcnt : s'.captureCnt = s.captureCnt)
    (hlowered : s'.lowered = s.lowered) : CaptureInv s' m := by
  constructor
  · rw [htable]; exact h.refines
  · rw [hcnt]; exact h.cnt
  · rw [hcapture, hlowered]; exact h.live
  · rw [hcapture]; exact h.ended

/-! ### Reading the handle table -/

variable {b : Binding} {i : Nat}

theorem readRep_live (h : CaptureInv s m) (hb : m i = some b) :
    s.readRep i = b.rep := by
  rcases h.refines with ⟨n, free, hst⟩
  have hval := (hst.read_live hb).2
  unfold CaptureState.readRep
  rw [hval, num_some]
  exact (hst.valid i b hb).rep_val

theorem shared_iff (h : CaptureInv s m) (handle rep : Int) :
    s.Shared handle rep ↔ ∃ (i : Nat) (b : Binding), (i : Int) ≠ handle ∧ m i = some b ∧
      b.rep = rep := by
  constructor
  · rintro ⟨i, -, hne, hany⟩
    rw [entry_nat h.refines] at hany
    rcases hm : m i with _ | b
    · rw [hm] at hany
      cases hany
    · rw [hm] at hany
      exact ⟨i, b, hne, hm, by simpa [Binding.toEntry] using hany⟩
  · rintro ⟨i, b, hne, hb, hrep⟩
    have hlt : i < s.handleTable.cells.length := by
      rcases h.refines with ⟨n, free, hst⟩
      have hin := hst.live_lt hb
      have hlen := hst.length
      omega
    refine ⟨i, hlt, hne, ?_⟩
    rw [entry_live h.refines hb]
    simpa [Binding.toEntry] using hrep

/-- The invariant gives what a lift needs. -/
theorem captured (h : CaptureInv s m) : s.Captured := by
  constructor
  case live =>
    intro handle e he
    rcases of_entry h.refines he with ⟨i, b, rfl, hb, rfl⟩
    exact h.live i b hb
  case ended =>
    intro rep o ho
    rcases h.ended rep o ho with ⟨i, b, hb, hrep⟩
    exact ⟨i, b.toEntry, entry_live h.refines hb, hrep⟩

/-! ### Creating a handle -/

theorem captureRep_ne (h : CaptureInv s m) (obj : Instance) : (s.captureRep obj).1 ≠ 0 := by
  have hcnt := h.cnt
  unfold CaptureState.captureRep
  rcases htruthy : truthy obj.rep with _ | rep
  · show s.captureCnt + 1 ≠ 0
    omega
  · show rep ≠ 0
    unfold truthy at htruthy
    rw [Option.filter_eq_some_iff] at htruthy
    simpa using htruthy.2

theorem captureRep_cnt (h : CaptureInv s m) (obj : Instance) : 0 ≤ (s.captureRep obj).2 := by
  have hcnt := h.cnt
  unfold CaptureState.captureRep
  rcases truthy obj.rep with _ | rep
  · show 0 ≤ s.captureCnt + 1
    omega
  · exact hcnt

variable {table : ResourceTable}

/-- Capturing an object under a rep that no other object has, and binding a new
handle to the rep. -/
theorem created (h : CaptureInv s m) {obj : Instance} {o i : Nat}
    (hrep : b.rep = (s.captureRep obj).1)
    (hother : ∀ o', s.captureTable b.rep = some o' → o' = o) (hdead : m i = none)
    (htable : Refines table (m.bind i b)) :
    CaptureInv ((s.capture obj o).created o i table) (m.bind i b) := by
  have hcapture : ∀ rep, ((s.capture obj o).created o i table).captureTable rep =
      if rep = b.rep then some o else s.captureTable rep := by
    intro rep
    rw [hrep]
    exact Function.update_apply ..
  have hlowered : ∀ j : Nat, ((s.capture obj o).created o i table).lowered j =
      if j = i then some o else s.lowered j := by
    intro j
    show Function.update s.lowered (i : Int) (some o) (j : Int) = _
    simp [Function.update_apply]
  constructor
  case refines => exact htable
  case cnt => exact h.captureRep_cnt obj
  case live =>
    intro j b' hj
    rw [bind_apply] at hj
    rw [hcapture, hlowered]
    split at hj
    case isTrue hji =>
      cases hj
      exact ⟨o, if_pos hji, if_pos rfl⟩
    case isFalse hji =>
      rcases h.live j b' hj with ⟨o', ho', hrep'⟩
      rw [if_neg hji]
      refine ⟨o', ho', ?_⟩
      split
      case isTrue hsame =>
        -- another handle of the rep: it was lowered for the same object
        rw [hother o' (hsame ▸ hrep')]
      case isFalse => exact hrep'
  case ended =>
    intro rep o' ho'
    rw [hcapture] at ho'
    split at ho'
    case isTrue hsame => exact ⟨i, b, by rw [bind_apply, if_pos rfl], hsame.symm⟩
    case isFalse =>
      rcases h.ended rep o' ho' with ⟨j, b', hj, hrep'⟩
      have hji : j ≠ i := by
        rintro rfl
        rw [hdead] at hj
        cases hj
      exact ⟨j, b', by rw [bind_apply, if_neg hji]; exact hj, hrep'⟩

/-! ### Ending a handle -/

/-- Removing the only handle of a rep together with the captured object. -/
theorem released (h : CaptureInv s m) (hb : m i = some b)
    (halone : ¬ s.Shared i b.rep) (htable : Refines table (m.unbind i)) :
    CaptureInv { s.release b.rep with handleTable := table } (m.unbind i) := by
  rw [h.shared_iff] at halone
  have hcapture : ∀ rep, (s.release b.rep).captureTable rep =
      if rep = b.rep then none else s.captureTable rep := fun rep => Function.update_apply ..
  constructor
  case refines => exact htable
  case cnt => exact h.cnt
  case live =>
    intro j b' hj
    rw [unbind_apply] at hj
    rcases Option.ite_none_left_eq_some.1 hj with ⟨hji, hj⟩
    have hrep : b'.rep ≠ b.rep := fun he => halone ⟨j, b', by omega, hj, he⟩
    rw [hcapture, if_neg hrep]
    exact h.live j b' hj
  case ended =>
    intro rep o ho
    replace ho : (s.release b.rep).captureTable rep = some o := ho
    rw [hcapture] at ho
    rcases Option.ite_none_left_eq_some.1 ho with ⟨hrep, ho⟩
    rcases h.ended rep o ho with ⟨j, b', hj, hrep'⟩
    have hji : j ≠ i := by
      rintro rfl
      rw [hb] at hj
      cases hj
      exact hrep hrep'.symm
    exact ⟨j, b', by rw [unbind_apply, if_neg hji]; exact hj, hrep'⟩

/-- Removing one of several handles of a rep. -/
theorem removed (h : CaptureInv s m) (hb : m i = some b)
    (hshared : s.Shared i b.rep) (htable : Refines table (m.unbind i)) :
    CaptureInv { s with handleTable := table } (m.unbind i) := by
  rcases (h.shared_iff _ _).1 hshared with ⟨k, bk, hki, hk, hrepk⟩
  constructor
  case refines => exact htable
  case cnt => exact h.cnt
  case live =>
    intro j b' hj
    rw [unbind_apply] at hj
    rcases Option.ite_none_left_eq_some.1 hj with ⟨-, hj⟩
    exact h.live j b' hj
  case ended =>
    intro rep o ho
    rcases h.ended rep o ho with ⟨j, b', hj, hrep'⟩
    by_cases hji : j = i
    · -- the rep of the removed handle: the other handle of the rep remains
      subst hji
      rw [hb] at hj
      cases hj
      exact ⟨k, bk, by rw [unbind_apply, if_neg (by omega)]; exact hk,
        hrepk.trans hrep'⟩
    · exact ⟨j, b', by rw [unbind_apply, if_neg hji]; exact hj, hrep'⟩

/-! ### The calls -/

/-- What a lowering does and answers. -/
theorem lower (h : CaptureInv s m) (cls : ImportedClass) {o : Nat} (scopeId : Option Int)
    (hsafe : s.LowerSafe o) (hscope : ∀ sc, scopeId = some sc → Small sc) :
    ∃ m', CaptureInv (s.lower cls o scopeId).1 m' ∧
      (s.lower cls o scopeId).1.disposed = s.disposed ∧
      (s.lower cls o scopeId).1.cabiDisposed = s.cabiDisposed ∧
      s.Lowers o (s.lower cls o scopeId).2 scopeId.isNone (s.lower cls o scopeId).1 := by
  rcases hobj : s.objs o with _ | obj
  · have hcall : (s.lower cls o scopeId).1 = s := by
      simp only [CaptureState.lower, hobj]
    rw [hcall]
    exact ⟨m, h, rfl, rfl, fun hsome => absurd hobj hsome⟩
  · rcases hsafe obj hobj with ⟨hhandle, hsmall, hroom, hother⟩
    have hne := h.captureRep_ne obj
    cases scopeId with
    | none =>
      have hrefines : Refines (s.capture obj o).handleTable m := h.refines
      rcases createOwn_refines hrefines hsmall hne hroom with ⟨i, hi, -, hdead, htable⟩
      have hcall : s.lower cls o none = ((s.capture obj o).created o i
          (rscTableCreateOwn s.handleTable (s.captureRep obj).1).2, .handle i) := by
        simp only [CaptureState.lower, hobj, hhandle]
        rw [← hi]
        rfl
      have hinv := h.created (o := o) (b := ⟨0, (s.captureRep obj).1, true⟩) rfl hother hdead
        htable
      rw [hcall]
      have hbind := bind_apply m i i ⟨0, (s.captureRep obj).1, true⟩
      rw [if_pos rfl] at hbind
      exact ⟨_, hinv, rfl, rfl, fun _ => ⟨i, _, rfl, entry_live hinv.refines hbind, rfl,
        Function.update_self ..⟩⟩
    | some sc =>
      have hrefines : Refines (s.capture obj o).handleTable m := h.refines
      rcases createBorrow_refines hrefines hsmall hne (hscope sc rfl) hroom with
        ⟨i, table, hcreate, -, hdead, htable⟩
      have hcall : s.lower cls o (some sc) =
          ((s.capture obj o).created o i table, .handle i) := by
        simp only [CaptureState.lower, hobj, hhandle]
        rw [hcreate]
      have hinv := h.created (o := o) (b := ⟨sc, (s.captureRep obj).1, false⟩) rfl hother hdead
        htable
      rw [hcall]
      have hbind := bind_apply m i i ⟨sc, (s.captureRep obj).1, false⟩
      rw [if_pos rfl] at hbind
      exact ⟨_, hinv, rfl, rfl, fun _ => ⟨i, _, rfl, entry_live hinv.refines hbind, rfl,
        Function.update_self ..⟩⟩

/-- A live handle is lifted to its captured object. -/
theorem liftObj_live (h : CaptureInv s m) (cls : ImportedClass)
    (hb : m i = some b) :
    ∃ o, s.lowered i = some o ∧ s.liftObj cls i = (s, o, true) := by
  rcases h.live i b hb with ⟨o, ho, hcapture⟩
  rw [← h.readRep_live hb] at hcapture
  exact ⟨o, ho, CaptureState.liftObj_captured hcapture⟩

variable {handle : Int}

theorem liftOwn (h : CaptureInv s m) (cls : ImportedClass)
    (hsafe : s.LiftOwnSafe handle) :
    ∃ m', CaptureInv (s.liftOwn cls handle).1 m' ∧
      (s.liftOwn cls handle).1.disposed = s.disposed ∧
      (s.liftOwn cls handle).1.cabiDisposed = s.cabiDisposed ∧
      s.Lifts handle (s.liftOwn cls handle).2 := by
  rcases he : s.entry handle with _ | e
  · -- no live entry: a proxy is made, and the removal throws
    rcases hsafe.2 he with ⟨hthrows, hnone⟩
    have hcall : ∃ err, s.liftOwn cls handle =
        ((s.newObj ⟨some handle, some (s.readRep handle), cls.dispose⟩).1, .threw err) := by
      unfold CaptureState.RemoveThrows at hthrows
      unfold CaptureState.liftOwn
      rw [CaptureState.liftObj_proxy hnone]
      rcases hremove : rscTableRemove s.handleTable handle with err | entry
      · refine ⟨err, ?_⟩
        simp [CaptureState.newObj, hremove]
      · rw [hremove] at hthrows
        cases hthrows
    rcases hcall with ⟨err, hcall⟩
    rw [hcall]
    exact ⟨m, h.congr rfl rfl rfl rfl, rfl, rfl, fun hsome => absurd he hsome⟩
  · have halone := hsafe.1 _ he
    rcases of_entry h.refines he with ⟨i, b, rfl, hb, rfl⟩
    rcases h.liftObj_live cls hb with ⟨o, ho, hlift⟩
    rcases remove_live_refines h.refines hb with ⟨table, hremove, htable⟩
    have hcall : s.liftOwn cls i =
        ({ s.release b.rep with handleTable := table }, .obj o) := by
      unfold CaptureState.liftOwn
      rw [hlift, h.readRep_live hb]
      simp only [if_true]
      have hsame : (s.release b.rep).handleTable = s.handleTable := rfl
      rw [hsame, hremove]
    rw [hcall]
    exact ⟨_, h.released hb halone htable, rfl, rfl, fun _ => ⟨o, ho, rfl⟩⟩

theorem liftBorrow (h : CaptureInv s m) (cls : ImportedClass) (handle : Int) :
    CaptureInv (s.liftBorrow cls handle).1 m ∧
      (s.liftBorrow cls handle).1.disposed = s.disposed ∧
      (s.liftBorrow cls handle).1.cabiDisposed = s.cabiDisposed ∧
      s.Lifts handle (s.liftBorrow cls handle).2 := by
  rcases hcapture : s.captureTable (s.readRep handle) with _ | o
  · unfold CaptureState.liftBorrow
    rw [CaptureState.liftObj_proxy hcapture]
    refine ⟨h.congr rfl rfl rfl rfl, rfl, rfl, ?_⟩
    intro hsome
    rcases he : s.entry handle with _ | e
    · exact absurd he hsome
    · -- a live handle has a captured object
      rcases of_entry h.refines he with ⟨i, b, rfl, hb, -⟩
      rcases h.live i b hb with ⟨o, -, ho⟩
      rw [h.readRep_live hb, ho] at hcapture
      cases hcapture
  · unfold CaptureState.liftBorrow
    rw [CaptureState.liftObj_captured hcapture]
    refine ⟨h.congr rfl rfl rfl rfl, rfl, rfl, ?_⟩
    intro hsome
    rcases he : s.entry handle with _ | e
    · exact absurd he hsome
    · rcases of_entry h.refines he with ⟨i, b, rfl, hb, -⟩
      rcases h.live i b hb with ⟨o', ho', hrep⟩
      rw [h.readRep_live hb, hrep] at hcapture
      cases hcapture
      exact ⟨o, ho', rfl⟩

/-- What an own drop has to dispose. -/
theorem dueDisposals_live (h : CaptureInv s m) {o : Nat}
    (hb : m i = some b) (ho : s.lowered i = some o) :
    s.dueDisposals (.drop i) =
      if b.own then (if (s.objs o).any (·.dispose) then [o] else []) else [] := by
  simp only [CaptureState.dueDisposals]
  rw [entry_live h.refines hb, ho]
  show (if b.own then _ else _) = _
  split
  · rw [Option.filter_some]
    split <;> rfl
  · rfl

theorem drop_throws (cls : ImportedClass) (hthrows : s.RemoveThrows handle) :
    (s.drop cls handle).1 = s := by
  unfold CaptureState.RemoveThrows at hthrows
  unfold CaptureState.drop
  rcases hremove : rscTableRemove s.handleTable handle with err | entry
  · rfl
  · rw [hremove] at hthrows
    cases hthrows

theorem drop_live (h : CaptureInv s m) (cls : ImportedClass)
    (hb : m i = some b) (hsafe : if b.own then ¬ s.Shared i b.rep else s.Shared i b.rep) :
    CaptureInv (s.drop cls i).1 (m.unbind i) ∧
      (s.drop cls i).1.disposed = s.disposed ++ s.dueDisposals (.drop i) ∧
      (s.drop cls i).1.cabiDisposed = s.cabiDisposed := by
  rcases remove_live_refines h.refines hb with ⟨table, hremove, htable⟩
  rcases h.live i b hb with ⟨o, ho, hrep⟩
  have hcall := CaptureState.drop_ok cls hremove
  rw [h.dueDisposals_live hb ho]
  rw [hcall]
  have hent : b.toEntry.own = b.own := rfl
  rw [hent]
  split at hsafe
  case isFalse hown =>
    rw [if_neg hown, if_neg hown, List.append_nil]
    exact ⟨h.removed hb hsafe htable, rfl, rfl⟩
  case isTrue hown =>
    rw [if_pos hown, if_pos hown]
    have hdtor := CaptureState.dtor_captured cls (s := { s with handleTable := table }) hrep
    have hrep' : b.toEntry.rep = b.rep := rfl
    rw [hrep', hdtor]
    refine ⟨(h.released hb hsafe htable).congr rfl rfl rfl rfl, ?_, rfl⟩
    split
    · rfl
    · exact (List.append_nil _).symm

theorem drop (h : CaptureInv s m) (cls : ImportedClass)
    (hsafe : s.DropSafe handle) :
    ∃ m', CaptureInv (s.drop cls handle).1 m' ∧
      (s.drop cls handle).1.disposed = s.disposed ++ s.dueDisposals (.drop handle) ∧
      (s.drop cls handle).1.cabiDisposed = s.cabiDisposed := by
  rcases he : s.entry handle with _ | e
  · rw [drop_throws cls (hsafe.2 he)]
    refine ⟨m, h, ?_, rfl⟩
    simp only [CaptureState.dueDisposals]
    rw [he]
    exact (List.append_nil _).symm
  · rcases of_entry h.refines he with ⟨i, b, rfl, hb, rfl⟩
    exact ⟨_, h.drop_live cls hb (hsafe.1 _ he)⟩

/-- One step: the invariant goes on, and the step keeps its promise. -/
theorem next (h : CaptureInv s m) {cls : ImportedClass} {l : CaptureCall × CaptureAnswer}
    {s' : CaptureState} (hsafe : CaptureSafe l s) (hnext : captureNext cls l s s') :
    (∃ m', CaptureInv s' m') ∧ CaptureAnswers l s s' := by
  rcases l with ⟨call, ans⟩
  have hs' : (call.run cls s).1 = s' := congrArg Prod.fst hnext
  have hans : (call.run cls s).2 = ans := congrArg Prod.snd hnext
  subst hs' hans
  have hnone : ∀ xs : List Nat, xs = xs ++ [] := fun xs => (List.append_nil xs).symm
  cases call with
  | newObj rep dispose => exact ⟨⟨m, h.congr rfl rfl rfl rfl⟩, hnone _, rfl, trivial⟩
  | lowerOwn o =>
    rcases h.lower cls none hsafe (fun sc hsc => nomatch hsc) with
      ⟨m', hinv, hdisposed, hcabi, hlowers⟩
    exact ⟨⟨m', hinv⟩, hdisposed.trans (hnone _), hcabi, hlowers⟩
  | lowerBorrow o scopeId =>
    rcases h.lower cls (some scopeId) hsafe.1
      (fun sc hsc => Option.some.inj hsc ▸ hsafe.2) with ⟨m', hinv, hdisposed, hcabi, hlowers⟩
    exact ⟨⟨m', hinv⟩, hdisposed.trans (hnone _), hcabi, hlowers⟩
  | liftOwn handle =>
    rcases h.liftOwn cls hsafe with ⟨m', hinv, hdisposed, hcabi, hlifts⟩
    exact ⟨⟨m', hinv⟩, hdisposed.trans (hnone _), hcabi, hlifts⟩
  | liftBorrow handle =>
    rcases h.liftBorrow cls handle with ⟨hinv, hdisposed, hcabi, hlifts⟩
    exact ⟨⟨m, hinv⟩, hdisposed.trans (hnone _), hcabi, hlifts⟩
  | drop handle =>
    rcases h.drop cls hsafe with ⟨m', hinv, hdisposed, hcabi⟩
    exact ⟨⟨m', hinv⟩, hdisposed, hcabi, trivial⟩
  | endCall => exact ⟨⟨m, h.congr rfl rfl rfl rfl⟩, hnone _, rfl, trivial⟩

end CaptureInv

/-! ## The capture table -/

/-- In every run whose steps are safe, lowerings answer live handles, live
handles are lifted to the object lowered for them, an own drop disposes that
object once, and nothing stays captured without a live handle. -/
theorem capture_table {cls : ImportedClass} {tr : List (CaptureCall × CaptureAnswer)}
    {s : CaptureState} (hrun : Run (guarded CaptureSafe (captureNext cls)) .init tr s) :
    s.Captured ∧ ∀ l s', guarded CaptureSafe (captureNext cls) l s s' → CaptureAnswers l s s' := by
  have hstep : ∀ (l : CaptureCall × CaptureAnswer) (t t' : CaptureState),
      guarded CaptureSafe (captureNext cls) l t t' → (∃ m, CaptureInv t m) →
        ∃ m, CaptureInv t' m := by
    rintro l t t' ⟨hsafe, hnext⟩ ⟨m, hinv⟩
    exact (hinv.next hsafe hnext).1
  rcases Run.invariant hstep hrun ⟨_, CaptureInv.init⟩ with ⟨m, hinv⟩
  refine ⟨hinv.captured, ?_⟩
  rintro l s' ⟨hsafe, hnext⟩
  exact (hinv.next hsafe hnext).2

/-- One object lowered as an own and lifted as a borrow, another with a rep of
its own lowered twice; the borrow goes first. -/
def lendAndReturn : List (CaptureCall × CaptureAnswer) :=
  [(.newObj none true, .obj 0), (.lowerOwn 0, .handle 1), (.liftBorrow 1, .obj 0),
    (.endCall, .nothing), (.newObj (some 7) false, .obj 1), (.lowerBorrow 1 3, .handle 2),
    (.lowerOwn 1, .handle 3), (.drop 2, .nothing), (.drop 1, .nothing), (.liftOwn 3, .obj 1)]

theorem capture_table_lendAndReturn :
    ∃ s : CaptureState, (s.Captured ∧
      ∀ l s', guarded CaptureSafe (captureNext ⟨"Thing", true, false⟩) l s s' →
        CaptureAnswers l s s') ∧ s.disposed = [0] :=
  ⟨_, capture_table (show Run _ _ lendAndReturn _ from
    .cons ⟨by decide, Prod.ext rfl (by decide)⟩ <|
      .cons ⟨by decide, Prod.ext rfl (by decide)⟩ <|
      .cons ⟨by decide, Prod.ext rfl (by decide)⟩ <|
      .cons ⟨by decide, Prod.ext rfl (by decide)⟩ <|
      .cons ⟨by decide, Prod.ext rfl (by decide)⟩ <|
      .cons ⟨by decide, Prod.ext rfl (by decide)⟩ <|
      .cons ⟨by decide, Prod.ext rfl (by decide)⟩ <|
      .cons ⟨by decide, Prod.ext rfl (by decide)⟩ <|
      .cons ⟨by decide, Prod.ext rfl (by decide)⟩ <|
      .cons ⟨by decide, Prod.ext rfl (by decide)⟩ <| .nil _), by decide⟩

/-- A borrow that the guest lowered and dropped leaves its object captured. -/
theorem ended_borrow_stays_captured :
    ¬ ∀ (cls : ImportedClass) (tr : List (CaptureCall × CaptureAnswer)) (s : CaptureState),
      Run (captureNext cls) .init tr s → s.Captured := by
  intro hall
  have hrun : Run (captureNext ⟨"Thing", true, false⟩) .init
      [(.newObj none true, .obj 0), (.lowerBorrow 0 1, .handle 1), (.drop 1, .nothing)] _ :=
    .cons (Prod.ext rfl (by decide)) <| .cons (Prod.ext rfl (by decide)) <|
      .cons (Prod.ext rfl (by decide)) <| .nil _
  rcases (hall _ _ _ hrun).ended 1 0 (by decide) with ⟨handle, e, he, -⟩
  -- the handle table is a fresh one in which one handle was created and removed
  have hone : Small 1 := by decide
  rcases createBorrow_refines refines_fresh hone (by decide) hone (by decide) with
    ⟨i, t, hcreate, -, -, ht⟩
  cases hcreate
  rcases remove_live_refines ht (i := 1) (bind_apply ..) with ⟨t', hremove, ht'⟩
  cases hremove
  rcases of_entry ht' he with ⟨j, b, -, hb, -⟩
  rw [unbind_apply, bind_apply] at hb
  split at hb
  · cases hb
  · rw [if_neg ‹_›] at hb
    cases hb

end Jco.Resource

import Jco.Component.RepArray
import Jco.Lib.Script
import Jco.Stream.End

/-! # The handles of stream ends

`stream.drop-readable`, `stream.drop-writable` and `streamTransfer` work on a handle:
a place in the handle table of a component, with a second place in the table of the
stream type. The tables are the arrays of the source and may have any content, and
so may the ends. A handle may stand for the end of a future, too, or for something
that has neither a table nor a handle of its own.
-/

namespace Jco.Stream.Handles

open Jco.Js Jco.Lib Jco.Component

/-- What is in a table. -/
inductive Obj where
  | stream (id : Nat)
  | future (id : Nat)
  | other
deriving DecidableEq, Repr

/-- A table, which has at least the head of its free list. -/
abbrev Table := { a : RepArray Obj // 2 ≤ a.length }

/-- `pendingEvent` and `waitableSet` are of the waitable of the end. -/
structure StreamEnd where
  side : Side
  stream : Nat
  streamTableIdx : Nat
  handle : Elem Obj
  waitableIdx : Elem Obj
  copyState : CopyState
  pendingEvent : Bool
  waitableSet : Option Nat
  hostDropFn : Bool

/-- What the ends of a stream share; `onCopyDoneFn` tells which end waits for a copy. -/
structure Shared where
  dropped : Bool
  onCopyDoneFn : Option Nat

structure FutureEnd where
  readable : Bool
  done : Bool
  handle : Elem Obj

/-- `hasTask` tells whether `getCurrentTask` finds a task of a component, and
`currentTaskError` what the look-up of the current task throws, if it does; `sets`
are the members of waitable sets. -/
structure State where
  hasTask : Int → Bool
  currentTaskError : Int → Option JsError
  handles : Int → Table
  streamTables : Nat → Option (Int × Table)
  ends : Nat → StreamEnd
  streams : Nat → Shared
  futures : Nat → FutureEnd
  sets : Nat → List Nat

/-- Code that works on handles. A full memory stops it without an error. -/
abbrev Js := Script (Option JsError) State

/-- `throw new Error(msg)` -/
def fail {β : Type} (msg : String) : Js β := Script.throw (some (.error msg))

/-- Something is called that is not there. -/
def typeError {β : Type} : Js β := Script.throw (some .engine)

/-! ## The tables -/

/-- `remove` of whatever is taken for a rep. -/
def removeRep (a : RepArray Obj) : Elem Obj → Except JsError (Elem Obj) × RepArray Obj
  | .num n => a.remove n
  | rep =>
    if a.length = 2 then (.error (.error "invalid"), a)
    else (.ok (a.data 0), { a.put 0 rep with size := a.size - 1 })

theorem length_put (a : RepArray Obj) (i : Int) (x : Elem Obj) : a.length ≤ (a.put i x).length := by
  unfold RepArray.put
  dsimp only
  split
  · exact Nat.le_max_left ..
  · exact Nat.le_refl _

theorem length_removeRep (a : RepArray Obj) (rep : Elem Obj) :
    a.length ≤ (removeRep a rep).2.length := by
  have hother : a.length ≤ (if a.length = 2 then ((.error (.error "invalid"), a) :
      Except JsError (Elem Obj) × RepArray Obj)
      else (.ok (a.data 0), { a.put 0 rep with size := a.size - 1 })).2.length := by
    split
    · exact Nat.le_refl _
    · exact length_put a 0 rep
  cases rep with
  | num n =>
    unfold removeRep RepArray.remove
    dsimp only
    split
    · exact Nat.le_refl _
    split
    · exact Nat.le_refl _
    · exact (length_put a _ (a.data 0)).trans (length_put (a.put _ (a.data 0)) 0 (.num n))
  | undefined => exact hother
  | null => exact hother
  | obj v => exact hother

theorem length_insert {a a' : RepArray Obj} {v : Obj} {rep : Elem Obj}
    (h : a.insert v = some (rep, a')) : a.length ≤ a'.length := by
  unfold RepArray.insert at h
  split at h
  · split at h
    · cases h
      have hpushed : a.length ≤ (a.push (.obj v)).length := length_put a a.length (.obj v)
      exact hpushed.trans (length_put (a.push (.obj v)) (a.push (.obj v)).length .null)
    · cases h
  · cases h
    have hhead := length_put a 0 (a.data (a.data 0).shl1)
    have hplaced := hhead.trans (length_put (a.put 0 _) (a.data 0).shl1 (.obj v))
    exact hplaced.trans (length_put _ ((a.data 0).shl1 + 1) .null)

namespace Table

def remove (t : Table) (rep : Elem Obj) : Except JsError (Elem Obj) × Table :=
  ((removeRep t.1 rep).1, ⟨(removeRep t.1 rep).2, t.2.trans (length_removeRep t.1 rep)⟩)

def insert (t : Table) (v : Obj) : Option (Elem Obj × Table) :=
  match h : t.1.insert v with
  | none => none
  | some (rep, a) => some (rep, ⟨a, t.2.trans (length_insert h)⟩)

/-- `remove` does not throw. -/
def Removes (t : Table) (rep : Elem Obj) : Prop := rep ≠ .num 0 ∧ t.1.length ≠ 2

instance (t : Table) (rep : Elem Obj) : Decidable (Removes t rep) :=
  inferInstanceAs (Decidable (_ ∧ _))

/-- `remove` answers something that counts as an object. -/
def Holds (t : Table) (rep : Elem Obj) : Prop :=
  Removes t rep ∧ (t.1.data rep.shl1).truthy = true

end Table

namespace State

def setHandles (s : State) (componentIdx : Int) (t : Table) : State :=
  { s with handles := Function.update s.handles componentIdx t }

def setTable (s : State) (tableIdx : Nat) (componentIdx : Int) (t : Table) : State :=
  { s with streamTables := Function.update s.streamTables tableIdx (some (componentIdx, t)) }

def setEnd (s : State) (id : Nat) (x : StreamEnd) : State :=
  { s with ends := Function.update s.ends id x }

def setStream (s : State) (id : Nat) (x : Shared) : State :=
  { s with streams := Function.update s.streams id x }

def setFuture (s : State) (id : Nat) (x : FutureEnd) : State :=
  { s with futures := Function.update s.futures id x }

end State

/-- `cstate.handles.remove` -/
def removeHandle (componentIdx : Int) (rep : Elem Obj) : Js (Elem Obj) := do
  let s ← Script.get
  match (s.handles componentIdx).remove rep with
  | (.error e, _) => Script.throw (some e)
  | (.ok removed, t) =>
    Script.modify fun s => s.setHandles componentIdx t
    pure removed

/-- `table.remove`, of a table that is found in the map. -/
def removeFromTable (tableIdx : Nat) (rep : Elem Obj) : Js (Elem Obj) := do
  let s ← Script.get
  match s.streamTables tableIdx with
  | none => typeError
  | some (componentIdx, table) =>
    match Table.remove table rep with
    | (.error e, _) => Script.throw (some e)
    | (.ok removed, t) =>
      Script.modify fun s => s.setTable tableIdx componentIdx t
      pure removed

/-- `handles.get`, where an object is wanted; a link to a free place has none of its
methods. -/
def getHandle (componentIdx rep : Int) (missing : String) : Js Obj := do
  let s ← Script.get
  match (s.handles componentIdx).1.get rep with
  | .error e => Script.throw (some e)
  | .ok (.obj obj) => pure obj
  | .ok (.num n) => if n = 0 then fail missing else typeError
  | .ok _ => fail missing

/-- A rep in a message. -/
def repString : Elem Obj → String
  | .undefined => "undefined"
  | .null => "null"
  | .num n => toString n
  | .obj _ => "[object Object]"

/-- How an end is taken out of both tables. -/
def takeOut (componentIdx : Int) (waitableIdx : Elem Obj) (tableIdx : Nat) (handle : Elem Obj)
    (noHandle noEnd : String) : Js Unit := do
  let removed ← removeHandle componentIdx waitableIdx
  Script.throwIf (!removed.truthy) (some (.error noHandle))
  let removed ← removeFromTable tableIdx handle
  Script.throwIf (!removed.truthy) (some (.error noEnd))

/-! ## Dropping an end -/

/-- The messages of `deleteStreamEnd`. -/
def missingEnd (streamEndWaitableIdx : Int) : String :=
  s!"missing stream end [{streamEndWaitableIdx}] in component handles while deleting stream"

def waitableNotRemoved (streamEndWaitableIdx componentIdx : Int) : String :=
  s!"failed to remove stream end [{streamEndWaitableIdx}] waitable obj in component " ++
    s!"[{componentIdx}]"

def endNotRemoved (handle : Elem Obj) (tableIdx : Nat) (componentIdx : Int) : String :=
  s!"failed to remove stream end with handle [{repString handle}] from stream table " ++
    s!"[{tableIdx}] in component [{componentIdx}]"

/-- `deleteStreamEnd` -/
def deleteStreamEnd (tableIdx : Nat) (streamEndWaitableIdx : Int) : Js Nat := do
  let s ← Script.get
  match s.streamTables tableIdx with
  | none => typeError
  | some (componentIdx, _) =>
    match ← getHandle componentIdx streamEndWaitableIdx (missingEnd streamEndWaitableIdx) with
    | .future _ => typeError
    | .other => typeError
    | .stream id =>
      let x := s.ends id
      Script.throwIf (x.streamTableIdx ≠ tableIdx) (some (.error
        s!"stream end table idx [{x.streamTableIdx}] does not match [{tableIdx}]"))
      takeOut componentIdx x.waitableIdx tableIdx x.handle
        (waitableNotRemoved streamEndWaitableIdx componentIdx)
        (endNotRemoved x.handle tableIdx componentIdx)
      pure id

/-- `join(null)` of a waitable. -/
def leaveSet (id : Nat) (s : State) : State :=
  match (s.ends id).waitableSet with
  | none => s
  | some n =>
    { s.setEnd id { s.ends id with waitableSet := none } with
      sets := Function.update s.sets n ((s.sets n).filter (· ≠ id)) }

/-- `resetAndNotifyPending` -/
def resetAndNotifyPending (stream : Nat) (s : State) : State :=
  let s' := s.setStream stream { s.streams stream with onCopyDoneFn := none }
  match (s.streams stream).onCopyDoneFn with
  | none => s'
  | some id => s'.setEnd id { s'.ends id with pendingEvent := true }

/-- `drop` of a stream end. -/
def dropEnd (id : Nat) : Js Unit := do
  let s ← Script.get
  let x := s.ends id
  if (s.streams x.stream).dropped then pure ()
  else
    Script.modify fun s => s.setEnd id { s.ends id with hostDropFn := false }
    Script.throwIf x.pendingEvent
      (some (.error "waitables with pending events cannot be dropped"))
    Script.modify (leaveSet id)
    Script.modify fun s => s.setStream x.stream { s.streams x.stream with dropped := true }
    Script.modify (resetAndNotifyPending x.stream)

/-- The class that a drop expects. -/
def className : Side → String
  | .read => "StreamReadableEnd"
  | .write => "StreamWritableEnd"

/-- `streamDropReadable` and `streamDropWritable`, with their context. -/
def streamDrop (side : Side) (streamTableIdx : Nat) (componentIdx : Int)
    (streamEndWaitableIdx : Int) : Js Unit := do
  let s ← Script.get
  Script.throwIf (!s.hasTask componentIdx) (some (.error "invalid/missing async task"))
  let id ← deleteStreamEnd streamTableIdx streamEndWaitableIdx
  Script.throwIf ((s.ends id).side ≠ side)
    (some (.error s!"invalid stream end class, expected [{className side}]"))
  dropEnd id

/-! ## Moving an end -/

/-- `handle()` -/
def handleOf (streamEnd : Obj) : Js (Elem Obj) := do
  let s ← Script.get
  match streamEnd with
  | .stream id => pure (s.ends id).handle
  | .future id => pure (s.futures id).handle
  | .other => typeError

/-- `removeStreamEndFromTable`. The end of a future has a handle of its own, too. -/
def removeStreamEndFromTable (tableIdx : Nat) (streamWaitableIdx : Int) : Js Obj := do
  let s ← Script.get
  match s.streamTables tableIdx with
  | none => typeError
  | some (componentIdx, _) =>
    let streamEnd ← getHandle componentIdx streamWaitableIdx
      s!"missing stream end (handle [{streamWaitableIdx}], table [{tableIdx}])"
    let handle ← handleOf streamEnd
    takeOut componentIdx (.num streamWaitableIdx) tableIdx handle
      (s!"failed to remove streamEnd from handles (waitable idx [{streamWaitableIdx}]), " ++
        s!"component [{componentIdx}])")
      (s!"failed to remove streamEnd from table (handle [{repString handle}]), " ++
        s!"table [{tableIdx}], component [{componentIdx}])")
    pure streamEnd

/-- `handles.insert` and `table.insert` -/
def insertInto (t : Table) (v : Obj) : Js (Elem Obj × Table) :=
  match t.insert v with
  | none => Script.throw none
  | some r => pure r

/-- `addStreamEndToTable`. The end of a future has no stream table to be set. -/
def addStreamEndToTable (tableIdx : Nat) (streamEnd : Obj) : Js (Elem Obj) := do
  let s ← Script.get
  match s.streamTables tableIdx with
  | none => typeError
  | some (componentIdx, table) =>
    let (handle, t) ← insertInto table streamEnd
    Script.modify fun s => s.setTable tableIdx componentIdx t
    match streamEnd with
    | .stream id =>
      Script.modify fun s =>
        s.setEnd id { s.ends id with handle := handle, streamTableIdx := tableIdx }
      let s ← Script.get
      let (waitableIdx, t) ← insertInto (s.handles componentIdx) streamEnd
      Script.modify fun s => s.setHandles componentIdx t
      Script.throwIf (waitableIdx = .num 0) (some (.error "waitable idx cannot be zero"))
      Script.modify fun s => s.setEnd id { s.ends id with waitableIdx := waitableIdx }
      pure waitableIdx
    | .future id =>
      Script.modify fun s => s.setFuture id { s.futures id with handle := handle }
      typeError
    | .other => typeError

/-- `isReadable` and `isDoneState` of what has been removed. -/
def State.isReadable (s : State) : Obj → Bool
  | .stream id => (s.ends id).side = .read
  | .future id => (s.futures id).readable
  | .other => false

def State.isDoneState (s : State) : Obj → Bool
  | .stream id => (s.ends id).copyState = .done
  | .future id => (s.futures id).done
  | .other => false

/-- `streamTransfer` once it has found the current task. -/
def moveStreamEnd (srcStreamWaitableIdx : Int) (srcTableIdx destTableIdx : Nat) :
    Js (Elem Obj) := do
  let streamEnd ← removeStreamEndFromTable srcTableIdx srcStreamWaitableIdx
  let s ← Script.get
  Script.throwIf (!s.isReadable streamEnd) (some (.error "writable stream ends cannot be moved"))
  Script.throwIf (s.isDoneState streamEnd)
    (some (.error "readable ends cannot be moved once writable ends are dropped"))
  addStreamEndToTable destTableIdx streamEnd

def streamTransfer (srcStreamWaitableIdx : Int) (srcTableIdx destTableIdx : Nat) :
    Js (Elem Obj) := do
  let s ← Script.get
  match s.streamTables srcTableIdx with
  | none => fail "missing stream meta during transfer"
  | some (componentIdx, _) =>
    match s.currentTaskError componentIdx with
    | some e => Script.throw (some e)
    | none => moveStreamEnd srcStreamWaitableIdx srcTableIdx destTableIdx

/-! ## What is expected -/

inductive Call where
  | drop (side : Side) (streamTableIdx : Nat) (componentIdx : Int) (streamEndWaitableIdx : Int)
  | transfer (srcStreamWaitableIdx : Int) (srcTableIdx destTableIdx : Nat)

def Call.script : Call → Js Unit
  | drop side tableIdx componentIdx idx => streamDrop side tableIdx componentIdx idx
  | transfer idx srcTableIdx destTableIdx => do
      let _ ← streamTransfer idx srcTableIdx destTableIdx
      pure ()

/-- A call that ends, with what it throws if it throws. -/
def Outcome (call : Call) (s : State) (err : Option JsError) (s' : State) : Prop :=
  (call.script.run s = (.ok (), s') ∧ err = none) ∨
    ∃ e, call.script.run s = (.error (some e), s') ∧ err = some e

/-- What the handle stands for, in the component that the table belongs to. -/
def State.named (s : State) (tableIdx : Nat) (rep : Int) : Option Obj :=
  match s.streamTables tableIdx with
  | none => none
  | some (componentIdx, _) =>
    match (s.handles componentIdx).1.get rep with
    | .ok (.obj obj) => some obj
    | _ => none

/-- `isCopying` -/
def StreamEnd.isCopying (x : StreamEnd) : Bool :=
  match x.copyState with
  | .idle => false
  | .done => false
  | .syncCopying => true
  | .asyncCopying => true
  | .cancellingCopy => true

/-- The end is not one that the call is for, or it cannot be dropped or moved now. -/
def WrongEnd (x : StreamEnd) : Call → Prop
  | .drop side tableIdx _ _ => x.side ≠ side ∨ x.streamTableIdx ≠ tableIdx ∨ x.isCopying = true
  | .transfer _ srcTableIdx _ =>
    x.side ≠ .read ∨ x.streamTableIdx ≠ srcTableIdx ∨ x.copyState = .done ∨ x.isCopying = true

/-- What the handle of a call stands for. -/
def State.target (s : State) : Call → Option Obj
  | .drop _ tableIdx _ idx => s.named tableIdx idx
  | .transfer idx srcTableIdx _ => s.named srcTableIdx idx

/-- The handle stands for something that the call must refuse. -/
def Wrong (s : State) (call : Call) : Prop :=
  match s.target call with
  | none => False
  | some (.stream id) => WrongEnd (s.ends id) call
  | some (.future _) => True
  | some .other => True

/-- The drop of an end with a copy in progress. -/
def DropsCopying (s : State) : Call → Prop
  | .drop _ tableIdx _ idx => ∃ id, s.named tableIdx idx = some (.stream id) ∧
      (s.ends id).isCopying = true
  | .transfer _ _ _ => False

/-- A call that fails on a wrong handle has changed nothing, and an end with a copy in
progress is not dropped. -/
structure Atomic (call : Call) (s : State) (err : Option JsError) (s' : State) : Prop where
  unchanged : Wrong s call → err ≠ none → s' = s
  copying : DropsCopying s call → err ≠ none

/-! ## When it is so -/

/-- A drop has taken the handle out before it finds the end wrong, or does not find
out. -/
def LosesDropped (s : State) (side : Side) (tableIdx : Nat) (componentIdx idx : Int) : Prop :=
  s.hasTask componentIdx = true ∧
    ∃ c table id, s.streamTables tableIdx = some (c, table) ∧
      s.named tableIdx idx = some (.stream id) ∧ (s.ends id).streamTableIdx = tableIdx ∧
      (s.handles c).Removes (s.ends id).waitableIdx ∧
      ((s.ends id).side ≠ side ∨ (s.ends id).isCopying = true)

/-- The end of a stream is found wrong when its handle has been taken out. -/
def FailsMoving (s : State) (table : Table) (x : StreamEnd) (srcTableIdx destTableIdx : Nat) :
    Prop :=
  x.side ≠ .read ∨ x.copyState = .done ∨
    (x.streamTableIdx ≠ srcTableIdx ∨ x.isCopying = true) ∧
      (¬ Table.Holds table x.handle ∨ s.streamTables destTableIdx = none)

def LosesMoved (s : State) (idx : Int) (srcTableIdx destTableIdx : Nat) : Prop :=
  ∃ c table obj, s.streamTables srcTableIdx = some (c, table) ∧ s.currentTaskError c = none ∧
    s.named srcTableIdx idx = some obj ∧ (s.handles c).Removes (.num idx) ∧
    match obj with
    | .stream id => FailsMoving s table (s.ends id) srcTableIdx destTableIdx
    | .future _ => True
    | .other => False

/-- The call loses a handle, or drops an end with a copy in progress. -/
def Loses (s : State) : Call → Prop
  | .drop side tableIdx componentIdx idx => LosesDropped s side tableIdx componentIdx idx
  | .transfer idx srcTableIdx destTableIdx => LosesMoved s idx srcTableIdx destTableIdx

/-! ## Taking an end out -/

open Script

variable {s s' : State}

namespace Table

variable {t : Table} {rep : Elem Obj}

theorem remove_of_removes (h : Removes t rep) : ∃ t', t.remove rep = (.ok (t.1.data rep.shl1), t') ∧
    t'.1.size = t.1.size - 1 := by
  unfold remove
  cases rep with
  | num n =>
    have hn : n ≠ 0 := fun hn => h.1 (congrArg Elem.num hn)
    unfold removeRep RepArray.remove
    dsimp only
    simp only [if_neg hn, if_neg h.2]
    exact ⟨_, rfl, rfl⟩
  | undefined =>
    unfold removeRep
    simp only [if_neg h.2]
    exact ⟨_, rfl, rfl⟩
  | null =>
    unfold removeRep
    simp only [if_neg h.2]
    exact ⟨_, rfl, rfl⟩
  | obj v =>
    unfold removeRep
    simp only [if_neg h.2]
    exact ⟨_, rfl, rfl⟩

theorem remove_of_not (h : ¬ Removes t rep) : ∃ e, t.remove rep = (.error e, t) := by
  unfold remove
  cases rep with
  | num n =>
    unfold removeRep RepArray.remove
    dsimp only
    by_cases hn : n = 0
    · simp only [if_pos hn]
      exact ⟨_, rfl⟩
    · have hlength : t.1.length = 2 := by
        by_contra hlength
        exact h ⟨fun hnum => hn (Elem.num.inj hnum), hlength⟩
      simp only [if_neg hn, if_pos hlength]
      exact ⟨_, rfl⟩
  | _ =>
    have hlength : t.1.length = 2 := by
      by_contra hlength
      exact h ⟨(nomatch ·), hlength⟩
    unfold removeRep
    simp only [if_pos hlength]
    exact ⟨_, rfl⟩

end Table

section

variable {componentIdx idx : Int} {tableIdx : Nat} {waitableIdx handle : Elem Obj} {table : Table}
  {obj : Obj}

theorem removeHandle_of_removes (h : (s.handles componentIdx).Removes waitableIdx) :
    ∃ t : Table, t.1.size = (s.handles componentIdx).1.size - 1 ∧
      (removeHandle componentIdx waitableIdx).run s =
        (.ok ((s.handles componentIdx).1.data waitableIdx.shl1), s.setHandles componentIdx t) := by
  obtain ⟨t, hremove, hsize⟩ := Table.remove_of_removes h
  refine ⟨t, hsize, ?_⟩
  unfold removeHandle
  rw [get_bind, hremove]
  rfl

theorem removeHandle_of_not (h : ¬ (s.handles componentIdx).Removes waitableIdx) :
    ∃ e, (removeHandle componentIdx waitableIdx).run s = (.error (some e), s) := by
  obtain ⟨e, hremove⟩ := Table.remove_of_not h
  refine ⟨e, ?_⟩
  unfold removeHandle
  rw [get_bind, hremove]
  rfl

theorem removeFromTable_of_removes (htable : s.streamTables tableIdx = some (componentIdx, table))
    (h : table.Removes handle) : ∃ t : Table, (removeFromTable tableIdx handle).run s =
      (.ok (table.1.data handle.shl1), s.setTable tableIdx componentIdx t) := by
  obtain ⟨t, hremove, -⟩ := Table.remove_of_removes h
  refine ⟨t, ?_⟩
  unfold removeFromTable
  rw [get_bind, htable]
  dsimp only
  rw [hremove]
  rfl

theorem removeFromTable_of_not (htable : s.streamTables tableIdx = some (componentIdx, table))
    (h : ¬ table.Removes handle) :
    ∃ e, (removeFromTable tableIdx handle).run s = (.error (some e), s) := by
  obtain ⟨e, hremove⟩ := Table.remove_of_not h
  refine ⟨e, ?_⟩
  unfold removeFromTable
  rw [get_bind, htable]
  dsimp only
  rw [hremove]
  rfl

theorem getHandle_of_obj (h : (s.handles componentIdx).1.get idx = .ok (.obj obj))
    (missing : String) : (getHandle componentIdx idx missing).run s = (.ok obj, s) := by
  unfold getHandle
  rw [get_bind, h]
  rfl

/-- What a handle names is found, and nothing else. -/
theorem named_eq_some_iff (htable : s.streamTables tableIdx = some (componentIdx, table)) :
    s.named tableIdx idx = some obj ↔ (s.handles componentIdx).1.get idx = .ok (.obj obj) := by
  unfold State.named
  rw [htable]
  dsimp only
  split
  · rename_i obj' hget
    rw [hget]
    constructor
    · intro h
      rw [Option.some.inj h]
    · intro h
      rw [Elem.obj.inj (Except.ok.inj h)]
  · rename_i hno
    constructor
    · intro h
      cases h
    · intro h
      exact absurd h (hno obj)

theorem named_truthy (htable : s.streamTables tableIdx = some (componentIdx, table))
    (h : s.named tableIdx idx = some obj) :
    ((s.handles componentIdx).1.data (Elem.num idx : Elem Obj).shl1).truthy = true := by
  have hget := (named_eq_some_iff htable).1 h
  unfold RepArray.get at hget
  split at hget
  · cases hget
  · show ((s.handles componentIdx).1.data (shl idx 1)).truthy = true
    rw [Except.ok.inj hget]
    rfl

/-- The table of the component has lost a place, and the ends are as they were. -/
structure TakenOut (componentIdx : Int) (s s' : State) : Prop where
  size : (s'.handles componentIdx).1.size = (s.handles componentIdx).1.size - 1
  ends : s'.ends = s.ends
  futures : s'.futures = s.futures
  streams : s'.streams = s.streams
  tables : ∀ i, s'.streamTables i = none ↔ s.streamTables i = none

/-- One removal too many cannot be hidden. -/
theorem TakenOut.ne {s₁ : State} (h : TakenOut componentIdx s s₁)
    (hsame : s'.handles = s₁.handles) : s' ≠ s := by
  intro heq
  have hsize := h.size
  rw [← hsame, heq] at hsize
  omega

theorem takenOut_setHandles {t : Table}
    (hsize : t.1.size = (s.handles componentIdx).1.size - 1) :
    TakenOut componentIdx s (s.setHandles componentIdx t) where
  size := by
    unfold State.setHandles
    dsimp only
    rw [Function.update_self]
    exact hsize
  ends := rfl
  futures := rfl
  streams := rfl
  tables _ := Iff.rfl

theorem TakenOut.setTable {s₁ : State} (h : TakenOut componentIdx s s₁)
    (htable : s₁.streamTables tableIdx = some (componentIdx, table)) (t : Table) :
    TakenOut componentIdx s (s₁.setTable tableIdx componentIdx t) where
  size := h.size
  ends := h.ends
  futures := h.futures
  streams := h.streams
  tables i := by
    rw [← h.tables i]
    show Function.update s₁.streamTables tableIdx _ i = none ↔ _
    by_cases hi : i = tableIdx
    · subst hi
      rw [Function.update_self, htable]
      exact ⟨(nomatch ·), (nomatch ·)⟩
    · rw [Function.update_of_ne hi]

theorem takeOut_of_not (tableIdx : Nat) (handle : Elem Obj) (noHandle noEnd : String)
    (h : ¬ (s.handles componentIdx).Removes waitableIdx) :
    ∃ e, (takeOut componentIdx waitableIdx tableIdx handle noHandle noEnd).run s =
      (.error (some e), s) := by
  obtain ⟨e, hremove⟩ := removeHandle_of_not h
  exact ⟨e, run_bind_error hremove _⟩

/-- Once the first place is lost, the end is taken out or an error thrown. -/
theorem takeOut_of_removes (handle : Elem Obj) (noHandle noEnd : String)
    (htable : s.streamTables tableIdx = some (componentIdx, table))
    (h : (s.handles componentIdx).Removes waitableIdx) :
    ∃ s₁, TakenOut componentIdx s s₁ ∧
      ((∃ e, (takeOut componentIdx waitableIdx tableIdx handle noHandle noEnd).run s =
          (.error (some e), s₁) ∧
        (((s.handles componentIdx).1.data waitableIdx.shl1).truthy = true →
          ¬ table.Holds handle)) ∨
      (takeOut componentIdx waitableIdx tableIdx handle noHandle noEnd).run s = (.ok (), s₁) ∧
        table.Holds handle) := by
  obtain ⟨t, hsize, hremove⟩ := removeHandle_of_removes h
  have hout := takenOut_setHandles hsize
  unfold takeOut
  rw [run_bind_ok hremove, throwIf_bind]
  cases hvalue : ((s.handles componentIdx).1.data waitableIdx.shl1).truthy with
  | false => exact ⟨_, hout, .inl ⟨_, rfl, (nomatch ·)⟩⟩
  | true =>
    simp only [Bool.not_true, Bool.false_eq_true, if_false]
    have htable' : (s.setHandles componentIdx t).streamTables tableIdx =
        some (componentIdx, table) := htable
    by_cases hremoves : table.Removes handle
    · obtain ⟨t', hremove'⟩ := removeFromTable_of_removes htable' hremoves
      rw [run_bind_ok hremove']
      refine ⟨_, hout.setTable htable' t', ?_⟩
      cases hfound : (table.1.data handle.shl1).truthy with
      | false =>
        refine .inl ⟨_, rfl, fun _ hholds => ?_⟩
        rw [hholds.2] at hfound
        cases hfound
      | true => exact .inr ⟨rfl, hremoves, hfound⟩
    · obtain ⟨e, hremove'⟩ := removeFromTable_of_not htable' hremoves
      rw [run_bind_error hremove']
      exact ⟨_, hout, .inl ⟨e, rfl, fun _ hholds => hremoves hholds.1⟩⟩

/-! ## Drops -/

variable {side : Side} {id : Nat} {err : Option JsError}

theorem deleteStreamEnd_of_removes (htable : s.streamTables tableIdx = some (componentIdx, table))
    (hnamed : s.named tableIdx idx = some (.stream id))
    (hidx : (s.ends id).streamTableIdx = tableIdx)
    (hremoves : (s.handles componentIdx).Removes (s.ends id).waitableIdx) :
    ∃ s₁, TakenOut componentIdx s s₁ ∧
      ((∃ e, (deleteStreamEnd tableIdx idx).run s = (.error (some e), s₁)) ∨
        (deleteStreamEnd tableIdx idx).run s = (.ok id, s₁)) := by
  unfold deleteStreamEnd
  rw [get_bind, htable]
  rw [run_bind_ok (getHandle_of_obj ((named_eq_some_iff htable).1 hnamed) _)]
  rw [throwIf_bind]
  simp only [hidx, ne_eq, not_true_eq_false, decide_false, Bool.false_eq_true, if_false]
  obtain ⟨s₁, hout, hrun⟩ := takeOut_of_removes (s.ends id).handle
    (waitableNotRemoved idx componentIdx) (endNotRemoved (s.ends id).handle tableIdx componentIdx)
    htable hremoves
  refine ⟨s₁, hout, ?_⟩
  rcases hrun with ⟨e, hrun, -⟩ | ⟨hrun, -⟩
  · exact .inl ⟨e, run_bind_error hrun _⟩
  · exact .inr (run_bind_ok hrun _)

/-- What is not an end of this table is found before anything is removed. -/
theorem deleteStreamEnd_refused (htable : s.streamTables tableIdx = some (componentIdx, table))
    (hnamed : s.named tableIdx idx = some obj)
    (hrefused : ∀ id, obj = .stream id → (s.ends id).streamTableIdx = tableIdx →
      ¬ (s.handles componentIdx).Removes (s.ends id).waitableIdx) :
    ∃ e, (deleteStreamEnd tableIdx idx).run s = (.error (some e), s) := by
  unfold deleteStreamEnd
  rw [get_bind, htable]
  rw [run_bind_ok (getHandle_of_obj ((named_eq_some_iff htable).1 hnamed) _)]
  cases obj with
  | future id => exact ⟨_, rfl⟩
  | other => exact ⟨_, rfl⟩
  | stream id =>
    rw [throwIf_bind]
    by_cases hidx : (s.ends id).streamTableIdx = tableIdx
    · simp only [hidx, ne_eq, not_true_eq_false, decide_false, Bool.false_eq_true, if_false]
      obtain ⟨e, hrun⟩ := takeOut_of_not tableIdx (s.ends id).handle
        (waitableNotRemoved idx componentIdx)
        (endNotRemoved (s.ends id).handle tableIdx componentIdx) (hrefused id rfl hidx)
      exact ⟨e, run_bind_error hrun _⟩
    · simp only [hidx, ne_eq, not_false_eq_true, decide_true, if_true]
      exact ⟨_, rfl⟩

/-- The tables of the components are as they were. -/
def SameHandles (s s' : State) : Prop := s'.handles = s.handles

theorem sameHandles : Script.Preorder SameHandles where
  refl _ := rfl
  trans h₁ h₂ := h₂.trans h₁

theorem sameHandles_leaveSet (id : Nat) (s : State) : SameHandles s (leaveSet id s) := by
  unfold leaveSet
  split
  · rfl
  · rfl

theorem sameHandles_resetAndNotifyPending (stream : Nat) (s : State) :
    SameHandles s (resetAndNotifyPending stream s) := by
  unfold resetAndNotifyPending
  dsimp only
  split
  · rfl
  · rfl

theorem dropEnd_handles (id : Nat) : Keeps SameHandles (dropEnd id) := by
  refine .bind sameHandles (.get sameHandles) fun s => ?_
  refine .ite (.pure sameHandles ()) ?_
  refine .bind sameHandles (.modify fun _ => rfl) fun _ => ?_
  refine .bind sameHandles (.throwIf sameHandles _ _) fun _ => ?_
  refine .bind sameHandles (.modify (sameHandles_leaveSet id)) fun _ => ?_
  refine .bind sameHandles (.modify fun _ => rfl) fun _ => ?_
  exact .modify (sameHandles_resetAndNotifyPending _)

/-- A handle that is wrong has been lost when the drop ends, and a copy is not seen. -/
theorem losesDropped_not_atomic (h : LosesDropped s side tableIdx componentIdx idx)
    (hout : Outcome (.drop side tableIdx componentIdx idx) s err s') :
    ¬ Atomic (.drop side tableIdx componentIdx idx) s err s' := by
  obtain ⟨htask, c, table, id, htable, hnamed, hidx, hremoves, hwrong⟩ := h
  obtain ⟨s₁, htaken, hdelete⟩ := deleteStreamEnd_of_removes htable hnamed hidx hremoves
  have hiswrong : Wrong s (.drop side tableIdx componentIdx idx) := by
    unfold Wrong State.target
    dsimp only
    rw [hnamed]
    exact hwrong.imp_right .inr
  intro hatomic
  -- after the task is found, the drop is what follows the removal
  have hrun : (streamDrop side tableIdx componentIdx idx).run s =
      (deleteStreamEnd tableIdx idx >>= fun id => do
        Script.throwIf ((s.ends id).side ≠ side)
          (some (.error s!"invalid stream end class, expected [{className side}]"))
        dropEnd id).run s := by
    unfold streamDrop
    rw [get_bind, throwIf_bind, htask]
    rfl
  have hthrown : ∀ {e}, (streamDrop side tableIdx componentIdx idx).run s =
      (.error (some e), s₁) → False := by
    intro e hthrows
    unfold Outcome Call.script at hout
    rw [hthrows] at hout
    rcases hout with ⟨hout, -⟩ | ⟨e', hout, herr⟩
    · cases hout
    · obtain rfl : s₁ = s' := congrArg Prod.snd hout
      refine htaken.ne rfl (hatomic.unchanged hiswrong ?_)
      rw [herr]
      exact (nomatch ·)
  rcases hdelete with ⟨e, hdelete⟩ | hdelete
  · exact hthrown (hrun.trans (run_bind_error hdelete _))
  · rw [run_bind_ok hdelete, throwIf_bind] at hrun
    by_cases hside : (s.ends id).side = side
    · -- the end is of the right side, so a copy is in progress
      simp only [hside, ne_eq, not_true_eq_false, decide_false, Bool.false_eq_true,
        if_false] at hrun
      have hcopying : DropsCopying s (.drop side tableIdx componentIdx idx) :=
        ⟨id, hnamed, hwrong.resolve_left (not_not.2 hside)⟩
      have hne := hatomic.copying hcopying
      have hsame := hatomic.unchanged hiswrong hne
      have hkept := dropEnd_handles id s₁
      unfold Outcome Call.script at hout
      rw [hrun] at hout
      unfold leaves at hkept
      rcases hout with ⟨hout, -⟩ | ⟨e', hout, -⟩
      · rw [hout] at hkept
        exact htaken.ne hkept hsame
      · rw [hout] at hkept
        exact htaken.ne hkept hsame
    · simp only [hside, ne_eq, not_false_eq_true, decide_true, if_true] at hrun
      exact hthrown hrun

/-- A script that only throws leaves the state. -/
theorem atomic_of_error {call : Call} {e : JsError}
    (hrun : call.script.run s = (.error (some e), s)) (hout : Outcome call s err s') :
    Atomic call s err s' := by
  unfold Outcome at hout
  rw [hrun] at hout
  rcases hout with ⟨hout, -⟩ | ⟨e', hout, herr⟩
  · cases hout
  · obtain rfl : s = s' := congrArg Prod.snd hout
    refine ⟨fun _ _ => rfl, fun _ => ?_⟩
    rw [herr]
    exact (nomatch ·)

/-- A handle that stands for nothing is not wrong. -/
theorem atomic_of_not_wrong {call : Call} (hwrong : ¬ Wrong s call)
    (hcopying : ¬ DropsCopying s call) : Atomic call s err s' :=
  ⟨fun h => absurd h hwrong, fun h => absurd h hcopying⟩

theorem not_losesDropped_atomic (h : ¬ LosesDropped s side tableIdx componentIdx idx)
    (hout : Outcome (.drop side tableIdx componentIdx idx) s err s') :
    Atomic (.drop side tableIdx componentIdx idx) s err s' := by
  cases htask : s.hasTask componentIdx with
  | false =>
    have hrun : (streamDrop side tableIdx componentIdx idx).run s =
        (.error (some (.error "invalid/missing async task")), s) := by
      unfold streamDrop
      rw [get_bind, throwIf_bind, htask]
      rfl
    exact atomic_of_error hrun hout
  | true =>
    -- the drop throws if the removal does
    have hrun : ∀ {e}, (deleteStreamEnd tableIdx idx).run s = (.error (some e), s) →
        (streamDrop side tableIdx componentIdx idx).run s = (.error (some e), s) := by
      intro e hdelete
      unfold streamDrop
      rw [get_bind, throwIf_bind, htask]
      simp only [Bool.not_true, Bool.false_eq_true, if_false]
      exact run_bind_error hdelete _
    cases htable : s.streamTables tableIdx with
    | none =>
      refine atomic_of_error (hrun (e := .engine) ?_) hout
      unfold deleteStreamEnd
      rw [get_bind, htable]
      rfl
    | some entry =>
      obtain ⟨c, table⟩ := entry
      cases hnamed : s.named tableIdx idx with
      | none =>
        apply atomic_of_not_wrong
        · unfold Wrong State.target
          dsimp only
          rw [hnamed]
          exact not_false
        · rintro ⟨id, hid, -⟩
          rw [hnamed] at hid
          cases hid
      | some obj =>
        by_cases hrefused : ∀ id, obj = .stream id → (s.ends id).streamTableIdx = tableIdx →
            ¬ (s.handles c).Removes (s.ends id).waitableIdx
        · obtain ⟨e, hdelete⟩ := deleteStreamEnd_refused htable hnamed hrefused
          exact atomic_of_error (hrun hdelete) hout
        · -- the end is taken out, so there is nothing wrong with it
          push Not at hrefused
          obtain ⟨id, rfl, hidx, hremoves⟩ := hrefused
          have hright : ¬ ((s.ends id).side ≠ side ∨ (s.ends id).isCopying = true) :=
            fun hwrong => h ⟨htask, c, table, id, htable, hnamed, hidx, hremoves, hwrong⟩
          apply atomic_of_not_wrong
          · unfold Wrong State.target
            dsimp only
            rw [hnamed]
            rintro (hside | hother | hcopying)
            · exact hright (.inl hside)
            · exact hother hidx
            · exact hright (.inr hcopying)
          · rintro ⟨id', hid, hcopying⟩
            rw [hnamed] at hid
            cases hid
            exact hright (.inr hcopying)

/-! ## Moves -/

/-- `removeStreamEndFromTable`, up to the removal. -/
theorem removeStreamEndFromTable_run
    (htable : s.streamTables tableIdx = some (componentIdx, table))
    (hnamed : s.named tableIdx idx = some obj) (hhandle : (handleOf obj).run s = (.ok handle, s)) :
    ∃ noHandle noEnd, (removeStreamEndFromTable tableIdx idx).run s =
      (takeOut componentIdx (.num idx) tableIdx handle noHandle noEnd >>=
        fun _ => (pure obj : Js Obj)).run s := by
  unfold removeStreamEndFromTable
  rw [get_bind, htable]
  rw [run_bind_ok (getHandle_of_obj ((named_eq_some_iff htable).1 hnamed) _), run_bind_ok hhandle]
  exact ⟨_, _, rfl⟩

theorem removeStreamEndFromTable_of_removes
    (htable : s.streamTables tableIdx = some (componentIdx, table))
    (hnamed : s.named tableIdx idx = some obj) (hhandle : (handleOf obj).run s = (.ok handle, s))
    (hremoves : (s.handles componentIdx).Removes (.num idx)) :
    ∃ s₁, TakenOut componentIdx s s₁ ∧
      ((∃ e, (removeStreamEndFromTable tableIdx idx).run s = (.error (some e), s₁) ∧
          ¬ table.Holds handle) ∨
        (removeStreamEndFromTable tableIdx idx).run s = (.ok obj, s₁) ∧ table.Holds handle) := by
  obtain ⟨noHandle, noEnd, hrun⟩ := removeStreamEndFromTable_run htable hnamed hhandle
  obtain ⟨s₁, hout, htake⟩ := takeOut_of_removes handle noHandle noEnd htable hremoves
  refine ⟨s₁, hout, ?_⟩
  rcases htake with ⟨e, htake, hholds⟩ | ⟨htake, hholds⟩
  · exact .inl ⟨e, hrun.trans (run_bind_error htake _), hholds (named_truthy htable hnamed)⟩
  · exact .inr ⟨hrun.trans (run_bind_ok htake _), hholds⟩

theorem removeStreamEndFromTable_of_not
    (htable : s.streamTables tableIdx = some (componentIdx, table))
    (hnamed : s.named tableIdx idx = some obj) (hhandle : (handleOf obj).run s = (.ok handle, s))
    (hremoves : ¬ (s.handles componentIdx).Removes (.num idx)) :
    ∃ e, (removeStreamEndFromTable tableIdx idx).run s = (.error (some e), s) := by
  obtain ⟨noHandle, noEnd, hrun⟩ := removeStreamEndFromTable_run htable hnamed hhandle
  obtain ⟨e, htake⟩ := takeOut_of_not tableIdx handle noHandle noEnd hremoves
  exact ⟨e, hrun.trans (run_bind_error htake _)⟩

/-- The place of a new cell is not the first. -/
theorem insert_ne_zero {t t' : Table} {v : Obj} {rep : Elem Obj} (h : t.insert v = some (rep, t')) :
    rep ≠ .num 0 := by
  unfold Table.insert at h
  split at h
  · cases h
  · rename_i rep' a hinsert
    cases h
    unfold RepArray.insert at hinsert
    split at hinsert
    · split at hinsert
      · rename_i hroom
        obtain ⟨hrep, -⟩ := Prod.mk.inj (Option.some.inj hinsert)
        have hpushed : ((t.1.push (.obj v)).push .null).length = t.1.length + 2 := by
          unfold RepArray.push RepArray.put
          dsimp only
          rw [if_pos (by omega), if_pos (by omega)]
          omega
        rw [hpushed, shr_one _ (by omega) (by omega)] at hrep
        rw [← hrep]
        intro hzero
        have hnum := Elem.num.inj hzero
        omega
      · cases hinsert
    · rename_i hfree
      obtain ⟨hrep, -⟩ := Prod.mk.inj (Option.some.inj hinsert)
      rw [← hrep]
      exact hfree

variable {tableIdx' : Nat}

theorem addStreamEndToTable_none (htable : s.streamTables tableIdx = none) (obj : Obj) :
    (addStreamEndToTable tableIdx obj).run s = (.error (some .engine), s) := by
  unfold addStreamEndToTable
  rw [get_bind, htable]
  rfl

/-- The end of a future cannot be added, and nothing comes back into the tables of the
components. -/
theorem addStreamEndToTable_future (tableIdx id : Nat) (s : State) :
    ∃ e s', (addStreamEndToTable tableIdx (.future id)).run s = (.error e, s') ∧
      s'.handles = s.handles := by
  unfold addStreamEndToTable
  rw [get_bind]
  cases s.streamTables tableIdx with
  | none => exact ⟨_, _, rfl, rfl⟩
  | some entry =>
    obtain ⟨c, table⟩ := entry
    dsimp only
    unfold insertInto
    cases table.insert (.future id) with
    | none => exact ⟨_, _, rfl, rfl⟩
    | some r => exact ⟨_, _, rfl, rfl⟩

/-- The end of a stream is added, if there is room. -/
theorem addStreamEndToTable_stream (htable : s.streamTables tableIdx ≠ none) (id : Nat) :
    ∀ e s', (addStreamEndToTable tableIdx (.stream id)).run s = (.error e, s') → e = none := by
  intro e s' hrun
  unfold addStreamEndToTable insertInto at hrun
  rw [get_bind] at hrun
  cases htable' : s.streamTables tableIdx with
  | none => exact absurd htable' htable
  | some entry =>
    obtain ⟨c, table⟩ := entry
    rw [htable'] at hrun
    dsimp only at hrun
    cases hinsert : table.insert (.stream id) with
    | none =>
      rw [hinsert] at hrun
      cases hrun
      rfl
    | some r =>
      rw [hinsert] at hrun
      simp only [pure_bind, modify_bind, get_bind] at hrun
      split at hrun
      · cases hrun
        rfl
      · rename_i r' hinsert'
        -- the place in the table of the component is never `0`
        obtain ⟨waitableIdx, t⟩ := r'
        have hne := insert_ne_zero hinsert'
        simp only [pure_bind, modify_bind, throwIf_bind, hne, decide_false,
          Bool.false_eq_true, if_false, run_pure] at hrun
        cases hrun

theorem streamTransfer_run (htable : s.streamTables tableIdx = some (componentIdx, table))
    (hcurrent : s.currentTaskError componentIdx = none) :
    (streamTransfer idx tableIdx tableIdx').run s =
      (moveStreamEnd idx tableIdx tableIdx').run s := by
  unfold streamTransfer
  rw [get_bind, htable]
  dsimp only
  rw [hcurrent]

/-- A handle that is wrong has been lost when the transfer fails. -/
theorem moveStreamEnd_of_loses (h : LosesMoved s idx tableIdx tableIdx') :
    ∃ e s', (streamTransfer idx tableIdx tableIdx').run s = (.error e, s') ∧ s' ≠ s := by
  obtain ⟨c, table, obj, htable, hcurrent, hnamed, hremoves, hfails⟩ := h
  rw [streamTransfer_run htable hcurrent]
  unfold moveStreamEnd
  cases obj with
  | other => exact hfails.elim
  | future id =>
    obtain ⟨s₁, htaken, hrun⟩ :=
      removeStreamEndFromTable_of_removes htable hnamed rfl hremoves
    rcases hrun with ⟨e, hrun, -⟩ | ⟨hrun, -⟩
    · exact ⟨_, s₁, run_bind_error hrun _, htaken.ne rfl⟩
    · rw [run_bind_ok hrun, get_bind, throwIf_bind, throwIf_bind]
      obtain ⟨e, s₂, hadd, hsame⟩ := addStreamEndToTable_future tableIdx' id s₁
      split
      · exact ⟨_, s₁, rfl, htaken.ne rfl⟩
      split
      · exact ⟨_, s₁, rfl, htaken.ne rfl⟩
      · exact ⟨e, s₂, hadd, htaken.ne hsame⟩
  | stream id =>
    obtain ⟨s₁, htaken, hrun⟩ :=
      removeStreamEndFromTable_of_removes htable hnamed rfl hremoves
    rcases hrun with ⟨e, hrun, -⟩ | ⟨hrun, hholds⟩
    · exact ⟨_, s₁, run_bind_error hrun _, htaken.ne rfl⟩
    · rw [run_bind_ok hrun, get_bind, throwIf_bind, throwIf_bind]
      unfold State.isReadable State.isDoneState
      dsimp only
      rw [htaken.ends]
      rcases hfails with hside | hdone | ⟨-, hlost⟩
      · rw [if_pos (by simp [hside])]
        exact ⟨_, s₁, rfl, htaken.ne rfl⟩
      · split
        · exact ⟨_, s₁, rfl, htaken.ne rfl⟩
        · rw [if_pos (by simp [hdone])]
          exact ⟨_, s₁, rfl, htaken.ne rfl⟩
      · have hnone := (htaken.tables tableIdx').2 (hlost.resolve_left (not_not.2 hholds))
        rw [addStreamEndToTable_none hnone]
        split
        · exact ⟨_, s₁, rfl, htaken.ne rfl⟩
        split
        · exact ⟨_, s₁, rfl, htaken.ne rfl⟩
        · exact ⟨_, s₁, rfl, htaken.ne rfl⟩

theorem LosesMoved.wrong (h : LosesMoved s idx tableIdx tableIdx') :
    Wrong s (.transfer idx tableIdx tableIdx') := by
  obtain ⟨c, table, obj, -, -, hnamed, -, hfails⟩ := h
  unfold Wrong State.target
  dsimp only
  rw [hnamed]
  cases obj with
  | other => exact trivial
  | future id => exact trivial
  | stream id =>
    rcases hfails with hside | hdone | ⟨hidx | hcopying, -⟩
    · exact .inl hside
    · exact .inr (.inr (.inl hdone))
    · exact .inr (.inl hidx)
    · exact .inr (.inr (.inr hcopying))

theorem losesMoved_not_atomic (h : LosesMoved s idx tableIdx tableIdx')
    (hout : Outcome (.transfer idx tableIdx tableIdx') s err s') :
    ¬ Atomic (.transfer idx tableIdx tableIdx') s err s' := by
  intro hatomic
  obtain ⟨e, s₁, hrun, hne⟩ := moveStreamEnd_of_loses h
  have hscript : (Call.transfer idx tableIdx tableIdx').script.run s = (.error e, s₁) :=
    run_bind_error hrun _
  unfold Outcome at hout
  rw [hscript] at hout
  rcases hout with ⟨hout, -⟩ | ⟨e', hout, herr⟩
  · cases hout
  · obtain rfl : s₁ = s' := congrArg Prod.snd hout
    refine hne (hatomic.unchanged h.wrong ?_)
    rw [herr]
    exact (nomatch ·)

/-- What is wrong with the end is not looked at: the end is moved, if there is room. -/
theorem moveStreamEnd_stream {id : Nat}
    (htable : s.streamTables tableIdx = some (componentIdx, table))
    (hnamed : s.named tableIdx idx = some (.stream id))
    (hremoves : (s.handles componentIdx).Removes (.num idx))
    (h : ¬ FailsMoving s table (s.ends id) tableIdx tableIdx')
    (hwrong : (s.ends id).streamTableIdx ≠ tableIdx ∨ (s.ends id).isCopying = true) :
    ∀ e s', (moveStreamEnd idx tableIdx tableIdx').run s = (.error e, s') → e = none := by
  unfold FailsMoving at h
  push Not at h
  obtain ⟨hside, hdone, hkeeps⟩ := h
  obtain ⟨hholds, hdest⟩ := hkeeps hwrong
  intro e s' hrun
  obtain ⟨s₁, htaken, hremove⟩ :=
    removeStreamEndFromTable_of_removes htable hnamed rfl hremoves
  unfold moveStreamEnd at hrun
  rcases hremove with ⟨e', -, hno⟩ | ⟨hremove, -⟩
  · exact absurd hholds hno
  · rw [run_bind_ok hremove, get_bind, throwIf_bind, throwIf_bind] at hrun
    unfold State.isReadable State.isDoneState at hrun
    dsimp only at hrun
    rw [htaken.ends, if_neg (by simp [hside]), if_neg (by simp [hdone])] at hrun
    have hdest' : s₁.streamTables tableIdx' ≠ none :=
      fun hnone => hdest ((htaken.tables tableIdx').1 hnone)
    exact addStreamEndToTable_stream hdest' id e s' hrun

theorem not_losesMoved_atomic (h : ¬ LosesMoved s idx tableIdx tableIdx')
    (hout : Outcome (.transfer idx tableIdx tableIdx') s err s') :
    Atomic (.transfer idx tableIdx tableIdx') s err s' := by
  cases htable : s.streamTables tableIdx with
  | none =>
    have hrun : (streamTransfer idx tableIdx tableIdx').run s =
        (.error (some (.error "missing stream meta during transfer")), s) := by
      unfold streamTransfer
      rw [get_bind, htable]
      rfl
    exact atomic_of_error (run_bind_error hrun _) hout
  | some entry =>
    obtain ⟨c, table⟩ := entry
    cases hcurrent : s.currentTaskError c with
    | some e =>
      have hrun : (streamTransfer idx tableIdx tableIdx').run s = (.error (some e), s) := by
        unfold streamTransfer
        rw [get_bind, htable]
        dsimp only
        rw [hcurrent]
        rfl
      exact atomic_of_error (run_bind_error hrun _) hout
    | none =>
      have htransfer : (streamTransfer idx tableIdx tableIdx').run s =
          (moveStreamEnd idx tableIdx tableIdx').run s := streamTransfer_run htable hcurrent
      -- the transfer throws if the removal does
      have hrun : ∀ {e}, (removeStreamEndFromTable tableIdx idx).run s = (.error (some e), s) →
          (streamTransfer idx tableIdx tableIdx').run s = (.error (some e), s) :=
        fun hremove => htransfer.trans (run_bind_error hremove _)
      cases hnamed : s.named tableIdx idx with
      | none =>
        refine atomic_of_not_wrong ?_ not_false
        unfold Wrong State.target
        dsimp only
        rw [hnamed]
        exact not_false
      | some obj =>
        cases obj with
        | other =>
          refine atomic_of_error (run_bind_error (hrun (e := .engine) ?_) _) hout
          unfold removeStreamEndFromTable
          rw [get_bind, htable]
          rw [run_bind_ok (getHandle_of_obj ((named_eq_some_iff htable).1 hnamed) _)]
          rfl
        | future id =>
          by_cases hremoves : (s.handles c).Removes (.num idx)
          · exact absurd ⟨c, table, _, htable, hcurrent, hnamed, hremoves, trivial⟩ h
          · obtain ⟨e, hremove⟩ := removeStreamEndFromTable_of_not
              htable hnamed rfl hremoves
            exact atomic_of_error (run_bind_error (hrun hremove) _) hout
        | stream id =>
          by_cases hremoves : (s.handles c).Removes (.num idx)
          · have hfails : ¬ FailsMoving s table (s.ends id) tableIdx tableIdx' :=
              fun hfails => h ⟨c, table, _, htable, hcurrent, hnamed, hremoves, hfails⟩
            refine ⟨fun hwrong herr => ?_, False.elim⟩
            -- the end is wrong, but the transfer does not fail
            unfold Wrong State.target at hwrong
            dsimp only at hwrong
            rw [hnamed] at hwrong
            have hmoved := moveStreamEnd_stream htable hnamed hremoves hfails <| by
              rcases hwrong with hside | hidx | hdone | hcopying
              · exact absurd (.inl hside) hfails
              · exact .inl hidx
              · exact absurd (.inr (.inl hdone)) hfails
              · exact .inr hcopying
            rcases hout with ⟨-, hnone⟩ | ⟨e', hout, -⟩
            · exact absurd hnone herr
            · unfold Call.script at hout
              dsimp only at hout
              rcases hmove : (moveStreamEnd idx tableIdx tableIdx').run s with ⟨e | w, s₁⟩
              · rw [run_bind_error (htransfer.trans hmove)] at hout
                cases hmoved e s₁ hmove
                cases hout
              · rw [run_bind_ok (htransfer.trans hmove)] at hout
                cases hout
          · obtain ⟨e, hremove⟩ := removeStreamEndFromTable_of_not
              htable hnamed rfl hremoves
            exact atomic_of_error (run_bind_error (hrun hremove) _) hout

end

/-- A drop or a transfer of a wrong handle fails without a change, and an end with a copy
in progress is not dropped, exactly when the call does not take out a handle that is
wrong. -/
theorem handles_atomic_iff (s : State) (call : Call) (err : Option JsError) (s' : State)
    (hout : Outcome call s err s') : Atomic call s err s' ↔ ¬ Loses s call := by
  cases call with
  | drop side tableIdx componentIdx idx =>
    constructor
    · intro hatomic hloses
      exact losesDropped_not_atomic hloses hout hatomic
    · intro hloses
      exact not_losesDropped_atomic hloses hout
  | transfer idx srcTableIdx destTableIdx =>
    constructor
    · intro hatomic hloses
      exact losesMoved_not_atomic hloses hout hatomic
    · intro hloses
      exact not_losesMoved_atomic hloses hout

/-! ## A handle that is lost -/

/-- A table with one object, at the place `1`. -/
def oneObj (obj : Obj) : Table :=
  ⟨(RepArray.new.push (.obj obj)).push .null,
    (length_put .new 2 (.obj obj)).trans (length_put _ _ .null)⟩

/-- The writable end of a stream, in the tables of component `0`. -/
def writableEnd : State where
  hasTask := fun _ => true
  currentTaskError := fun _ => none
  handles := fun _ => oneObj (.stream 0)
  streamTables := fun _ => some (0, oneObj (.stream 0))
  ends := fun _ =>
    { side := .write
      stream := 0
      streamTableIdx := 0
      handle := .num 1
      waitableIdx := .num 1
      copyState := .idle
      pendingEvent := false
      waitableSet := none
      hostDropFn := false }
  streams := fun _ => ⟨false, none⟩
  futures := fun _ => ⟨false, false, .undefined⟩
  sets := fun _ => []

/-- It is moved to another table, as only a readable end can be. -/
theorem writableEnd_not_atomic : ¬ ∀ (s : State) (call : Call) (err : Option JsError) (s' : State),
    Outcome call s err s' → Atomic call s err s' := by
  intro hall
  have hout : ∃ s', Outcome (.transfer 1 0 1) writableEnd
      (some (.error "writable stream ends cannot be moved")) s' ∧
        (s'.handles 0).1.size ≠ (writableEnd.handles 0).1.size := by
    refine ⟨_, .inr ⟨_, rfl, rfl⟩, ?_⟩
    decide
  obtain ⟨s', hout, hsize⟩ := hout
  have hwrong : Wrong writableEnd (.transfer 1 0 1) := .inl (by decide)
  have hsame := (hall _ _ _ _ hout).unchanged hwrong (by decide)
  exact hsize (by rw [hsame])

/-- A table that the end is not of is found out in time. -/
theorem handles_atomic_iff_otherTable : ∃ s' : State,
    Outcome (.drop .write 1 0 1) writableEnd
      (some (.error "stream end table idx [0] does not match [1]")) s' ∧
      (Atomic (.drop .write 1 0 1) writableEnd
        (some (.error "stream end table idx [0] does not match [1]")) s' ↔
        ¬ Loses writableEnd (.drop .write 1 0 1)) := by
  have hout : Outcome (.drop .write 1 0 1) writableEnd
      (some (.error "stream end table idx [0] does not match [1]")) writableEnd :=
    .inr ⟨_, rfl, rfl⟩
  exact ⟨_, hout, handles_atomic_iff _ _ _ _ hout⟩

end Jco.Stream.Handles

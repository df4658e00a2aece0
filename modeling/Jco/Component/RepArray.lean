import Jco.Component.RepTable
import Jco.Lib.Run
import Mathlib.Data.List.AList

/-! # The array of a table of representations

`RepTable` as the source has it: one array in which objects and links to free cells
lie side by side, a counter, and no check of the reps that it is given. What is put
in is an object, or a handle, which is not `0`.

As long as only live reps are removed, the array holds a `RepTable` (`Holds`), whose
free list has no cycle, and the calls do what they do to a finite map.
-/

namespace Jco.Component

open Jco.Js Jco.Lib RepTable List AList

variable {α : Type}

/-! ## The array -/

/-- What is at a place of an array; `undefined` where nothing was put. -/
inductive Elem (α : Type) where
  | undefined
  | null
  | num (n : Int)
  | obj (v : α)
deriving DecidableEq, Repr

namespace Elem

/-- `x << 1`: what is not a number counts as `0`. -/
def shl1 : Elem α → Int
  | .num n => shl n 1
  | _ => 0

/-- `!!x` -/
def truthy : Elem α → Bool
  | .undefined => false
  | .null => false
  | .num n => n ≠ 0
  | .obj _ => true

/-- What the array has for a cell. -/
def ofCell : Option (Cell α) → Elem α
  | none => .undefined
  | some (.val v) => .obj v
  | some (.link next) => .num next

end Elem

/-- The fields `#data` and `#size`. A write at a negative place makes a property that
does not count in `length`. -/
structure RepArray (α : Type) where
  data : Int → Elem α
  length : Nat
  size : Int

namespace RepArray

/-- `[0, null]` -/
def new : RepArray α where
  data := Function.update (Function.update (fun _ => .undefined) 0 (.num 0)) 1 .null
  length := 2
  size := 0

/-- `#data[i] = x` -/
def put (a : RepArray α) (i : Int) (x : Elem α) : RepArray α :=
  { a with
    data := Function.update a.data i x
    length := if 0 ≤ i then max a.length (i.toNat + 1) else a.length }

/-- `#data.push(x)` -/
def push (a : RepArray α) (x : Elem α) : RepArray α := a.put a.length x

/-- `insert`, without an answer when the memory is used up. -/
def insert (a : RepArray α) (val : α) : Option (Elem α × RepArray α) :=
  match a.data 0 with
  | .num 0 =>
    if a.length + 2 < 2 ^ 31 then
      let a := (a.push (.obj val)).push .null
      some (.num (shr a.length 1 - 1), { a with size := a.size + 1 })
    else none
  | freeIdx =>
    let placementIdx := freeIdx.shl1
    let a := a.put 0 (a.data placementIdx)
    let a := (a.put placementIdx (.obj val)).put (placementIdx + 1) .null
    some (freeIdx, { a with size := a.size + 1 })

/-- `get` -/
def get (a : RepArray α) (rep : Int) : Except JsError (Elem α) :=
  if rep = 0 then .error (.error "invalid resource rep during get, (cannot be 0)")
  else .ok (a.data (shl rep 1))

/-- `contains` -/
def contains (a : RepArray α) (rep : Int) : Except JsError Bool :=
  if rep = 0 then .error (.error "invalid resource rep during contains, (cannot be 0)")
  else .ok (a.data (shl rep 1)).truthy

/-- `remove` -/
def remove (a : RepArray α) (rep : Int) : Except JsError (Elem α) × RepArray α :=
  if rep = 0 then (.error (.error "invalid resource rep during remove, (cannot be 0)"), a)
  else if a.length = 2 then (.error (.error "invalid"), a)
  else
    let baseIdx := shl rep 1
    let val := a.data baseIdx
    let a := (a.put baseIdx (a.data 0)).put 0 (.num rep)
    (.ok val, { a with size := a.size - 1 })

/-! ## Steps -/

inductive Call (α : Type) where
  | insert (val : α)
  | get (rep : Int)
  | contains (rep : Int)
  | remove (rep : Int)
  | size

inductive Answer (α : Type) where
  | elem (x : Elem α)
  | bool (b : Bool)
  | num (n : Int)
  | throws (err : JsError)

def Answer.ofExcept {β : Type} (f : β → Answer α) : Except JsError β → Answer α
  | .ok b => f b
  | .error err => .throws err

def perform (a : RepArray α) : Call α → Option (Answer α × RepArray α)
  | .insert val => (a.insert val).map fun r => (.elem r.1, r.2)
  | .get rep => some (.ofExcept .elem (a.get rep), a)
  | .contains rep => some (.ofExcept .bool (a.contains rep), a)
  | .remove rep => some (.ofExcept .elem (a.remove rep).1, (a.remove rep).2)
  | .size => some (.num a.size, a)

/-- A table. History: the reps that `insert` has given out and that were not removed
since, with their values. -/
structure State (α : Type) where
  table : RepArray α
  live : AList fun _ : Int => α

def State.init : State α := ⟨new, ∅⟩

def State.liveAfter (s : State α) : Call α × Answer α → AList fun _ : Int => α
  | (.insert val, .elem (.num rep)) => s.live.insert rep val
  | (.remove rep, _) => s.live.erase rep
  | _ => s.live

def next : Action (Call α × Answer α) (State α) := fun l s s' =>
  s.table.perform l.1 = some (l.2, s'.table) ∧ s'.live = s.liveAfter l

/-! ## What is expected -/

/-- The call does what it does to a finite map. -/
def Refines (l : Call α × Answer α) (s s' : State α) : Prop :=
  match l.1 with
  | .insert _ => ∃ rep, l.2 = .elem (.num rep) ∧ rep ∉ s.live
  | .get rep =>
    (∀ v, s.live.lookup rep = some v → l.2 = .elem (.obj v)) ∧
      (rep ∉ s.live → l.2 = .elem .undefined)
  | .contains rep =>
    (rep ∈ s.live → l.2 = .bool true) ∧ (rep ∉ s.live → l.2 = .bool false)
  | .remove rep =>
    (∀ v, s.live.lookup rep = some v → l.2 = .elem (.obj v)) ∧
      (rep ∉ s.live → s'.table = s.table)
  | .size => l.2 = .num s.live.keys.length

/-- The rep names a place that the array does not have. -/
def Outside (a : RepArray α) (rep : Int) : Prop := shl rep 1 < 0 ∨ (a.length : Int) ≤ shl rep 1

/-- A rep that is not live is not `0`, is read only outside the array, is asked for
only there or where the last of the free cells is, and is removed only as `0`, or
before anything was inserted. -/
def Safe (l : Call α × Answer α) (s : State α) : Prop :=
  match l.1 with
  | .insert _ => True
  | .get rep => rep ∈ s.live ∨ rep ≠ 0 ∧ s.table.Outside rep
  | .contains rep =>
    rep ∈ s.live ∨ rep ≠ 0 ∧ (s.table.Outside rep ∨ s.table.data (shl rep 1) = .num 0)
  | .remove rep => rep ∈ s.live ∨ rep = 0 ∨ s.table.length = 2
  | .size => True

end RepArray

/-! ## The table without cycles -/

namespace RepTable

/-- The cell at a place: the head of the list of free cells, or one of the others. -/
def place (t : RepTable α) (k : Int) : Option (Cell α) :=
  if k < 0 then none
  else if k = 0 then some (.link t.free)
  else t.cells[(k - 1).toNat]?

theorem place_neg (t : RepTable α) {k : Int} (h : k < 0) : t.place k = none := if_pos h

theorem place_zero (t : RepTable α) : t.place 0 = some (.link t.free) := rfl

theorem place_succ (t : RepTable α) (i : Nat) : t.place (i + 1) = t.cells[i]? := by
  unfold place
  rw [if_neg (by omega), if_neg (by omega)]
  congr 1
  omega

/-- A place after the first is that of a cell, or lies behind them. -/
theorem place_pos (t : RepTable α) {k : Int} (h : 0 < k) :
    ∃ i : Nat, k = i + 1 ∧ t.place k = t.cells[i]? := by
  refine ⟨(k - 1).toNat, by omega, ?_⟩
  have hk : k = ((k - 1).toNat : Int) + 1 := by omega
  rw [hk, place_succ]
  congr 1
  omega

/-- An insertion appends a cell, or takes the first of the free ones. -/
theorem insert_cases {t t' : RepTable α} {v : α} {rep : Int} (h : t.insert v = some (rep, t')) :
    (t.free = 0 ∧ rep = t.cells.length + 1 ∧ t'.free = 0 ∧ t'.cells = t.cells ++ [.val v]) ∨
    (∃ (i : Nat) (next : Int), t.free ≠ 0 ∧ slot t.free = i + 1 ∧
      t.cells[i]? = some (.link next) ∧ rep = t.free ∧ t'.free = next ∧
      t'.cells = t.cells.set i (.val v)) := by
  unfold insert at h
  split at h
  case isTrue hfree =>
    split at h
    case isFalse => cases h
    case isTrue =>
      cases h
      exact .inl ⟨hfree, rfl, rfl, rfl⟩
  case isFalse hfree =>
    split at h
    case h_2 => cases h
    case h_1 next hcell =>
      cases h
      -- the head of the list names the cell
      obtain ⟨l, hlinked, -⟩ := t.linked
      cases l with
      | nil => exact absurd hlinked hfree
      | cons i rest =>
        obtain ⟨hslot, -⟩ := hlinked
        have hi : (slot t.free - 1).toNat = i := by omega
        rw [hi] at hcell
        refine .inr ⟨i, next, hfree, hslot, hcell, rfl, rfl, ?_⟩
        show t.cells.set (slot t.free - 1).toNat _ = _
        rw [hi]

/-- A free cell, or room for one more, is enough. -/
theorem exists_insert (t : RepTable α) (v : α)
    (h : t.free ≠ 0 ∨ t.cells.length + 1 < 2 ^ 30) : ∃ rep t', t.insert v = some (rep, t') := by
  unfold insert
  split
  case isTrue hfree =>
    rw [dif_pos (h.resolve_left (not_not.2 hfree))]
    exact ⟨_, _, rfl⟩
  case isFalse hfree =>
    split
    case h_1 => exact ⟨_, _, rfl⟩
    case h_2 hno =>
      obtain ⟨l, hlinked, -⟩ := t.linked
      cases l with
      | nil => exact absurd hlinked hfree
      | cons i rest =>
        obtain ⟨hslot, next, hcell, -⟩ := hlinked
        have hi : (slot t.free - 1).toNat = i := by omega
        exact absurd (hi ▸ hcell) (hno next)

/-- A removal puts the cell in front of the free ones. -/
theorem remove_cell {t : RepTable α} {v : α} {rep : Int} {i : Nat} (hslot : slot rep = i + 1)
    (h : t.cells[i]? = some (.val v)) :
    ∃ t', t.remove rep = some t' ∧ t'.free = rep ∧ t'.cells = t.cells.set i (.link t.free) := by
  have hi : (slot rep - 1).toNat = i := by omega
  unfold remove
  split
  case h_2 hcell =>
    rw [hi] at hcell
    exact absurd h (hcell v)
  case h_1 =>
    rw [dif_pos (by omega)]
    refine ⟨_, rfl, rfl, ?_⟩
    show t.cells.set (slot rep - 1).toNat _ = _
    rw [hi]

end RepTable

/-! ## What the array holds -/

/-- The places of values are even. -/
theorem shl_one_eq (rep : Int) : shl rep 1 = 2 * slot rep := by
  unfold slot
  rw [shl_one]
  simp only [Int.bmod]
  split <;> omega

namespace RepArray

/-- The array holds the table. The odd places are never read. -/
structure Holds (a : RepArray α) (t : RepTable α) : Prop where
  length : a.length = 2 * t.cells.length + 2
  cells : ∀ k : Int, a.data (2 * k) = .ofCell (t.place k)

theorem Holds.new : Holds (new : RepArray α) .empty where
  length := rfl
  cells k := by
    unfold RepArray.new
    dsimp only
    rw [Function.update_of_ne (by omega)]
    by_cases hk : k = 0
    · subst hk
      rfl
    rw [Function.update_of_ne (by omega)]
    rcases Int.lt_or_gt_of_ne hk with hneg | hpos
    · rw [place_neg _ hneg]
      rfl
    · obtain ⟨i, -, hplace⟩ := place_pos .empty hpos
      rw [hplace]
      rfl

section

variable {a : RepArray α} {t : RepTable α} {rep : Int} {v : α}

theorem Holds.data (h : Holds a t) (rep : Int) :
    a.data (shl rep 1) = .ofCell (t.place (slot rep)) := by
  rw [shl_one_eq]
  exact h.cells (slot rep)

/-- The head of the free list is a number. -/
theorem Holds.data_zero (h : Holds a t) : a.data 0 = .num t.free := h.cells 0

/-- A table that holds `v` in its `i`-th cell, with `next` before the cells. -/
theorem ofCell_place_set {t t' : RepTable α} {i : Nat} {c : Cell α} {next : Int}
    (hlt : i < t.cells.length) (hfree : t'.free = next) (hcells : t'.cells = t.cells.set i c)
    (k : Int) :
    Elem.ofCell (t'.place k) =
      if k = i + 1 then .ofCell (some c) else if k = 0 then .num next
      else .ofCell (t.place k) := by
  rcases Int.lt_trichotomy k 0 with hneg | rfl | hpos
  · rw [if_neg (by omega), if_neg (by omega), place_neg _ hneg,
      place_neg _ hneg]
  · rw [if_neg (by omega), if_pos rfl, place_zero, hfree]
    rfl
  · obtain ⟨j, rfl⟩ : ∃ j : Nat, k = j + 1 := ⟨(k - 1).toNat, by omega⟩
    rw [place_succ, place_succ, hcells]
    by_cases hj : j = i
    · subst hj
      rw [if_pos rfl, List.getElem?_set_self hlt]
    · rw [if_neg (by omega), if_neg (by omega), List.getElem?_set_ne (Ne.symm hj)]

/-- What is read at the even places after a write at one of them. -/
theorem data_put (a : RepArray α) (j k : Int) (x : Elem α) :
    (a.put (2 * j) x).data (2 * k) = if k = j then x else a.data (2 * k) := by
  unfold put
  dsimp only
  rw [Function.update_apply]
  congr 1
  exact propext ⟨fun h => by omega, fun h => by omega⟩

theorem data_put_odd (a : RepArray α) (j k : Int) (x : Elem α) :
    (a.put (2 * j + 1) x).data (2 * k) = a.data (2 * k) := by
  unfold put
  dsimp only
  rw [Function.update_of_ne (by omega)]

theorem length_put (a : RepArray α) (i : Nat) (x : Elem α) :
    (a.put i x).length = max a.length (i + 1) := by
  unfold put
  rw [if_pos (by omega), Int.toNat_natCast]

theorem length_put_inside (a : RepArray α) {i : Int} (x : Elem α) (h : i < a.length) :
    (a.put i x).length = a.length := by
  unfold put
  dsimp only
  split <;> omega

/-- The `i`-th cell gets another content, and the free list another head. -/
theorem Holds.set {a' : RepArray α} {t' : RepTable α} {i : Nat} {c : Cell α} {next : Int}
    (h : Holds a t) (hlt : i < t.cells.length) (hfree : t'.free = next)
    (hcells : t'.cells = t.cells.set i c) (hlength : a'.length = a.length)
    (hdata : ∀ k : Int, a'.data (2 * k) =
      if k = i + 1 then .ofCell (some c) else if k = 0 then .num next else a.data (2 * k)) :
    Holds a' t' where
  length := by
    rw [hlength, h.length, hcells, length_set]
  cells k := by
    rw [hdata, ofCell_place_set hlt hfree hcells, h.cells]

/-- A cell is appended. -/
theorem Holds.push {t' : RepTable α} (h : Holds a t) (hfree : t'.free = t.free)
    (hcells : t'.cells = t.cells ++ [.val v]) (size : Int) :
    Holds { (a.push (.obj v)).push .null with size } t' := by
  have heven : (a.length : Int) = 2 * (t.cells.length + 1) := by
    rw [h.length]
    omega
  have hlast : ((a.push (.obj v)).length : Int) = 2 * (t.cells.length + 1) + 1 := by
    unfold RepArray.push
    rw [length_put]
    omega
  constructor
  case length =>
    unfold RepArray.push at hlast ⊢
    rw [length_put, hcells, length_append, length_singleton]
    omega
  case cells =>
    intro k
    rw [RepArray.push, hlast, data_put_odd, RepArray.push, heven, data_put, h.cells]
    split
    case isTrue hk =>
      subst hk
      rw [place_succ, hcells, List.getElem?_concat_length]
      rfl
    case isFalse hk =>
      rcases Int.lt_trichotomy k 0 with hneg | rfl | hpos
      · rw [place_neg _ hneg, place_neg _ hneg]
      · rw [place_zero, place_zero, hfree]
      · obtain ⟨i, rfl⟩ : ∃ i : Nat, k = i + 1 := ⟨(k - 1).toNat, by omega⟩
        rw [place_succ, place_succ, hcells]
        rcases Nat.lt_or_ge i t.cells.length with hi | hi
        · rw [List.getElem?_append_left hi]
        · have hbeyond : (t.cells ++ [Cell.val v]).length ≤ i := by
            rw [length_append, length_singleton]
            omega
          rw [List.getElem?_eq_none hi, List.getElem?_eq_none hbeyond]

/-- An insertion into the array is one into the table. -/
theorem Holds.insert {a' : RepArray α} {x : Elem α} (h : Holds a t)
    (hins : a.insert v = some (x, a')) :
    ∃ rep t', t.insert v = some (rep, t') ∧ x = .num rep ∧ Holds a' t' ∧
      a'.size = a.size + 1 := by
  have hlength := h.length
  have hroom := t.room
  unfold RepArray.insert at hins
  rw [h.data_zero] at hins
  split at hins
  case h_1 heq =>
    -- there is no free cell
    have hfree : t.free = 0 := Elem.num.inj heq
    rcases Option.ite_none_right_eq_some.1 hins with ⟨hlt, hins⟩
    cases hins
    obtain ⟨rep, t', hinsert⟩ := t.exists_insert v (.inr (by omega))
    rcases insert_cases hinsert with ⟨-, hrep, hfree', hcells⟩ | ⟨-, -, hne, -⟩
    swap
    · exact absurd hfree hne
    have hlast : ((a.push (.obj v)).push .null).length = 2 * t.cells.length + 4 := by
      unfold RepArray.push
      rw [length_put, length_put]
      omega
    refine ⟨rep, t', hinsert, ?_, h.push (hfree'.trans hfree.symm) hcells _, rfl⟩
    rw [hlast, shr_one _ (by omega) (by omega), hrep]
    congr 1
    omega
  case h_2 hne =>
    -- the head of the free list is taken
    cases hins
    have hfree : t.free ≠ 0 := fun hzero => hne (by rw [hzero])
    obtain ⟨rep, t', hinsert⟩ := t.exists_insert v (.inl hfree)
    rcases insert_cases hinsert with
      ⟨hzero, -⟩ | ⟨i, next, -, hslot, hcell, hrep, hfree', hcells⟩
    · exact absurd hzero hfree
    have hlt := (List.getElem?_eq_some_iff.1 hcell).1
    have hplace : (Elem.num t.free : Elem α).shl1 = 2 * (i + 1 : Int) := by
      unfold Elem.shl1
      dsimp only
      rw [shl_one_eq, hslot]
    have hlink : a.data (2 * (i + 1 : Int)) = .num next := by
      rw [h.cells, place_succ, hcell]
      rfl
    rw [hplace, hlink]
    refine ⟨rep, t', hinsert, by rw [hrep], h.set hlt hfree' hcells ?_ fun k => ?_, rfl⟩
    · -- all three writes are inside the array
      have hfirst := length_put_inside a (i := 0) (.num next) (by omega)
      have hsecond := length_put_inside (a.put 0 (.num next)) (i := 2 * (i + 1 : Int)) (.obj v)
        (by omega)
      have hthird := length_put_inside ((a.put 0 (.num next)).put (2 * (i + 1 : Int)) (.obj v))
        (i := 2 * (i + 1 : Int) + 1) .null (by omega)
      exact hthird.trans (hsecond.trans hfirst)
    · show (((a.put (2 * 0) _).put _ _).put _ _).data (2 * k) = _
      rw [data_put_odd, data_put, data_put]
      rfl

/-- The removal of a value from the array is one from the table. -/
theorem Holds.remove {i : Nat} (h : Holds a t) (hslot : slot rep = i + 1)
    (hcell : t.cells[i]? = some (.val v)) :
    ∃ t', t.remove rep = some t' ∧ (a.remove rep).1 = .ok (.obj v) ∧
      Holds (a.remove rep).2 t' ∧ (a.remove rep).2.size = a.size - 1 := by
  obtain ⟨t', hremove, hfree, hcells⟩ := remove_cell hslot hcell
  have hlt := (List.getElem?_eq_some_iff.1 hcell).1
  have hne : rep ≠ 0 := by
    rintro rfl
    have hzero : slot 0 = 0 := rfl
    omega
  have hlength := h.length
  have hval : a.data (shl rep 1) = .obj v := by
    rw [h.data, hslot, place_succ, hcell]
    rfl
  unfold RepArray.remove
  rw [if_neg hne, if_neg (by omega)]
  refine ⟨t', hremove, by rw [← hval], h.set hlt hfree hcells ?_ fun k => ?_, rfl⟩
  · have hbase : shl rep 1 < a.length := by
      rw [shl_one_eq, hslot]
      omega
    have hfirst := length_put_inside a (a.data 0) hbase
    have hsecond := length_put_inside (a.put (shl rep 1) (a.data 0)) (i := 0) (.num rep) (by omega)
    exact hsecond.trans hfirst
  · show ((a.put (shl rep 1) (a.data 0)).put (2 * 0) (.num rep)).data (2 * k) = _
    rw [data_put, shl_one_eq, hslot, data_put, h.data_zero]
    by_cases hk : k = 0
    · rw [if_pos hk, if_neg (by omega), if_pos hk]
    · rw [if_neg hk, if_neg hk]
      rfl

end

/-! ## The invariant -/

/-- The links are indices of cells, as `insert` gives them out. -/
structure Tidy (t : RepTable α) : Prop where
  free : 0 ≤ t.free ∧ t.free ≤ t.cells.length
  link : ∀ (i : Nat) (next : Int), t.cells[i]? = some (.link next) →
    0 ≤ next ∧ next ≤ t.cells.length

/-- The array holds a table without cycles, of which the live reps are the values. -/
structure Inv (s : State α) (t : RepTable α) : Prop where
  holds : Holds s.table t
  tidy : Tidy t
  live : ∀ rep v, s.live.lookup rep = some v ↔
    ∃ i : Nat, rep = i + 1 ∧ t.cells[i]? = some (.val v)
  size : s.table.size = s.live.keys.length

theorem Inv.init : Inv (State.init : State α) .empty where
  holds := .new
  tidy := ⟨⟨Int.le_refl 0, Int.le_refl 0⟩, fun i next h => by cases h⟩
  live rep v := by
    constructor
    · intro h
      cases h
    · rintro ⟨i, -, h⟩
      cases h
  size := rfl

section

variable {s : State α} {t : RepTable α} {rep : Int} {v : α}

theorem Inv.insert {a' : RepArray α} {x : Elem α} (h : Inv s t)
    (hins : s.table.insert v = some (x, a')) :
    ∃ rep t', x = .num rep ∧ rep ∉ s.live ∧ Inv ⟨a', s.live.insert rep v⟩ t' := by
  obtain ⟨rep, t', hinsert, hx, hholds, hsize⟩ := h.holds.insert hins
  obtain ⟨i, hi⟩ := insert_spec hinsert
  have hcases := insert_cases hinsert
  have hrange : -2 ^ 30 ≤ rep ∧ rep < 2 ^ 30 := by
    rcases hcases with ⟨-, hrep, -, hcells⟩ | ⟨j, next, -, -, -, hrep, -⟩
    · have hroom' := t'.room
      rw [hcells, length_append, length_singleton] at hroom'
      omega
    · have hroom := t.room
      have hfree := h.tidy.free
      omega
  have hrep : rep = i + 1 := by
    rw [← hi.slot]
    exact (slot_eq hrange.1 hrange.2).symm
  have hfresh : rep ∉ s.live := by
    intro hmem
    obtain ⟨w, hw⟩ := Option.isSome_iff_exists.1 (lookup_isSome.2 hmem)
    obtain ⟨j, hj, hcell⟩ := (h.live rep w).1 hw
    obtain rfl : j = i := by omega
    exact hi.fresh w hcell
  refine ⟨rep, t', hx, hfresh, hholds, ?_, fun rep' w => ?_, ?_⟩
  · rcases hcases with ⟨-, -, hfree', hcells⟩ | ⟨j, next, -, -, hcell, -, hfree', hcells⟩
    · have hlen : t'.cells.length = t.cells.length + 1 := by
        rw [hcells, length_append, length_singleton]
      refine ⟨by omega, fun k link hk => ?_⟩
      rw [hlen]
      rw [hcells] at hk
      rcases Nat.lt_or_ge k t.cells.length with hlt | hge
      · rw [List.getElem?_append_left hlt] at hk
        have := h.tidy.link k link hk
        omega
      · -- the cell that was appended holds a value
        rw [List.getElem?_append_right hge] at hk
        cases hrest : k - t.cells.length with
        | zero =>
          rw [hrest] at hk
          cases hk
        | succ n =>
          rw [hrest] at hk
          cases hk
    · have hnext := h.tidy.link j next hcell
      refine ⟨by rw [hfree', hcells, length_set]; exact hnext, fun k link hk => ?_⟩
      rw [hcells] at hk ⊢
      rw [length_set]
      by_cases hkj : j = k
      · subst hkj
        rw [List.getElem?_set_self (List.getElem?_eq_some_iff.1 hcell).1] at hk
        cases hk
      · rw [List.getElem?_set_ne hkj] at hk
        exact h.tidy.link k link hk
  · by_cases hrep' : rep' = rep
    · subst hrep'
      rw [lookup_insert]
      constructor
      · intro hw
        exact ⟨i, hrep, by rw [hi.cell, Option.some.inj hw]⟩
      · rintro ⟨j, hj, hcell⟩
        obtain rfl : j = i := by omega
        rw [hi.cell] at hcell
        rw [Cell.val.inj (Option.some.inj hcell)]
    · rw [lookup_insert_ne hrep', h.live]
      constructor
      · rintro ⟨j, hj, hcell⟩
        exact ⟨j, hj, by rw [hi.other j (by omega), hcell]⟩
      · rintro ⟨j, hj, hcell⟩
        exact ⟨j, hj, by rw [← hi.other j (by omega), hcell]⟩
  · rw [hsize, h.size, keys_insert, erase_of_not_mem hfresh, length_cons]
    omega

theorem Inv.remove (h : Inv s t) (hlive : s.live.lookup rep = some v) :
    (s.table.remove rep).1 = .ok (.obj v) ∧
      ∃ t', Inv ⟨(s.table.remove rep).2, s.live.erase rep⟩ t' := by
  obtain ⟨i, hrep, hcell⟩ := (h.live rep v).1 hlive
  have hslot : slot rep = i + 1 := by
    rw [hrep]
    exact t.slot_cells hcell
  obtain ⟨t', hremove, hanswer, hholds, hsize⟩ := h.holds.remove hslot hcell
  obtain ⟨t₁, ht₁, hspec⟩ := remove_spec hslot hcell
  obtain rfl : t₁ = t' := Option.some.inj (ht₁.symm.trans hremove)
  obtain ⟨t₂, ht₂, hfree', hcells⟩ := remove_cell hslot hcell
  obtain rfl : t₂ = t₁ := Option.some.inj (ht₂.symm.trans hremove)
  have hlt := (List.getElem?_eq_some_iff.1 hcell).1
  refine ⟨hanswer, t₂, hholds, ?_, fun rep' w => ?_, ?_⟩
  · refine ⟨?_, fun k link hk => ?_⟩
    · rw [hfree', hcells, length_set]
      omega
    · rw [hcells] at hk ⊢
      rw [length_set]
      by_cases hki : i = k
      · subst hki
        rw [List.getElem?_set_self hlt] at hk
        rw [← Cell.link.inj (Option.some.inj hk)]
        exact h.tidy.free
      · rw [List.getElem?_set_ne hki] at hk
        exact h.tidy.link k link hk
  · by_cases hrep' : rep' = rep
    · subst hrep'
      rw [lookup_erase]
      constructor
      · intro hw
        cases hw
      · rintro ⟨j, hj, hcell'⟩
        obtain rfl : j = i := by omega
        exact absurd hcell' (hspec.cell w)
    · rw [lookup_erase_ne hrep', h.live]
      constructor
      · rintro ⟨j, hj, hcell'⟩
        exact ⟨j, hj, by rw [hspec.other j (by omega), hcell']⟩
      · rintro ⟨j, hj, hcell'⟩
        exact ⟨j, hj, by rw [← hspec.other j (by omega), hcell']⟩
  · have hmem : rep ∈ s.live.keys := lookup_isSome.1 (Option.isSome_iff_exists.2 ⟨v, hlive⟩)
    have hpos := length_pos_of_mem hmem
    rw [hsize, h.size, keys_erase, length_erase_of_mem hmem]
    omega

/-! ## What a rep reads -/

theorem Inv.data_live (h : Inv s t) (hlive : s.live.lookup rep = some v) :
    rep ≠ 0 ∧ s.table.data (shl rep 1) = .obj v := by
  obtain ⟨i, hrep, hcell⟩ := (h.live rep v).1 hlive
  refine ⟨by omega, ?_⟩
  rw [h.holds.data, hrep, t.slot_cells hcell, place_succ, hcell]
  rfl

/-- Nothing is read outside the array only. -/
theorem Holds.outside_iff {a : RepArray α} (h : Holds a t) :
    a.Outside rep ↔ a.data (shl rep 1) = .undefined := by
  have hlength := h.length
  unfold Outside
  rw [h.data, shl_one_eq, hlength]
  rcases Int.lt_trichotomy (slot rep) 0 with hneg | hzero | hpos
  · rw [place_neg _ hneg]
    exact iff_of_true (.inl (by omega)) rfl
  · rw [hzero, place_zero]
    refine iff_of_false ?_ (fun h => by cases h)
    omega
  · obtain ⟨i, hi, hplace⟩ := t.place_pos hpos
    rw [hplace, hi]
    cases hcell : t.cells[i]? with
    | none =>
      have hge := List.getElem?_eq_none_iff.1 hcell
      exact iff_of_true (.inr (by omega)) rfl
    | some c =>
      have hlt := (List.getElem?_eq_some_iff.1 hcell).1
      refine iff_of_false (by omega) ?_
      cases c with
      | val w => exact fun h => by cases h
      | link next => exact fun h => by cases h

/-- A cell is never `null`. -/
theorem Holds.truthy_iff {a : RepArray α} (h : Holds a t) :
    (a.data (shl rep 1)).truthy = false ↔
      a.Outside rep ∨ a.data (shl rep 1) = .num 0 := by
  rw [h.outside_iff, h.data]
  cases t.place (slot rep) with
  | none => simp [Elem.ofCell, Elem.truthy]
  | some c =>
    cases c with
    | val w => simp [Elem.ofCell, Elem.truthy]
    | link next => simp [Elem.ofCell, Elem.truthy]

/-! ## Runs -/

/-- A get of what is not live gives nothing outside the array only. -/
theorem Inv.get_iff (h : Inv s t) (rep : Int) :
    ((∀ v, s.live.lookup rep = some v →
        Answer.ofExcept .elem (s.table.get rep) = .elem (.obj v)) ∧
      (rep ∉ s.live → Answer.ofExcept .elem (s.table.get rep) = .elem .undefined)) ↔
      rep ∈ s.live ∨ rep ≠ 0 ∧ s.table.Outside rep := by
  unfold RepArray.get
  by_cases hmem : rep ∈ s.live
  · obtain ⟨v, hv⟩ := Option.isSome_iff_exists.1 (lookup_isSome.2 hmem)
    obtain ⟨hne, hdata⟩ := h.data_live hv
    refine iff_of_true ⟨fun w hw => ?_, fun hno => absurd hmem hno⟩ (.inl hmem)
    rw [if_neg hne, hdata, Option.some.inj (hv.symm.trans hw)]
    rfl
  · have hnone : s.live.lookup rep = none := lookup_eq_none.2 hmem
    by_cases hzero : rep = 0
    · rw [if_pos hzero]
      refine iff_of_false ?_ ?_
      · rintro ⟨-, hno⟩
        cases hno hmem
      · rintro (hlive | ⟨hne, -⟩)
        · exact hmem hlive
        · exact hne hzero
    · rw [if_neg hzero, h.holds.outside_iff]
      constructor
      · rintro ⟨-, hno⟩
        exact .inr ⟨hzero, Answer.elem.inj (hno hmem)⟩
      · rintro (hlive | ⟨-, hdata⟩)
        · exact absurd hlive hmem
        · rw [hdata]
          refine ⟨fun v hv => ?_, fun _ => rfl⟩
          rw [hnone] at hv
          cases hv

theorem Inv.contains_iff (h : Inv s t) (rep : Int) :
    ((rep ∈ s.live → Answer.ofExcept (α := α) .bool (s.table.contains rep) = .bool true) ∧
      (rep ∉ s.live → Answer.ofExcept (α := α) .bool (s.table.contains rep) = .bool false)) ↔
      rep ∈ s.live ∨
        rep ≠ 0 ∧ (s.table.Outside rep ∨ s.table.data (shl rep 1) = .num 0) := by
  unfold RepArray.contains
  by_cases hmem : rep ∈ s.live
  · obtain ⟨v, hv⟩ := Option.isSome_iff_exists.1 (lookup_isSome.2 hmem)
    obtain ⟨hne, hdata⟩ := h.data_live hv
    refine iff_of_true ⟨fun _ => ?_, fun hno => absurd hmem hno⟩ (.inl hmem)
    rw [if_neg hne, hdata]
    rfl
  · by_cases hzero : rep = 0
    · rw [if_pos hzero]
      refine iff_of_false ?_ ?_
      · rintro ⟨-, hno⟩
        cases hno hmem
      · rintro (hlive | ⟨hne, -⟩)
        · exact hmem hlive
        · exact hne hzero
    · rw [if_neg hzero, ← h.holds.truthy_iff]
      constructor
      · rintro ⟨-, hno⟩
        exact .inr ⟨hzero, Answer.bool.inj (hno hmem)⟩
      · rintro (hlive | ⟨-, hfalse⟩)
        · exact absurd hlive hmem
        · rw [hfalse]
          exact ⟨fun hlive => absurd hlive hmem, fun _ => rfl⟩

/-- A removal of what is not live counts down, if it does not throw. -/
theorem Inv.remove_iff (h : Inv s t) (rep : Int) :
    ((∀ v, s.live.lookup rep = some v →
        Answer.ofExcept .elem (s.table.remove rep).1 = .elem (.obj v)) ∧
      (rep ∉ s.live → (s.table.remove rep).2 = s.table)) ↔
      rep ∈ s.live ∨ rep = 0 ∨ s.table.length = 2 := by
  by_cases hmem : rep ∈ s.live
  · refine iff_of_true ⟨fun v hv => ?_, fun hno => absurd hmem hno⟩ (.inl hmem)
    rw [(h.remove hv).1]
    rfl
  · have hnone : s.live.lookup rep = none := lookup_eq_none.2 hmem
    unfold RepArray.remove
    constructor
    · rintro ⟨-, hsame⟩
      have heq := hsame hmem
      by_contra hno
      rw [not_or, not_or] at hno
      rw [if_neg hno.2.1, if_neg hno.2.2] at heq
      have hsize : s.table.size - 1 = s.table.size := congrArg RepArray.size heq
      omega
    · rintro (hlive | hthrows)
      · exact absurd hlive hmem
      refine ⟨fun v hv => ?_, fun _ => ?_⟩
      · rw [hnone] at hv
        cases hv
      · by_cases hzero : rep = 0
        · rw [if_pos hzero]
        · rw [if_neg hzero, if_pos (hthrows.resolve_left hzero)]

/-- A call on a table whose free list has no cycle. -/
theorem Inv.next {l : Call α × Answer α} {s' : State α} (h : Inv s t) (hstep : next l s s') :
    (Refines l s s' ↔ Safe l s) ∧ (Safe l s → ∃ t', Inv s' t') := by
  obtain ⟨call, answer⟩ := l
  obtain ⟨hperform, hlive⟩ := hstep
  obtain ⟨table', live'⟩ := s'
  cases call with
  | insert val =>
    obtain ⟨⟨x, a'⟩, hins, heq⟩ := Option.map_eq_some_iff.1 hperform
    obtain ⟨hanswer, htable⟩ := Prod.mk.inj heq
    obtain ⟨rep, t', hx, hfresh, hinv⟩ := h.insert hins
    subst hx
    dsimp only at hanswer htable hlive
    subst hanswer htable hlive
    exact ⟨iff_of_true ⟨rep, rfl, hfresh⟩ trivial, fun _ => ⟨t', hinv⟩⟩
  | get rep =>
    obtain ⟨hanswer, htable⟩ := Prod.mk.inj (Option.some.inj hperform)
    dsimp only at hanswer htable hlive
    subst hanswer htable hlive
    exact ⟨h.get_iff rep, fun _ => ⟨t, h⟩⟩
  | contains rep =>
    obtain ⟨hanswer, htable⟩ := Prod.mk.inj (Option.some.inj hperform)
    dsimp only at hanswer htable hlive
    subst hanswer htable hlive
    exact ⟨h.contains_iff rep, fun _ => ⟨t, h⟩⟩
  | remove rep =>
    obtain ⟨hanswer, htable⟩ := Prod.mk.inj (Option.some.inj hperform)
    dsimp only at hanswer htable hlive
    subst hanswer htable hlive
    refine ⟨h.remove_iff rep, fun hsafe => ?_⟩
    by_cases hmem : rep ∈ s.live
    · obtain ⟨v, hv⟩ := Option.isSome_iff_exists.1 (lookup_isSome.2 hmem)
      exact (h.remove hv).2
    · -- the table and the live reps are as they were
      have hsame := ((h.remove_iff rep).2 hsafe).2 hmem
      refine ⟨t, ?_⟩
      show Inv ⟨(s.table.remove rep).2, s.live.erase rep⟩ t
      have herase : s.live.erase rep = s.live := by
        apply ext
        exact kerase_of_notMem_keys hmem
      rw [hsame, herase]
      exact h
  | size =>
    obtain ⟨hanswer, htable⟩ := Prod.mk.inj (Option.some.inj hperform)
    dsimp only at hanswer htable hlive
    subst hanswer htable hlive
    refine ⟨iff_of_true ?_ trivial, fun _ => ⟨t, h⟩⟩
    show Answer.num s.table.size = _
    rw [h.size]

/-- As long as no rep is removed that is not live, every call does what it does to a
finite map, but for a read of such a rep inside the array. -/
theorem repTable_refines {calls : List (Call α × Answer α)}
    (hrun : Run (guarded Safe next) (.init : State α) calls s) :
    ∀ l s', RepArray.next l s s' → (Refines l s s' ↔ Safe l s) := by
  have hstep : ∀ (l : Call α × Answer α) (s₁ s₂ : State α), guarded Safe RepArray.next l s₁ s₂ →
      (∃ t, Inv s₁ t) → ∃ t, Inv s₂ t := by
    rintro l s₁ s₂ ⟨hsafe, hnext⟩ ⟨t₁, h₁⟩
    exact (h₁.next hnext).2 hsafe
  obtain ⟨t, h⟩ := Run.invariant hstep hrun ⟨.empty, .init⟩
  intro l s' hnext
  exact (h.next hnext).1

end

theorem next_of_perform {s : State α} {l : Call α × Answer α} {a' : RepArray α}
    (h : s.table.perform l.1 = some (l.2, a')) : next l s ⟨a', s.liveAfter l⟩ := ⟨h, rfl⟩

/-- Two insertions, a removal, and an insertion that reuses the cell. -/
def insertAndReuse : List (Call Char × Answer Char) :=
  [(.insert 'a', .elem (.num 1)), (.insert 'b', .elem (.num 2)), (.remove 1, .elem (.obj 'a')),
    (.insert 'c', .elem (.num 1)), (.get 2, .elem (.obj 'b')), (.contains 3, .bool false)]

theorem repTable_refines_insertAndReuse : ∃ s : State Char,
    Run (guarded Safe next) .init insertAndReuse s ∧
      ∀ l s', next l s s' → (Refines l s s' ↔ Safe l s) := by
  have hrun : ∃ s : State Char, Run (guarded Safe next) .init insertAndReuse s :=
    ⟨_, .cons ⟨trivial, next_of_perform rfl⟩ <| .cons ⟨trivial, next_of_perform rfl⟩ <|
      .cons ⟨.inl (lookup_isSome.1 rfl), next_of_perform rfl⟩ <|
      .cons ⟨trivial, next_of_perform rfl⟩ <|
      .cons ⟨.inl (lookup_isSome.1 rfl), next_of_perform rfl⟩ <|
      .cons ⟨.inr ⟨by decide, .inl (.inr (by decide))⟩, next_of_perform rfl⟩ <| .nil _⟩
  obtain ⟨s, hrun⟩ := hrun
  exact ⟨s, hrun, repTable_refines hrun⟩

/-- A rep is removed a second time, and two values are put in. -/
def removedTwice : List (Call Char × Answer Char) :=
  [(.insert 'a', .elem (.num 1)), (.remove 1, .elem (.obj 'a')), (.remove 1, .elem (.num 0)),
    (.insert 'b', .elem (.num 1))]

/-- The next insertion gives out the rep of the value that is live. -/
theorem removedTwice_not_refines : ¬ ∀ (calls : List (Call Char × Answer Char)) (s : State Char),
    Run next .init calls s → ∀ l s', next l s s' → Refines l s s' := by
  intro hall
  have hrun : ∃ s : State Char, Run next .init removedTwice s ∧ 1 ∈ s.live ∧
      ∃ s', next (.insert 'c', .elem (.num 1)) s s' :=
    ⟨_, .cons (next_of_perform rfl) <| .cons (next_of_perform rfl) <|
      .cons (next_of_perform rfl) <| .cons (next_of_perform rfl) <| .nil _,
      lookup_isSome.1 rfl, _, next_of_perform rfl⟩
  obtain ⟨s, hrun, hlive, s', hnext⟩ := hrun
  obtain ⟨rep, hrep, hfresh⟩ := hall _ s hrun _ s' hnext
  obtain rfl : 1 = rep := Elem.num.inj (Answer.elem.inj hrep)
  exact hfresh hlive

end RepArray

end Jco.Component

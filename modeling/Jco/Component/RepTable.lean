import Mathlib
import Jco.Js.Basic
import Jco.Js.Int32
import Jco.Lib.Count

/-! # Tables of representations

A `RepTable` hands out indices for values: handles of a component instance, or
reps of what a whole program shares. It is one array. The cells at even places
hold a value, or the link that `remove` has left there; the odd ones are always
`null` and are left out. The first cell is the head of the list of free cells.

An index comes from a guest, so that it is any 32-bit number: the place it names
is computed by `<<`.
-/

namespace Jco.Component

open Jco.Js

variable {α : Type}

/-- A cell of a table: a value, or a link to the next free cell. -/
inductive Cell (α : Type) where
  | val (v : α)
  | link (next : Int)

/-- The place that an index names: half of `rep << 1`. -/
def slot (rep : Int) : Int := shl rep 1 / 2

/-- An index that a table can have given out names its own place. -/
theorem slot_eq {rep : Int} (hpos : -2 ^ 30 ≤ rep) (hlt : rep < 2 ^ 30) : slot rep = rep := by
  unfold slot
  rw [shl_one, Int.bmod_eq_of_le (by omega) (by omega)]
  omega

/-- The cells from `head` on are free and linked in the order of the list. -/
def Linked (cells : List (Cell α)) : Int → List Nat → Prop
  | head, [] => head = 0
  | head, i :: rest =>
    slot head = i + 1 ∧ ∃ next, cells[i]? = some (.link next) ∧ Linked cells next rest

/-- `RepTable`, with a list of free cells that has no cycle. Memory ends long
before the places do not fit into `rep << 1` any more. -/
structure RepTable (α : Type) where
  free : Int
  cells : List (Cell α)
  room : cells.length < 2 ^ 30
  linked : ∃ l, Linked cells free l ∧ l.Nodup

/-! ## Links -/

theorem Linked.lt {cells : List (Cell α)} {head : Int} {l : List Nat} (h : Linked cells head l) :
    ∀ i ∈ l, ∃ next, cells[i]? = some (.link next) := by
  induction l generalizing head with
  | nil =>
    intro i hi
    cases hi
  | cons j rest ih =>
    obtain ⟨-, next, hcell, hrest⟩ := h
    intro i hi
    rcases List.mem_cons.1 hi with rfl | hi
    · exact ⟨next, hcell⟩
    · exact ih hrest i hi

/-- Only the free cells matter. -/
theorem Linked.congr {cells cells' : List (Cell α)} {head : Int} {l : List Nat}
    (h : Linked cells head l) (hsame : ∀ i ∈ l, cells'[i]? = cells[i]?) : Linked cells' head l := by
  induction l generalizing head with
  | nil => exact h
  | cons j rest ih =>
    obtain ⟨hhead, next, hcell, hrest⟩ := h
    refine ⟨hhead, next, ?_, ih hrest fun i hi => hsame i (List.mem_cons_of_mem j hi)⟩
    rw [hsame j (List.mem_cons_self ..)]
    exact hcell

namespace RepTable

/-! ## Reading -/

/-- The cell at the place that `rep` names. -/
def cell (t : RepTable α) (rep : Int) : Option (Cell α) :=
  if slot rep < 0 then none
  else if slot rep = 0 then some (.link t.free)
  else t.cells[(slot rep - 1).toNat]?

/-- `get`; a cell that is not there is `undefined`. -/
def get (t : RepTable α) (rep : Int) : Except JsError (Option (Cell α)) :=
  if rep = 0 then .error (.error "invalid resource rep during get, (cannot be 0)")
  else .ok (t.cell rep)

/-- The value of an index, if it has one. -/
def lookup (t : RepTable α) (rep : Int) : Option α :=
  match t.cell rep with
  | some (.val v) => some v
  | _ => none

variable {t : RepTable α} {rep : Int} {v : α}

theorem lookup_eq_some :
    t.lookup rep = some v ↔ t.cell rep = some (.val v) := by
  unfold lookup
  split
  case h_1 heq =>
    rw [heq, Option.some_inj, Option.some_inj]
    exact ⟨congrArg _, Cell.val.inj⟩
  case h_2 hne =>
    constructor
    · intro h
      cases h
    · intro h
      exact absurd h (hne v)

/-- An index with a value names one of the cells. -/
theorem lookup_cells (h : t.lookup rep = some v) :
    ∃ i : Nat, slot rep = i + 1 ∧ t.cells[i]? = some (.val v) := by
  rw [lookup_eq_some] at h
  unfold cell at h
  split at h
  case isTrue => cases h
  split at h
  case isTrue => cases h
  case isFalse hneg hzero =>
    refine ⟨(slot rep - 1).toNat, ?_, h⟩
    omega

variable {i : Nat}

theorem lookup_of_cells (hslot : slot rep = i + 1)
    (h : t.cells[i]? = some (.val v)) : t.lookup rep = some v := by
  rw [lookup_eq_some]
  unfold cell
  rw [if_neg (by omega), if_neg (by omega)]
  have hi : (slot rep - 1).toNat = i := by omega
  rw [hi]
  exact h

/-- The index of a cell. -/
theorem slot_cells (t : RepTable α) {c : Cell α} (h : t.cells[i]? = some c) :
    slot ((i : Int) + 1) = i + 1 := by
  have hlt : i < t.cells.length := (List.getElem?_eq_some_iff.1 h).1
  have hroom := t.room
  exact slot_eq (by omega) (by omega)

/-! ## Updates -/

/-- `new RepTable` -/
def empty : RepTable α := ⟨0, [], by simp, [], rfl, List.nodup_nil⟩

/-- A cell that is not free gets another content. -/
theorem linked_set {v w : α} (h : t.cells[i]? = some (.val v)) :
    ∃ l, Linked (t.cells.set i (.val w)) t.free l ∧ l.Nodup := by
  obtain ⟨l, hlinked, hnodup⟩ := t.linked
  refine ⟨l, hlinked.congr fun j hj => ?_, hnodup⟩
  obtain ⟨next, hcell⟩ := hlinked.lt j hj
  have hne : i ≠ j := by
    rintro rfl
    rw [h] at hcell
    cases hcell
  rw [List.getElem?_set_ne hne]

/-- The object at `rep` changes. -/
def modify (t : RepTable α) (rep : Int) (f : α → α) : RepTable α :=
  match h : t.cells[(slot rep - 1).toNat]? with
  | some (.val v) =>
    { t with
      cells := t.cells.set (slot rep - 1).toNat (.val (f v))
      room := by
        rw [List.length_set]
        exact t.room
      linked := linked_set h }
  | _ => t

/-- `insert`, without an answer when the memory is used up. -/
def insert (t : RepTable α) (v : α) : Option (Int × RepTable α) :=
  if hfree : t.free = 0 then
    if hroom : t.cells.length + 1 < 2 ^ 30 then
      some (t.cells.length + 1, {
        free := 0
        cells := t.cells ++ [.val v]
        room := by
          rw [List.length_append]
          exact hroom
        linked := ⟨[], rfl, List.nodup_nil⟩ })
    else none
  else
    match h : t.cells[(slot t.free - 1).toNat]? with
    | some (.link next) =>
      some (t.free, {
        free := next
        cells := t.cells.set (slot t.free - 1).toNat (.val v)
        room := by
          rw [List.length_set]
          exact t.room
        linked := by
          obtain ⟨l, hlinked, hnodup⟩ := t.linked
          cases l with
          | nil => exact absurd hlinked hfree
          | cons i rest =>
            obtain ⟨hslot, next', hcell, hrest⟩ := hlinked
            have hi : (slot t.free - 1).toNat = i := by omega
            rw [hi] at h ⊢
            obtain rfl : next = next' := by
              rw [h] at hcell
              cases hcell
              rfl
            refine ⟨rest, hrest.congr fun j hj => ?_, (List.nodup_cons.1 hnodup).2⟩
            rw [List.getElem?_set_ne]
            rintro rfl
            exact (List.nodup_cons.1 hnodup).1 hj })
    | _ => none

/-- `remove` of an index that has a value. On a free cell the links would get a
cycle; then there is no answer. -/
def remove (t : RepTable α) (rep : Int) : Option (RepTable α) :=
  match h : t.cells[(slot rep - 1).toNat]? with
  | some (.val _) =>
    if hslot : 0 < slot rep then
      some {
        free := rep
        cells := t.cells.set (slot rep - 1).toNat (.link t.free)
        room := by
          rw [List.length_set]
          exact t.room
        linked := by
          obtain ⟨l, hlinked, hnodup⟩ := t.linked
          obtain ⟨i, hi⟩ : ∃ i, (slot rep - 1).toNat = i := ⟨_, rfl⟩
          rw [hi] at h ⊢
          have hmem : i ∉ l := by
            intro hil
            obtain ⟨next, hcell⟩ := hlinked.lt i hil
            rw [h] at hcell
            cases hcell
          refine ⟨i :: l, ⟨by omega, t.free, ?_, hlinked.congr fun j hj => ?_⟩,
            List.nodup_cons.2 ⟨hmem, hnodup⟩⟩
          · rw [List.getElem?_set_self (List.getElem?_eq_some_iff.1 h).1]
          · rw [List.getElem?_set_ne]
            rintro rfl
            exact hmem hj }
    else none
  | _ => none

/-! ## What the operations do -/

/-- A weight of the values, summed up over the table. -/
def total (t : RepTable α) (f : α → Int) : Int :=
  (t.cells.map fun c => match c with | .val v => f v | .link _ => 0).sum

@[simp] theorem total_empty (f : α → Int) : (empty : RepTable α).total f = 0 := rfl

theorem sum_map_set {β : Type} (f : β → Int) {l : List β} {x : β} (h : l[i]? = some x)
    (y : β) : ((l.set i y).map f).sum = (l.map f).sum - f x + f y := by
  have hsum := Lib.sum_map_set f h y
  omega

/-- An inserted value has an index of its own. -/
structure Inserted (t t' : RepTable α) (v : α) (rep : Int) (i : Nat) : Prop where
  slot : slot rep = i + 1
  cell : t'.cells[i]? = some (.val v)
  fresh : ∀ w, t.cells[i]? ≠ some (.val w)
  other : ∀ j, j ≠ i → t'.cells[j]? = t.cells[j]?
  total : ∀ f, t'.total f = t.total f + f v

theorem insert_spec {t t' : RepTable α} (h : t.insert v = some (rep, t')) :
    ∃ i, Inserted t t' v rep i := by
  unfold insert at h
  split at h
  case isTrue =>
    split at h
    case isFalse => cases h
    case isTrue hroom =>
      cases h
      refine ⟨t.cells.length, ?_, ?_, ?_, ?_, ?_⟩
      · exact slot_eq (by omega) (by omega)
      · exact List.getElem?_concat_length
      · intro w hw
        rw [List.getElem?_eq_none (Nat.le_refl _)] at hw
        cases hw
      · intro j hj
        rcases Nat.lt_or_gt_of_ne hj with hlt | hgt
        · exact List.getElem?_append_left hlt
        · have hlength : (t.cells ++ [Cell.val v]).length ≤ j := by
            rw [List.length_append]
            exact hgt
          rw [List.getElem?_eq_none hlength, List.getElem?_eq_none (Nat.le_of_lt hgt)]
      · intro f
        simp [RepTable.total]
  case isFalse hfree =>
    split at h
    case h_2 => cases h
    case h_1 next hcell =>
      cases h
      have hlt := (List.getElem?_eq_some_iff.1 hcell).1
      -- the head of the list names the cell
      obtain ⟨i, hslot⟩ : ∃ i : Nat, Component.slot t.free = i + 1 := by
        obtain ⟨l, hlinked, -⟩ := t.linked
        cases l with
        | nil => exact absurd hlinked hfree
        | cons i rest => exact ⟨i, hlinked.1⟩
      have hi : (Component.slot t.free - 1).toNat = i := by omega
      rw [hi] at hcell hlt
      refine ⟨i, hslot, ?_, ?_, ?_, ?_⟩
      · show (t.cells.set _ _)[i]? = _
        rw [hi, List.getElem?_set_self hlt]
      · intro w hw
        rw [hcell] at hw
        cases hw
      · intro j hj
        show (t.cells.set _ _)[j]? = _
        rw [hi, List.getElem?_set_ne (Ne.symm hj)]
      · intro f
        unfold RepTable.total
        dsimp only
        rw [hi, sum_map_set _ hcell]
        simp

/-- A removed value leaves a free cell. -/
structure Removed (t t' : RepTable α) (v : α) (i : Nat) : Prop where
  cell : ∀ w, t'.cells[i]? ≠ some (.val w)
  other : ∀ j, j ≠ i → t'.cells[j]? = t.cells[j]?
  total : ∀ f, t'.total f = t.total f - f v

theorem remove_spec (hslot : slot rep = i + 1)
    (h : t.cells[i]? = some (.val v)) : ∃ t', t.remove rep = some t' ∧ Removed t t' v i := by
  have hi : (Component.slot rep - 1).toNat = i := by omega
  have hlt := (List.getElem?_eq_some_iff.1 h).1
  unfold remove
  split
  case h_2 hcell =>
    rw [hi] at hcell
    exact absurd h (hcell v)
  case h_1 w hcell =>
    rw [dif_pos (by omega)]
    refine ⟨_, rfl, ?_, ?_, ?_⟩
    · intro w hw
      have hw' : (t.cells.set (Component.slot rep - 1).toNat (.link t.free))[i]? = some (.val w) := hw
      rw [hi, List.getElem?_set_self hlt] at hw'
      cases hw'
    · intro j hj
      show (t.cells.set _ _)[j]? = _
      rw [hi, List.getElem?_set_ne (Ne.symm hj)]
    · intro f
      unfold RepTable.total
      dsimp only
      rw [hi, sum_map_set _ h]
      simp

/-- An object changes in its place. -/
structure Modified (t t' : RepTable α) (v w : α) (i : Nat) : Prop where
  cell : t'.cells[i]? = some (.val w)
  other : ∀ j, j ≠ i → t'.cells[j]? = t.cells[j]?
  total : ∀ f, t'.total f = t.total f - f v + f w

theorem modify_spec (hslot : slot rep = i + 1)
    (h : t.cells[i]? = some (.val v)) (f : α → α) : Modified t (t.modify rep f) v (f v) i := by
  have hi : (Component.slot rep - 1).toNat = i := by omega
  have hlt := (List.getElem?_eq_some_iff.1 h).1
  unfold modify
  split
  case h_2 hcell =>
    rw [hi] at hcell
    exact absurd h (hcell v)
  case h_1 w hcell =>
    obtain rfl : w = v := by
      rw [hi, h] at hcell
      cases hcell
      rfl
    refine ⟨?_, ?_, ?_⟩
    · show (t.cells.set _ _)[i]? = _
      rw [hi, List.getElem?_set_self hlt]
    · intro j hj
      show (t.cells.set _ _)[j]? = _
      rw [hi, List.getElem?_set_ne (Ne.symm hj)]
    · intro g
      unfold RepTable.total
      dsimp only
      rw [hi, sum_map_set _ h]

/-! ## Weights -/

theorem total_congr {f g : α → Int}
    (h : ∀ (i : Nat) v, t.cells[i]? = some (.val v) → f v = g v) : t.total f = t.total g := by
  unfold total
  congr 1
  refine List.map_congr_left fun c hc => ?_
  obtain ⟨i, hi⟩ := List.getElem?_of_mem hc
  cases c with
  | val v => exact h i v hi
  | link next => rfl

theorem exists_pos_of_sum_pos {l : List Int} (h : 0 < l.sum) : ∃ x ∈ l, 0 < x := by
  induction l with
  | nil => exact absurd h (Int.lt_irrefl 0)
  | cons y rest ih =>
    rw [List.sum_cons] at h
    by_cases hy : 0 < y
    · exact ⟨y, List.mem_cons_self .., hy⟩
    · obtain ⟨x, hx, hpos⟩ := ih (by omega)
      exact ⟨x, List.mem_cons_of_mem y hx, hpos⟩

/-- A positive weight comes from some value. -/
theorem exists_of_total_pos {f : α → Int} (h : 0 < t.total f) :
    ∃ (i : Nat) (v : α), t.cells[i]? = some (.val v) ∧ 0 < f v := by
  obtain ⟨x, hx, hpos⟩ := exists_pos_of_sum_pos h
  obtain ⟨c, hc, rfl⟩ := List.mem_map.1 hx
  obtain ⟨i, hi⟩ := List.getElem?_of_mem hc
  cases c with
  | link next => exact absurd hpos (Int.lt_irrefl 0)
  | val v => exact ⟨i, v, hi, hpos⟩

theorem total_nonneg {f : α → Int} (h : ∀ v, 0 ≤ f v) : 0 ≤ t.total f := by
  refine List.sum_nonneg fun x hx => ?_
  obtain ⟨c, -, rfl⟩ := List.mem_map.1 hx
  cases c with
  | link next => exact Int.le_refl 0
  | val v => exact h v

end RepTable

end Jco.Component

import Jco.Lib.Run
import Jco.Resource.Table

/-! # The handle-table law

A handle table is a finite map from live handles to `(scope, rep, own)`. The
map is the abstract model of this module; `Refines` ties it to the flat array
and carries the free list as an explicit list of dead handles. Each table
operation preserves `Refines` and answers what the map says, and runs inherit
this by forward simulation.
-/

namespace Jco.Resource

open Jco.Js Jco.Lib JsArray

/-! ## The abstract map -/

/-- What a live handle is bound to. -/
structure Binding where
  scope : Int
  rep : Int
  own : Bool
deriving DecidableEq, Repr

/-- Live handles with their bindings. -/
abbrev HandleMap := Nat → Option Binding

def HandleMap.empty : HandleMap := fun _ => none

def HandleMap.bind (m : HandleMap) (h : Nat) (b : Binding) : HandleMap :=
  Function.update m h (some b)

def HandleMap.unbind (m : HandleMap) (h : Nat) : HandleMap :=
  Function.update m h none

theorem HandleMap.bind_apply (m : HandleMap) (h j : Nat) (b : Binding) :
    m.bind h b j = if j = h then some b else m j := by
  simp [bind, Function.update_apply]

theorem HandleMap.unbind_apply (m : HandleMap) (h j : Nat) :
    m.unbind h j = if j = h then none else m j := by
  simp [unbind, Function.update_apply]

/-- The second cell of a live pair. -/
def Binding.val (b : Binding) : Int := if b.own then b.rep + T_FLAG else b.rep

/-- Scopes and reps leave the flag bit free, and a rep is never `0`. -/
structure Binding.Valid (b : Binding) : Prop where
  scope : Small b.scope
  rep : Small b.rep
  rep_ne : b.rep ≠ 0

def Binding.toEntry (b : Binding) : Entry where
  rep := b.rep
  scope := some b.scope
  own := b.own

theorem Binding.Valid.own_val {b : Binding} (hb : b.Valid) :
    (bitAnd b.val T_FLAG != 0) = b.own := by
  unfold val
  cases hown : b.own
  · simp [bitAnd_flag_small hb.rep]
  · simpa using bitAnd_flag_add hb.rep

theorem Binding.Valid.rep_val {b : Binding} (hb : b.Valid) :
    bitAnd b.val (bitNot T_FLAG) = b.rep := by
  unfold val
  cases b.own
  · simpa using clear_flag_small hb.rep
  · simpa using clear_flag_add hb.rep

theorem Binding.Valid.val_ne {b : Binding} (hb : b.Valid) : b.val ≠ 0 := by
  have hr := hb.rep
  have hr0 := hb.rep_ne
  unfold Small at hr
  unfold val
  rw [T_FLAG_eq]
  split <;> omega

/-! ## The free list -/

/-- `FreeList cells k free`: following the links from the cell `k` visits the
pairs of `free` in order and ends at a link to `0`. -/
def FreeList (cells : JsArray Int) : Int → List Nat → Prop
  | k, [] => cells.get k = some T_FLAG
  | k, i :: rest => cells.get k = some (i + T_FLAG) ∧ FreeList cells (2 * i) rest

/-- A free list depends only on its own link cells. -/
theorem FreeList.frame {cells cells' : JsArray Int} {k : Int} {free : List Nat}
    (h : FreeList cells k free) (hk : cells'.get k = cells.get k)
    (hrest : ∀ i ∈ free, cells'.get (2 * i) = cells.get (2 * i)) :
    FreeList cells' k free := by
  induction free generalizing k with
  | nil => exact hk.trans h
  | cons i rest ih =>
    refine ⟨hk.trans h.1, ih h.2 (hrest i (by simp)) ?_⟩
    intro j hj
    exact hrest j (by simp [hj])

/-- Moving a free list to another start cell with the same link. -/
theorem FreeList.move {cells cells' : JsArray Int} {k k' : Int} {free : List Nat}
    (h : FreeList cells k free) (hk : cells'.get k' = cells.get k)
    (hrest : ∀ i ∈ free, cells'.get (2 * i) = cells.get (2 * i)) :
    FreeList cells' k' free := by
  cases free with
  | nil => exact hk.trans h
  | cons i rest =>
    refine ⟨hk.trans h.1, h.2.frame (hrest i (by simp)) ?_⟩
    intro j hj
    exact hrest j (by simp [hj])

/-! ## The refinement relation -/

/-- The array `t` stores the map `m` in `n` pairs, with `free` as its free list:
acyclic, and exactly the dead pairs. -/
structure Stores (t : JsArray Int) (m : HandleMap) (n : Nat) (free : List Nat) : Prop where
  length : t.length = 2 * n
  pos : 0 < n
  bound : n < 2 ^ 30
  acyclic : free.Nodup
  dead : ∀ i, i ∈ free ↔ 0 < i ∧ i < n ∧ m i = none
  links : FreeList t 0 free
  reserved : t.get 1 = some 0
  zero : m 0 = none
  outside : ∀ i, n ≤ i → m i = none
  beyond : ∀ k : Int, k < 0 ∨ 2 * n ≤ k → t.get k = none
  valid : ∀ i b, m i = some b → b.Valid
  scope : ∀ i b, m i = some b → t.get (2 * i) = some b.scope
  val : ∀ i b, m i = some b → t.get (2 * i + 1) = some b.val

/-- The refinement relation between a table and a handle map. -/
def Refines (t : ResourceTable) (m : HandleMap) : Prop :=
  ∃ n free, Stores t.cells m n free

theorem refines_fresh : Refines .fresh .empty := by
  refine ⟨1, [], ?_⟩
  constructor
  case beyond =>
    intro k hk
    simp only [ResourceTable.fresh, ofList]
    split
    · rw [List.getElem?_eq_none]
      simp only [List.length_cons, List.length_nil]
      omega
    · rfl
  case dead =>
    intro i
    simp only [List.not_mem_nil, false_iff]
    omega
  all_goals simp [ResourceTable.fresh, HandleMap.empty, ofList, FreeList]

namespace Stores

variable {t : JsArray Int} {m : HandleMap} {n : Nat} {free : List Nat}

variable {i : Nat} {b : Binding}

/-- Live handles are inside the array and below the flag. -/
theorem live_lt (h : Stores t m n free) (hi : m i = some b) :
    0 < i ∧ i < n := by
  constructor
  · rcases Nat.eq_zero_or_pos i with rfl | hpos
    · rw [h.zero] at hi
      cases hi
    · exact hpos
  · by_contra hge
    rw [h.outside i (by omega)] at hi
    cases hi

/-- The link stored in a dead pair. -/
theorem link_flagged (h : Stores t m n free) {k : Int} {l : List Nat} (hl : FreeList t k l)
    (hsub : ∀ i ∈ l, i < n) : ∃ x, t.get k = some (x + T_FLAG) ∧ Small x := by
  have hb := h.bound
  cases l with
  | nil => exact ⟨0, by simpa [FreeList] using hl, by decide⟩
  | cons i rest =>
    refine ⟨i, hl.1, ?_⟩
    have hi := hsub i (by simp)
    unfold Small
    omega

/-- Every free-list link cell holds a flagged link. -/
theorem dead_link (h : Stores t m n free) (hi : i < n) (hm : m i = none) :
    ∃ x, t.get (2 * i) = some (x + T_FLAG) ∧ Small x := by
  have hlt : ∀ j ∈ free, j < n := fun j hj => ((h.dead j).1 hj).2.1
  rcases Nat.eq_zero_or_pos i with rfl | hpos
  · simpa using h.link_flagged h.links hlt
  · have hmem : i ∈ free := (h.dead i).2 ⟨hpos, hi, hm⟩
    -- walk the list up to `i`; the tail after it starts at the cell of `i`
    have hwalk : ∀ (k : Int) (l : List Nat), FreeList t k l → (∀ j ∈ l, j < n) → i ∈ l →
        ∃ x, t.get (2 * i) = some (x + T_FLAG) ∧ Small x := by
      intro k l
      induction l generalizing k with
      | nil => intro _ _ hmem'; cases hmem'
      | cons j rest ih =>
        intro hl hsub hmem'
        rcases List.mem_cons.1 hmem' with rfl | hrest
        · exact h.link_flagged hl.2 fun x hx => hsub x (by simp [hx])
        · exact ih _ hl.2 (fun x hx => hsub x (by simp [hx])) hrest
    exact hwalk 0 free h.links hlt hmem

theorem small_of_lt (h : Stores t m n free) (hi : i < n) : Small (i : Int) := by
  have hb := h.bound
  unfold Small
  omega

theorem shl_handle (h : Stores t m n free) (hi : i < n) :
    shl (i : Int) 1 = 2 * i :=
  shl_small (h.small_of_lt hi)

/-! ### Create -/

/-- Creating from an empty free list pushes a new pair. -/
theorem allocate_push (h : Stores t m n []) (hb : b.Valid) (hroom : n + 1 < 2 ^ 30) :
    (allocate t b.scope b.val).1 = n ∧
      Stores (allocate t b.scope b.val).2 (m.bind n b) (n + 1) [] := by
  have hhead : t.get 0 = some T_FLAG := h.links
  have hlen := h.length
  have hpos := h.pos
  have hfree : bitAnd (num (t.get 0)) (bitNot T_FLAG) = 0 := by
    rw [hhead]
    decide
  have halloc : allocate t b.scope b.val =
      (shr (t.length + 1 + 1 : Nat) 1 - 1, (t.push b.scope).push b.val) := by
    simp only [allocate, hfree, if_true, length_push]
  -- The two cells are pushed behind the last pair.
  have hget : ∀ k : Int, ((t.push b.scope).push b.val).get k =
      if k = 2 * n + 1 then some b.val else if k = 2 * n then some b.scope else t.get k := by
    intro k
    simp only [get_push, length_push, hlen]
    push_cast
    rfl
  rw [halloc]
  constructor
  · rw [shr_one _ (by omega) (by omega)]
    omega
  · constructor
    case length => simp only [length_push]; omega
    case pos => omega
    case bound => exact hroom
    case acyclic => exact List.nodup_nil
    case dead =>
      intro i
      have hd := h.dead i
      simp only [List.not_mem_nil, false_iff, HandleMap.bind_apply] at hd ⊢
      rintro ⟨hi, hlt, hm⟩
      by_cases hin : i = n
      · simp [hin] at hm
      · rw [if_neg hin] at hm
        exact hd ⟨hi, by omega, hm⟩
    case links =>
      show _ = _
      rw [hget, if_neg (by omega), if_neg (by omega)]
      exact hhead
    case reserved =>
      rw [hget, if_neg (by omega), if_neg (by omega)]
      exact h.reserved
    case zero =>
      rw [HandleMap.bind_apply, if_neg (by omega)]
      exact h.zero
    case outside =>
      intro i hi
      rw [HandleMap.bind_apply, if_neg (by omega)]
      exact h.outside i (by omega)
    case beyond =>
      intro k hk
      rw [hget, if_neg (by omega), if_neg (by omega)]
      exact h.beyond k (by omega)
    case valid =>
      intro i b' hi
      rw [HandleMap.bind_apply] at hi
      split at hi
      · cases hi
        exact hb
      · exact h.valid i b' hi
    case scope =>
      intro i b' hi
      rw [HandleMap.bind_apply] at hi
      split at hi
      case isTrue hin =>
        cases hi
        rw [hget, hin, if_neg (by omega), if_pos rfl]
      case isFalse hin =>
        rw [hget, if_neg (by omega), if_neg (by omega)]
        exact h.scope i b' hi
    case val =>
      intro i b' hi
      rw [HandleMap.bind_apply] at hi
      split at hi
      case isTrue hin =>
        cases hi
        rw [hget, hin, if_pos rfl]
      case isFalse hin =>
        rw [hget, if_neg (by omega), if_neg (by omega)]
        exact h.val i b' hi

/-- Creating from a non-empty free list reuses its first pair. -/
theorem allocate_pop {rest : List Nat} (h : Stores t m n (i :: rest))
    (hb : b.Valid) :
    (allocate t b.scope b.val).1 = i ∧
      Stores (allocate t b.scope b.val).2 (m.bind i b) n rest := by
  have hdead : 0 < i ∧ i < n ∧ m i = none := (h.dead i).1 (by simp)
  have hsmall := h.small_of_lt hdead.2.1
  have hlen := h.length
  have hfree : bitAnd (num (t.get 0)) (bitNot T_FLAG) = i := by
    rw [h.links.1, num_some, clear_flag_add hsmall]
  have hne : (i : Int) ≠ 0 := by omega
  have halloc : allocate t b.scope b.val =
      ((i : Int), ((t.set 0 (t.get (2 * i))).set (2 * i) (some b.scope)).set (2 * i + 1)
        (some b.val)) := by
    simp only [allocate, hfree, if_neg hne, shl_small hsmall]
  -- The head takes over the link of the first free pair, whose cells are written.
  have hget : ∀ k : Int, (((t.set 0 (t.get (2 * i))).set (2 * i) (some b.scope)).set (2 * i + 1)
      (some b.val)).get k = if k = 2 * i + 1 then some b.val else
        if k = 2 * i then some b.scope else if k = 0 then t.get (2 * i) else t.get k := by
    intro k
    simp only [get_set]
  rw [halloc]
  refine ⟨rfl, ?_⟩
  have hrest : i ∉ rest ∧ rest.Nodup := List.nodup_cons.1 h.acyclic
  constructor
  case length =>
    rw [length_set_of_lt, length_set_of_lt, length_set_of_lt, hlen]
    · omega
    · rw [length_set_of_lt] <;> omega
    · rw [length_set_of_lt, length_set_of_lt]
      · omega
      · omega
      · rw [length_set_of_lt] <;> omega
  case pos => exact h.pos
  case bound => exact h.bound
  case acyclic => exact hrest.2
  case dead =>
    intro j
    have hd := h.dead j
    rw [HandleMap.bind_apply]
    by_cases hj : j = i
    · simp [hj, hrest.1]
    · rw [if_neg hj, ← hd]
      simp [hj]
  case links =>
    -- the rest of the free list is not touched
    apply h.links.2.move
    · rw [hget, if_neg (by omega), if_neg (by omega), if_pos rfl]
    · intro j hj
      have hji : j ≠ i := fun he => hrest.1 (he ▸ hj)
      have hj0 : 0 < j := ((h.dead j).1 (by simp [hj])).1
      rw [hget, if_neg (by omega), if_neg (by omega), if_neg (by omega)]
  case reserved =>
    rw [hget, if_neg (by omega), if_neg (by omega), if_neg (by omega)]
    exact h.reserved
  case zero =>
    rw [HandleMap.bind_apply, if_neg (by omega)]
    exact h.zero
  case outside =>
    intro j hj
    rw [HandleMap.bind_apply, if_neg (by omega)]
    exact h.outside j hj
  case beyond =>
    intro k hk
    rw [hget, if_neg (by omega), if_neg (by omega), if_neg (by omega)]
    exact h.beyond k hk
  case valid =>
    intro j b' hj
    rw [HandleMap.bind_apply] at hj
    split at hj
    · cases hj
      exact hb
    · exact h.valid j b' hj
  case scope =>
    intro j b' hj
    rw [HandleMap.bind_apply] at hj
    split at hj
    case isTrue hji =>
      cases hj
      rw [hget, hji, if_neg (by omega), if_pos rfl]
    case isFalse hji =>
      have hlive := h.live_lt hj
      rw [hget, if_neg (by omega), if_neg (by omega), if_neg (by omega)]
      exact h.scope j b' hj
  case val =>
    intro j b' hj
    rw [HandleMap.bind_apply] at hj
    split at hj
    case isTrue hji =>
      cases hj
      rw [hget, hji, if_pos rfl]
    case isFalse hji =>
      rw [hget, if_neg (by omega), if_neg (by omega), if_neg (by omega)]
      exact h.val j b' hj

/-! ### Get and remove -/

/-- The cells of a live handle. -/
theorem read_live (h : Stores t m n free) (hi : m i = some b) :
    t.get (shl i 1) = some b.scope ∧ t.get (shl i 1 + 1) = some b.val := by
  rw [h.shl_handle (h.live_lt hi).2]
  exact ⟨h.scope i b hi, h.val i b hi⟩

/-- The first cell of a dead handle inside the array is flagged. -/
theorem read_dead (h : Stores t m n free) (hi : i < n) (hm : m i = none) :
    bitAnd (num (t.get (shl i 1))) T_FLAG ≠ 0 := by
  rcases h.dead_link hi hm with ⟨x, hx, hsmall⟩
  rw [h.shl_handle hi, hx, num_some]
  exact bitAnd_flag_add hsmall

/-- Removing a live handle puts its pair at the head of the free list. -/
theorem remove_live (h : Stores t m n free) (hi : m i = some b) :
    Stores ((t.set (shl i 1) (some (bitOr (num (t.get 0)) T_FLAG))).set 0
      (some (bitOr i T_FLAG))) (m.unbind i) n (i :: free) := by
  have hlive := h.live_lt hi
  have hsmall := h.small_of_lt hlive.2
  have hlen := h.length
  rcases h.dead_link h.pos h.zero with ⟨x, hx, hxs⟩
  have hhead : t.get 0 = some (x + T_FLAG) := by simpa using hx
  have hor : bitOr (num (t.get 0)) T_FLAG = x + T_FLAG := by
    rw [hhead, num_some, bitOr_flag_add hxs]
  rw [hor, bitOr_flag_small hsmall, shl_small hsmall]
  -- The first cell of the pair takes over the link of the head, which now names the pair.
  have hget : ∀ k : Int, ((t.set (2 * i) (some (x + T_FLAG))).set 0 (some (i + T_FLAG))).get k =
      if k = 0 then some (i + T_FLAG) else if k = 2 * i then some (x + T_FLAG) else t.get k := by
    intro k
    simp only [get_set]
  -- A live pair is not free yet, so the list stays without repetition.
  have hfresh : i ∉ free := by
    intro hmem
    rw [((h.dead i).1 hmem).2.2] at hi
    cases hi
  constructor
  case length =>
    rw [length_set_of_lt, length_set_of_lt, hlen]
    · omega
    · rw [length_set_of_lt] <;> omega
  case pos => exact h.pos
  case bound => exact h.bound
  case acyclic => exact List.nodup_cons.2 ⟨hfresh, h.acyclic⟩
  case dead =>
    intro j
    have hd := h.dead j
    rw [HandleMap.unbind_apply, List.mem_cons, hd]
    by_cases hj : j = i
    · simp [hj, hlive]
    · simp [hj]
  case links =>
    refine ⟨by rw [hget, if_pos rfl], h.links.move ?_ ?_⟩
    · rw [hget, if_neg (by omega), if_pos rfl, hhead]
    · intro j hj
      have hj0 : 0 < j := ((h.dead j).1 hj).1
      have hji : j ≠ i := fun he => hfresh (he ▸ hj)
      rw [hget, if_neg (by omega), if_neg (by omega)]
  case reserved =>
    rw [hget, if_neg (by omega), if_neg (by omega)]
    exact h.reserved
  case zero =>
    rw [HandleMap.unbind_apply, if_neg (by omega)]
    exact h.zero
  case outside =>
    intro j hj
    rw [HandleMap.unbind_apply, if_neg (by omega)]
    exact h.outside j hj
  case beyond =>
    intro k hk
    rw [hget, if_neg (by omega), if_neg (by omega)]
    exact h.beyond k hk
  case valid =>
    intro j b' hj
    rw [HandleMap.unbind_apply] at hj
    split at hj
    · cases hj
    · exact h.valid j b' hj
  case scope =>
    intro j b' hj
    rw [HandleMap.unbind_apply] at hj
    split at hj
    case isTrue => cases hj
    case isFalse hji =>
      have hj0 := h.live_lt hj
      rw [hget, if_neg (by omega), if_neg (by omega)]
      exact h.scope j b' hj
  case val =>
    intro j b' hj
    rw [HandleMap.unbind_apply] at hj
    split at hj
    case isTrue => cases hj
    case isFalse hji =>
      rw [hget, if_neg (by omega), if_neg (by omega)]
      exact h.val j b' hj

end Stores

/-! ## One operation -/

/-- `create` can hand out a handle: the free list is not empty, or the array is
short enough for one more handle below the flag. -/
def HasRoom (t : ResourceTable) : Prop :=
  t.cells.get 0 ≠ some T_FLAG ∨ t.cells.length + 2 < 2 ^ 31

/-- The handle's pair lies past the end of the array (or at a negative key). -/
def PastEnd (t : ResourceTable) (handle : Int) : Prop :=
  t.cells.get (shl handle 1) = none

instance (t : ResourceTable) (handle : Int) : Decidable (PastEnd t handle) :=
  inferInstanceAs (Decidable (_ = _))

instance (t : ResourceTable) : Decidable (HasRoom t) :=
  inferInstanceAs (Decidable (_ ∨ _))

section

variable {t : ResourceTable} {m : HandleMap}

theorem allocate_refines (h : Refines t m) {b : Binding} (hb : b.Valid) (hroom : HasRoom t)
    (reps : List Int) :
    ∃ i : Nat, (allocate t.cells b.scope b.val).1 = i ∧ 0 < i ∧ m i = none ∧
      Refines { cells := (allocate t.cells b.scope b.val).2, createdReps := reps }
        (m.bind i b) := by
  rcases h with ⟨n, free, hst⟩
  cases free with
  | nil =>
    have hlen := hst.length
    have hn : n + 1 < 2 ^ 30 := by
      rcases hroom with hhead | hlt
      · exact absurd hst.links hhead
      · omega
    rcases hst.allocate_push hb hn with ⟨hi, hst'⟩
    exact ⟨n, hi, hst.pos, hst.outside n (le_refl n), n + 1, [], hst'⟩
  | cons i rest =>
    have hdead := (hst.dead i).1 (by simp)
    rcases hst.allocate_pop hb with ⟨hi, hst'⟩
    exact ⟨i, hi, hdead.1, hdead.2.2, n, rest, hst'⟩

theorem createOwn_refines (h : Refines t m) {rep : Int} (hrep : Small rep) (hne : rep ≠ 0)
    (hroom : HasRoom t) :
    ∃ i : Nat, (rscTableCreateOwn t rep).1 = i ∧ 0 < i ∧ m i = none ∧
      Refines (rscTableCreateOwn t rep).2 (m.bind i ⟨0, rep, true⟩) := by
  have hzero : Small 0 := by decide
  have hb : Binding.Valid ⟨0, rep, true⟩ := ⟨hzero, hrep, hne⟩
  have hval : bitOr rep T_FLAG = Binding.val ⟨0, rep, true⟩ := bitOr_flag_small hrep
  simp only [rscTableCreateOwn, hval]
  exact allocate_refines h hb hroom _

theorem createBorrow_refines (h : Refines t m) {rep scopeId : Int} (hrep : Small rep)
    (hne : rep ≠ 0) (hscope : Small scopeId) (hroom : HasRoom t) :
    ∃ (i : Nat) (t' : ResourceTable),
      rscTableCreateBorrow t rep (some scopeId) = .ok ((i : Int), t') ∧ 0 < i ∧ m i = none ∧
        Refines t' (m.bind i ⟨scopeId, rep, false⟩) := by
  have hb : Binding.Valid ⟨scopeId, rep, false⟩ := ⟨hscope, hrep, hne⟩
  rcases allocate_refines h hb hroom t.createdReps with ⟨i, hi, hpos, hdead, href⟩
  exact ⟨i, _, by rw [← hi]; rfl, hpos, hdead, href⟩

variable {i : Nat}

theorem get_live (h : Refines t m) {b : Binding} (hi : m i = some b) :
    rscTableGet t i = .ok b.toEntry := by
  rcases h with ⟨n, free, hst⟩
  have hb := hst.valid i b hi
  rcases hst.read_live hi with ⟨hscope, hval⟩
  simp only [rscTableGet, hscope, hval, num_some, hb.rep_val, hb.own_val,
    bitAnd_flag_small hb.scope]
  simp [hb.rep_ne, Binding.toEntry]

theorem remove_live_refines (h : Refines t m) {b : Binding} (hi : m i = some b) :
    ∃ t', rscTableRemove t i = .ok (b.toEntry, t') ∧ Refines t' (m.unbind i) := by
  rcases h with ⟨n, free, hst⟩
  have hb := hst.valid i b hi
  rcases hst.read_live hi with ⟨hscope, hval⟩
  refine ⟨⟨(t.cells.set (shl i 1) (some (bitOr (num (t.cells.get 0)) T_FLAG))).set 0
    (some (bitOr i T_FLAG)), t.createdReps⟩, ?_, n, i :: free, hst.remove_live hi⟩
  simp only [rscTableRemove, hscope, hval, num_some, hb.rep_val, hb.own_val,
    bitAnd_flag_small hb.scope]
  simp [hb.val_ne, Binding.toEntry]

variable {handle : Int}

theorem get_flagged (h : Flagged t handle) :
    rscTableGet t handle = .error (.typeError "Invalid handle") := by
  unfold rscTableGet
  exact if_pos (Or.inr h)

theorem remove_flagged (h : Flagged t handle) :
    rscTableRemove t handle = .error (.typeError "Invalid handle") := by
  unfold rscTableRemove
  exact if_pos (Or.inr h)

/-- Past the end both cells of a pair read `undefined`. -/
theorem pastEnd_val (h : Refines t m) (hp : PastEnd t handle) :
    t.cells.get (shl handle 1 + 1) = none := by
  rcases h with ⟨n, free, hst⟩
  have hk : shl handle 1 < 0 ∨ 2 * (n : Int) ≤ shl handle 1 := by
    by_contra hin
    have heven : shl handle 1 % 2 = 0 := by
      rw [shl_one, Int.bmod_def]
      split <;> omega
    rcases hi : m (shl handle 1 / 2).toNat with _ | b
    · rcases hst.dead_link (i := (shl handle 1 / 2).toNat) (by omega) hi with ⟨x, hx, -⟩
      have hkey : 2 * ((shl handle 1 / 2).toNat : Int) = shl handle 1 := by omega
      rw [hkey, hp] at hx
      cases hx
    · have hx := hst.scope _ b hi
      have hkey : 2 * ((shl handle 1 / 2).toNat : Int) = shl handle 1 := by omega
      rw [hkey, hp] at hx
      cases hx
  apply hst.beyond
  rcases hk with hneg | hge
  · left
    have heven : shl handle 1 % 2 = 0 := by
      rw [shl_one, Int.bmod_def]
      split <;> omega
    omega
  · right
    omega

theorem get_pastEnd (h : Refines t m) (hp : PastEnd t handle) :
    rscTableGet t handle = .error (.typeError "Invalid handle") := by
  have hval := pastEnd_val h hp
  unfold rscTableGet
  rw [hval]
  exact if_pos (Or.inl (by decide))

/-- A handle below `2 ^ 31` is live, flagged or past the end. -/
theorem handle_cases (h : Refines t m) (hi : i < 2 ^ 31) :
    (∃ b, m i = some b) ∨ (m i = none ∧ (Flagged t i ∨ PastEnd t i)) := by
  rcases h with ⟨n, free, hst⟩
  rcases hm : m i with _ | b
  · right
    refine ⟨rfl, ?_⟩
    by_cases hlt : i < n
    · exact Or.inl (hst.read_dead hlt hm)
    · right
      apply hst.beyond
      rw [shl_one, Int.bmod_def]
      split <;> omega
  · exact Or.inl ⟨b, rfl⟩

/-- No handle from `2 ^ 31` on is live. -/
theorem wrapped_dead (h : Refines t m) (hi : 2 ^ 31 ≤ i) : m i = none := by
  rcases h with ⟨n, free, hst⟩
  have hbound := hst.bound
  exact hst.outside i (by omega)

end

/-! ## Runs of table operations -/

/-- The calls of the law, with handles as the generated code receives them. -/
inductive TableOp where
  | createOwn (rep : Int)
  | createBorrow (rep scopeId : Int)
  | get (handle : Nat)
  | remove (handle : Nat)
deriving DecidableEq, Repr

inductive TableAnswer where
  | handle (h : Int)
  | entry (e : Entry)
  | threw (e : JsError)
deriving DecidableEq, Repr

/-- Performing one call; an exception leaves the table as it was. -/
def TableOp.run (t : ResourceTable) : TableOp → ResourceTable × TableAnswer
  | .createOwn rep =>
    let (h, t') := rscTableCreateOwn t rep
    (t', .handle h)
  | .createBorrow rep scopeId =>
    match rscTableCreateBorrow t rep (some scopeId) with
    | .ok (h, t') => (t', .handle h)
    | .error e => (t, .threw e)
  | .get handle =>
    match rscTableGet t handle with
    | .ok e => (t, .entry e)
    | .error e => (t, .threw e)
  | .remove handle =>
    match rscTableRemove t handle with
    | .ok (e, t') => (t', .entry e)
    | .error e => (t, .threw e)

/-- Reps and scope ids are in `1 .. 2 ^ 30 - 1`. -/
def TableOp.Args : TableOp → Prop
  | .createOwn rep => Small rep ∧ rep ≠ 0
  | .createBorrow rep scopeId => Small rep ∧ rep ≠ 0 ∧ Small scopeId ∧ scopeId ≠ 0
  | .get _ => True
  | .remove _ => True

/-- The table as a labelled action: each step is a call and its answer. -/
def tableNext : Action (TableOp × TableAnswer) ResourceTable :=
  fun l t t' => l.1.Args ∧ l.1.run t = (t', l.2)

/-- The abstract map as a labelled action. -/
def mapNext : Action (TableOp × TableAnswer) HandleMap :=
  fun l m m' =>
    match l.1 with
    | .createOwn rep =>
      ∃ i : Nat, l.2 = .handle i ∧ 0 < i ∧ m i = none ∧ m' = m.bind i ⟨0, rep, true⟩
    | .createBorrow rep scopeId =>
      ∃ i : Nat, l.2 = .handle i ∧ 0 < i ∧ m i = none ∧ m' = m.bind i ⟨scopeId, rep, false⟩
    | .get handle =>
      m' = m ∧ ((∃ b, m handle = some b ∧ l.2 = .entry b.toEntry) ∨
        (m handle = none ∧ l.2 = .threw (.typeError "Invalid handle")))
    | .remove handle =>
      (∃ b, m handle = some b ∧ l.2 = .entry b.toEntry ∧ m' = m.unbind handle) ∨
        (m handle = none ∧ l.2 = .threw (.typeError "Invalid handle") ∧ m' = m)

/-- When the array keeps the law at a call: `remove` has no bounds check, and
the shift of `get` and `remove` wraps from `2 ^ 31` on. -/
def InBounds (l : TableOp × TableAnswer) (t : ResourceTable) : Prop :=
  match l.1 with
  | .createOwn _ => HasRoom t
  | .createBorrow _ _ => HasRoom t
  | .get handle => handle < 2 ^ 31 ∨ Flagged t handle ∨ PastEnd t handle
  | .remove handle => ¬ PastEnd t handle ∧ (handle < 2 ^ 31 ∨ Flagged t handle)

instance (l : TableOp × TableAnswer) (t : ResourceTable) : Decidable (InBounds l t) :=
  match l with
  | (.createOwn _, _) => inferInstanceAs (Decidable (HasRoom t))
  | (.createBorrow _ _, _) => inferInstanceAs (Decidable (HasRoom t))
  | (.get handle, _) =>
    inferInstanceAs (Decidable (handle < 2 ^ 31 ∨ Flagged t handle ∨ PastEnd t handle))
  | (.remove handle, _) =>
    inferInstanceAs (Decidable (¬ PastEnd t handle ∧ (handle < 2 ^ 31 ∨ Flagged t handle)))

/-- The step lemma: a call within bounds is matched by the map. -/
theorem tableNext_refines (l : TableOp × TableAnswer) (t t' : ResourceTable) (m : HandleMap)
    (hnext : guarded InBounds tableNext l t t') (hR : Refines t m) :
    ∃ m', mapNext l m m' ∧ Refines t' m' := by
  rcases l with ⟨op, ans⟩
  rcases hnext with ⟨hin, hargs, hrun⟩
  cases op with
  | createOwn rep =>
    rcases createOwn_refines hR hargs.1 hargs.2 hin with ⟨i, hi, hpos, hdead, hR'⟩
    cases hrun
    exact ⟨_, ⟨i, congrArg _ hi, hpos, hdead, rfl⟩, hR'⟩
  | createBorrow rep scopeId =>
    rcases createBorrow_refines hR hargs.1 hargs.2.1 hargs.2.2.1 hin with
      ⟨i, t₁, hcall, hpos, hdead, hR'⟩
    simp only [TableOp.run, hcall] at hrun
    cases hrun
    exact ⟨_, ⟨i, rfl, hpos, hdead, rfl⟩, hR'⟩
  | get handle =>
    -- the handle is live, or its pair is free or past the end
    have hthrow : rscTableGet t handle = .error (.typeError "Invalid handle") →
        m handle = none → ∃ m', mapNext (.get handle, ans) m m' ∧ Refines t' m' := by
      intro hcall hm
      simp only [TableOp.run, hcall] at hrun
      cases hrun
      exact ⟨m, ⟨rfl, Or.inr ⟨hm, rfl⟩⟩, hR⟩
    by_cases hlt : handle < 2 ^ 31
    · rcases handle_cases hR hlt with ⟨b, hb⟩ | ⟨hm, hfl | hpe⟩
      · simp only [TableOp.run, get_live hR hb] at hrun
        cases hrun
        exact ⟨m, ⟨rfl, Or.inl ⟨b, hb, rfl⟩⟩, hR⟩
      · exact hthrow (get_flagged hfl) hm
      · exact hthrow (get_pastEnd hR hpe) hm
    · have hm := wrapped_dead hR (Nat.le_of_not_lt hlt)
      rcases hin with hlt' | hfl | hpe
      · exact absurd hlt' hlt
      · exact hthrow (get_flagged hfl) hm
      · exact hthrow (get_pastEnd hR hpe) hm
  | remove handle =>
    -- as for `get`, but past the end the source does not throw
    rcases hin with ⟨hin, hwrap⟩
    have hthrow : Flagged t handle → m handle = none →
        ∃ m', mapNext (.remove handle, ans) m m' ∧ Refines t' m' := by
      intro hfl hm
      simp only [TableOp.run, remove_flagged hfl] at hrun
      cases hrun
      exact ⟨m, Or.inr ⟨hm, rfl, rfl⟩, hR⟩
    by_cases hlt : handle < 2 ^ 31
    · rcases handle_cases hR hlt with ⟨b, hb⟩ | ⟨hm, hfl | hpe⟩
      · rcases remove_live_refines hR hb with ⟨t₁, hcall, hR'⟩
        simp only [TableOp.run, hcall] at hrun
        cases hrun
        exact ⟨_, Or.inl ⟨b, hb, rfl, rfl⟩, hR'⟩
      · exact hthrow hfl hm
      · exact absurd hpe hin
    · rcases hwrap with hlt' | hfl
      · exact absurd hlt' hlt
      · exact hthrow hfl (wrapped_dead hR (Nat.le_of_not_lt hlt))

/-- A call that throws leaves the array, and with it the free list, unchanged. -/
theorem threw_unchanged {t t' : ResourceTable} {op : TableOp} {e : JsError}
    (h : op.run t = (t', .threw e)) : t' = t := by
  cases op with
  | createOwn rep => cases h
  | createBorrow rep scopeId => cases h
  | get handle =>
    simp only [TableOp.run] at h
    split at h
    · cases h
    · cases h
      rfl
  | remove handle =>
    simp only [TableOp.run] at h
    split at h
    · cases h
    · cases h
      rfl

/-- The handle-table law: in every run from the fresh table whose calls stay in
bounds, the answers are those of a finite map, the array refines it, and a call
that throws leaves the array unchanged. -/
theorem handle_table_law {t : ResourceTable} {tr : List (TableOp × TableAnswer)}
    (hrun : Run (guarded InBounds tableNext) .fresh tr t) :
    (∃ m, Run mapNext .empty tr m ∧ Refines t m) ∧
      ∀ (op : TableOp) (e : JsError), (op.run t).2 = .threw e → (op.run t).1 = t := by
  constructor
  · exact hrun.simulation (fun l s s' m hnext hR => tableNext_refines l s s' m hnext hR)
      refines_fresh
  · intro op e he
    exact threw_unchanged (Prod.ext rfl he)

/-- Create, remove, a second remove that throws, and create again. -/
def lawTrace : List (TableOp × TableAnswer) :=
  [(.createOwn 7, .handle 1), (.remove 1, .entry ⟨7, some 0, true⟩),
    (.remove 1, .threw (.typeError "Invalid handle")), (.createBorrow 9 3, .handle 1)]

theorem handle_table_law_lawTrace :
    ∃ t, (∃ m, Run mapNext .empty lawTrace m ∧ Refines t m) ∧
      ∀ (op : TableOp) (e : JsError), (op.run t).2 = .threw e → (op.run t).1 = t :=
  ⟨_, handle_table_law
    (.cons ⟨by decide, ⟨by decide, by decide⟩, rfl⟩ <|
      .cons ⟨by decide, trivial, Prod.ext rfl (by decide)⟩ <|
      .cons ⟨by decide, trivial, Prod.ext rfl (by decide)⟩ <|
      .cons ⟨by decide, ⟨by decide, by decide, by decide, by decide⟩,
        Prod.ext rfl (by decide)⟩ <| .nil _)⟩

/-- Removing a handle past the end of the fresh table does not throw: it answers
an entry with rep `0` and links the handle into the free list. -/
theorem remove_past_end_breaks_law :
    ¬ ∀ (tr : List (TableOp × TableAnswer)) (t : ResourceTable), Run tableNext .fresh tr t →
      ∃ m, Run mapNext .empty tr m ∧ Refines t m := by
  intro h
  have hrun : Run tableNext .fresh [(.remove 5, .entry ⟨0, none, false⟩)]
      ((TableOp.remove 5).run .fresh).1 :=
    .cons ⟨trivial, Prod.ext rfl (by decide)⟩ (.nil _)
  rcases h _ _ hrun with ⟨m, hmap, -⟩
  cases hmap with
  | cons hnext _ =>
    rcases hnext with ⟨b, hb, -⟩ | ⟨-, hthrow, -⟩
    · cases hb
    · cases hthrow

end Jco.Resource

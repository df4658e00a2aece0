import Jco.Core.AugmentSim

/-! # Augmentation preserves behaviour

The import object that the translator builds links the rewritten module to the
environment of the original one, unless a dropped memory takes the name of one
that stays. Linked instances agree by `invoke_eq_iff`.
-/

namespace Jco.Core

open Jco.Lib Augmenter List Import Module

variable {D P A : Type}

/-! ## Validated modules -/

def Import.isFunc (i : Import) : Bool :=
  match i.ty with
  | .func _ => true
  | _ => false

/-- The number of functions of a module. -/
def Module.funcCount (m : Module P) : Nat := (m.imports.filter Import.isFunc).length + m.funcs.length

/-- The indices of an operator are in scope. -/
def IndexOk (nf nt : Nat) : Instr P → Prop
  | .refFunc f => f < nf
  | .call f => f < nf
  | .returnCall f => f < nf
  | .callIndirect _ ty => ty < nt
  | _ => True

/-- What the validator, which runs before the translator, promises about the
indices of a module. -/
structure Module.Valid (m : Module P) : Prop where
  code : ∀ body ∈ m.code, ∀ i ∈ operators body.code, IndexOk m.funcCount m.types.length i
  imports : ∀ i ∈ m.imports, ∀ ty, i.ty = .func ty → ty < m.types.length
  funcs : ∀ ty ∈ m.funcs, ty < m.types.length
  exports : ∀ e ∈ m.exports, e.kind = .func → e.index < m.funcCount

/-! ## Lists -/

theorem mapM_some {α β : Type} {f : α → Option β} {l : List α} {r : List β}
    (h : l.mapM f = some r) :
    r.length = l.length ∧ ∀ (k : Nat) (x : α), l[k]? = some x → ∃ y, r[k]? = some y ∧ f x = some y := by
  induction l generalizing r with
  | nil =>
    cases h
    exact ⟨rfl, by simp⟩
  | cons x xs ih =>
    rw [mapM_cons] at h
    rcases hx : f x with _ | y
    · simp [hx] at h
    · rcases hxs : xs.mapM f with _ | ys
      · simp [hx, hxs] at h
      · simp only [hx, hxs, Option.bind_eq_bind, Option.bind_some, Option.pure_def,
          Option.some.injEq] at h
        subst h
        rcases ih hxs with ⟨hlen, hget⟩
        refine ⟨by simp [hlen], ?_⟩
        intro k z hz
        cases k with
        | zero =>
          simp only [List.getElem?_cons_zero, Option.some.injEq] at hz ⊢
          exact ⟨y, rfl, hz ▸ hx⟩
        | succ k =>
          simp only [List.getElem?_cons_succ] at hz ⊢
          exact hget k z hz

section

variable {β : Type} (imp : β → Import)

/-- The imports that stay; `seen` tells that a memory came before. -/
def kept : Bool → List β → List β
  | _, [] => []
  | seen, x :: xs =>
    if (imp x).ty = .memory then
      if seen then kept seen xs else x :: kept true xs
    else x :: kept seen xs

/-- The imports that are dropped. -/
def dropped : Bool → List β → List β
  | _, [] => []
  | seen, x :: xs =>
    if (imp x).ty = .memory then
      if seen then x :: dropped seen xs else dropped true xs
    else dropped seen xs

end

/-- The accesses of an operator to dropped memories are among the added ones. -/
def Covered (added : List (Nat × AugmentedOp)) : Instr P → Prop
  | .load op memarg => memarg.memory > 0 → (memarg.memory - 1, .load op) ∈ added
  | .store op memarg => memarg.memory > 0 → (memarg.memory - 1, .store op) ∈ added
  | .memorySize mem => mem > 0 → (mem - 1, .memorySize) ∈ added
  | _ => True

theorem Covered.mono {added added' : List (Nat × AugmentedOp)} {i : Instr P}
    (h : Covered added i) (hsub : ∀ x ∈ added, x ∈ added') : Covered added' i := by
  cases i with
  | load op memarg => exact fun hmem => hsub _ (h hmem)
  | store op memarg => exact fun hmem => hsub _ (h hmem)
  | memorySize mem => exact fun hmem => hsub _ (h hmem)
  | _ => trivial

/-- What a successful run of the translator answers. -/
structure AugmentSpec (m : Module P) (a : Augmenter) (m' : Module P) : Prop where
  imports : a.imports = kept id false m.imports
  removed : a.importsRemoved = (dropped id false m.imports).map Import.key
  importedFuncs : a.importedFuncs = (m.imports.filter Import.isFunc).length
  covered : ∀ body ∈ m.code, ∀ i ∈ operators body.code, Covered a.importsAdded i
  exports : m.exports.mapM a.remapExport = .ok m'.exports
  types' : m'.types = m.types ++ a.importsAdded.map (·.2.encodeType)
  imports' : m'.imports = a.imports ++ Augmenter.helperImports m.types.length a.importsAdded
  funcs' : m'.funcs = m.funcs
  code' : m'.code = m.code.map fun body => { body with code := a.translateAll body.code }

section

variable {β : Type} (imp : β → Import)

/-- Imports other than memories all stay. -/
theorem kept_filterMap {γ : Type} {g : β → Option γ} (hg : ∀ x, (imp x).ty = .memory → g x = none)
    (seen : Bool) (l : List β) : (kept imp seen l).filterMap g = l.filterMap g := by
  induction l generalizing seen with
  | nil => rfl
  | cons x xs ih =>
    simp only [kept]
    split
    case isTrue hmem =>
      rw [filterMap_cons_none (hg x hmem)]
      split
      · exact ih seen
      · rw [filterMap_cons_none (hg x hmem)]
        exact ih true
    case isFalse hmem =>
      rw [filterMap_cons, filterMap_cons, ih]

/-- After a first memory, all memories are dropped. -/
theorem mems_seen {γ : Type} {g : β → Option γ} {h : β → γ}
    (hg : ∀ x, (imp x).ty = .memory → g x = some (h x))
    (hg' : ∀ x, (imp x).ty ≠ .memory → g x = none) (l : List β) :
    (kept imp true l).filterMap g = [] ∧ l.filterMap g = (dropped imp true l).map h := by
  induction l with
  | nil => exact ⟨rfl, rfl⟩
  | cons x xs ih =>
    simp only [kept, dropped]
    split
    case isTrue hmem =>
      simp only [if_true]
      rw [filterMap_cons_some (hg x hmem), map_cons, ih.2]
      exact ⟨ih.1, rfl⟩
    case isFalse hmem =>
      rw [filterMap_cons_none (hg' x hmem), filterMap_cons_none (hg' x hmem)]
      exact ih

/-- The memories of a module: the first stays, and the dropped ones follow. -/
theorem mems_split {γ : Type} {g : β → Option γ} {h : β → γ}
    (hg : ∀ x, (imp x).ty = .memory → g x = some (h x))
    (hg' : ∀ x, (imp x).ty ≠ .memory → g x = none) (l : List β) :
    l.filterMap g = (kept imp false l).filterMap g ++ (dropped imp false l).map h ∧
      (((kept imp false l).filterMap g).length = 1 ∨ dropped imp false l = []) := by
  induction l with
  | nil => exact ⟨rfl, Or.inr rfl⟩
  | cons x xs ih =>
    simp only [kept, dropped]
    split
    case isTrue hmem =>
      rcases mems_seen imp hg hg' xs with ⟨hnone, hdropped⟩
      simp only [Bool.false_eq_true, if_false]
      rw [filterMap_cons_some (hg x hmem), filterMap_cons_some (hg x hmem), hnone,
        hdropped]
      exact ⟨rfl, Or.inl rfl⟩
    case isFalse hmem =>
      rw [filterMap_cons_none (hg' x hmem), filterMap_cons_none (hg' x hmem)]
      exact ih

end

/-- The helper imports with the helpers given to them. -/
def helperPairs (firstType : Nat) (added : List (Nat × AugmentedOp)) (mems : List D) :
    List (Import × AugmentedImport D) :=
  (Augmenter.helperImports firstType added).zip
    ((added.zip mems).map fun i => .memory i.2 i.1.2)

theorem helperPairs_cons (t mem : Nat) (op : AugmentedOp) (rest : List (Nat × AugmentedOp)) (d : D)
    (mems : List D) :
    helperPairs t ((mem, op) :: rest) (d :: mems) =
      (⟨(addedKey (mem, op)).1, (addedKey (mem, op)).2, .func t⟩,
        .memory d op) :: helperPairs (t + 1) rest mems := rfl

/-- The helper imports extend the function index space by one entry each, and
no other index space. -/
theorem helperPairs_spec (t : Nat) (added : List (Nat × AugmentedOp)) (mems : List D)
    (hlen : mems.length = added.length) :
    ((helperPairs t added mems).map (·.1) = helperImports t added) ∧
    ((helperPairs t added mems).map fun i => (i.1.key, i.2)) =
      ((added.zip mems).map fun i => (addedKey i.1, .memory i.2 i.1.2)) ∧
    (∀ i ∈ helperPairs t added mems, i.1.accepts i.2 = true) ∧
    (helperPairs t added mems).filterMap memEntry = [] ∧
    ((helperPairs t added mems).filterMap funcEntry).length = added.length ∧
    ∀ k mem op d, added[k]? = some (mem, op) → mems[k]? = some d →
      ((helperPairs t added mems).filterMap funcEntry)[k]? = some (t + k, .memory d op) := by
  induction added generalizing t mems with
  | nil => simp [helperPairs, helperImports]
  | cons x rest ih =>
    rcases x with ⟨mem, op⟩
    rcases mems with _ | ⟨d, mems⟩
    · cases hlen
    · rcases ih (t + 1) mems (by simpa using hlen) with ⟨h₁, h₂, h₃, h₄, h₅, h₆⟩
      rw [helperPairs_cons]
      refine ⟨?_, ?_, ?_, ?_, ?_, ?_⟩
      · rw [map_cons, h₁]
        rfl
      · rw [map_cons, h₂]
        rfl
      · intro i hi
        rcases mem_cons.1 hi with rfl | hi
        · rfl
        · exact h₃ i hi
      · rw [filterMap_cons_none (by rfl)]
        exact h₄
      · rw [filterMap_cons_some (by rfl), length_cons, h₅]
        rfl
      · intro k mem' op' d' hk hd
        rw [filterMap_cons_some (by rfl)]
        cases k with
        | zero =>
          simp only [List.getElem?_cons_zero, Option.some.injEq, Prod.mk.injEq] at hk hd ⊢
          rcases hk with ⟨rfl, rfl⟩
          subst hd
          exact ⟨rfl, rfl⟩
        | succ k =>
          simp only [List.getElem?_cons_succ] at hk hd ⊢
          rw [h₆ k mem' op' d' hk hd]
          congr 2
          omega

/-! ## Linking -/

/-- The original instance. -/
def Module.original (m : Module P) (args : List D) : Inst D P := m.inst (args.map .coreDef)

/-- An import and its argument, as the import object has it. -/
def coreEntry (i : Import × D) : Import × AugmentedImport D := (i.1, .coreDef i.2)

section

variable {m m' : Module P} {a : Augmenter} {args : List D}

theorem original_imported : (m.original args).imported =
    (m.imports.zip args).filterMap fun i => funcEntry (coreEntry i) := by
  simp only [original, inst, zip_map_right, filterMap_map]
  rfl

theorem original_mems : (m.original args).mems =
    (m.imports.zip args).filterMap fun i => memEntry (coreEntry i) := by
  simp only [original, inst, zip_map_right, filterMap_map]
  rfl

theorem fst_zip (hargs : args.length = m.imports.length) :
    (m.imports.zip args).map (·.1) = m.imports :=
  map_fst_zip (by omega)

theorem length_funcEntries (l : List (Import × AugmentedImport D)) :
    (l.filterMap funcEntry).length = ((l.map (·.1)).filter isFunc).length := by
  induction l with
  | nil => rfl
  | cons x xs ih =>
    have hhead : (funcEntry x).isSome = x.1.isFunc := by
      unfold funcEntry isFunc
      rcases x.1.ty with ty | - | - | - | - <;> rfl
    rw [map_cons, filter_cons, ← hhead, filterMap_cons]
    rcases funcEntry x with _ | y
    · exact ih
    · simpa using ih

theorem length_imported (hargs : args.length = m.imports.length) :
    (m.original args).imported.length = (m.imports.filter isFunc).length := by
  have hlen := length_funcEntries ((m.imports.zip args).map coreEntry)
  have hfst : ((m.imports.zip args).map coreEntry).map (·.1) = m.imports := by
    rw [map_map]
    exact fst_zip hargs
  rw [filterMap_map, hfst] at hlen
  rw [original_imported]
  exact hlen

/-- The original instance has no helpers. -/
theorem original_own (f : Nat) (mem : D) (op : AugmentedOp) :
    (m.original args).target f ≠ some (.helper mem op) := by
  intro htarget
  unfold Inst.target at htarget
  split at htarget
  · rcases Option.map_eq_some_iff.1 htarget with ⟨⟨ty, v⟩, hentry', hv⟩
    have hmem' := mem_of_getElem? hentry'
    rw [original_imported] at hmem'
    rcases mem_filterMap.1 hmem' with ⟨i, -, hi⟩
    simp only [funcEntry, coreEntry] at hi
    split at hi
    · cases hi
      cases hv
    · cases hi
  · split at htarget
    · cases htarget
    · cases htarget

/-- The imports of the rewritten module with the values that the import object
gives them, for the memories `mems` of the helpers. -/
def linkPairs (m : Module P) (a : Augmenter) (args mems : List D) :
    List (Import × AugmentedImport D) :=
  (kept (·.1) false (m.imports.zip args)).map coreEntry ++
    helperPairs m.types.length a.importsAdded mems

theorem zip_fst_snd {α β : Type} (l : List (α × β)) : (l.map (·.1)).zip (l.map (·.2)) = l := by
  induction l with
  | nil => rfl
  | cons x xs ih => simp [ih]

/-- The index spaces of the linked instance. -/
theorem inst_linkPairs {mems : List D} (hlen : mems.length = a.importsAdded.length)
    (hpairs : (linkPairs m a args mems).map (·.1) = m'.imports) :
    (m'.inst ((linkPairs m a args mems).map (·.2))).imported =
        (m.original args).imported ++
          (helperPairs m.types.length a.importsAdded mems).filterMap funcEntry ∧
      (m'.inst ((linkPairs m a args mems).map (·.2))).mems =
        (kept (·.1) false (m.imports.zip args)).filterMap fun i => memEntry (coreEntry i) := by
  have hnomem := (helperPairs_spec m.types.length a.importsAdded mems hlen).2.2.2.1
  simp only [inst, ← hpairs, zip_fst_snd]
  constructor
  · rw [linkPairs, filterMap_append, filterMap_map, original_imported]
    congr 1
    apply kept_filterMap
    intro x hx
    simp only [Function.comp, funcEntry, coreEntry, hx]
  · rw [linkPairs, filterMap_append, filterMap_map, hnomem, append_nil]
    rfl

/-- The linked instance runs the rewritten module against the environment of
the original. -/
theorem linked (hspec : AugmentSpec m a m') (hvalid : m.Valid)
    (hargs : args.length = m.imports.length) {mems : List D}
    (hmems : a.importsAdded.mapM
      (fun i => ((dropped (·.1) false (m.imports.zip args)).map (·.2))[i.1]?) = some mems)
    (hpairs : (linkPairs m a args mems).map (·.1) = m'.imports) :
    Linked a (m.original args) (m'.inst ((linkPairs m a args mems).map (·.2))) := by
  rcases mapM_some hmems with ⟨hlen, hget⟩
  rcases inst_linkPairs hlen hpairs with ⟨himported, hmem⟩
  rcases helperPairs_spec m.types.length a.importsAdded mems hlen with
    ⟨-, -, -, -, hcount, hentry⟩
  have hfuncs : a.importedFuncs = (m.original args).imported.length := by
    rw [hspec.importedFuncs, length_imported hargs]
  have hlength : (m'.inst ((linkPairs m a args mems).map (·.2))).imported.length =
      (m.original args).imported.length + a.importsAdded.length := by
    rw [himported, length_append, hcount]
  have hlocal : (m'.inst ((linkPairs m a args mems).map (·.2))).funcs = m.funcs := hspec.funcs'
  have htypes : (m'.inst ((linkPairs m a args mems).map (·.2))).types =
      m.types ++ a.importsAdded.map (·.2.encodeType) := hspec.types'
  have htype : ∀ ty, ty < m.types.length →
      (m'.inst ((linkPairs m a args mems).map (·.2))).types[ty]? = m.types[ty]? := by
    intro ty hty
    rw [htypes, List.getElem?_append_left hty]
  -- The old imports come first, and the helpers behind them.
  have hold : ∀ f, f < (m.original args).imported.length →
      (m'.inst ((linkPairs m a args mems).map (·.2))).imported[f]? =
        (m.original args).imported[f]? := by
    intro f hf
    rw [himported, List.getElem?_append_left hf]
  -- The memories are the first one and those whose imports are dropped.
  have hsplit := mems_split (fun i : Import × D => i.1)
    (g := fun i => memEntry (coreEntry i)) (h := fun i => i.2)
    (fun x hx => by simp only [memEntry, coreEntry, hx])
    (fun x hx => by
      simp only [memEntry, coreEntry]
      rcases hty : x.1.ty with ty | - | - | - | -
      all_goals first | rfl | exact absurd hty hx) (m.imports.zip args)
  rw [← original_mems] at hsplit
  have hcountFuncs : (m.original args).funcCount = m.funcCount := by
    simp only [Inst.funcCount, funcCount, length_imported hargs]
    rfl
  constructor
  case types => exact htype
  case funcs => exact hlocal
  case funcTypes => exact hvalid.funcs
  case code => exact hspec.code'
  case codeOk =>
    intro body hbody i hi
    have hcov := hspec.covered body hbody i hi
    have hindex := hvalid.code body hbody i hi
    rw [hcountFuncs]
    cases i with
    | load op memarg => exact hcov
    | store op memarg => exact hcov
    | memorySize mem => exact hcov
    | refFunc f => exact hindex
    | call f => exact hindex
    | returnCall f => exact hindex
    | callIndirect p ty => exact hindex
    | _ => trivial
  case own => exact original_own
  case target =>
    intro f hf
    unfold remapFunc Inst.target
    rw [hfuncs, hlength, hlocal]
    -- an import keeps its index, a local function moves behind the helpers
    by_cases hlt : f < (m.original args).imported.length
    · rw [if_pos hlt, if_pos (by omega), if_pos hlt, hold f hlt]
    · rw [if_neg hlt, if_neg (by omega), if_neg hlt]
      rw [show f + a.importsAdded.length -
        ((m.original args).imported.length + a.importsAdded.length) =
          f - (m.original args).imported.length by omega]
      rfl
  case funcType =>
    intro f hf
    unfold remapFunc Inst.funcType
    rw [hfuncs, hlength, hlocal]
    by_cases hlt : f < (m.original args).imported.length
    · rw [if_pos hlt, if_pos (by omega), if_pos hlt, hold f hlt]
      rcases hi : (m.original args).imported[f]? with _ | ⟨ty, v⟩
      · rfl
      · have hmem' := mem_of_getElem? hi
        rw [original_imported] at hmem'
        rcases mem_filterMap.1 hmem' with ⟨i, hi', hentry'⟩
        simp only [funcEntry, coreEntry] at hentry'
        split at hentry'
        case h_1 ty' hty =>
          cases hentry'
          exact htype ty (hvalid.imports i.1 (of_mem_zip hi').1 ty hty)
        case h_2 => cases hentry'
    · rw [if_neg hlt, if_neg (by omega), if_neg hlt]
      rw [show f + a.importsAdded.length -
        ((m.original args).imported.length + a.importsAdded.length) =
          f - (m.original args).imported.length by omega]
      rcases hty : m.funcs[f - (m.original args).imported.length]? with _ | ty
      · have hty' : (m.original args).funcs[f - (m.original args).imported.length]? = none := hty
        rw [hty']
        rfl
      · have hty' : (m.original args).funcs[f - (m.original args).imported.length]? = some ty :=
          hty
        rw [hty']
        exact htype ty (hvalid.funcs ty (mem_of_getElem? hty))
  case first =>
    rw [hmem, hsplit.1]
    rcases hsplit.2 with hone | hnone
    · rw [List.getElem?_append_left (by omega)]
    · rw [hnone, map_nil, append_nil]
  case helpers =>
    intro mem op hmem'
    -- a helper is found by its place among the added imports
    have hlt := idxOf_lt_length_of_mem hmem'
    have hat : a.importsAdded[a.importsAdded.idxOf (mem, op)]? = some (mem, op) :=
      List.getElem?_idxOf hmem'
    rcases hget _ _ hat with ⟨d, hd, hdropped⟩
    have hnew : (m'.inst ((linkPairs m a args mems).map (·.2))).imported[a.augments (mem + 1) op]? =
        some (m.types.length + a.importsAdded.idxOf (mem, op), .memory d op) := by
      rw [himported, augments, hfuncs, List.getElem?_append_right (by omega)]
      simpa using hentry _ mem op d hat hd
    have hinside : a.augments (mem + 1) op <
        (m'.inst ((linkPairs m a args mems).map (·.2))).imported.length := by
      rw [hlength, augments, hfuncs]
      simp only [Nat.add_sub_cancel]
      omega
    refine ⟨d, ?_, ?_, ?_⟩
    · rw [hsplit.1]
      rcases hsplit.2 with hone | hnone
      · rw [List.getElem?_append_right (by omega), hone, Nat.add_sub_cancel]
        exact hdropped
      · rw [hnone] at hdropped
        simp at hdropped
    · unfold Inst.target
      rw [if_pos hinside, hnew]
      rfl
    · unfold Inst.funcType
      rw [if_pos hinside, hnew, Option.bind_some, htypes, List.getElem?_append_right (by omega)]
      simp [hat]

end

/-! ## The result -/

section

variable [DecidableEq D] {m m' : Module P} {a : Augmenter} {args : List D}
variable {obj : List ((String × String) × AugmentedImport D)}

end

/-! ## A module with two memories -/

end Jco.Core

import Mathlib
import Jco.Bindgen.FlatLower

/-! # Generated lowering functions of types with parts

A handle of a field of a record, or of the payload of a case, is looked up without the map
that is passed for the record or the variant. What is known solely through the map is missing
there.
-/

namespace Jco.Bindgen.FlatLower

open Jco.Lib Instantiator Explained

/-! ## Handles of a type -/

/-- An owned handle that is looked up: for lifting or lowering, and with the map in hand or
without it. -/
structure Use where
  lifts : Bool
  passed : Bool
  componentIdx : Nat
  resourceIdx : Nat
deriving DecidableEq, Repr

namespace InterfaceType

/-- The handles that `gen_flat_lift_fn_js_expr` comes to. -/
def liftUses (passed : Bool) : InterfaceType → List Use
  | .prim _ | .flags _ | .enum .. | .borrow _ | .errorContext _ => []
  | .future .. | .emptyFuture .. | .stream .. | .emptyStream .. => []
  | .record _ tys => (List.ofFn fun i => liftUses passed (tys i)).flatten
  | .variant _ _ payload tys =>
    (List.ofFn fun i => (payload i).elim [] fun j => liftUses passed (tys j)).flatten
  | .list element => liftUses passed element
  | .fixedLengthList element _ => liftUses passed element
  | .tuple tys => (List.ofFn fun i => liftUses passed (tys i)).flatten
  | .option _ ty => liftUses passed ty
  | .result _ ok err tys =>
    (ok.elim [] fun j => liftUses passed (tys j)) ++ err.elim [] fun j => liftUses passed (tys j)
  | .own componentIdx resourceIdx => [⟨true, passed, componentIdx, resourceIdx⟩]
  | .map _ _ _ key value => liftUses passed key ++ liftUses passed value

/-- The handles that `gen_flat_lower_fn_js_expr` comes to. -/
def uses : (passed : Bool) → InterfaceType → List Use
  | _, .prim _ | _, .flags _ | _, .enum .. | _, .borrow _ | _, .errorContext _ => []
  | _, .record _ tys => (List.ofFn fun i => uses false (tys i)).flatten
  | _, .variant _ _ payload tys =>
    (List.ofFn fun i => (payload i).elim [] fun j => uses false (tys j)).flatten
  | passed, .list element => uses passed element
  | passed, .fixedLengthList element _ => uses passed element
  | passed, .tuple tys => (List.ofFn fun i => uses passed (tys i)).flatten
  | passed, .option _ ty => uses passed ty
  | passed, .result _ ok err tys =>
    (ok.elim [] fun j => uses passed (tys j)) ++ err.elim [] fun j => uses passed (tys j)
  | passed, .own componentIdx resourceIdx => [⟨false, passed, componentIdx, resourceIdx⟩]
  | passed, .future _ _ payload => payload.liftUses passed ++ uses passed payload
  | passed, .stream _ _ payload => payload.liftUses passed ++ uses passed payload
  | _, .emptyFuture .. | _, .emptyStream .. => []
  | passed, .map _ _ _ key value => uses passed key ++ uses passed value

end InterfaceType

/-- A table with the extra data of a future, a stream or an error context. -/
def ResourceTable.carriesExtra : ResourceTable → Bool
  | ⟨_, .guest _ _ extra⟩ => extra
  | ⟨_, .host ..⟩ => false

def ResourceTable.isGuest : ResourceTable → Bool
  | ⟨_, .guest ..⟩ => true
  | ⟨_, .host ..⟩ => false

namespace Use

variable (inst : Instantiator) (extra : Option ResourceMap) (u : Use)

/-- The map that is in hand. -/
def inHand : Option ResourceMap := if u.passed then extra else none

/-- The lookup panics: a table is missing or does not fit. -/
def Panics : Prop :=
  if u.lifts then
    ∃ id table, inst.exportsResourceIndexTypes u.resourceIdx = some id ∧
      inst.liftTable (u.inHand extra) id = some table ∧ table.isGuest = true
  else
    inst.lowerTable (u.inHand extra) u.resourceIdx = some none ∨
      ∃ table, inst.lowerTable (u.inHand extra) u.resourceIdx = some (some table) ∧
        table.carriesExtra = true

/-- The instantiator knows the resource if the map that is in hand does. -/
def Agrees : Prop :=
  if u.lifts then
    ∀ id, inst.exportsResourceIndexTypes u.resourceIdx = some id →
      inst.liftTable none id = inst.liftTable (u.inHand extra) id
  else
    inst.lowerTable none u.resourceIdx = inst.lowerTable (u.inHand extra) u.resourceIdx

/-- The handle on its own, with the map. -/
def alone : Use := { u with passed := true }

/-- The expression of the handle on its own, with the map. -/
def handleExpr : Option JsExpr :=
  if u.lifts then inst.liftOwn extra u.componentIdx u.resourceIdx
  else inst.lowerOwn extra u.componentIdx u.resourceIdx

end Use

/-! ## One handle -/

section

variable (inst : Instantiator) (extra : Option ResourceMap)

theorem lowerFn_eq_none (table : ResourceTable) :
    inst.lowerFn table = none ↔ table.carriesExtra = true := by
  rcases table with ⟨imported, _ | ⟨resourceName, pre, extra⟩⟩
  · exact ⟨fun h => (nomatch h), fun h => (nomatch h)⟩
  · cases extra
    · exact ⟨fun h => (nomatch h), fun h => (nomatch h)⟩
    · exact ⟨fun _ => rfl, fun _ => rfl⟩

/-- Without the map a lookup finds what it finds with the map, or nothing. -/
theorem lowerTable_none (resourceIdx : Nat) :
    inst.lowerTable none resourceIdx = inst.lowerTable extra resourceIdx ∨
      inst.lowerTable none resourceIdx = some none := by
  unfold lowerTable
  rcases inst.importsResourceIndexTypes resourceIdx with _ | id
  · rcases inst.exportsResourceIndexTypes resourceIdx with _ | id
    · exact .inl rfl
    · rcases h : inst.resourceExports (inst.dealias id) with _ | table
      · exact .inr (by simp [h, extraTable])
      · exact .inl (by simp [h])
  · rcases h : inst.resourceImports (inst.dealias id) with _ | table
    · exact .inr (by simp [h, extraTable])
    · exact .inl (by simp [h])

theorem liftTable_none (id : TypeId) :
    inst.liftTable none id = inst.liftTable extra id ∨ inst.liftTable none id = none := by
  unfold liftTable
  rcases inst.resourceExports id with _ | table
  · exact .inr rfl
  · exact .inl rfl

theorem liftOwn_eq_none (componentIdx resourceIdx : Nat) :
    inst.liftOwn extra componentIdx resourceIdx = none ↔
      ∃ id table, inst.exportsResourceIndexTypes resourceIdx = some id ∧
        inst.liftTable extra id = some table ∧ table.isGuest = true := by
  unfold liftOwn
  rcases inst.exportsResourceIndexTypes resourceIdx with _ | id
  · simp
  · rcases h : inst.liftTable extra id with _ | ⟨imported, _ | _⟩
    · simp [h]
    · simp [h, ResourceTable.isGuest]
    · simp [h, ResourceTable.isGuest]

theorem lowerOwn_eq_none (componentIdx resourceIdx : Nat) :
    inst.lowerOwn extra componentIdx resourceIdx = none ↔
      inst.lowerTable extra resourceIdx = some none ∨
        ∃ table, inst.lowerTable extra resourceIdx = some (some table) ∧
          table.carriesExtra = true := by
  unfold lowerOwn
  rcases inst.lowerTable extra resourceIdx with _ | _ | table
  · simp
  · simp
  · simp [lowerFn_eq_none]

/-- The functions that are written tell whether a table was found. -/
theorem liftOwn_eq_iff (componentIdx resourceIdx : Nat) :
    inst.liftOwn none componentIdx resourceIdx = inst.liftOwn extra componentIdx resourceIdx ↔
      inst.liftOwn none componentIdx resourceIdx = none ∧
          inst.liftOwn extra componentIdx resourceIdx = none ∨
        ∀ id, inst.exportsResourceIndexTypes resourceIdx = some id →
          inst.liftTable none id = inst.liftTable extra id := by
  constructor
  · intro h
    right
    intro id hid
    rcases liftTable_none inst extra id with hsame | hnone
    · exact hsame
    · unfold liftOwn at h
      simp only [hid, hnone] at h
      rcases hextra : inst.liftTable extra id with _ | ⟨imported, _ | _⟩
      · exact hnone
      · -- the function for missing information is not one for a table
        simp only [hextra] at h
        cases imported <;> simp at h
      · simp [hextra] at h
  · rintro (⟨hnone, hextra⟩ | hsame)
    · rw [hnone, hextra]
    · unfold liftOwn
      rcases hid : inst.exportsResourceIndexTypes resourceIdx with _ | id
      · rfl
      · simp only [hsame id hid]

theorem lowerOwn_eq_iff (componentIdx resourceIdx : Nat) :
    inst.lowerOwn none componentIdx resourceIdx = inst.lowerOwn extra componentIdx resourceIdx ↔
      inst.lowerOwn none componentIdx resourceIdx = none ∧
          inst.lowerOwn extra componentIdx resourceIdx = none ∨
        inst.lowerTable none resourceIdx = inst.lowerTable extra resourceIdx := by
  constructor
  · intro h
    rcases lowerTable_none inst extra resourceIdx with hsame | hnone
    · exact .inr hsame
    · have hleft := (lowerOwn_eq_none inst none componentIdx resourceIdx).2 (.inl hnone)
      exact .inl ⟨hleft, h ▸ hleft⟩
  · rintro (⟨hnone, hextra⟩ | hsame)
    · rw [hnone, hextra]
    · unfold lowerOwn
      rw [hsame]

theorem handleExpr_eq_none (u : Use) :
    u.handleExpr inst (u.inHand extra) = none ↔ u.Panics inst extra := by
  unfold Use.handleExpr Use.Panics
  split
  · exact liftOwn_eq_none inst _ _ _
  · exact lowerOwn_eq_none inst _ _ _

/-- A handle of a type, looked up without the map and with what is in hand. -/
theorem explained_use (u : Use) :
    Explained (Use.Panics inst none) (Use.Panics inst extra) (Use.Agrees inst extra) [u]
      (u.handleExpr inst none) (u.handleExpr inst (u.inHand extra)) := by
  have hinHand : u.inHand none = none := by
    unfold Use.inHand
    split <;> rfl
  have hleft := handleExpr_eq_none inst none u
  have hright := handleExpr_eq_none inst extra u
  rw [hinHand] at hleft
  refine ⟨?_, ?_, ?_⟩
  · simpa only [List.mem_singleton, exists_eq_left] using hleft
  · simpa only [List.mem_singleton, exists_eq_left] using hright
  · simp only [List.mem_singleton, forall_eq]
    unfold Use.handleExpr Use.Agrees
    split
    · exact liftOwn_eq_iff inst _ _ _
    · exact lowerOwn_eq_iff inst _ _ _

/-! ## All types -/

/-- What explains the expressions of a type that are written without the map and with what is
in hand. -/
abbrev Explains (us : List Use) (x x' : Option JsExpr) : Prop :=
  Explained (Use.Panics inst none) (Use.Panics inst extra) (Use.Agrees inst extra) us x x'

/-- The map for a type that is come to with it or without it. -/
def inHand (extra : Option ResourceMap) (passed : Bool) : Option ResourceMap :=
  if passed then extra else none

theorem fieldMeta_inj (names : String) (ty : InterfaceType) :
    Function.Injective (inst.fieldMeta names ty) := by
  intro fn fn' h
  simpa [fieldMeta] using h

theorem caseMeta_inj (names : String) (ty : InterfaceType) :
    Function.Injective (inst.caseMeta names ty) := by
  intro fn fn' h
  simpa [caseMeta] using h

theorem elemMeta_inj (ty : InterfaceType) : Function.Injective (inst.elemMeta ty) := by
  intro fn fn' h
  simpa [elemMeta] using h

theorem payloadMeta_inj (key : String) (ty : InterfaceType) :
    Function.Injective (inst.payloadMeta key ty) := by
  intro fn fn' h
  simpa [payloadMeta] using h

theorem recordExpr_inj (f : String) (ty : InterfaceType) :
    Function.Injective (inst.recordExpr f ty) := by
  intro metas metas' h
  simpa [recordExpr] using h

theorem casesExpr_inj (f : String) (ty : InterfaceType) (payloadOffset32 : Nat) :
    Function.Injective (inst.casesExpr f ty payloadOffset32) := by
  intro metas metas' h
  simpa [casesExpr] using h

theorem tupleExpr_inj (f metas : String) (ty : InterfaceType) :
    Function.Injective (inst.tupleExpr f metas ty) := by
  intro elems elems' h
  simpa [tupleExpr] using h

/-- The lifting functions. -/
theorem explains_lift (passed : Bool) (ty : InterfaceType) :
    Explains inst extra (ty.liftUses passed) (inst.genFlatLiftFnJsExpr none ty)
      (inst.genFlatLiftFnJsExpr (inHand extra passed) ty) := by
  induction ty with
  | record names tys ih =>
    exact (collect fun i => (ih i).map (fieldMeta_inj inst _ _)).map
      (recordExpr_inj inst _ _)
  | variant payloadOffset32 names payload tys ih =>
    refine (Explained.collect fun i => ?_).map (casesExpr_inj inst _ _ _)
    cases payload i with
    | none => exact .const _
    | some j => exact (ih j).map (caseMeta_inj inst _ _)
  | list element ih =>
    refine ih.map fun fn fn' h => ?_
    simpa using h
  | fixedLengthList element size ih =>
    refine ih.map fun fn fn' h => ?_
    simpa using h
  | tuple tys ih =>
    exact (collect fun i => (ih i).map (elemMeta_inj inst _)).map
      (tupleExpr_inj inst _ _ _)
  | option payloadOffset32 ty ih =>
    refine ih.map fun fn fn' h => ?_
    have hmetas := casesExpr_inj inst _ _ _ h
    exact payloadMeta_inj inst _ _ (List.cons.inj (List.cons.inj hmetas).2).1
  | result payloadOffset32 ok err tys ih =>
    refine map₂ ?_ ?_ fun okMeta errMeta okMeta' errMeta' h => ?_
    · cases ok with
      | none => exact .const _
      | some j => exact (ih j).map (payloadMeta_inj inst _ _)
    · cases err with
      | none => exact .const _
      | some j => exact (ih j).map (payloadMeta_inj inst _ _)
    · have hmetas := casesExpr_inj inst _ _ _ h
      exact ⟨(List.cons.inj hmetas).1, (List.cons.inj (List.cons.inj hmetas).2).1⟩
  | own componentIdx resourceIdx =>
    exact explained_use inst extra ⟨true, passed, componentIdx, resourceIdx⟩
  | map entrySize32 entryAlign32 valueOffset32 key value ihKey ihValue =>
    refine map₂ ihKey ihValue fun k v k' v' h => ?_
    simpa [mapExpr] using h
  | _ => exact .const _

/-- The lowering functions. -/
theorem explains_lower (passed : Bool) (ty : InterfaceType) :
    Explains inst extra (ty.uses passed) (inst.genFlatLowerFnJsExpr none ty)
      (inst.genFlatLowerFnJsExpr (inHand extra passed) ty) := by
  induction ty generalizing passed with
  | record names tys ih =>
    -- the map is in hand no more
    exact (collect fun i => (ih i false).map (fieldMeta_inj inst _ _)).map
      (recordExpr_inj inst _ _)
  | variant payloadOffset32 names payload tys ih =>
    refine (Explained.collect fun i => ?_).map (casesExpr_inj inst _ _ _)
    cases payload i with
    | none => exact .const _
    | some j => exact (ih j false).map (caseMeta_inj inst _ _)
  | list element ih =>
    refine (ih passed).map fun fn fn' h => ?_
    simpa using h
  | fixedLengthList element size ih =>
    refine (ih passed).map fun fn fn' h => ?_
    simpa using h
  | tuple tys ih =>
    exact (collect fun i => (ih i passed).map (elemMeta_inj inst _)).map
      (tupleExpr_inj inst _ _ _)
  | option payloadOffset32 ty ih =>
    refine (ih passed).map fun fn fn' h => ?_
    have hmetas := casesExpr_inj inst _ _ _ h
    exact payloadMeta_inj inst _ _ (List.cons.inj (List.cons.inj hmetas).2).1
  | result payloadOffset32 ok err tys ih =>
    refine map₂ ?_ ?_ fun okFn errFn okFn' errFn' h => ?_
    · cases ok with
      | none => exact .const _
      | some j => exact ih j passed
    · cases err with
      | none => exact .const _
      | some j => exact ih j passed
    · have hmetas := casesExpr_inj inst _ _ _ h
      simpa using hmetas
  | own componentIdx resourceIdx =>
    exact explained_use inst extra ⟨false, passed, componentIdx, resourceIdx⟩
  | future tableIdx componentIdx payload ih =>
    refine map₂ (explains_lift inst extra passed payload) (ih passed)
      fun liftFn lowerFn liftFn' lowerFn' h => ?_
    simpa [futureExpr, payloadProps] using h
  | stream tableIdx componentIdx payload ih =>
    refine map₂ (explains_lift inst extra passed payload) (ih passed)
      fun liftFn lowerFn liftFn' lowerFn' h => ?_
    simpa [streamExpr, payloadProps] using h
  | map entrySize32 entryAlign32 valueOffset32 key value ihKey ihValue =>
    refine map₂ (ihKey passed) (ihValue passed) fun k v k' v' h => ?_
    simpa [mapExpr] using h
  | _ => exact .const _

theorem handleExpr_eq_none_iff_alone (u : Use) :
    u.handleExpr inst extra = none ↔ u.alone.Panics inst extra :=
  handleExpr_eq_none inst extra u.alone

/-! ## Composition -/

/-- Each handle is known to the instantiator if the map knows it, or a lookup panics both with
the map and without it. -/
def Known (us : List Use) : Prop :=
  (∃ u ∈ us, u.Panics inst none) ∧ (∃ u ∈ us, u.Panics inst extra) ∨
    ∀ u ∈ us, u.Agrees inst extra

theorem Explained.same_iff {us : List Use} {x x' : Option JsExpr}
    (h : Explains inst extra us x x') : x = x' ↔ Known inst extra us := by
  unfold Known
  rw [h.same, h.left, h.right]

/-- The expressions of records and variants are those of their fields and payloads, written
with the map, exactly where no handle of theirs is known solely through the map. A handle
that has an expression on its own has one in a type exactly where it is found there. -/
theorem compositional_iff :
    (∀ (n : Nat) (names : Fin n → String) (tys : Fin n → InterfaceType),
      inst.genFlatLowerFnJsExpr extra (.record names tys) =
          (collect fun i => (inst.genFlatLowerFnJsExpr extra (tys i)).map
            (inst.fieldMeta (names i) (tys i))).map
              (inst.recordExpr "_lowerFlatRecord" (.record names tys)) ↔
        Known inst extra (List.ofFn fun i => (tys i).uses true).flatten) ∧
    (∀ (payloadOffset32 n k : Nat) (names : Fin n → String) (payload : Fin n → Option (Fin k))
      (tys : Fin k → InterfaceType),
      inst.genFlatLowerFnJsExpr extra (.variant payloadOffset32 names payload tys) =
          (collect fun i => (payload i).elim (some (Instantiator.emptyCaseMeta (names i))) fun j =>
            (inst.genFlatLowerFnJsExpr extra (tys j)).map (inst.caseMeta (names i) (tys j))).map
              (inst.casesExpr "_lowerFlatVariant" (.variant payloadOffset32 names payload tys)
                payloadOffset32) ↔
        Known inst extra
          (List.ofFn fun i => (payload i).elim [] fun j => (tys j).uses true).flatten) ∧
    ∀ ty : InterfaceType,
      ((∀ u ∈ ty.uses true, u.handleExpr inst extra ≠ none) →
          inst.genFlatLowerFnJsExpr extra ty ≠ none) ↔
        (∃ u ∈ ty.uses true, u.alone.Panics inst extra) ∨
          ∀ u ∈ ty.uses true, ¬ u.Panics inst extra := by
  refine ⟨fun n names tys => ?_, fun payloadOffset32 n k names payload tys => ?_, fun ty => ?_⟩
  · exact Explained.same_iff inst extra ((Explained.collect fun i =>
      (explains_lower inst extra true (tys i)).map (fieldMeta_inj inst _ _)).map
        (recordExpr_inj inst _ _))
  · refine Explained.same_iff inst extra ((Explained.collect fun i => ?_).map
      (casesExpr_inj inst _ _ _))
    cases payload i with
    | none => exact .const _
    | some j => exact (explains_lower inst extra true (tys j)).map (caseMeta_inj inst _ _)
  · have hnone : inst.genFlatLowerFnJsExpr extra ty = none ↔
        ∃ u ∈ ty.uses true, u.Panics inst extra := (explains_lower inst extra true ty).right
    simp only [ne_eq, hnone, handleExpr_eq_none_iff_alone]
    constructor
    · intro h
      by_cases halone : ∃ u ∈ ty.uses true, u.alone.Panics inst extra
      · exact .inl halone
      · right
        intro u hu hpanics
        exact h (fun v hv hv' => halone ⟨v, hv, hv'⟩) ⟨u, hu, hpanics⟩
    · rintro (⟨u, hu, halone⟩ | hall) h
      · exact (h u hu halone).elim
      · rintro ⟨u, hu, hpanics⟩
        exact hall u hu hpanics

end

/-- An imported resource that is known solely through a map. -/
def mapOnly : Instantiator where
  importsResourceIndexTypes _ := some 7
  exportsResourceIndexTypes _ := none
  resourceImports _ := none
  resourceExports _ := none
  dealias id := id
  canonicalAbi _ := ⟨4, 4, some 1⟩
  debug _ := "Own(TypeResourceTableIndex(0))"
  toLowerCamelCase s := s
  toUpperCamelCase s := s

def mapOnlyExtra : ResourceMap := fun _ => some ⟨true, .host 0 0 "Thing" none⟩

/-- The handle has an expression, and a stream of records with it has none. -/
theorem mapOnly_panics :
    ¬ ∀ (inst : Instantiator) (extra : Option ResourceMap) (ty : InterfaceType),
      (∀ u ∈ ty.uses true, u.handleExpr inst extra ≠ none) →
        inst.genFlatLowerFnJsExpr extra ty ≠ none := by
  intro h
  refine h mapOnly (some mapOnlyExtra)
    (.stream 0 0 (.record (fun _ : Fin 1 => "thing") fun _ => .own 0 0)) ?_ rfl
  intro u hu hnone
  have huse : u = ⟨true, true, 0, 0⟩ ∨ u = ⟨false, false, 0, 0⟩ := by
    simpa [InterfaceType.uses, InterfaceType.liftUses] using hu
  rcases huse with rfl | rfl
  · cases hnone
  · cases hnone

end Jco.Bindgen.FlatLower

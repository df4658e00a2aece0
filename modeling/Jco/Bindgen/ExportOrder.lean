import Jco.Bindgen.EsmBindgen
import Jco.Bindgen.ExportBindgen

/-! # Exports in the order of the component

`process_exports` goes through the exports of the component, and through the functions of an
exported interface, in the order they have there. A resource is given a class by the first of
its members that is written; a constructor has to be that member.

1. Generating one function, an interface and all exports.
2. What is to come out of a component, whatever the order of its functions.
3. What the functions of a component have left when some of them are done.
4. The result does not depend on the order, exactly where the constructors come first, no two
   functions have one place, and no interface has the name of a function.
-/

namespace Jco.Bindgen

open Jco.Lib List EsmBindgen

namespace ExportBindgen

/-! ## Generating -/

/-- What a local name belongs to: a resource, a core export, or something else. -/
inductive NameId where
  | resource (index : Nat)
  | coreFn (coreExportFn : Text)
  | other (id : Nat)
deriving DecidableEq, Repr

/-- A lifted function with its instructions, the names that `create_resource_fn_map` asks for,
and its `core_def`. -/
structure Lifted where
  func : Function
  lowers : List Instruction
  lifts : List Instruction
  mentions : List (NameId × Text)
  coreExportFn : Text

/-- A piece of the generated module. -/
inductive Piece where
  /-- A class whose constructor throws. -/
  | stubClass (localName : Text)
  /-- A function, whose text has the names of its export and of itself. -/
  | written (w : Written) (exportName funcName : Text)

structure Generator where
  names : LocalNames NameId
  definedResourceClasses : List Text
  js : List Piece
  esm : EsmBindgen

section

variable (toLowerCamelCase toUpperCamelCase : Text → Text) (mode : Option AsyncMode)
  (typeName : Nat → Text)

/-- `ensure_local_resource_class`: the classes that are defined, and what is written. -/
def ensureLocalResourceClass (defined : List Text) (localName : Text) : List Text × List Piece :=
  if defined.contains localName then (defined, []) else (localName :: defined, [.stubClass localName])

/-- What the preamble does about the class of a function. `none` is the panic of a constructor
that is not the first of its resource. -/
def preambleClass (defined : List Text) (localName : Text) :
    FunctionKind → Option (List Text × List Piece)
  | .freestanding | .asyncFreestanding => some (defined, [])
  | .constructor _ => if defined.contains localName then none else some (localName :: defined, [])
  | .method _ | .static _ | .asyncMethod _ | .asyncStatic _ =>
    some (ensureLocalResourceClass defined localName)

/-- `export_bindgen` -/
def exportBindgen (g : Generator) (localName exportName : Text) (f : Lifted) :
    Option Generator := do
  let named ← g.names.getOrCreate toLowerCamelCase (.coreFn f.coreExportFn) f.coreExportFn
  let classes ← preambleClass g.definedResourceClasses localName f.func.kind
  let w := writeFunction toLowerCamelCase mode localName exportName f.func f.lowers f.lifts
  return { g with
    names := named.1
    definedResourceClasses := classes.1
    js := g.js ++ (classes.2 ++ [.written w exportName f.func.name]) }

/-- `create_resource_fn_map`, as far as it names resources. -/
def createResourceFnMap (names : LocalNames NameId) (mentions : List (NameId × Text)) :
    Option (LocalNames NameId) :=
  mentions.foldlM (fun names mention =>
    (names.getOrCreate toLowerCamelCase mention.1 mention.2).map Prod.fst) names

/-- The local name of a function: that of its class, or one of its own made of `goal`. -/
def functionName (names : LocalNames NameId) (goal : Text) (kind : FunctionKind) :
    Option (LocalNames NameId × Text) :=
  match kind.resource? with
  | some r => (names.getOrCreate toLowerCamelCase (.resource r) (toUpperCamelCase (typeName r))).map
      fun named => (named.1, named.2.1)
  | none => names.createOnce toLowerCamelCase goal

/-- `export_binding_name`: that of the class, or one made of `goal`. -/
def bindingName (goal : Text) (kind : FunctionKind) : Text :=
  match kind.resource? with
  | some r => toUpperCamelCase (typeName r)
  | none => toLowerCamelCase goal

/-- One lifted function: `goal` is its name, and `iface` the interface it is exported in. -/
def processFunction (g : Generator) (goal exportName : Text) (iface : Option Text) (f : Lifted) :
    Option Generator := do
  let names ← createResourceFnMap toLowerCamelCase g.names f.mentions
  let named ← functionName toLowerCamelCase toUpperCamelCase typeName names goal f.func.kind
  let g ← exportBindgen toLowerCamelCase mode { g with names := named.1 } named.2 exportName f
  let esm ← g.esm.addExportBinding toLowerCamelCase iface named.2
    (bindingName toLowerCamelCase toUpperCamelCase typeName goal f.func.kind) f.func.name
  return { g with esm }

/-- The functions of an exported instance. -/
def processInstance (g : Generator) (exportName : Text) (fs : List Lifted) : Option Generator :=
  fs.foldlM (fun g f => processFunction toLowerCamelCase toUpperCamelCase mode typeName g
    f.func.name exportName (some exportName) f) g

/-- `Export`, and the functions of an instance. Modules are not implemented. -/
inductive Export where
  | liftedFunction (f : Lifted)
  | inst (functions : List Lifted)
  | type

def processExport (g : Generator) (exportName : Text) : Export → Option Generator
  | .liftedFunction f =>
    processFunction toLowerCamelCase toUpperCamelCase mode typeName g exportName exportName none f
  | .inst functions =>
    processInstance toLowerCamelCase toUpperCamelCase mode typeName g exportName functions
  | .type => some g

/-- `process_exports` -/
def processExports (g : Generator) (exports : List (Text × Export)) : Option Generator := do
  let g ← exports.foldlM (fun g e => processExport toLowerCamelCase toUpperCamelCase mode typeName
    g e.1 e.2) g
  return { g with esm := g.esm.populateExportAliases toLowerCamelCase }

end

/-- A function that is exported: its name and the interface, with what is lifted. -/
structure Exported where
  goal : Text
  exportName : Text
  iface : Option Text
  lifted : Lifted

/-- The function by its names in the component. -/
def Exported.id (x : Exported) : Text × Text := (x.exportName, x.lifted.func.name)

def Export.functions (exportName : Text) : Export → List Exported
  | .liftedFunction f => [⟨exportName, exportName, none, f⟩]
  | .inst functions => functions.map fun f => ⟨f.func.name, exportName, some exportName, f⟩
  | .type => []

/-- The exported functions, in the order of the component. -/
def functions (exports : List (Text × Export)) : List Exported :=
  exports.flatMap fun e => e.2.functions e.1

/-! ## What is to come out -/

/-- Where a function is in its class, or that it is a function of its own. -/
inductive Slot where
  | function
  | prototype (methodName : Text)
  | static (methodName : Text)
  | constructor
deriving DecidableEq, Repr

def slot (toLowerCamelCase : Text → Text) (func : Function) : Slot :=
  match func.kind with
  | .freestanding | .asyncFreestanding => .function
  | .method _ | .asyncMethod _ => .prototype (toLowerCamelCase func.itemName)
  | .static _ | .asyncStatic _ => .static (toLowerCamelCase func.itemName)
  | .constructor _ => .constructor

/-- What is written to: two functions with one place overwrite each other. -/
def Target.place : Target → Text × Slot
  | .function localName => (localName, .function)
  | .prototype localName methodName _ => (localName, .prototype methodName)
  | .static localName methodName _ => (localName, .static methodName)
  | .constructor localName => (localName, .constructor)

/-- The class that a piece defines. -/
def Piece.definedClass : Piece → Option Text
  | .stubClass localName => some localName
  | .written w _ _ => if w.target.place.2 = .constructor then some w.target.place.1 else none

/-- The class that a piece assigns to, or to the prototype of. -/
def Piece.assignedClass : Piece → Option Text
  | .stubClass _ => none
  | .written w _ _ =>
    if w.target.place.2 = .constructor ∨ w.target.place.2 = .function then none
    else some w.target.place.1

def classes (pieces : List Piece) : List Text := pieces.filterMap Piece.definedClass

def Generator.className (g : Generator) (r : Nat) : Option Text :=
  g.names.localNameIds.lookup (.resource r)

/-- What is exported under a name, of an interface or of the module. -/
def Generator.bound (g : Generator) : Option Text × Text → Option (Text × Text)
  | (none, name) =>
    match Keyed.lookup g.esm.exports name with
    | some (.localFn localName wasmFuncName) => some (localName, wasmFuncName)
    | _ => none
  | (some key, name) =>
    match Keyed.lookup g.esm.exports key with
    | some (.interface iface) => Keyed.lookup iface name
    | _ => none

section

variable (toLowerCamelCase toUpperCamelCase : Text → Text) (mode : Option AsyncMode)
  (typeName : Nat → Text)

/-- The names that a function is exported under. -/
def Exported.binding (x : Exported) : Option Text × Text :=
  (x.iface.map (EsmBindgen.exportKey toLowerCamelCase),
    bindingName toLowerCamelCase toUpperCamelCase typeName x.goal x.lifted.func.kind)

/-- The piece with the text of a function, under the local name `n`. -/
def Exported.piece (x : Exported) (n : Text) : Piece :=
  .written (writeFunction toLowerCamelCase mode n x.exportName x.lifted.func x.lifted.lowers
    x.lifted.lifts) x.exportName x.lifted.func.name

/-- A function under the local name `n`: it is written, nothing else is written to its place, and
its binding is that name. -/
structure Made (g' : Generator) (pieces : List Piece) (x : Exported) (n : Text) : Prop where
  ofClass : ∀ r, x.lifted.func.kind.resource? = some r → g'.className r = some n
  ofNone : x.lifted.func.kind.resource? = none → n ∉ classes pieces
  written : x.piece toLowerCamelCase mode n ∈ pieces
  alone : ∀ w e name, Piece.written w e name ∈ pieces →
    w.target.place = (n, slot toLowerCamelCase x.lifted.func) → (e, name) = x.id
  bound : ∃ name, g'.bound (x.binding toLowerCamelCase toUpperCamelCase typeName) = some (n, name)

/-- What is to come out of a component: each class is defined once, and before it is assigned to;
each function is made. The functions are mentioned by membership only, so it is the same for every
order of them. -/
structure Right (xs : List Exported) (g g' : Generator) (pieces : List Piece) : Prop where
  js : g'.js = g.js ++ pieces
  once : (classes pieces).Nodup
  mem_classes : ∀ c, c ∈ classes pieces ↔
    ∃ x ∈ xs, ∃ r, x.lifted.func.kind.resource? = some r ∧ g'.className r = some c
  before : ∀ earlier p later c, pieces = earlier ++ p :: later → p.assignedClass = some c →
    c ∈ classes earlier
  made : ∀ x ∈ xs, ∃ n, Made toLowerCamelCase toUpperCamelCase mode typeName g' pieces x n
  only : ∀ w e name, Piece.written w e name ∈ pieces → ∃ x ∈ xs, (e, name) = x.id
  others : ∀ b v, g'.bound b = some v →
    ∃ x ∈ xs, x.binding toLowerCamelCase toUpperCamelCase typeName = b

/-- No member of a resource comes before its constructor. -/
def ConstructorsFirst (xs : List Exported) : Prop :=
  xs.Pairwise fun x y => y.lifted.func.kind.isConstructor = true →
    x.lifted.func.kind.resource? ≠ y.lifted.func.kind.resource?

/-- Two functions are kept apart: by their bindings, or within their class. -/
def Apart (x y : Exported) : Prop :=
  if x.lifted.func.kind.resource? = y.lifted.func.kind.resource? ∧
      x.lifted.func.kind.resource? ≠ none then
    slot toLowerCamelCase x.lifted.func ≠ slot toLowerCamelCase y.lifted.func
  else
    x.binding toLowerCamelCase toUpperCamelCase typeName ≠
      y.binding toLowerCamelCase toUpperCamelCase typeName

/-- The interface of `y` has the name of the function `x`. -/
def Hides (x y : Exported) : Prop :=
  x.iface = none ∧ (y.binding toLowerCamelCase toUpperCamelCase typeName).1 =
    some (x.binding toLowerCamelCase toUpperCamelCase typeName).2

/-- No interface has the name of an exported function. -/
def NoneHidden (xs : List Exported) : Prop :=
  ∀ x ∈ xs, ∀ y ∈ xs, ¬ Hides toLowerCamelCase toUpperCamelCase typeName x y

end

/-! ## One function -/

variable {toLowerCamelCase toUpperCamelCase : Text → Text} {mode : Option AsyncMode}
  {typeName : Nat → Text} {g g' : Generator} {exportName : Text} {x : Exported}

theorem place_writeFunction (toLowerCamelCase : Text → Text) (mode : Option AsyncMode)
    (n exportName : Text) (f : Lifted) :
    (writeFunction toLowerCamelCase mode n exportName f.func f.lowers f.lifts).target.place =
      (n, slot toLowerCamelCase f.func) := by
  unfold writeFunction preamble slot
  cases f.func.kind <;> rfl

theorem slot_constructor {func : Function} :
    slot toLowerCamelCase func = .constructor ↔ func.kind.isConstructor = true := by
  unfold slot
  cases func.kind <;> simp [FunctionKind.isConstructor]

theorem slot_function (toLowerCamelCase : Text → Text) {func : Function} :
    slot toLowerCamelCase func = .function ↔ func.kind.resource? = none := by
  unfold slot
  cases func.kind <;> simp [FunctionKind.resource?]

variable {kind : FunctionKind}

theorem resource_of_isConstructor (h : kind.isConstructor = true) :
    kind.resource? ≠ none := by
  cases kind with
  | constructor r => exact Option.some_ne_none r
  | _ => cases h

variable {names : LocalNames NameId}

/-- Naming the resources of the parameters. -/
theorem createResourceFnMap_grows (toLowerCamelCase : Text → Text)
    (h : names.Ok)
    (mentions : List (NameId × Text)) :
    ∃ names', createResourceFnMap toLowerCamelCase names mentions = some names' ∧ names'.Ok ∧
      names.Grows names' := by
  induction mentions generalizing names with
  | nil => exact ⟨names, rfl, h, .refl names⟩
  | cons mention mentions ih =>
    obtain ⟨⟨names₁, name, seen⟩, hget⟩ :=
      names.exists_getOrCreate toLowerCamelCase mention.1 mention.2
    rcases h.getOrCreate hget with ⟨hok, hgrows, _⟩
    rcases ih hok with ⟨names₂, hrun, hok₂, hgrows₂⟩
    refine ⟨names₂, ?_, hok₂, hgrows.trans hgrows₂⟩
    rw [createResourceFnMap, foldlM_cons, hget]
    exact hrun

/-- The name of a function is that of its class, or one that was not there. -/
structure NameFor (g : Generator) (names : LocalNames NameId) (kind : FunctionKind) (n : Text) :
    Prop where
  ofClass : ∀ r, kind.resource? = some r → names.localNameIds.lookup (.resource r) = some n
  fresh : kind.resource? = none → n ∉ g.names.localNames
  taken : n ∈ names.localNames
  ofNone : kind.resource? = none → ∀ i, names.localNameIds.lookup i ≠ some n

/-- All that a function does: it is named, its class is seen to, it is written and bound. Naming
succeeds; the class and the binding may not. -/
theorem processFunction_eq (toLowerCamelCase toUpperCamelCase : Text → Text)
    (mode : Option AsyncMode) (typeName : Nat → Text) (hok : g.names.Ok) (goal exportName : Text)
    (iface : Option Text) (f : Lifted) :
    ∃ names n, names.Ok ∧ g.names.Grows names ∧ NameFor g names f.func.kind n ∧
      processFunction toLowerCamelCase toUpperCamelCase mode typeName g goal exportName iface f =
        (preambleClass g.definedResourceClasses n f.func.kind).bind fun classes =>
          (g.esm.addExportBinding toLowerCamelCase iface n
            (bindingName toLowerCamelCase toUpperCamelCase typeName goal f.func.kind)
            f.func.name).map fun esm =>
              { names
                definedResourceClasses := classes.1
                js := g.js ++ (classes.2 ++ [.written (writeFunction toLowerCamelCase mode n
                  exportName f.func f.lowers f.lifts) exportName f.func.name])
                esm } := by
  obtain ⟨names₁, hmentions, hok₁, hgrows₁⟩ :=
    createResourceFnMap_grows toLowerCamelCase hok f.mentions
  -- the name, by the kind
  have hname : ∃ names₂ n, functionName toLowerCamelCase toUpperCamelCase typeName names₁ goal
      f.func.kind = some (names₂, n) ∧ names₂.Ok ∧ names₁.Grows names₂ ∧
      NameFor g names₂ f.func.kind n := by
    unfold functionName
    cases hkind : f.func.kind.resource? with
    | some r =>
      obtain ⟨⟨names₂, n, seen⟩, hget⟩ := names₁.exists_getOrCreate toLowerCamelCase
        (.resource r) (toUpperCamelCase (typeName r))
      rcases hok₁.getOrCreate hget with ⟨hok₂, hgrows₂, hlookup⟩
      refine ⟨names₂, n, by dsimp only; rw [hget]; rfl, hok₂, hgrows₂,
        ⟨?_, ?_, hok₂.taken _ n hlookup, ?_⟩⟩
      · intro r' hr'
        rw [hkind] at hr'
        cases hr'
        exact hlookup
      · intro hnone
        rw [hkind] at hnone
        cases hnone
      · intro hnone
        rw [hkind] at hnone
        cases hnone
    | none =>
      obtain ⟨⟨names₂, n⟩, hcreate⟩ := names₁.exists_createOnce toLowerCamelCase goal
      rcases hok₁.createOnce hcreate with ⟨hok₂, hgrows₂, hfresh, htaken, hid⟩
      refine ⟨names₂, n, hcreate, hok₂, hgrows₂, ⟨?_, ?_, htaken, fun _ => hid⟩⟩
      · intro r hr
        rw [hkind] at hr
        cases hr
      · exact fun _ hn => hfresh (hgrows₁.taken n hn)
  obtain ⟨names₂, n, hnamed, hok₂, hgrows₂, hfor⟩ := hname
  obtain ⟨⟨names₃, callee, seen⟩, hcallee⟩ := names₂.exists_getOrCreate toLowerCamelCase
    (.coreFn f.coreExportFn) f.coreExportFn
  rcases hok₂.getOrCreate hcallee with ⟨hok₃, hgrows₃, _⟩
  refine ⟨names₃, n, hok₃, (hgrows₁.trans hgrows₂).trans hgrows₃,
    ⟨fun r hr => hgrows₃.kept _ n (hfor.ofClass r hr), hfor.fresh, hgrows₃.taken n hfor.taken, ?_⟩,
    ?_⟩
  · intro hnone i hi
    rcases hgrows₃.fresh i n hi with hold | hnew
    · exact hfor.ofNone hnone i hold
    · exact hnew hfor.taken
  · unfold processFunction
    rw [hmentions]
    simp only [Option.bind_eq_bind, Option.bind_some, hnamed]
    unfold exportBindgen
    simp only [Option.bind_eq_bind, hcallee, Option.bind_some]
    cases preambleClass g.definedResourceClasses n f.func.kind with
    | none => rfl
    | some classes =>
      simp only [Option.bind_some, Option.pure_def]
      cases addExportBinding toLowerCamelCase g.esm iface n
        (bindingName toLowerCamelCase toUpperCamelCase typeName goal f.func.kind) f.func.name <;> rfl

theorem classes_append (ps qs : List Piece) : classes (ps ++ qs) = classes ps ++ classes qs :=
  filterMap_append

/-- What a function adds to the classes that are defined: nothing, or its own. -/
structure Defines (defined : List Text) (n : Text) (kind : FunctionKind) (defined' : List Text)
    (new : List Piece) : Prop where
  mem : ∀ d, d ∈ defined' ↔ d ∈ defined ∨ d ∈ classes new
  free : ∀ d ∈ classes new, d ∉ defined ∧ d = n ∧ kind.resource? ≠ none
  nodup : (classes new).Nodup
  own : kind.resource? ≠ none → n ∈ defined'
  assigns : ∀ p ∈ new, ∀ d, p.assignedClass = some d → d = n ∧ kind.resource? ≠ none
  before : ∀ earlier p later d, new = earlier ++ p :: later → p.assignedClass = some d →
    d ∈ defined ∨ d ∈ classes earlier

variable {defined : List Text} {n : Text} {new : List Piece}

theorem Defines.nothing
    (hnew : classes new = []) (hown : kind.resource? ≠ none → n ∈ defined)
    (hassigns : ∀ p ∈ new, ∀ d, p.assignedClass = some d → d = n ∧ kind.resource? ≠ none) :
    Defines defined n kind defined new where
  mem d := by
    rw [hnew]
    exact ⟨.inl, fun h => h.resolve_right not_mem_nil⟩
  free d hd := by
    rw [hnew] at hd
    exact absurd hd not_mem_nil
  nodup := by
    rw [hnew]
    exact nodup_nil
  own := hown
  assigns := hassigns
  before earlier p later d heq hp := by
    have hmem : p ∈ new := by
      rw [heq]
      exact mem_append_right _ mem_cons_self
    rcases hassigns p hmem d hp with ⟨rfl, hkind⟩
    exact .inl (hown hkind)

theorem Defines.class
    (hnew : classes new = [n]) (hfree : n ∉ defined) (hkind : kind.resource? ≠ none)
    (hassigns : ∀ p ∈ new, ∀ d, p.assignedClass = some d → d = n ∧ kind.resource? ≠ none)
    (hbefore : ∀ earlier p later d, new = earlier ++ p :: later → p.assignedClass = some d →
      d ∈ classes earlier) :
    Defines defined n kind (n :: defined) new where
  mem d := by
    rw [hnew, mem_singleton, mem_cons]
    exact or_comm
  free d hd := by
    rw [hnew, mem_singleton] at hd
    exact ⟨hd ▸ hfree, hd, hkind⟩
  nodup := by
    rw [hnew]
    exact nodup_singleton n
  own _ := mem_cons_self
  assigns := hassigns
  before earlier p later d heq hp := .inr (hbefore earlier p later d heq hp)

/-- The preamble panics exactly at a constructor whose class is there. -/
theorem preambleClass_eq_none :
    preambleClass defined n kind = none ↔ kind.isConstructor = true ∧ n ∈ defined := by
  cases kind with
  | constructor r =>
    unfold preambleClass
    dsimp only [FunctionKind.isConstructor]
    by_cases hmem : n ∈ defined
    · rw [if_pos (contains_iff_mem.2 hmem)]
      exact ⟨fun _ => ⟨rfl, hmem⟩, fun _ => rfl⟩
    · rw [if_neg (mt contains_iff_mem.1 hmem)]
      exact ⟨nofun, fun h => absurd h.2 hmem⟩
  | _ => exact ⟨nofun, fun h => nomatch h.1⟩

variable {c : List Text × List Piece}

theorem preambleClass_defines {f : Lifted} {w : Written}
    (e x : Text)
    (hplace : w.target.place = (n, slot toLowerCamelCase f.func))
    (h : preambleClass defined n f.func.kind = some c) :
    Defines defined n f.func.kind c.1 (c.2 ++ [.written w e x]) := by
  have hdefined : (Piece.written w e x).definedClass =
      if f.func.kind.isConstructor = true then some n else none := by
    rw [Piece.definedClass, hplace]
    exact if_congr slot_constructor rfl rfl
  have hassigned : ∀ d, (Piece.written w e x).assignedClass = some d → d = n ∧
      f.func.kind.isConstructor = false ∧ f.func.kind.resource? ≠ none := by
    intro d hd
    rw [Piece.assignedClass, hplace] at hd
    split at hd
    · cases hd
    next hslot =>
      rw [slot_constructor, slot_function, not_or] at hslot
      exact ⟨(Option.some.inj hd).symm, Bool.eq_false_of_not_eq_true hslot.1, hslot.2⟩
  by_cases hkind : f.func.kind.resource? = none
  · -- a function of its own has no class
    have hc : c = (defined, []) ∧ f.func.kind.isConstructor = false := by
      cases hk : f.func.kind <;> rw [hk] at h hkind <;> cases hkind <;> cases h <;>
        exact ⟨rfl, rfl⟩
    rcases hc with ⟨rfl, hctor⟩
    refine .nothing ?_ (fun hne => absurd hkind hne) ?_
    · rw [nil_append, classes, filterMap_cons, hdefined, hctor]
      rfl
    · intro p hp d hd
      rw [nil_append, mem_singleton] at hp
      rw [hp] at hd
      exact ⟨(hassigned d hd).1, (hassigned d hd).2.2⟩
  · cases hctor : f.func.kind.isConstructor
    · -- a member: its class is there, or is written before it
      have hc : c = ensureLocalResourceClass defined n := by
        cases hk : f.func.kind <;> rw [hk] at h hkind hctor <;>
          first
          | exact (Option.some.inj h).symm
          | exact absurd rfl hkind
          | cases hctor
      have hwritten : classes [.written w e x] = [] := by
        rw [classes, filterMap_cons, hdefined, hctor]
        rfl
      rw [hc, ensureLocalResourceClass]
      by_cases hmem : n ∈ defined
      · rw [if_pos (contains_iff_mem.2 hmem)]
        refine .nothing hwritten (fun _ => hmem) ?_
        intro p hp d hd
        rw [nil_append, mem_singleton] at hp
        rw [hp] at hd
        exact ⟨(hassigned d hd).1, hkind⟩
      · rw [if_neg (mt contains_iff_mem.1 hmem)]
        refine .class ?_ hmem hkind ?_ ?_
        · rw [classes_append, hwritten]
          rfl
        · intro p hp d hd
          rcases mem_cons.1 hp with rfl | hp
          · cases hd
          · rw [mem_singleton.1 hp] at hd
            exact ⟨(hassigned d hd).1, hkind⟩
        · intro earlier p later d heq hp
          -- what comes before the function is the class
          rcases cons_eq_append_iff.1 heq with ⟨rfl, hfirst⟩ | ⟨rest, rfl, hrest⟩
          · cases hfirst
            cases hp
          · rcases cons_eq_append_iff.1 hrest with ⟨rfl, hsecond⟩ | ⟨_, rfl, hnone⟩
            · cases hsecond
              rw [(hassigned d hp).1]
              exact mem_cons_self
            · exact absurd hnone.symm (by simp)
    · -- a constructor writes its class
      have hc : n ∉ defined ∧ c = (n :: defined, []) := by
        cases hk : f.func.kind <;> rw [hk] at h hctor <;> cases hctor
        unfold preambleClass at h
        dsimp only at h
        split at h
        · cases h
        next hfree =>
          exact ⟨fun hmem => hfree (contains_iff_mem.2 hmem), (Option.some.inj h).symm⟩
      rcases hc with ⟨hfree, rfl⟩
      refine .class ?_ hfree hkind ?_ ?_
      · rw [nil_append, classes, filterMap_cons, hdefined, hctor]
        rfl
      · intro p hp d hd
        rw [nil_append, mem_singleton] at hp
        rw [hp] at hd
        exact ⟨(hassigned d hd).1, hkind⟩
      · intro earlier p later d heq hp
        rcases cons_eq_append_iff.1 heq with ⟨rfl, hfirst⟩ | ⟨_, rfl, hnone⟩
        · cases hfirst
          have hnot := (hassigned d hp).2.1
          rw [hctor] at hnot
          cases hnot
        · exact absurd hnone.symm (by simp)

/-- A class that is written on its own is no function. -/
theorem preambleClass_written
    (h : preambleClass defined n kind = some c) (w : Written)
    (e x : Text) : Piece.written w e x ∉ c.2 := by
  have hensure : Piece.written w e x ∉ (ensureLocalResourceClass defined n).2 := by
    unfold ensureLocalResourceClass
    split
    · exact not_mem_nil
    · intro hmem
      cases mem_singleton.1 hmem
  cases kind with
  | constructor r =>
    rcases Option.ite_none_left_eq_some.1 h with ⟨-, h⟩
    cases h
    exact not_mem_nil
  | freestanding =>
    cases h
    exact not_mem_nil
  | asyncFreestanding =>
    cases h
    exact not_mem_nil
  | _ =>
    cases h
    exact hensure

/-- `none` is the panic of an interface that has the name of a function. -/
theorem addExportBinding_eq_none {iface : Option Text} (n b name : Text) :
    g.esm.addExportBinding toLowerCamelCase iface n b name = none ↔
      ∃ key, iface.map (exportKey toLowerCamelCase) = some key ∧
        ∃ v, g.bound (none, key) = some v := by
  unfold addExportBinding Generator.bound
  cases iface with
  | none => simp
  | some e =>
    simp only [Option.map_some, Option.some.injEq, exists_eq_left']
    cases Keyed.lookup g.esm.exports (exportKey toLowerCamelCase e) with
    | none => simp
    | some binding => cases binding <;> simp

/-- A binding is put in its place; another one stays, unless its interface gives way to the
function. -/
theorem addExportBinding_bound {iface : Option Text} {esm : EsmBindgen} {n b name : Text}
    (h : g.esm.addExportBinding toLowerCamelCase iface n b name = some esm) (hg' : g'.esm = esm) :
    g'.bound (iface.map (exportKey toLowerCamelCase), b) = some (n, name) ∧
      ∀ b', b' ≠ (iface.map (exportKey toLowerCamelCase), b) →
        g'.bound b' = g.bound b' ∨ g'.bound b' = none ∧ iface = none ∧ b'.1 = some b := by
  unfold addExportBinding at h
  cases iface with
  | none =>
    cases h
    refine ⟨by simp only [Generator.bound, hg', Option.map_none, BTreeMap.lookup_insert_self], ?_⟩
    rintro ⟨_ | key, name'⟩ hne
    · have hb : b ≠ name' := fun heq => hne (by rw [heq]; rfl)
      exact .inl (by simp only [Generator.bound, hg', BTreeMap.lookup_insert_of_ne hb])
    · by_cases hb : b = key
      · refine .inr ⟨?_, rfl, by rw [hb]⟩
        simp only [Generator.bound, hg', hb, BTreeMap.lookup_insert_self]
      · exact .inl (by simp only [Generator.bound, hg', BTreeMap.lookup_insert_of_ne hb])
  | some e =>
    dsimp only at h
    rw [Option.map_some]
    generalize exportKey toLowerCamelCase e = key at h ⊢
    have hfn : ∀ v : Text × Text, Keyed.lookup g.esm.exports key ≠ some (.localFn v.1 v.2) := by
      rintro ⟨v, v'⟩ hlookup
      rw [hlookup] at h
      cases h
    obtain ⟨functions, hlookup⟩ : ∃ functions,
        (Keyed.lookup g.esm.exports key).getD (.interface []) = .interface functions := by
      cases hlookup : Keyed.lookup g.esm.exports key with
      | none => exact ⟨[], rfl⟩
      | some binding =>
        cases binding with
        | interface functions => exact ⟨functions, rfl⟩
        | localFn v v' => exact absurd hlookup (hfn (v, v'))
    rw [hlookup] at h
    cases h
    have hold : ∀ name', g.bound (some key, name') = Keyed.lookup functions name' := by
      intro name'
      cases hkey : Keyed.lookup g.esm.exports key with
      | none =>
        rw [hkey] at hlookup
        cases hlookup
        simp only [Generator.bound, hkey, Keyed.lookup_nil]
      | some binding =>
        rw [hkey] at hlookup
        cases hlookup
        simp only [Generator.bound, hkey]
    have hself : ∀ name', g'.bound (some key, name') =
        Keyed.lookup (BTreeMap.insert b (n, name) functions) name' := by
      intro name'
      simp only [Generator.bound, hg', BTreeMap.lookup_insert_self]
    refine ⟨by rw [hself, BTreeMap.lookup_insert_self], ?_⟩
    rintro ⟨_ | key', name'⟩ hne
    · left
      by_cases hkey : key = name'
      · -- there was no function under the key, and there is none
        subst hkey
        simp only [Generator.bound, hg', BTreeMap.lookup_insert_self]
        cases hkey : Keyed.lookup g.esm.exports key with
        | none => rfl
        | some binding =>
          cases binding with
          | interface functions => rfl
          | localFn v v' => exact absurd hkey (hfn (v, v'))
      · simp only [Generator.bound, hg', BTreeMap.lookup_insert_of_ne hkey]
    · left
      by_cases hkey : key = key'
      · subst hkey
        have hb : b ≠ name' := fun heq => hne (by rw [heq])
        rw [hself, hold, BTreeMap.lookup_insert_of_ne hb]
      · simp only [Generator.bound, hg', BTreeMap.lookup_insert_of_ne hkey]

/-! ## Some of the functions -/

/-- Nothing has been exported yet. -/
structure Start (g : Generator) : Prop where
  ok : g.names.Ok
  noClass : g.definedResourceClasses = []
  noExport : g.esm.exports = []

/-- The local name of a function that was written. -/
structure Named (g g' : Generator) (f : Lifted) (n : Text) : Prop where
  ofClass : ∀ r, f.func.kind.resource? = some r → g'.className r = some n
  fresh : f.func.kind.resource? = none → n ∉ g.names.localNames
  taken : n ∈ g'.names.localNames
  ofNone : f.func.kind.resource? = none → ∀ i, g'.names.localNameIds.lookup i ≠ some n

variable (toLowerCamelCase toUpperCamelCase mode typeName) in
/-- The functions of `p` were written, under the names they have there. -/
structure Processed (g g' : Generator) (p : List (Exported × Text)) (pieces : List Piece) :
    Prop where
  ok : g'.names.Ok
  grows : g.names.Grows g'.names
  js : g'.js = g.js ++ pieces
  defined : ∀ c, c ∈ g'.definedResourceClasses ↔ c ∈ classes pieces
  taken : ∀ c ∈ g'.definedResourceClasses, c ∈ g'.names.localNames
  nodup : (classes pieces).Nodup
  mem_classes : ∀ c, c ∈ classes pieces ↔
    ∃ x ∈ p, x.1.lifted.func.kind.resource? ≠ none ∧ x.2 = c
  before : ∀ earlier q later c, pieces = earlier ++ q :: later → q.assignedClass = some c →
    c ∈ classes earlier
  written : ∀ w e name, Piece.written w e name ∈ pieces ↔
    ∃ y ∈ p, Piece.written w e name = y.1.piece toLowerCamelCase mode y.2
  named : ∀ x ∈ p, Named g g' x.1.lifted x.2
  distinct : p.Pairwise fun x y => x.1.lifted.func.kind.resource? = none →
    y.1.lifted.func.kind.resource? = none → x.2 ≠ y.2
  bound : ∀ x ∈ p, (∃ y ∈ p, y.1.binding toLowerCamelCase toUpperCamelCase typeName =
      x.1.binding toLowerCamelCase toUpperCamelCase typeName ∧
      g'.bound (x.1.binding toLowerCamelCase toUpperCamelCase typeName) =
        some (y.2, y.1.lifted.func.name)) ∨
    ∃ y ∈ p, Hides toLowerCamelCase toUpperCamelCase typeName y.1 x.1
  others : ∀ b v, g'.bound b = some v →
    ∃ x ∈ p, x.1.binding toLowerCamelCase toUpperCamelCase typeName = b

theorem Processed.nothing (h : Start g) :
    Processed toLowerCamelCase toUpperCamelCase mode typeName g g [] [] where
  ok := h.ok
  grows := .refl _
  js := (append_nil _).symm
  defined c := by
    rw [h.noClass]
    exact Iff.rfl
  taken c hc := by
    rw [h.noClass] at hc
    cases hc
  nodup := nodup_nil
  mem_classes c := ⟨nofun, by rintro ⟨x, hx, _⟩; cases hx⟩
  before earlier q later c heq := by
    have hlength := congrArg List.length heq
    simp at hlength
  written w e name := ⟨nofun, by rintro ⟨y, hy, _⟩; cases hy⟩
  named := nofun
  distinct := List.Pairwise.nil
  bound := nofun
  others b v hb := by
    rcases b with ⟨_ | key, name⟩ <;> simp [Generator.bound, h.noExport] at hb

variable {p : List (Exported × Text)} {pieces : List Piece}

theorem Named.grows {f : Lifted} (h : Named g g' f n)
    (hgrows : g'.names.Grows names) {g'' : Generator} (hg'' : g''.names = names) :
    Named g g'' f n where
  ofClass r hr := by
    rw [Generator.className, hg'']
    exact hgrows.kept _ n (h.ofClass r hr)
  fresh := h.fresh
  taken := by
    rw [hg'']
    exact hgrows.taken n h.taken
  ofNone hnone i hi := by
    rw [hg''] at hi
    rcases hgrows.fresh i n hi with hold | hnew
    · exact h.ofNone hnone i hold
    · exact hnew h.taken

/-- The class of a function is defined if and only if a member of its resource was written. -/
theorem Processed.defined_iff
    (h : Processed toLowerCamelCase toUpperCamelCase mode typeName g g' p pieces)
    (hok : names.Ok) (hgrows : g'.names.Grows names) {r : Nat}
    (hn : names.localNameIds.lookup (.resource r) = some n) :
    n ∈ g'.definedResourceClasses ↔ ∃ x ∈ p, x.1.lifted.func.kind.resource? = some r := by
  rw [h.defined]
  constructor
  · intro hclass
    rcases (h.mem_classes n).1 hclass with ⟨x, hx, hkind, rfl⟩
    obtain ⟨r', hr'⟩ := Option.ne_none_iff_exists'.1 hkind
    have hsame := hok.distinct _ _ _ (hgrows.kept _ _ ((h.named x hx).ofClass r' hr')) hn
    cases hsame
    exact ⟨x, hx, hr'⟩
  · rintro ⟨x, hx, hxr⟩
    refine (h.mem_classes n).2 ⟨x, hx, by rw [hxr]; exact Option.some_ne_none r, ?_⟩
    have hold := hgrows.kept _ _ ((h.named x hx).ofClass r hxr)
    rw [hn] at hold
    exact (Option.some.inj hold).symm

/-- The pieces that follow come after their classes too, if these are there or among them. -/
theorem before_append {new : List Piece}
    (hpieces : ∀ earlier q later d, pieces = earlier ++ q :: later → q.assignedClass = some d →
      d ∈ classes earlier)
    (hnew : ∀ rest q later d, new = rest ++ q :: later → q.assignedClass = some d →
      d ∈ classes pieces ∨ d ∈ classes rest) (earlier : List Piece) (q : Piece)
    (later : List Piece) (d : Text) (heq : pieces ++ new = earlier ++ q :: later)
    (hq : q.assignedClass = some d) : d ∈ classes earlier := by
  have hlater : ∀ rest, earlier = pieces ++ rest → new = rest ++ q :: later →
      d ∈ classes earlier := by
    rintro rest rfl hrest
    rw [classes_append, mem_append]
    exact hnew rest q later d hrest hq
  rcases append_eq_append_iff.1 heq with ⟨rest, hearlier, hrest⟩ | ⟨rest, hold, hrest⟩
  · exact hlater rest hearlier hrest
  · cases rest with
    | nil => exact hlater [] (by rw [hold, append_nil, append_nil]) hrest.symm
    | cons q' rest =>
      cases hrest
      exact hpieces earlier q rest d hold hq

/-- A class of `new` is that of `x`, and one that was there already is not written again. -/
theorem Processed.mem_classes_add
    (h : Processed toLowerCamelCase toUpperCamelCase mode typeName g g' p pieces)
    {defined : List Text}
    (hdefines : Defines g'.definedResourceClasses n x.lifted.func.kind defined new) (d : Text) :
    d ∈ classes (pieces ++ new) ↔
      ∃ y ∈ p ++ [(x, n)], y.1.lifted.func.kind.resource? ≠ none ∧ y.2 = d := by
  rw [classes_append, mem_append, h.mem_classes]
  constructor
  · rintro (⟨y, hy, hkind, heq⟩ | hd)
    · exact ⟨y, mem_append_left _ hy, hkind, heq⟩
    · rcases hdefines.free d hd with ⟨_, rfl, hkind⟩
      exact ⟨(x, d), mem_append_right _ mem_cons_self, hkind, rfl⟩
  · rintro ⟨y, hy, hkind, heq⟩
    rcases mem_append.1 hy with hy | hy
    · exact .inl ⟨y, hy, hkind, heq⟩
    · rw [mem_singleton] at hy
      cases hy
      cases heq
      rcases (hdefines.mem n).1 (hdefines.own hkind) with hold | hnew
      · exact .inl ((h.mem_classes n).1 ((h.defined n).1 hold))
      · exact .inr hnew

/-- A function that is written after those of `p`. -/
theorem Processed.add (h : Processed toLowerCamelCase toUpperCamelCase mode typeName g g' p pieces)
    {esm : EsmBindgen} {g'' : Generator} (hok : names.Ok) (hgrows : g'.names.Grows names)
    (hfor : NameFor g' names x.lifted.func.kind n)
    (hclass : preambleClass g'.definedResourceClasses n x.lifted.func.kind = some c)
    (hesm : g'.esm.addExportBinding toLowerCamelCase x.iface n
      (x.binding toLowerCamelCase toUpperCamelCase typeName).2 x.lifted.func.name = some esm)
    (hnew : new = c.2 ++ [x.piece toLowerCamelCase mode n])
    (hg'' : g'' = { names, definedResourceClasses := c.1, js := g'.js ++ new, esm }) :
    Processed toLowerCamelCase toUpperCamelCase mode typeName g g'' (p ++ [(x, n)])
      (pieces ++ new) := by
  have hdefines : Defines g'.definedResourceClasses n x.lifted.func.kind c.1 new := by
    rw [hnew]
    exact preambleClass_defines x.exportName x.lifted.func.name
      (place_writeFunction toLowerCamelCase mode n x.exportName x.lifted) hclass
  have hesm'' : g''.esm = esm := by rw [hg'']
  obtain ⟨hself, hothers⟩ := addExportBinding_bound hesm hesm''
  have hnames : g''.names = names := by rw [hg'']
  have hnamed : Named g g'' x.lifted n := by
    refine ⟨?_, fun hnone hn => hfor.fresh hnone (h.grows.taken n hn), ?_, ?_⟩
    · intro r hr
      rw [Generator.className, hnames]
      exact hfor.ofClass r hr
    · rw [hnames]
      exact hfor.taken
    · rw [hnames]
      exact hfor.ofNone
  have hall : ∀ y ∈ p ++ [(x, n)], Named g g'' y.1.lifted y.2 := by
    intro y hy
    rcases mem_append.1 hy with hy | hy
    · exact (h.named y hy).grows hgrows hnames
    · rw [mem_singleton.1 hy]
      exact hnamed
  exact {
    ok := by
      rw [hnames]
      exact hok
    grows := by
      rw [hnames]
      exact h.grows.trans hgrows
    js := by
      rw [hg'', ← append_assoc, ← h.js]
    defined := by
      intro d
      rw [hg'', classes_append, mem_append, ← h.defined]
      exact hdefines.mem d
    taken := by
      intro d hd
      rw [hg''] at hd
      rw [hnames]
      rcases (hdefines.mem d).1 hd with hold | hnew
      · exact hgrows.taken d (h.taken d hold)
      · rw [(hdefines.free d hnew).2.1]
        exact hfor.taken
    nodup := by
      rw [classes_append]
      refine h.nodup.append hdefines.nodup ?_
      intro d hold hnew
      exact (hdefines.free d hnew).1 ((h.defined d).2 hold)
    mem_classes := h.mem_classes_add hdefines
    before := by
      refine before_append h.before fun rest q later d hrest hq => ?_
      exact (hdefines.before rest q later d hrest hq).imp_left (h.defined d).1
    written := by
      intro w e name
      rw [mem_append, h.written, hnew, mem_append, mem_singleton]
      constructor
      · rintro (⟨y, hy, heq⟩ | hclass' | heq)
        · exact ⟨y, mem_append_left _ hy, heq⟩
        · exact absurd hclass' (preambleClass_written hclass w e name)
        · exact ⟨(x, n), mem_append_right _ mem_cons_self, heq⟩
      · rintro ⟨y, hy, heq⟩
        rcases mem_append.1 hy with hy | hy
        · exact .inl ⟨y, hy, heq⟩
        · rw [mem_singleton.1 hy] at heq
          exact .inr (.inr heq)
    named := hall
    distinct := by
      refine pairwise_append.2 ⟨h.distinct, pairwise_singleton _ _, ?_⟩
      intro y hy z hz _ hnone heq
      rw [mem_singleton.1 hz] at hnone heq
      have htaken := (h.named y hy).taken
      rw [heq] at htaken
      exact hfor.fresh hnone htaken
    bound := by
      intro y hy
      by_cases hsame : y.1.binding toLowerCamelCase toUpperCamelCase typeName =
          x.binding toLowerCamelCase toUpperCamelCase typeName
      · refine .inl ⟨(x, n), mem_append_right _ mem_cons_self, hsame.symm, ?_⟩
        rw [hsame]
        exact hself
      · have hy : y ∈ p := by
          refine (mem_append.1 hy).resolve_right fun hlast => hsame ?_
          rw [mem_singleton.1 hlast]
        rcases hothers _ hsame with hkept | ⟨-, hnone, hkey⟩
        · rw [hkept]
          refine (h.bound y hy).imp ?_ ?_
          · rintro ⟨z, hz, hbinding, hbound⟩
            exact ⟨z, mem_append_left _ hz, hbinding, hbound⟩
          · rintro ⟨z, hz, hhides⟩
            exact ⟨z, mem_append_left _ hz, hhides⟩
        · -- the interface of `y` gives way to the function
          exact .inr ⟨(x, n), mem_append_right _ mem_cons_self, hnone, hkey⟩
    others := by
      intro b v hb
      by_cases hsame : b = x.binding toLowerCamelCase toUpperCamelCase typeName
      · exact ⟨(x, n), mem_append_right _ mem_cons_self, hsame.symm⟩
      · rcases hothers b hsame with hkept | ⟨hgone, -, -⟩
        · obtain ⟨y, hy, hbinding⟩ := h.others b v (hkept ▸ hb)
          exact ⟨y, mem_append_left _ hy, hbinding⟩
        · rw [hgone] at hb
          cases hb }

/-! ## All functions -/

theorem processInstance_cons (f : Lifted) (fs : List Lifted) :
    processInstance toLowerCamelCase toUpperCamelCase mode typeName g exportName (f :: fs) =
      (processFunction toLowerCamelCase toUpperCamelCase mode typeName g f.func.name exportName
        (some exportName) f).bind fun g =>
          processInstance toLowerCamelCase toUpperCamelCase mode typeName g exportName fs := by
  unfold processInstance
  rw [foldlM_cons]
  rfl

variable (toLowerCamelCase toUpperCamelCase mode typeName) in
/-- A function, with its name and interface. -/
def processExported (g : Generator) (x : Exported) : Option Generator :=
  processFunction toLowerCamelCase toUpperCamelCase mode typeName g x.goal x.exportName x.iface
    x.lifted

/-- The exports are gone through function by function. -/
theorem processExports_eq (g : Generator) (exports : List (Text × Export)) :
    processExports toLowerCamelCase toUpperCamelCase mode typeName g exports =
      ((functions exports).foldlM
          (processExported toLowerCamelCase toUpperCamelCase mode typeName) g).map fun g =>
        { g with esm := g.esm.populateExportAliases toLowerCamelCase } := by
  have hexport : ∀ (g : Generator) (e : Text × Export),
      processExport toLowerCamelCase toUpperCamelCase mode typeName g e.1 e.2 =
        (e.2.functions e.1).foldlM
          (processExported toLowerCamelCase toUpperCamelCase mode typeName) g := by
    rintro g ⟨exportName, f | fs | _⟩
    · exact (bind_pure (processFunction toLowerCamelCase toUpperCamelCase mode typeName g
        exportName exportName none f)).symm
    · simp only [processExport, processInstance, Export.functions, foldlM_map, processExported]
    · rfl
  have hall : ∀ g, exports.foldlM (fun g e =>
        processExport toLowerCamelCase toUpperCamelCase mode typeName g e.1 e.2) g =
      (functions exports).foldlM
        (processExported toLowerCamelCase toUpperCamelCase mode typeName) g := by
    unfold functions
    induction exports with
    | nil => exact fun _ => rfl
    | cons e exports ih =>
      intro g
      rw [foldlM_cons, flatMap_cons, foldlM_append, hexport]
      exact congrArg _ (funext ih)
  unfold processExports
  rw [hall]
  cases (functions exports).foldlM
    (processExported toLowerCamelCase toUpperCamelCase mode typeName) g <;> rfl

/-- The next function is written, unless it is a constructor that comes late, or its interface has
the name of a function. -/
theorem Processed.next
    (h : Processed toLowerCamelCase toUpperCamelCase mode typeName g g' p pieces) (x : Exported) :
    (∃ y ∈ p, x.lifted.func.kind.isConstructor = true ∧
        y.1.lifted.func.kind.resource? = x.lifted.func.kind.resource? ∨
      Hides toLowerCamelCase toUpperCamelCase typeName y.1 x) ∧
      processExported toLowerCamelCase toUpperCamelCase mode typeName g' x = none ∨
    (∀ y ∈ p, x.lifted.func.kind.isConstructor = true →
        y.1.lifted.func.kind.resource? ≠ x.lifted.func.kind.resource?) ∧
      ∃ g'' n new,
        processExported toLowerCamelCase toUpperCamelCase mode typeName g' x = some g'' ∧
        Processed toLowerCamelCase toUpperCamelCase mode typeName g g'' (p ++ [(x, n)])
          (pieces ++ new) := by
  obtain ⟨names, n, hok, hgrows, hfor, heq⟩ := processFunction_eq toLowerCamelCase
    toUpperCamelCase mode typeName h.ok x.goal x.exportName x.iface x.lifted
  rw [processExported, heq]
  -- whether the class of a constructor is there
  have hthere : ∀ r, x.lifted.func.kind.resource? = some r →
      (n ∈ g'.definedResourceClasses ↔ ∃ y ∈ p, y.1.lifted.func.kind.resource? = some r) :=
    fun r hr => h.defined_iff hok hgrows (hfor.ofClass r hr)
  cases hclass : preambleClass g'.definedResourceClasses n x.lifted.func.kind with
  | none =>
    left
    rcases preambleClass_eq_none.1 hclass with ⟨hctor, hmem⟩
    obtain ⟨r, hr⟩ := Option.ne_none_iff_exists'.1 (resource_of_isConstructor hctor)
    rcases (hthere r hr).1 hmem with ⟨y, hy, hyr⟩
    exact ⟨⟨y, hy, .inl ⟨hctor, by rw [hyr, hr]⟩⟩, rfl⟩
  | some c =>
    rw [Option.bind_some]
    cases hesm : g'.esm.addExportBinding toLowerCamelCase x.iface n
        (bindingName toLowerCamelCase toUpperCamelCase typeName x.goal x.lifted.func.kind)
        x.lifted.func.name with
    | none =>
      left
      obtain ⟨key, hkey, v, hv⟩ := (addExportBinding_eq_none _ _ _).1 hesm
      obtain ⟨y, hy, hbinding⟩ := h.others _ v hv
      obtain ⟨hiface, hname⟩ := Prod.mk.inj hbinding
      refine ⟨⟨y, hy, .inr ⟨Option.map_eq_none_iff.1 hiface, hkey.trans ?_⟩⟩, rfl⟩
      exact congrArg some hname.symm
    | some esm =>
      right
      refine ⟨?_, _, n, _, rfl, h.add hok hgrows hfor hclass hesm rfl rfl⟩
      intro y hy hctor hsame
      obtain ⟨r, hr⟩ := Option.ne_none_iff_exists'.1 (resource_of_isConstructor hctor)
      have hnone := preambleClass_eq_none.2
        ⟨hctor, (hthere r hr).2 ⟨y, hy, by rw [hsame, hr]⟩⟩
      rw [hclass] at hnone
      cases hnone

/-- A run over more functions fails only if a constructor comes late or an interface has the name
of a function; if it succeeds, no constructor comes late. -/
theorem Processed.run
    (h : Processed toLowerCamelCase toUpperCamelCase mode typeName g g' p pieces)
    (hfirst : ConstructorsFirst (p.map Prod.fst)) (rest : List Exported) :
    ¬ (ConstructorsFirst (p.map Prod.fst ++ rest) ∧
        NoneHidden toLowerCamelCase toUpperCamelCase typeName (p.map Prod.fst ++ rest)) ∧
      rest.foldlM (processExported toLowerCamelCase toUpperCamelCase mode typeName) g' = none ∨
    ConstructorsFirst (p.map Prod.fst ++ rest) ∧ ∃ g'' p' pieces',
      rest.foldlM (processExported toLowerCamelCase toUpperCamelCase mode typeName) g' =
        some g'' ∧ p'.map Prod.fst = p.map Prod.fst ++ rest ∧
      Processed toLowerCamelCase toUpperCamelCase mode typeName g g'' p' pieces' := by
  induction rest generalizing g' p pieces with
  | nil =>
    right
    rw [append_nil]
    exact ⟨hfirst, g', p, pieces, rfl, rfl, h⟩
  | cons x rest ih =>
    have hsplit : p.map Prod.fst ++ x :: rest = p.map Prod.fst ++ [x] ++ rest := by
      rw [append_assoc, singleton_append]
    rw [foldlM_cons, hsplit]
    -- the walk ends at a function that panics
    rcases h.next x with ⟨⟨y, hy, hlate⟩, hnone⟩ | ⟨hlate, g₁, n, new, hsome, h₁⟩
    · left
      refine ⟨?_, by rw [hnone]; rfl⟩
      rintro ⟨hall, hhidden⟩
      have hy' : y.1 ∈ p.map Prod.fst := mem_map_of_mem hy
      rcases hlate with ⟨hctor, hsame⟩ | hhides
      · have hpair := (pairwise_append.1 (pairwise_append.1 hall).1).2.2
        exact hpair y.1 hy' x mem_cons_self hctor hsame
      · exact hhidden y.1 (by simp [hy']) x (by simp) hhides
    · have hmap : (p ++ [(x, n)]).map Prod.fst = p.map Prod.fst ++ [x] := map_append
      have hfirst₁ : ConstructorsFirst ((p ++ [(x, n)]).map Prod.fst) := by
        rw [hmap]
        refine pairwise_append.2 ⟨hfirst, pairwise_singleton _ _, ?_⟩
        intro x₀ hx₀ y hy hctor
        rw [mem_singleton] at hy
        obtain ⟨z, hz, rfl⟩ := mem_map.1 hx₀
        rw [hy] at hctor ⊢
        exact hlate z hz hctor
      rw [hsome, ← hmap]
      exact ih h₁ hfirst₁

theorem Processed.mem_classes_iff
    (h : Processed toLowerCamelCase toUpperCamelCase mode typeName g g' p pieces) (c : Text) :
    c ∈ classes pieces ↔ ∃ x ∈ p, ∃ r, x.1.lifted.func.kind.resource? = some r ∧
      g'.className r = some c := by
  rw [h.mem_classes]
  constructor
  · rintro ⟨x, hx, hkind, rfl⟩
    obtain ⟨r, hr⟩ := Option.ne_none_iff_exists'.1 hkind
    exact ⟨x, hx, r, hr, (h.named x hx).ofClass r hr⟩
  · rintro ⟨x, hx, r, hr, hc⟩
    refine ⟨x, hx, by rw [hr]; exact Option.some_ne_none r, ?_⟩
    rw [(h.named x hx).ofClass r hr] at hc
    exact Option.some.inj hc

/-- Members of resources with one local name are of one resource. -/
theorem Processed.sameResource
    (h : Processed toLowerCamelCase toUpperCamelCase mode typeName g g' p pieces)
    {x y : Exported × Text} (hx : x ∈ p) (hy : y ∈ p) (heq : x.2 = y.2)
    (hkind : x.1.lifted.func.kind.resource? ≠ none) :
    x.1.lifted.func.kind.resource? = y.1.lifted.func.kind.resource? := by
  obtain ⟨r, hr⟩ := Option.ne_none_iff_exists'.1 hkind
  have hxn := (h.named x hx).ofClass r hr
  cases hy' : y.1.lifted.func.kind.resource? with
  | none =>
    rw [heq] at hxn
    exact absurd hxn ((h.named y hy).ofNone hy' _)
  | some r' =>
    have hyn := (h.named y hy).ofClass r' hy'
    rw [← heq] at hyn
    have hsame := h.ok.distinct _ _ _ hxn hyn
    cases hsame
    exact hr

variable {xs : List Exported}

/-- What comes out is right when the functions are apart and none hides an interface. -/
theorem Processed.right
    (h : Processed toLowerCamelCase toUpperCamelCase mode typeName g g' p pieces)
    (hmem : ∀ x, x ∈ xs ↔ ∃ y ∈ p, y.1 = x) (hids : ∀ x ∈ p, ∀ y ∈ p, x.1.id = y.1.id → x = y)
    (hapart : ∀ x ∈ xs, ∀ y ∈ xs, x.id ≠ y.id →
      Apart toLowerCamelCase toUpperCamelCase typeName x y)
    (hhidden : NoneHidden toLowerCamelCase toUpperCamelCase typeName xs) :
    Right toLowerCamelCase toUpperCamelCase mode typeName xs g g' pieces := by
  have hin : ∀ y ∈ p, y.1 ∈ xs := fun y hy => (hmem y.1).2 ⟨y, hy, rfl⟩
  refine ⟨h.js, h.nodup, ?_, h.before, ?_, ?_, ?_⟩
  · intro c
    rw [h.mem_classes_iff]
    constructor
    · rintro ⟨x, hx, r, hr, hc⟩
      exact ⟨x.1, hin x hx, r, hr, hc⟩
    · rintro ⟨x, hx, r, hr, hc⟩
      obtain ⟨y, hy, rfl⟩ := (hmem x).1 hx
      exact ⟨y, hy, r, hr, hc⟩
  · intro x₀ hx₀
    obtain ⟨x, hx, rfl⟩ := (hmem x₀).1 hx₀
    refine ⟨x.2, (h.named x hx).ofClass, ?_, (h.written _ _ _).2 ⟨x, hx, rfl⟩, ?_, ?_⟩
    · intro hnone hclass
      rcases (h.mem_classes_iff _).1 hclass with ⟨y, hy, r, hr, hc⟩
      exact (h.named x hx).ofNone hnone _ hc
    · -- another function at the place of `x`
      intro w e name hw hplace
      rcases (h.written w e name).1 hw with ⟨y, hy, heq⟩
      cases heq
      rw [place_writeFunction] at hplace
      rcases Prod.mk.inj hplace with ⟨hlocal, hslot⟩
      by_contra hne
      have hxy := hapart _ (hin y hy) _ (hin x hx) hne
      by_cases hkind : y.1.lifted.func.kind.resource? = none
      · have hkind' : x.1.lifted.func.kind.resource? = none := by
          rw [← slot_function toLowerCamelCase, ← hslot, slot_function]
          exact hkind
        have hsymm : Std.Symm fun x y : Exported × Text =>
            x.1.lifted.func.kind.resource? = none →
              y.1.lifted.func.kind.resource? = none → x.2 ≠ y.2 :=
          ⟨fun _ _ hxy hy hx heq => hxy hx hy heq.symm⟩
        have hdiff : y ≠ x := fun heq => hne (by rw [heq]; rfl)
        exact h.distinct.forall hy hx hdiff hkind hkind' hlocal
      · have hsame := h.sameResource hy hx hlocal hkind
        rw [Apart, if_pos ⟨hsame, hkind⟩] at hxy
        exact hxy hslot
    · -- the binding is to `x`, or to its class
      rcases h.bound x hx with ⟨y, hy, hbinding, hbound⟩ | ⟨y, hy, hhides⟩
      · refine ⟨y.1.lifted.func.name, ?_⟩
        rw [hbound]
        by_cases hid : y.1.id = x.1.id
        · rw [hids y hy x hx hid]
        · have hxy := hapart _ (hin y hy) _ (hin x hx) hid
          unfold Apart at hxy
          split at hxy
          next hsame =>
            obtain ⟨r, hr⟩ := Option.ne_none_iff_exists'.1 hsame.2
            have hyn := (h.named y hy).ofClass r hr
            rw [hsame.1] at hr
            have hxn := (h.named x hx).ofClass r hr
            rw [hyn] at hxn
            rw [Option.some.inj hxn]
          next => exact absurd hbinding hxy
      · exact absurd hhides (hhidden y.1 (hin y hy) x.1 (hin x hx))
  · intro w e name hw
    rcases (h.written w e name).1 hw with ⟨y, hy, heq⟩
    cases heq
    exact ⟨y.1, hin y hy, rfl⟩
  · intro b v hb
    obtain ⟨y, hy, hbinding⟩ := h.others b v hb
    exact ⟨y.1, hin y hy, hbinding⟩

/-- Functions that came out right are apart. -/
theorem Right.apart (h : Right toLowerCamelCase toUpperCamelCase mode typeName xs g g' pieces)
    (hok : g'.names.Ok) {x y : Exported} (hx : x ∈ xs) (hy : y ∈ xs) (hne : x.id ≠ y.id) :
    Apart toLowerCamelCase toUpperCamelCase typeName x y := by
  rcases h.made x hx with ⟨n, hn⟩
  rcases h.made y hy with ⟨n', hn'⟩
  -- one local name and one slot is one place
  have hplace : n = n' →
      slot toLowerCamelCase x.lifted.func ≠ slot toLowerCamelCase y.lifted.func := by
    rintro rfl hslot
    refine hne (hn'.alone _ _ _ hn.written ?_)
    rw [place_writeFunction, hslot]
  have hclass : ∀ r n, ∀ x ∈ xs, x.lifted.func.kind.resource? = some r →
      g'.className r = some n → n ∈ classes pieces :=
    fun r n x hx hr hc => (h.mem_classes n).2 ⟨x, hx, r, hr, hc⟩
  unfold Apart
  split
  next hsame =>
    obtain ⟨r, hr⟩ := Option.ne_none_iff_exists'.1 hsame.2
    have hc := hn.ofClass r hr
    rw [hsame.1] at hr
    rw [hn'.ofClass r hr] at hc
    exact hplace (Option.some.inj hc).symm
  next hdiff =>
    intro hbinding
    obtain ⟨name, hname⟩ := hn.bound
    obtain ⟨name', hname'⟩ := hn'.bound
    rw [hbinding, hname'] at hname
    have hlocal : n = n' := (congrArg Prod.fst (Option.some.inj hname)).symm
    cases hr : x.lifted.func.kind.resource? with
    | none =>
      cases hr' : y.lifted.func.kind.resource? with
      | none =>
        refine hplace hlocal ?_
        rw [(slot_function _).2 hr, (slot_function _).2 hr']
      | some r' =>
        refine hn.ofNone hr ?_
        rw [hlocal]
        exact hclass r' n' y hy hr' (hn'.ofClass r' hr')
    | some r =>
      cases hr' : y.lifted.func.kind.resource? with
      | none =>
        refine hn'.ofNone hr' ?_
        rw [← hlocal]
        exact hclass r n x hx hr (hn.ofClass r hr)
      | some r' =>
        have hc := hn.ofClass r hr
        rw [hlocal] at hc
        have hsame := hok.distinct _ _ _ hc (hn'.ofClass r' hr')
        cases hsame
        exact hdiff ⟨by rw [hr, hr'], by rw [hr]; exact Option.some_ne_none r⟩

/-- Where a function and an interface with one name were both bound, one of them would be gone. -/
theorem Right.noneHidden
    (h : Right toLowerCamelCase toUpperCamelCase mode typeName xs g g' pieces) :
    NoneHidden toLowerCamelCase toUpperCamelCase typeName xs := by
  rintro x hx y hy ⟨hnone, hkey⟩
  obtain ⟨n, hn⟩ := h.made x hx
  obtain ⟨n', hn'⟩ := h.made y hy
  obtain ⟨name, hname⟩ := hn.bound
  obtain ⟨name', hname'⟩ := hn'.bound
  generalize y.binding toLowerCamelCase toUpperCamelCase typeName = b' at hkey hname'
  obtain ⟨key, b'⟩ := b'
  cases hkey
  have hfirst : (x.binding toLowerCamelCase toUpperCamelCase typeName).1 = none := by
    rw [Exported.binding, hnone]
    rfl
  generalize x.binding toLowerCamelCase toUpperCamelCase typeName = b at hname hname' hfirst
  obtain ⟨key, b⟩ := b
  cases hfirst
  unfold Generator.bound at hname hname'
  dsimp only at hname hname'
  cases hlookup : Keyed.lookup g'.esm.exports b with
  | none =>
    rw [hlookup] at hname
    cases hname
  | some binding =>
    rw [hlookup] at hname hname'
    cases binding with
    | interface functions => cases hname
    | localFn v v' => cases hname'

/-! ## Every order -/

theorem populateExportAliases_exports (esm : EsmBindgen) :
    (esm.populateExportAliases toLowerCamelCase).exports = esm.exports := by
  have hone : ∀ (esm : EsmBindgen) (exptName : Text),
      (esm.populateAlias toLowerCamelCase exptName).exports = esm.exports := by
    intro esm exptName
    unfold populateAlias
    split
    · rfl
    · dsimp only
      split <;> rfl
  unfold populateExportAliases
  generalize Keyed.keys esm.exports = keys
  induction keys generalizing esm with
  | nil => rfl
  | cons exptName keys ih =>
    rw [foldl_cons, ih, hone]

/-- The aliases change nothing of what came out. -/
theorem Right.congr {g'' : Generator}
    (h : Right toLowerCamelCase toUpperCamelCase mode typeName xs g g' pieces)
    (hjs : g''.js = g'.js) (hnames : g''.names = g'.names)
    (hexports : g''.esm.exports = g'.esm.exports) :
    Right toLowerCamelCase toUpperCamelCase mode typeName xs g g'' pieces := by
  have hbound : g''.bound = g'.bound := by
    funext ⟨key, name⟩
    unfold Generator.bound
    rw [hexports]
  have hclass : g''.className = g'.className := by
    funext r
    unfold Generator.className
    rw [hnames]
  refine ⟨hjs.trans h.js, h.once, hclass ▸ h.mem_classes, h.before, fun x hx => ?_, h.only,
    hbound ▸ h.others⟩
  obtain ⟨n, hn⟩ := h.made x hx
  exact ⟨n, hclass ▸ hn.ofClass, hn.ofNone, hn.written, hn.alone, hbound ▸ hn.bound⟩

/-- The exports of a component come out right with their functions in the order of `exports'`
exactly where no member of a resource comes before its constructor, the functions are apart, and no
interface has the name of an exported function. -/
theorem any_order_iff (toLowerCamelCase toUpperCamelCase : Text → Text)
    (mode : Option AsyncMode) (typeName : Nat → Text) (g : Generator)
    (exports exports' : List (Text × Export))
    (hperm : (functions exports').Perm (functions exports)) (hstart : Start g)
    (hids : ((functions exports).map Exported.id).Nodup) :
    (∃ g' pieces,
      processExports toLowerCamelCase toUpperCamelCase mode typeName g exports' = some g' ∧
      Right toLowerCamelCase toUpperCamelCase mode typeName (functions exports) g g' pieces) ↔
    ConstructorsFirst (functions exports') ∧
      (∀ x ∈ functions exports, ∀ y ∈ functions exports, x.id ≠ y.id →
        Apart toLowerCamelCase toUpperCamelCase typeName x y) ∧
      NoneHidden toLowerCamelCase toUpperCamelCase typeName (functions exports) := by
  have hnothing : Processed toLowerCamelCase toUpperCamelCase mode typeName g g [] [] :=
    .nothing hstart
  rw [processExports_eq]
  rcases hnothing.run List.Pairwise.nil (functions exports') with
    ⟨hlate, hnone⟩ | ⟨hfirst, g', p, pieces, hrun, hp, h⟩
  · -- it panics at a late constructor, or at an interface
    rw [hnone]
    constructor
    · rintro ⟨_, _, hsome, _⟩
      cases hsome
    · rintro ⟨hfirst, -, hhidden⟩
      refine absurd ⟨hfirst, fun x hx y hy => ?_⟩ hlate
      exact hhidden x (hperm.mem_iff.1 hx) y (hperm.mem_iff.1 hy)
  · rw [map_nil, nil_append] at hfirst hp
    rw [hrun, Option.map_some]
    constructor
    · rintro ⟨g₁, pieces₁, hg₁, hright⟩
      cases hg₁
      exact ⟨hfirst, fun x hx y hy hne => hright.apart h.ok hx hy hne, hright.noneHidden⟩
    · rintro ⟨-, hapart, hhidden⟩
      have hnodup : (p.map fun x => x.1.id).Nodup := by
        have hcomp : (p.map fun x => x.1.id) = (functions exports').map Exported.id := by
          rw [← hp, map_map]
          rfl
        rw [hcomp]
        exact (hperm.map _).nodup_iff.2 hids
      have hmem : ∀ x, x ∈ functions exports ↔ ∃ y ∈ p, y.1 = x := by
        intro x
        rw [← hperm.mem_iff, ← hp]
        exact mem_map
      have hright := h.right hmem (fun x hx y hy hid => inj_on_of_nodup_map hnodup hx hy hid)
        hapart hhidden
      exact ⟨_, pieces, rfl, hright.congr rfl rfl (populateExportAliases_exports _)⟩

/-- A resource with a constructor and a method. -/
def makeThing : Lifted where
  func := {
    name := "[constructor]thing".toList
    itemName := "thing".toList
    kind := .constructor 0
    result := .other
    optionsAsync := false
    postReturn := false
    async_postReturn := sync_postReturn false }
  lowers := []
  lifts := []
  mentions := []
  coreExportFn := "exports0['make']".toList

def useThing : Lifted where
  func := {
    name := "[method]thing.use".toList
    itemName := "use".toList
    kind := .method 0
    result := .none
    optionsAsync := false
    postReturn := false
    async_postReturn := sync_postReturn false }
  lowers := []
  lifts := []
  mentions := []
  coreExportFn := "exports0['use']".toList

def fresh : Generator where
  names := {}
  definedResourceClasses := []
  js := []
  esm := {}

/-- A function of its own. -/
def runAll : Lifted where
  func := {
    name := "run-all".toList
    itemName := "run-all".toList
    kind := .freestanding
    result := .none
    optionsAsync := false
    postReturn := false
    async_postReturn := sync_postReturn false }
  lowers := []
  lifts := []
  mentions := []
  coreExportFn := "exports0['run']".toList

theorem fresh_start : Start fresh := ⟨⟨nofun, nofun⟩, rfl, rfl⟩

/-- An interface with a resource, beside a function. -/
theorem any_order_makeThing : ∃ g' pieces,
    processExports id id none (fun _ => "Thing".toList) fresh
      [("a:b/c".toList, .inst [makeThing, useThing]), ("run-all".toList, .liftedFunction runAll)] =
        some g' ∧
    Right id id none (fun _ => "Thing".toList)
      (functions [("run-all".toList, .liftedFunction runAll),
        ("a:b/c".toList, .inst [useThing, makeThing])]) fresh g' pieces := by
  refine (any_order_iff id id none (fun _ => "Thing".toList) fresh
    [("run-all".toList, .liftedFunction runAll), ("a:b/c".toList, .inst [useThing, makeThing])]
    [("a:b/c".toList, .inst [makeThing, useThing]), ("run-all".toList, .liftedFunction runAll)]
    ?_ fresh_start (by decide)).2 ⟨?_, ?_, ?_⟩
  · exact List.reverse_perm (functions
      [("run-all".toList, .liftedFunction runAll), ("a:b/c".toList, .inst [useThing, makeThing])])
  · unfold ConstructorsFirst
    decide
  · unfold Apart
    decide
  · unfold NoneHidden Hides
    decide

theorem useThing_first : ¬ ∀ (toLowerCamelCase toUpperCamelCase : Text → Text)
    (mode : Option AsyncMode) (typeName : Nat → Text) (g : Generator)
    (exports exports' : List (Text × Export)),
    (functions exports').Perm (functions exports) → Start g →
    ((functions exports).map Exported.id).Nodup → ∃ g' pieces,
      processExports toLowerCamelCase toUpperCamelCase mode typeName g exports' = some g' ∧
      Right toLowerCamelCase toUpperCamelCase mode typeName (functions exports) g g' pieces := by
  intro h
  obtain ⟨g', _, hrun, -⟩ := h id id none (fun _ => "Thing".toList) fresh
    [("a:b/c".toList, .inst [makeThing, useThing])]
    [("a:b/c".toList, .inst [useThing, makeThing])] (List.Perm.swap _ _ _) fresh_start (by decide)
  rw [processExports_eq] at hrun
  have hnothing : Processed id id none (fun _ => "Thing".toList) fresh fresh [] [] :=
    .nothing fresh_start
  rcases hnothing.run List.Pairwise.nil
    (functions [("a:b/c".toList, .inst [useThing, makeThing])]) with ⟨-, hnone⟩ | ⟨hfirst, -⟩
  · rw [hnone] at hrun
    cases hrun
  · exact (pairwise_pair.1 hfirst) rfl rfl

end ExportBindgen

end Jco.Bindgen

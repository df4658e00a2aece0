import Jco.Bindgen.ExportOrder
import Jco.Bindgen.Heck
import Jco.Lib.Collect

/-! # Names of the exports

The generated module gives an export a name in camel case. The listing at the end of
`transpile_bindgen` goes back from the names that are recorded to the exports of the component,
by kebab case.

1. The listing.
2. What the bindings are after `process_exports`.
3. Aliases.
4. The listing is right exactly where the names survive both ways.
-/

namespace Jco.Bindgen

open Jco.Lib List Heck EsmBindgen

namespace ExportBindgen

/-! ## The listing -/

inductive ExportKind where
  | liftedFunction
  | inst
deriving DecidableEq, Repr

/-- `none` is the panic on an unexpected kind. -/
def exportKind : Export → Option ExportKind
  | .liftedFunction _ => some .liftedFunction
  | .inst _ => some .inst
  | .type => none

section

variable (toLowerCamelCase toUpperCamelCase toKebabCase : Text → Text) (typeName : Nat → Text)

def expectedExportName (canonExportName : Text) : Text :=
  if ':' ∈ canonExportName ∨ "[async]".toList <+: canonExportName then canonExportName
  else toKebabCase canonExportName

/-- `component.exports.get`, of the expected name. -/
def findExport (exports : List (Text × Export)) (canonExportName : Text) :
    Option (Text × Export) :=
  exports.find? fun e => e.1 = expectedExportName toKebabCase canonExportName

def listExport (exports : List (Text × Export)) (row : Text × Text) : Option (Text × ExportKind) :=
  (findExport toKebabCase exports row.2).bind fun e => (exportKind e.2).map fun kind => (row.1, kind)

/-- The export listing; `none` is a panic. -/
def exportListing (esm : EsmBindgen) (exports : List (Text × Export)) :
    Option (List (Text × ExportKind)) :=
  esm.listing.mapM (listExport toKebabCase exports)

/-! ## What it is to be -/

/-- The name an export has in the generated module, if it has one: an interface without functions
is not bound. -/
def jsName (e : Text × Export) : Option Text :=
  match e.2 with
  | .liftedFunction f =>
    some (bindingName toLowerCamelCase toUpperCamelCase typeName e.1 f.func.kind)
  | .inst [] | .type => none
  | .inst (_ :: _) => some (EsmBindgen.exportKey toLowerCamelCase e.1)

/-- A row of the listing was made of the export, or is the alias of one that was. -/
def Origin (esm : EsmBindgen) (row : Text × Text) (e : Text × Export) : Prop :=
  jsName toLowerCamelCase toUpperCamelCase typeName e = some row.1 ∨
    row ∈ esm.exportAliases ∧ jsName toLowerCamelCase toUpperCamelCase typeName e = some row.2

/-- All names lead back to the exports they were made of, with their kinds, and no two exports are
given one name. -/
structure ListingRight (esm : EsmBindgen) (exports : List (Text × Export)) : Prop where
  listed : ∃ l, exportListing toKebabCase esm exports = some l ∧
    List.Forall₂ (fun row x => x.1 = row.1 ∧ ∀ e ∈ exports,
      Origin toLowerCamelCase toUpperCamelCase typeName esm row e →
        exportKind e.2 = some x.2) esm.listing l
  resolves : ∀ row ∈ esm.listing, ∀ e ∈ exports,
    Origin toLowerCamelCase toUpperCamelCase typeName esm row e →
      findExport toKebabCase exports row.2 = some e
  nodup : (esm.listing.map Prod.fst).Nodup
  distinct : ∀ e ∈ exports, ∀ e' ∈ exports,
    jsName toLowerCamelCase toUpperCamelCase typeName e ≠ none →
    jsName toLowerCamelCase toUpperCamelCase typeName e =
      jsName toLowerCamelCase toUpperCamelCase typeName e' → e = e'

/-- The exports of a component: names are labels or ids, those of functions are labels. -/
structure ValidExports (exports : List (Text × Export)) : Prop where
  nodup : (exports.map Prod.fst).Nodup
  name : ∀ e ∈ exports, Heck.IsLabel e.1 ∨ ':' ∈ e.1
  function : ∀ e ∈ exports, ∀ f, e.2 = .liftedFunction f →
    Heck.IsLabel e.1 ∧ f.func.kind.resource? = none ∧ f.func.name = e.1

/-- The labels survive: those of functions are in lower case, those of interfaces come back from
camel case, and no two differ in case and hyphens before digits only. -/
structure NamesSurvive (exports : List (Text × Export)) : Prop where
  function : ∀ e ∈ exports, ∀ f, e.2 = .liftedFunction f → ∀ c ∈ e.1, c.isUpper = false
  interface : ∀ e ∈ exports, ∀ f fs, e.2 = .inst (f :: fs) → ∀ l : Heck.Label, e.1 = l.text →
    l.Survives
  apart : ∀ e ∈ exports, ∀ e' ∈ exports,
    jsName toLowerCamelCase toUpperCamelCase typeName e ≠ none →
    jsName toLowerCamelCase toUpperCamelCase typeName e' ≠ none →
    ∀ l l' : Heck.Label, e.1 = l.text → e'.1 = l'.text → l.joined = l'.joined → e = e'

end

/-! ## What the bindings are -/

variable {toLowerCamelCase toUpperCamelCase toKebabCase : Text → Text} {mode : Option AsyncMode}
  {typeName : Nat → Text} {g g' : Generator} {exports done : List (Text × Export)}

/-- A binding is of the kind of its export, and a function's has the name of the function. -/
def Fits (e : Text × Export) (b : ExportBinding) : Prop :=
  match e.2 with
  | .liftedFunction f => ∃ n, b = .localFn n f.func.name
  | .inst _ => ∃ m, b = .interface m
  | .type => False

/-- The bindings are those of the exports that are done. -/
structure Bound (toLowerCamelCase toUpperCamelCase : Text → Text) (typeName : Nat → Text)
    (esm : EsmBindgen) (done : List (Text × Export)) : Prop where
  sorted : BTreeMap.Sorted esm.exports
  row : ∀ k b, Keyed.lookup esm.exports k = some b → ∃ e ∈ done,
    jsName toLowerCamelCase toUpperCamelCase typeName e = some k ∧ Fits e b
  key : ∀ e ∈ done, ∀ k, jsName toLowerCamelCase toUpperCamelCase typeName e = some k →
    k ∈ Keyed.keys esm.exports
  aliases : esm.exportAliases = []

theorem processFunction_esm (hok : g.names.Ok) {goal exportName : Text} {iface : Option Text}
    {f : Lifted}
    (h : processFunction toLowerCamelCase toUpperCamelCase mode typeName g goal exportName iface f =
      some g') :
    g'.names.Ok ∧ ∃ n, g.esm.addExportBinding toLowerCamelCase iface n
      (bindingName toLowerCamelCase toUpperCamelCase typeName goal f.func.kind) f.func.name =
        some g'.esm := by
  obtain ⟨names, n, hnames, _, _, heq⟩ := processFunction_eq toLowerCamelCase toUpperCamelCase mode
    typeName hok goal exportName iface f
  rw [heq, Option.bind_eq_some_iff] at h
  rcases h with ⟨c, _, h⟩
  rw [Option.map_eq_some_iff] at h
  rcases h with ⟨esm, hesm, rfl⟩
  exact ⟨hnames, n, hesm⟩

variable {e : Text × Export}

/-- One row is put into the bindings, for the export `e`. -/
theorem Bound.put {esm esm' : EsmBindgen} {done' : List (Text × Export)}
    {k : Text} {b : ExportBinding}
    (h : Bound toLowerCamelCase toUpperCamelCase typeName esm done)
    (hk : jsName toLowerCamelCase toUpperCamelCase typeName e = some k) (hb : Fits e b)
    (hesm' : esm' = { esm with exports := BTreeMap.insert k b esm.exports })
    (hdone' : ∀ x, x ∈ done' ↔ x ∈ done ∨ x = e) :
    Bound toLowerCamelCase toUpperCamelCase typeName esm' done' where
  sorted := by
    rw [hesm']
    exact h.sorted.insert k b
  row k' b' hlookup := by
    rw [hesm'] at hlookup
    by_cases hsame : k = k'
    · cases hsame
      rw [BTreeMap.lookup_insert_self] at hlookup
      cases hlookup
      exact ⟨e, (hdone' e).2 (.inr rfl), hk, hb⟩
    · rw [BTreeMap.lookup_insert_of_ne hsame] at hlookup
      rcases h.row k' b' hlookup with ⟨e', he', hrow⟩
      exact ⟨e', (hdone' e').2 (.inl he'), hrow⟩
  key e' he' k' hk' := by
    rw [hesm', BTreeMap.mem_keys_insert]
    rcases (hdone' e').1 he' with he' | rfl
    · exact .inr (h.key e' he' k' hk')
    · rw [hk] at hk'
      exact .inl (Option.some.inj hk').symm
  aliases := by
    rw [hesm']
    exact h.aliases

/-- A function of the interface `e` is bound. -/
theorem Bound.function {esm esm' : EsmBindgen} {done' : List (Text × Export)} {name : Text}
    (f : Lifted) (fs : List Lifted) {n b x : Text}
    (h : Bound toLowerCamelCase toUpperCamelCase typeName esm done)
    (hadd : esm.addExportBinding toLowerCamelCase (some name) n b x = some esm')
    (hdone' : ∀ x, x ∈ done' ↔ x ∈ done ∨ x = (name, .inst (f :: fs))) :
    Bound toLowerCamelCase toUpperCamelCase typeName esm' done' := by
  unfold addExportBinding at hadd
  dsimp only at hadd
  split at hadd
  next iface _ =>
    exact h.put (e := (name, .inst (f :: fs))) rfl (b := .interface _) ⟨_, rfl⟩
      (Option.some.inj hadd).symm hdone'
  next => cases hadd

theorem Bound.processInstance {name : Text} {f : Lifted} {fs rest : List Lifted}
    (h : Bound toLowerCamelCase toUpperCamelCase typeName g.esm done) (hok : g.names.Ok)
    (hin : (name, .inst (f :: fs)) ∈ done)
    (hrun : processInstance toLowerCamelCase toUpperCamelCase mode typeName g name rest = some g') :
    g'.names.Ok ∧ Bound toLowerCamelCase toUpperCamelCase typeName g'.esm done := by
  induction rest generalizing g with
  | nil =>
    cases hrun
    exact ⟨hok, h⟩
  | cons f' rest ih =>
    rw [processInstance_cons, Option.bind_eq_some_iff] at hrun
    rcases hrun with ⟨g₁, hfirst, hrest⟩
    rcases processFunction_esm hok hfirst with ⟨hok₁, n, hadd⟩
    refine ih (h.function f fs hadd ?_) hok₁ hrest
    intro x
    exact ⟨.inl, fun hx => hx.elim id fun heq => heq ▸ hin⟩

theorem Bound.processExport
    (h : Bound toLowerCamelCase toUpperCamelCase typeName g.esm done) (hok : g.names.Ok)
    (hrun : ExportBindgen.processExport toLowerCamelCase toUpperCamelCase mode typeName g e.1 e.2 =
      some g') :
    g'.names.Ok ∧ Bound toLowerCamelCase toUpperCamelCase typeName g'.esm (done ++ [e]) := by
  have hmem : ∀ x, x ∈ done ++ [e] ↔ x ∈ done ∨ x = e := by
    intro x
    rw [mem_append, mem_singleton]
  -- an export without a name changes nothing
  have hnothing : jsName toLowerCamelCase toUpperCamelCase typeName e = none → g' = g →
      g'.names.Ok ∧ Bound toLowerCamelCase toUpperCamelCase typeName g'.esm (done ++ [e]) := by
    rintro hnone rfl
    refine ⟨hok, h.sorted, ?_, ?_, h.aliases⟩
    · intro k b hlookup
      rcases h.row k b hlookup with ⟨e', he', hrow⟩
      exact ⟨e', mem_append_left _ he', hrow⟩
    · intro e' he' k hk
      rcases (hmem e').1 he' with he' | rfl
      · exact h.key e' he' k hk
      · rw [hnone] at hk
        cases hk
  obtain ⟨name, item⟩ := e
  cases item with
  | liftedFunction f =>
    rcases processFunction_esm hok hrun with ⟨hok', n, hadd⟩
    exact ⟨hok', h.put (e := (name, .liftedFunction f)) rfl (b := .localFn _ _) ⟨n, rfl⟩
      (Option.some.inj hadd).symm hmem⟩
  | inst fs =>
    cases fs with
    | nil => exact hnothing rfl (Option.some.inj hrun).symm
    | cons f fs =>
      rw [ExportBindgen.processExport, processInstance_cons, Option.bind_eq_some_iff] at hrun
      rcases hrun with ⟨g₁, hfirst, hrest⟩
      rcases processFunction_esm hok hfirst with ⟨hok₁, n, hadd⟩
      exact (h.function f fs hadd hmem).processInstance hok₁
        (mem_append_right _ mem_cons_self) hrest
  | type => exact hnothing rfl (Option.some.inj hrun).symm

/-- After all exports the bindings are theirs. -/
theorem Bound.processExports
    (h : Bound toLowerCamelCase toUpperCamelCase typeName g.esm done) (hok : g.names.Ok)
    (hrun : exports.foldlM (fun g e => ExportBindgen.processExport toLowerCamelCase toUpperCamelCase mode
      typeName g e.1 e.2) g = some g') :
    Bound toLowerCamelCase toUpperCamelCase typeName g'.esm (done ++ exports) := by
  induction exports generalizing g done with
  | nil =>
    cases hrun
    rw [append_nil]
    exact h
  | cons e exports ih =>
    rw [foldlM_cons, Option.bind_eq_bind, Option.bind_eq_some_iff] at hrun
    rcases hrun with ⟨g₁, hfirst, hrest⟩
    rcases h.processExport hok hfirst with ⟨hok₁, h₁⟩
    have hall := ih h₁ hok₁ hrest
    rwa [append_assoc, singleton_append] at hall

/-! ## Aliases -/

variable {t : Text}

theorem mem_of_rfind {c : Char} {i : Nat} (h : rfind c t = some i) : c ∈ t := by
  unfold rfind at h
  split at h
  next hmem => exact hmem
  next => cases h

/-- An alias is not an export, and stands for an export with a slash in its name. -/
structure Aliased (esm : EsmBindgen) : Prop where
  sorted : BTreeMap.Sorted esm.exportAliases
  new : ∀ name ∈ Keyed.keys esm.exportAliases, name ∉ Keyed.keys esm.exports
  key : ∀ row ∈ esm.exportAliases, row.2 ∈ Keyed.keys esm.exports ∧ '/' ∈ row.2

theorem populateAlias_exports (toLowerCamelCase : Text → Text) (esm : EsmBindgen)
    (exptName : Text) :
    (esm.populateAlias toLowerCamelCase exptName).exports = esm.exports := by
  unfold populateAlias
  split
  · rfl
  · dsimp only
    split <;> rfl

theorem Aliased.populateAlias (toLowerCamelCase : Text → Text) {esm : EsmBindgen}
    (h : Aliased esm) {exptName : Text}
    (hkey : exptName ∈ Keyed.keys esm.exports) :
    Aliased (esm.populateAlias toLowerCamelCase exptName) := by
  unfold EsmBindgen.populateAlias
  split
  next => exact h
  next source hsource =>
    dsimp only
    split
    · exact h
    next hnew =>
      rw [Bool.or_eq_true, not_or, contains_iff_mem] at hnew
      refine ⟨h.sorted.insert _ _, ?_, ?_⟩
      · intro name hname
        rcases BTreeMap.mem_keys_insert.1 hname with rfl | hname
        · exact hnew.1
        · exact h.new name hname
      · intro row hrow
        rcases BTreeMap.mem_insert hrow with rfl | hrow
        · rw [aliasSource, Option.map_eq_some_iff] at hsource
          rcases hsource with ⟨i, hi, _⟩
          exact ⟨hkey, mem_of_rfind hi⟩
        · exact h.key row hrow

theorem Aliased.populate (toLowerCamelCase : Text → Text) {esm : EsmBindgen} (h : Aliased esm)
    {names : List Text}
    (hnames : ∀ name ∈ names, name ∈ Keyed.keys esm.exports) :
    Aliased (names.foldl (EsmBindgen.populateAlias toLowerCamelCase) esm) ∧
      (names.foldl (EsmBindgen.populateAlias toLowerCamelCase) esm).exports = esm.exports := by
  induction names generalizing esm with
  | nil => exact ⟨h, rfl⟩
  | cons name names ih =>
    rcases forall_mem_cons.1 hnames with ⟨hname, hrest⟩
    have hexports := populateAlias_exports toLowerCamelCase esm name
    rcases ih (h.populateAlias toLowerCamelCase hname)
      (by rw [hexports]; exact hrest) with ⟨haliased, hsame⟩
    exact ⟨haliased, hsame.trans hexports⟩

/-! ## Both ways -/

theorem colon_notMem (h : Heck.Plain t) : ':' ∉ t := by
  intro hmem
  rcases h ':' hmem with halnum | hhyphen
  · exact absurd halnum (by decide)
  · exact absurd hhyphen (by decide)

theorem slash_notMem (h : Heck.Plain t) : '/' ∉ t := by
  intro hmem
  rcases h '/' hmem with halnum | hhyphen
  · exact absurd halnum (by decide)
  · exact absurd hhyphen (by decide)

/-- A plain name is looked for in kebab case. -/
theorem expectedExportName_plain (h : Heck.Plain t) :
    expectedExportName toKebabCase t = toKebabCase t := by
  refine if_neg ?_
  rintro (hcolon | hasync)
  · exact colon_notMem h hcolon
  · rcases h '[' (hasync.subset (by decide)) with halnum | hhyphen
    · exact absurd halnum (by decide)
    · exact absurd hhyphen (by decide)

theorem expectedExportName_id (h : ':' ∈ t) : expectedExportName toKebabCase t = t :=
  if_pos (.inl h)

theorem findExport_eq_some (hnodup : (exports.map Prod.fst).Nodup) {canon : Text}
    (he : e ∈ exports) :
    findExport toKebabCase exports canon = some e ↔ expectedExportName toKebabCase canon = e.1 := by
  unfold findExport
  constructor
  · intro h
    have hname := List.find?_some h
    simp only [decide_eq_true_eq] at hname
    exact hname.symm
  · intro h
    cases hfind : exports.find? fun e => e.1 = expectedExportName toKebabCase canon with
    | none => exact absurd (decide_eq_true h.symm) (List.find?_eq_none.1 hfind e he)
    | some e' =>
      have hname := List.find?_some hfind
      simp only [decide_eq_true_eq] at hname
      rw [inj_on_of_nodup_map hnodup (mem_of_find?_eq_some hfind) he (hname.trans h)]

/-- The canonical name of a binding. -/
def canonName (row : Text × ExportBinding) : Text :=
  match row.2 with
  | .interface _ => row.1
  | .localFn _ wasmFuncName => wasmFuncName

theorem listing_eq (esm : EsmBindgen) :
    esm.listing = esm.exportAliases ++ esm.exports.map fun row => (row.1, canonName row) := rfl

variable {esm : EsmBindgen}

section

variable (hheck : Heck.Documented toLowerCamelCase toKebabCase) (hvalid : ValidExports exports)

include hvalid in
/-- A name in the generated module is an id, or the camel case of a label. -/
theorem jsName_cases (hheck : Heck.Documented toLowerCamelCase toKebabCase) {e : Text × Export}
    (he : e ∈ exports) {k : Text}
    (hk : jsName toLowerCamelCase toUpperCamelCase typeName e = some k) :
    (∃ l : Heck.Label, e.1 = l.text ∧ k = lowerCamelCase l.text) ∨
      ':' ∈ e.1 ∧ k = e.1 ∧ ∃ f fs, e.2 = .inst (f :: fs) := by
  obtain ⟨name, item⟩ := e
  cases item with
  | liftedFunction f =>
    rcases hvalid.function _ he f rfl with ⟨⟨l, hl⟩, hkind, _⟩
    left
    refine ⟨l, hl, ?_⟩
    have hname : bindingName toLowerCamelCase toUpperCamelCase typeName name f.func.kind = k :=
      Option.some.inj hk
    unfold bindingName at hname
    rw [hkind] at hname
    dsimp only at hname hl
    rw [← hname, hl]
    exact hheck.lowerCamelCase _ l.plain
  | inst fs =>
    cases fs with
    | nil => cases hk
    | cons f fs =>
      have hkey : exportKey toLowerCamelCase name = k := Option.some.inj hk
      rw [exportKey] at hkey
      by_cases hcolon : ':' ∈ name
      · rw [if_pos hcolon] at hkey
        exact .inr ⟨hcolon, hkey.symm, f, fs, rfl⟩
      · rw [if_neg hcolon] at hkey
        rcases hvalid.name _ he with ⟨l, hl⟩ | hid
        · left
          dsimp only at hl
          refine ⟨l, hl, ?_⟩
          rw [← hkey, hl]
          exact hheck.lowerCamelCase _ l.plain
        · exact absurd hid hcolon
  | type => cases hk

include hheck hvalid in
/-- Labels that differ enough have different names in the generated module. -/
theorem NamesSurvive.distinct
    (h : NamesSurvive toLowerCamelCase toUpperCamelCase typeName exports) {e e' : Text × Export}
    (he : e ∈ exports) (he' : e' ∈ exports)
    (hne : jsName toLowerCamelCase toUpperCamelCase typeName e ≠ none)
    (heq : jsName toLowerCamelCase toUpperCamelCase typeName e =
      jsName toLowerCamelCase toUpperCamelCase typeName e') : e = e' := by
  obtain ⟨k, hk⟩ := Option.ne_none_iff_exists'.1 hne
  have hne' := hne
  rw [heq] at hne'
  have hk' := hk
  rw [heq] at hk'
  rcases jsName_cases hvalid hheck he hk with ⟨l, hl, hcamel⟩ | ⟨hcolon, hid, _⟩
  · rcases jsName_cases hvalid hheck he' hk' with ⟨l', hl', hcamel'⟩ | ⟨hcolon', hid', _⟩
    · refine h.apart e he e' he' hne hne' l l' hl hl' ((camel_eq_iff l l').1 ?_)
      rw [← hcamel, ← hcamel']
    · rw [← hid', hcamel] at hcolon'
      exact absurd hcolon' (colon_notMem l.plain_camel)
  · rcases jsName_cases hvalid hheck he' hk' with ⟨l', hl', hcamel'⟩ | ⟨hcolon', hid', _⟩
    · rw [← hid, hcamel'] at hcolon
      exact absurd hcolon (colon_notMem l'.plain_camel)
    · exact inj_on_of_nodup_map hvalid.nodup he he' (hid.symm.trans hid')

include hheck in
/-- The expected name of a function's label is the label in lower case. -/
theorem expected_function (l : Heck.Label) :
    expectedExportName toKebabCase l.text = l.text ↔ ∀ c ∈ l.text, c.isUpper = false := by
  rw [expectedExportName_plain l.plain, hheck.kebabCase _ l.plain, kebabCase_label,
    lowercase_eq_self]

include hheck in
/-- The expected name of an interface's label is what comes back from camel case. -/
theorem expected_interface (l : Heck.Label) :
    expectedExportName toKebabCase (lowerCamelCase l.text) = l.text ↔ l.Survives := by
  have hplain := l.plain_camel
  rw [expectedExportName_plain hplain, hheck.kebabCase _ hplain, l.kebab_camel_iff]

end

/-- What `process_exports` leaves: a row for each export with a name, and aliases. -/
structure Listed (toLowerCamelCase toUpperCamelCase : Text → Text) (typeName : Nat → Text)
    (esm : EsmBindgen) (exports : List (Text × Export)) : Prop where
  nodup : (Keyed.keys esm.exports).Nodup
  row : ∀ e ∈ exports, ∀ k, jsName toLowerCamelCase toUpperCamelCase typeName e = some k →
    ∃ b, (k, b) ∈ esm.exports
  ofRow : ∀ k b, (k, b) ∈ esm.exports → ∃ e ∈ exports,
    jsName toLowerCamelCase toUpperCamelCase typeName e = some k ∧ Fits e b
  aliased : Aliased esm

theorem processExports_listed (hok : g.names.Ok) (hesm : g.esm = {})
    (hrun : processExports toLowerCamelCase toUpperCamelCase mode typeName g exports = some g') :
    Listed toLowerCamelCase toUpperCamelCase typeName g'.esm exports := by
  unfold processExports at hrun
  rw [Option.bind_eq_bind, Option.bind_eq_some_iff] at hrun
  rcases hrun with ⟨g₁, hfold, hg'⟩
  cases hg'
  have hstart : Bound toLowerCamelCase toUpperCamelCase typeName g.esm [] := by
    rw [hesm]
    exact ⟨List.Pairwise.nil, nofun, nofun, rfl⟩
  have hbound := hstart.processExports hok hfold
  rw [nil_append] at hbound
  have hbefore : Aliased g₁.esm := by
    refine ⟨?_, ?_, ?_⟩
    · rw [hbound.aliases]
      exact List.Pairwise.nil
    · rw [hbound.aliases]
      exact nofun
    · rw [hbound.aliases]
      exact nofun
  have hkeys : ∀ name ∈ Keyed.keys g₁.esm.exports, name ∈ Keyed.keys g₁.esm.exports :=
    fun _ h => h
  rcases hbefore.populate toLowerCamelCase hkeys with ⟨haliased, hsame⟩
  have hnodup : (Keyed.keys (g₁.esm.populateExportAliases toLowerCamelCase).exports).Nodup := by
    rw [populateExportAliases, hsame]
    exact hbound.sorted.nodup
  refine ⟨hnodup, ?_, ?_, haliased⟩
  · intro e he k hk
    obtain ⟨row, hmem, rfl⟩ := mem_map.1 (hbound.key e he k hk)
    refine ⟨row.2, ?_⟩
    rw [populateExportAliases, hsame]
    exact hmem
  · intro k b hmem
    rw [populateExportAliases, hsame,
      ← Keyed.lookup_eq_some_iff hbound.sorted.nodup] at hmem
    exact hbound.row k b hmem

/-- A listing that is right shows what the names are. -/
theorem Listed.survive (hlisted : Listed toLowerCamelCase toUpperCamelCase typeName esm exports)
    (hheck : Heck.Documented toLowerCamelCase toKebabCase) (hvalid : ValidExports exports)
    (h : ListingRight toLowerCamelCase toUpperCamelCase toKebabCase typeName esm exports) :
    NamesSurvive toLowerCamelCase toUpperCamelCase typeName exports := by
  -- an export is found under the name of its row
  have hfound : ∀ e ∈ exports, ∀ k,
      jsName toLowerCamelCase toUpperCamelCase typeName e = some k → ∃ b, Fits e b ∧
        expectedExportName toKebabCase (canonName (k, b)) = e.1 := by
    intro e he k hk
    obtain ⟨b, hb⟩ := hlisted.row e he k hk
    rcases hlisted.ofRow k b hb with ⟨e', he', hk', hfits⟩
    have hsame := h.distinct e he e' he' (by rw [hk]; exact Option.some_ne_none k)
      (hk.trans hk'.symm)
    cases hsame
    have hmem : (k, canonName (k, b)) ∈ esm.listing := by
      rw [listing_eq]
      exact mem_append_right _ (mem_map.2 ⟨(k, b), hb, rfl⟩)
    exact ⟨b, hfits,
      (findExport_eq_some hvalid.nodup he).1 (h.resolves _ hmem e he (.inl hk))⟩
  refine ⟨?_, ?_, ?_⟩
  · rintro e he f hf c hc
    rcases hvalid.function e he f hf with ⟨⟨l, hl⟩, _, hname⟩
    obtain ⟨name, item⟩ := e
    cases hf
    obtain ⟨b, ⟨n, rfl⟩, hexpected⟩ := hfound _ he _ rfl
    rw [canonName, hname, hl] at hexpected
    rw [hl] at hc
    exact (expected_function hheck l).1 hexpected c hc
  · rintro e he f fs hf l hl
    obtain ⟨name, item⟩ := e
    cases hf
    dsimp only at hl
    obtain ⟨b, ⟨m, rfl⟩, hexpected⟩ := hfound _ he _ rfl
    have hkey : exportKey toLowerCamelCase name = lowerCamelCase l.text := by
      rw [exportKey, hl, if_neg (colon_notMem l.plain)]
      exact hheck.lowerCamelCase _ l.plain
    rw [canonName, hkey, hl] at hexpected
    exact (expected_interface hheck l).1 hexpected
  · intro e he e' he' hne hne' l l' hl hl' hjoined
    obtain ⟨k, hk⟩ := Option.ne_none_iff_exists'.1 hne
    obtain ⟨k', hk'⟩ := Option.ne_none_iff_exists'.1 hne'
    refine h.distinct e he e' he' hne ?_
    have hcamel := (camel_eq_iff l l').2 hjoined
    rcases jsName_cases hvalid hheck he hk with ⟨l₁, hl₁, rfl⟩ | ⟨hcolon, _⟩
    · rcases jsName_cases hvalid hheck he' hk' with ⟨l₂, hl₂, rfl⟩ | ⟨hcolon, _⟩
      · rw [hk, hk', ← hl₁, ← hl₂, hl, hl', hcamel]
      · rw [hl'] at hcolon
        exact absurd hcolon (colon_notMem l'.plain)
    · rw [hl] at hcolon
      exact absurd hcolon (colon_notMem l.plain)

/-- Where names survive, the canonical name of an export leads back to it. -/
theorem NamesSurvive.canon (h : NamesSurvive toLowerCamelCase toUpperCamelCase typeName exports)
    (hheck : Heck.Documented toLowerCamelCase toKebabCase) (hvalid : ValidExports exports)
    (he : e ∈ exports) {k : Text} {b : ExportBinding}
    (hk : jsName toLowerCamelCase toUpperCamelCase typeName e = some k) (hfits : Fits e b) :
    expectedExportName toKebabCase (canonName (k, b)) = e.1 := by
  obtain ⟨name, item⟩ := e
  cases item with
  | liftedFunction f =>
    rcases hvalid.function _ he f rfl with ⟨⟨l, hl⟩, _, hname⟩
    obtain ⟨n, rfl⟩ := hfits
    rw [canonName, hname, hl]
    refine (expected_function hheck l).2 ?_
    rw [← hl]
    exact h.function _ he f rfl
  | inst fs =>
    obtain ⟨m, rfl⟩ := hfits
    rcases jsName_cases hvalid hheck he hk with ⟨l, hl, rfl⟩ | ⟨hcolon, rfl, _⟩
    · cases fs with
      | nil => cases hk
      | cons f fs =>
        rw [canonName, hl]
        exact (expected_interface hheck l).2 (h.interface _ he f fs rfl l hl)
    · exact expectedExportName_id hcolon
  | type => cases hk

/-- An export with a name has a kind. -/
theorem exists_exportKind
    (h : jsName toLowerCamelCase toUpperCamelCase typeName e ≠ none) :
    ∃ kind, exportKind e.2 = some kind := by
  obtain ⟨name, item⟩ := e
  cases item with
  | liftedFunction f => exact ⟨_, rfl⟩
  | inst fs => exact ⟨_, rfl⟩
  | type => exact absurd rfl h

/-- Where names survive, each row of the listing is that of one export, which is found. -/
theorem Listed.resolve (hlisted : Listed toLowerCamelCase toUpperCamelCase typeName esm exports)
    (hheck : Heck.Documented toLowerCamelCase toKebabCase) (hvalid : ValidExports exports)
    (h : NamesSurvive toLowerCamelCase toUpperCamelCase typeName exports) {row : Text × Text}
    (hmem : row ∈ esm.listing) : ∃ e ∈ exports,
      findExport toKebabCase exports row.2 = some e ∧ (∃ kind, exportKind e.2 = some kind) ∧
      ∀ e' ∈ exports, Origin toLowerCamelCase toUpperCamelCase typeName esm row e' → e' = e := by
  rw [listing_eq] at hmem
  rcases mem_append.1 hmem with halias | hmem
  · -- an alias stands for an interface with an id
    rcases hlisted.aliased.key row halias with ⟨hkey, hslash⟩
    obtain ⟨row', hrow', hfst⟩ := mem_map.1 hkey
    rcases hlisted.ofRow row'.1 row'.2 hrow' with ⟨e, he, hk, hfits⟩
    rw [hfst] at hk
    have hne : jsName toLowerCamelCase toUpperCamelCase typeName e ≠ none := by
      rw [hk]
      exact Option.some_ne_none _
    refine ⟨e, he, ?_, exists_exportKind hne, ?_⟩
    · rcases jsName_cases hvalid hheck he hk with ⟨l, _, hcamel⟩ | ⟨hcolon, hid, _⟩
      · rw [hcamel] at hslash
        exact absurd hslash (slash_notMem l.plain_camel)
      · rw [findExport_eq_some hvalid.nodup he, hid]
        exact expectedExportName_id hcolon
    · rintro e' he' (hk' | ⟨_, hk'⟩)
      · -- the alias itself is no export
        obtain ⟨b, hb⟩ := hlisted.row e' he' _ hk'
        exact absurd (mem_map.2 ⟨_, hb, rfl⟩)
          (hlisted.aliased.new row.1 (mem_map.2 ⟨row, halias, rfl⟩))
      · exact (h.distinct hheck hvalid he he' hne (hk.trans hk'.symm)).symm
  · obtain ⟨row', hrow', rfl⟩ := mem_map.1 hmem
    rcases hlisted.ofRow row'.1 row'.2 hrow' with ⟨e, he, hk, hfits⟩
    have hne : jsName toLowerCamelCase toUpperCamelCase typeName e ≠ none := by
      rw [hk]
      exact Option.some_ne_none _
    have hcanon := h.canon hheck hvalid he hk hfits
    refine ⟨e, he, (findExport_eq_some hvalid.nodup he).2 hcanon, exists_exportKind hne, ?_⟩
    rintro e' he' (hk' | ⟨halias, _⟩)
    · exact (h.distinct hheck hvalid he he' hne (hk.trans hk'.symm)).symm
    · exact absurd (mem_map.2 ⟨row', hrow', rfl⟩)
        (hlisted.aliased.new row'.1 (mem_map.2 ⟨_, halias, rfl⟩))

/-- The listing leads back to the exports, with distinct names, exactly where the names of the
exports survive the conversions. -/
theorem names_resolve_iff (toLowerCamelCase toUpperCamelCase toKebabCase : Text → Text)
    (mode : Option AsyncMode) (typeName : Nat → Text) (g g' : Generator)
    (exports : List (Text × Export)) (hheck : Heck.Documented toLowerCamelCase toKebabCase)
    (hvalid : ValidExports exports) (hok : g.names.Ok) (hesm : g.esm = {})
    (hrun : processExports toLowerCamelCase toUpperCamelCase mode typeName g exports = some g') :
    ListingRight toLowerCamelCase toUpperCamelCase toKebabCase typeName g'.esm exports ↔
      NamesSurvive toLowerCamelCase toUpperCamelCase typeName exports := by
  have hlisted := processExports_listed hok hesm hrun
  refine ⟨hlisted.survive hheck hvalid, fun h => ?_⟩
  refine ⟨?_, ?_, ?_, fun e he e' he' hne heq => h.distinct hheck hvalid he he' hne heq⟩
  · refine exists_mapM ?_
    intro row hmem
    rcases hlisted.resolve hheck hvalid h hmem with ⟨e, he, hfind, ⟨kind, hkind⟩, honly⟩
    refine ⟨(row.1, kind), ?_, rfl, ?_⟩
    · rw [listExport, hfind, Option.bind_some, hkind]
      rfl
    · intro e' he' horigin
      rw [honly e' he' horigin, hkind]
  · intro row hmem e' he' horigin
    rcases hlisted.resolve hheck hvalid h hmem with ⟨e, he, hfind, _, honly⟩
    rw [honly e' he' horigin, hfind]
  · -- keys differ, and aliases are new
    rw [listing_eq, map_append, map_map]
    refine nodup_append.2 ⟨hlisted.aliased.sorted.nodup, hlisted.nodup, ?_⟩
    rintro name halias name' hname' rfl
    exact hlisted.aliased.new name halias hname'

/-- A function without parameters that is exported by a name. -/
def lifted (name : Text) : Lifted where
  func := {
    name
    itemName := name
    kind := .freestanding
    result := .none
    optionsAsync := false
    postReturn := false
    async_postReturn := sync_postReturn false }
  lowers := []
  lifts := []
  mentions := []
  coreExportFn := name

/-- One function is exported without panic. -/
theorem exists_processExports (toLowerCamelCase : Text → Text) (name : Text) :
    ∃ g', processExports toLowerCamelCase id none (fun _ => []) fresh
      [(name, .liftedFunction (lifted name))] = some g' := by
  have hok : fresh.names.Ok := ⟨nofun, nofun⟩
  obtain ⟨names, n, _, _, _, heq⟩ := processFunction_eq toLowerCamelCase id none (fun _ => []) hok
    name name none (lifted name)
  unfold processExports
  rw [foldlM_cons]
  unfold processExport
  dsimp only
  rw [heq]
  exact ⟨_, rfl⟩

theorem valid_lifted (l : Heck.Label) :
    ValidExports [(l.text, .liftedFunction (lifted l.text))] := by
  refine ⟨nodup_singleton _, ?_, ?_⟩
  · intro e he
    rw [mem_singleton.1 he]
    exact .inl ⟨l, rfl⟩
  · intro e he f hf
    rw [mem_singleton.1 he] at hf ⊢
    cases hf
    exact ⟨⟨l, rfl⟩, rfl, rfl⟩

def getJson : Heck.Label where
  first := "get".toList
  rest := ["JSON".toList]
  isWord := by
    intro w hw
    rcases List.mem_pair.1 hw with rfl | rfl
    · exact ⟨by decide, .inl (by simp)⟩
    · exact ⟨by decide, .inr (by simp)⟩
  letter := by
    intro c hc
    cases hc
    decide

def getText : Heck.Label where
  first := "get".toList
  rest := ["text".toList]
  isWord := by
    intro w hw
    rcases List.mem_pair.1 hw with rfl | rfl
    · exact ⟨by decide, .inl (by simp)⟩
    · exact ⟨by decide, .inl (by simp)⟩
  letter := by
    intro c hc
    cases hc
    decide

def getAll : Heck.Label where
  first := "get".toList
  rest := ["all".toList]
  isWord := by
    intro w hw
    rcases List.mem_pair.1 hw with rfl | rfl
    · exact ⟨by decide, .inl (by simp)⟩
    · exact ⟨by decide, .inl (by simp)⟩
  letter := by
    intro c hc
    cases hc
    decide

/-- Two functions, and an interface with a resource. -/
def textExports : List (Text × Export) :=
  [(getText.text, .liftedFunction (lifted getText.text)),
    ("a:b/c".toList, .inst [makeThing, useThing]), (getAll.text, .liftedFunction (lifted getAll.text))]

theorem valid_textExports : ValidExports textExports := by
  refine ⟨by decide, ?_, ?_⟩
  · intro e he
    rcases List.mem_cons.1 he with rfl | he
    · exact .inl ⟨getText, rfl⟩
    rcases List.mem_pair.1 he with rfl | rfl
    · exact .inr (by decide)
    · exact .inl ⟨getAll, rfl⟩
  · intro e he f hf
    rcases List.mem_cons.1 he with rfl | he
    · cases hf
      exact ⟨⟨getText, rfl⟩, rfl, rfl⟩
    rcases List.mem_pair.1 he with rfl | rfl
    · cases hf
    · cases hf
      exact ⟨⟨getAll, rfl⟩, rfl, rfl⟩

theorem names_resolve_textExports : ∃ g',
    processExports Heck.lowerCamelCase id none (fun _ => "Thing".toList) fresh textExports =
      some g' ∧
    ListingRight Heck.lowerCamelCase id Heck.kebabCase (fun _ => "Thing".toList) g'.esm
      textExports := by
  obtain ⟨g', hrun⟩ : ∃ g', processExports lowerCamelCase id none (fun _ => "Thing".toList) fresh
      textExports = some g' := ⟨_, rfl⟩
  have hcamel : (textExports.map fun e => lowerCamelCase e.1).Nodup := by decide
  refine ⟨g', hrun, (names_resolve_iff lowerCamelCase id kebabCase none (fun _ => "Thing".toList)
    fresh g' textExports ⟨fun _ _ => rfl, fun _ _ => rfl⟩ valid_textExports ⟨nofun, nofun⟩ rfl
    hrun).2 ⟨?_, ?_, ?_⟩⟩
  · intro e he f hf
    rcases List.mem_cons.1 he with rfl | he
    · simp [getText, Heck.Label.text]
    rcases List.mem_pair.1 he with rfl | rfl
    · cases hf
    · simp [getAll, Heck.Label.text]
  · intro e he f fs hf l hl
    rcases List.mem_cons.1 he with rfl | he
    · cases hf
    rcases List.mem_pair.1 he with rfl | rfl
    · -- an id is no label
      refine absurd ?_ (colon_notMem l.plain)
      rw [← hl]
      decide
    · cases hf
  · intro e he e' he' _ _ l l' hl hl' hjoined
    have hsame := (camel_eq_iff l l').2 hjoined
    rw [← hl, ← hl'] at hsame
    exact List.inj_on_of_nodup_map hcamel he he' hsame

/-- `get-JSON` becomes `getJson`, which is looked up as `get-json`. -/
theorem getJson_lost : ¬ ∀ (toLowerCamelCase toUpperCamelCase toKebabCase : Text → Text)
    (mode : Option AsyncMode) (typeName : Nat → Text) (g g' : Generator)
    (exports : List (Text × Export)), Heck.Documented toLowerCamelCase toKebabCase →
    ValidExports exports → g.names.Ok → g.esm = {} →
    processExports toLowerCamelCase toUpperCamelCase mode typeName g exports = some g' →
    ListingRight toLowerCamelCase toUpperCamelCase toKebabCase typeName g'.esm exports := by
  intro h
  have hok : fresh.names.Ok := ⟨nofun, nofun⟩
  have hheck : Heck.Documented lowerCamelCase kebabCase :=
    ⟨fun _ _ => rfl, fun _ _ => rfl⟩
  have hvalid := valid_lifted getJson
  obtain ⟨g', hrun⟩ := exists_processExports lowerCamelCase getJson.text
  have hright := h lowerCamelCase id kebabCase none (fun _ => []) fresh g' _ hheck hvalid
    hok rfl hrun
  have hsurvive := (processExports_listed hok rfl hrun).survive hheck hvalid hright
  have hlower := hsurvive.function _ mem_cons_self _ rfl 'J' (by decide)
  exact absurd hlower (by decide)

end ExportBindgen

end Jco.Bindgen

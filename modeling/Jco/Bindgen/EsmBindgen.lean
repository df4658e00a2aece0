import Mathlib.Data.List.Lex
import Mathlib.Data.Char
import Jco.Bindgen.Names
import Jco.Lib.BTreeMap

/-! # Bindings of the exports

`EsmBindgen` records for each export of the generated module what it is bound to: a function,
or an interface with its functions and classes. Its maps are `BTreeMap`s.
-/

namespace Jco.Bindgen

open Jco.Lib

/-- `ExportBinding`. A function has its local name and the name of the component's function. -/
inductive ExportBinding where
  | interface (functions : List (Text × Text × Text))
  | localFn (localName wasmFuncName : Text)
deriving DecidableEq, Repr

structure EsmBindgen where
  exports : List (Text × ExportBinding) := []
  exportAliases : List (Text × Text) := []
deriving DecidableEq, Repr

/-- `rfind`, for a character. -/
def rfind (c : Char) (t : Text) : Option Nat :=
  if c ∈ t then some (t.length - 1 - (t.reverse.takeWhile (· ≠ c)).length) else none

namespace EsmBindgen

variable (toLowerCamelCase : Text → Text)

/-- Kebab names are converted, ids are left as they are. -/
def exportKey (ifaceIdOrKebab : Text) : Text :=
  if ':' ∈ ifaceIdOrKebab then ifaceIdOrKebab else toLowerCamelCase ifaceIdOrKebab

/-- `add_export_binding`; `none` is the panic. -/
def addExportBinding (esm : EsmBindgen) (ifaceIdOrKebab : Option Text)
    (localName funcName wasmFuncName : Text) : Option EsmBindgen :=
  match ifaceIdOrKebab with
  | none => some { esm with
      exports := BTreeMap.insert funcName (.localFn localName wasmFuncName) esm.exports }
  | some ifaceIdOrKebab =>
    let key := exportKey toLowerCamelCase ifaceIdOrKebab
    match (Keyed.lookup esm.exports key).getD (.interface []) with
    | .interface iface => some { esm with
        exports := BTreeMap.insert key
          (.interface (BTreeMap.insert funcName (localName, wasmFuncName) iface)) esm.exports }
    | .localFn _ _ => none

/-- The text of an id that its alias is made of, between the last slash and the version. `none`
if there is no slash; the slice of the source would panic where the version is before it. -/
def aliasSource (exptName : Text) : Option Text :=
  (rfind '/' exptName).map fun pathIdx =>
    (exptName.take ((rfind '@' exptName).getD exptName.length)).drop (pathIdx + 1)

/-- One round of the loop of `populate_export_aliases`. -/
def populateAlias (esm : EsmBindgen) (exptName : Text) : EsmBindgen :=
  match aliasSource exptName with
  | none => esm
  | some source =>
    let name := toLowerCamelCase source
    if (Keyed.keys esm.exports).contains name || (Keyed.keys esm.exportAliases).contains name then
      esm
    else { esm with exportAliases := BTreeMap.insert name exptName esm.exportAliases }

def populateExportAliases (esm : EsmBindgen) : EsmBindgen :=
  (Keyed.keys esm.exports).foldl (populateAlias toLowerCamelCase) esm

/-- `exports`: names of the generated module with the names they stand for. -/
def listing (esm : EsmBindgen) : List (Text × Text) :=
  esm.exportAliases ++ esm.exports.map fun row =>
    (row.1, match row.2 with
      | .interface _ => row.1
      | .localFn _ wasmFuncName => wasmFuncName)

end EsmBindgen

end Jco.Bindgen

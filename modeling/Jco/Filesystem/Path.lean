import Jco.Lib.Walk
import Mathlib.Data.List.DropRight

/-! # Guest paths

Both filesystem shims turn the path a guest gives into a path of the host with
a function `getFullPath`. This module has the two functions, and what a path
means: the walk it takes from its descriptor.

A path is the list of the Unicode scalar values of a WIT string. The code reads
UTF-16 units; slashes and dots are single units that no pair contains, so both
readings split a path at the same places.
-/

namespace Jco.Filesystem

open Jco.Lib

abbrev Path := List Char

/-- The error codes the two functions throw. -/
inductive ErrorCode where
  | noEntry
  | notPermitted
deriving DecidableEq, Repr

/-- A directory descriptor: a preopen has a `#hostPreopen`, an opened directory
has a `#fullPath`. -/
inductive Descriptor where
  | preopen (hostPreopen : Path)
  | opened (fullPath : Path)
deriving DecidableEq, Repr

/-- `hostPreopen ?? fullPath`. -/
def Descriptor.base : Descriptor → Path
  | preopen hostPreopen => hostPreopen
  | opened fullPath => fullPath

/-- `path.endsWith("/")`. -/
def EndsWithSlash (path : Path) : Prop := path.getLast? = some '/'

instance (path : Path) : Decidable (EndsWithSlash path) :=
  inferInstanceAs (Decidable (_ = _))

/-! ## What both shims do first -/

/-- `subpath.replace(/\\/g, "/")`. -/
def replaceBackslashes (subpath : Path) : Path :=
  subpath.map fun c => if c = '\\' then '/' else c

/-- `subpath.replace(/\/\/+/g, "/")`: a slash before a slash goes. -/
def collapseSlashes : Path → Path
  | [] => []
  | c :: cs => if c = '/' ∧ cs.head? = some '/' then collapseSlashes cs else c :: collapseSlashes cs

/-! ## The scanner of preview2 -/

namespace Preview2

/-- The `while` loop that skips the slashes before a segment. -/
def skipSlashes (subpath : Path) (i : Nat) : Nat :=
  i + ((subpath.drop i).takeWhile (· = '/')).length

theorem le_skipSlashes (subpath : Path) (i : Nat) : i ≤ skipSlashes subpath i :=
  Nat.le_add_right _ _

/-- The segment loop. `segmentIndex` is `none` where the code has -1; the
increment of the loop is written out in each call. -/
def scan (subpath : Path) (i : Nat) (segmentIndex : Option Nat) (segments : List Path) :
    Except ErrorCode (List Path) :=
  if i < subpath.length then
    match segmentIndex with
    | some start =>
      if subpath[i]? = some '/' then
        scan subpath (i + 1) none (segments ++ [(subpath.take (i + 1)).drop start])
      else
        scan subpath (i + 1) (some start) segments
    | none =>
      -- `../` segment
      if subpath[i]? = some '.' ∧ subpath[i + 1]? = some '.' ∧
          (subpath[i + 2]? = some '/' ∨ i + 2 = subpath.length) then
        if segments = [] then .error .notPermitted
        else scan subpath (i + 2 + 1) none segments.dropLast
      -- `./` segment
      else if subpath[i]? = some '.' ∧ (subpath[i + 1]? = some '/' ∨ i + 1 = subpath.length) then
        scan subpath (i + 1 + 1) none segments
      -- start of a new segment
      else
        have := le_skipSlashes subpath i
        scan subpath (skipSlashes subpath i + 1) (some (skipSlashes subpath i)) segments
  else
    match segmentIndex with
    | some start => .ok (segments ++ [subpath.drop start])
    | none => .ok segments
termination_by subpath.length - i

/-- What `getFullPath` returns for the joined segments. A preopen has no
`#fullPath`, and an empty `#hostPreopen` is not taken for one. -/
def join (descriptor : Descriptor) (subpath : Path) : Path :=
  match descriptor with
  | .preopen hostPreopen =>
    if hostPreopen ≠ [] then
      hostPreopen ++
        (if EndsWithSlash hostPreopen then [] else if 0 < subpath.length then ['/'] else []) ++ subpath
    else
      "undefined".toList ++ (if 0 < subpath.length then ['/'] else []) ++ subpath
  | .opened fullPath => fullPath ++ (if 0 < subpath.length then ['/'] else []) ++ subpath

def getFullPath (descriptor : Descriptor) (subpath : Path) : Except ErrorCode Path :=
  let subpath := if '\\' ∈ subpath then replaceBackslashes subpath else subpath
  let subpath := if ['/', '/'] <:+: subpath then collapseSlashes subpath else subpath
  if subpath.head? = some '/' then .error .notPermitted
  else (scan subpath 0 none []).map fun segments => join descriptor segments.flatten

end Preview2

/-! ## The loop of preview3 -/

/-- `path.replace(/\/+$/, "")`, except that the root stays. -/
def stripTrailingSlash (path : Path) : Path :=
  if path = ['/'] then ['/'] else path.rdropWhile (· = '/')

namespace Preview3

/-- The loop over `subpath.split("/")`. -/
def resolve : List Path → List Path → Except ErrorCode (List Path)
  | segments, [] => .ok segments
  | segments, seg :: segs =>
    if seg = [] ∨ seg = ['.'] then resolve segments segs
    else if seg = ['.', '.'] then
      if segments.length = 0 then .error .notPermitted else resolve segments.dropLast segs
    else resolve (segments ++ [seg]) segs

def join (descriptor : Descriptor) (segments : List Path) : Path :=
  if segments.length = 0 then descriptor.base
  else stripTrailingSlash descriptor.base ++ ['/'] ++ List.intercalate ['/'] segments

def getFullPath (descriptor : Descriptor) (subpath : Path) : Except ErrorCode Path :=
  let subpath := collapseSlashes (replaceBackslashes subpath)
  if subpath = [] then .error .noEntry
  else if subpath.head? = some '/' then .error .notPermitted
  else (resolve [] (subpath.splitOn '/')).map (join descriptor)

end Preview3

/-! ## The reference

A path is split at its separators; each part is a move or nothing. -/

/-- Both slashes separate. -/
def IsSeparator (c : Char) : Prop := c = '/' ∨ c = '\\'

instance (c : Char) : Decidable (IsSeparator c) := inferInstanceAs (Decidable (_ ∨ _))

/-- What a part of a path stands for: nothing, the parent, or a child. -/
def move (part : Path) : Option (Move Path) :=
  if part = [] ∨ part = ['.'] then none
  else if part = ['.', '.'] then some .up
  else some (.enter part)

/-- The walk a path takes. -/
def moves (subpath : Path) : List (Move Path) :=
  (subpath.splitOnP (IsSeparator ·)).filterMap move

/-- A path that starts at the root. -/
def Absolute (subpath : Path) : Prop := ∃ c ∈ subpath.head?, IsSeparator c

instance (subpath : Path) : Decidable (Absolute subpath) :=
  inferInstanceAs (Decidable (∃ c ∈ subpath.head?, IsSeparator c))

/-- Some prefix of the path has more `..` than names. -/
def PopsPast (subpath : Path) : Prop :=
  ∃ pre, pre <+: moves subpath ∧ Move.entered pre < Move.ups pre

/-- The segments of a path after resolution, `none` when it leaves its base. -/
def reference (subpath : Path) : Option (List Path) :=
  if Absolute subpath then none else Move.walk [] (moves subpath)

theorem reference_nil : reference [] = some [] := by
  simp [reference, Absolute, moves, move, List.splitOnP_nil]

/-- A path leaves its base exactly when it is absolute or pops past it. -/
theorem reference_eq_none_iff (subpath : Path) :
    reference subpath = none ↔ Absolute subpath ∨ PopsPast subpath := by
  unfold reference
  by_cases habs : Absolute subpath
  · simp [habs]
  · rw [if_neg habs, Move.walk_eq_none_iff]
    simp [habs, PopsPast]

/-- A name a directory entry can have in a resolved path. -/
structure Plain (name : Path) : Prop where
  notEmpty : name ≠ []
  notHere : name ≠ ['.']
  notUp : name ≠ ['.', '.']
  noSeparator : ∀ c ∈ name, ¬ IsSeparator c

/-- The base followed by segments. -/
def follow (base : Path) (segments : List Path) : Path :=
  if segments = [] then base
  else base ++ (if EndsWithSlash base then [] else ['/']) ++ List.intercalate ['/'] segments

end Jco.Filesystem

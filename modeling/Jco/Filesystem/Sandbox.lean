import Jco.Filesystem.Host

/-! # The sandbox of preview3

`#ensureSandboxedPath` walks a guest path over the host's directories before a
call is made; the call then uses the path of `#getFullPath`. The check reads
each link once and as text, takes `..` where that text leads, and ends at the
first component that is missing. `getFullPath` takes `..` off the guest's text,
and the host follows links to their end.

`Sandboxed` is what the check is for: what passes it ends inside the base, and
what stays inside the base passes. `Tame` tells the paths on which the readings
do not part.
-/

namespace Jco.Filesystem

open Jco.Lib

/-! ## The path functions of Node

An absolute normalised path is the list of its names.
-/

/-- The names after the parts of a path, taken as text. -/
def lexical : Location → List Path → Location
  | loc, [] => loc
  | loc, part :: parts =>
    match move part with
    | none => lexical loc parts
    | some .up => lexical loc.dropLast parts
    | some (.enter name) => lexical (loc ++ [name]) parts

/-- `nodePath.resolve(dir, target)`. -/
def resolvePath (dir : Location) (target : Path) : Location :=
  lexical (startOf dir target) (target.splitOn '/')

/-- `nodePath.dirname(path)`. -/
def dirname (path : Location) : Location := path.dropLast

/-- How many names two paths share. -/
def commonLength : Location → Location → Nat
  | a :: as, b :: bs => if a = b then commonLength as bs + 1 else 0
  | _, _ => 0

/-- `nodePath.relative(base, candidate)`. -/
def relative (base candidate : Location) : Path :=
  List.intercalate ['/']
    (List.replicate (base.length - commonLength base candidate) ['.', '.'] ++
      candidate.drop (commonLength base candidate))

def IsWithinPath (base candidate : Location) : Prop :=
  relative base candidate = [] ∨
    (¬ ['.', '.'] <+: relative base candidate ∧ (relative base candidate).head? ≠ some '/')

instance (base candidate : Location) : Decidable (IsWithinPath base candidate) :=
  inferInstanceAs (Decidable (_ ∨ _))

theorem commonLength_le (base candidate : Location) : commonLength base candidate ≤ base.length := by
  induction base generalizing candidate with
  | nil => simp [commonLength]
  | cons a as ih =>
    cases candidate with
    | nil => simp [commonLength]
    | cons b bs =>
      rw [commonLength]
      split
      next => exact Nat.succ_le_succ (ih bs)
      next => exact Nat.zero_le _

theorem prefix_of_commonLength {base candidate : Location}
    (h : commonLength base candidate = base.length) : base <+: candidate := by
  induction base generalizing candidate with
  | nil => exact List.nil_prefix
  | cons a as ih =>
    cases candidate with
    | nil => simp [commonLength] at h
    | cons b bs =>
      rw [commonLength] at h
      split at h
      next heq =>
        rw [List.length_cons, Nat.succ.injEq] at h
        exact List.cons_prefix_cons.mpr ⟨heq, ih h⟩
      next => simp at h

/-- What the check takes to be within a base is below it. -/
theorem prefix_of_isWithinPath {base candidate : Location} (h : IsWithinPath base candidate) :
    base <+: candidate := by
  by_contra hout
  have hlt : 0 < base.length - commonLength base candidate := by
    have hle := commonLength_le base candidate
    have hne : commonLength base candidate ≠ base.length := fun heq => hout (prefix_of_commonLength heq)
    omega
  -- the relative path then starts with a step up
  have hups : ['.', '.'] <+: relative base candidate := by
    unfold relative
    obtain ⟨n, hn⟩ := Nat.exists_eq_add_of_lt hlt
    rw [Nat.zero_add] at hn
    rw [hn, List.replicate_succ, List.cons_append]
    generalize List.replicate n ['.', '.'] ++ candidate.drop (commonLength base candidate) = others
    cases others with
    | nil => simp
    | cons next others =>
      rw [List.intercalate_cons_cons, List.append_assoc]
      exact List.prefix_append _ _
  rcases h with hnil | ⟨hnot, -⟩
  · rw [hnil] at hups
    simp at hups
  · exact hnot hups

/-! ## The check -/

/-- What `ensureSandboxedPath` throws: a code of its own, or that of the host's error. -/
inductive Refusal where
  | notDirectory
  | notPermitted
  | host (errno : Errno)
deriving DecidableEq, Repr

/-- The loop of the check. -/
def checkSegments (host : Host) (baseResolved : Location) : Location → List Path → Except Refusal Unit
  | _, [] => .ok ()
  | current, seg :: segments =>
    if seg = [] ∨ seg = ['.'] then checkSegments host baseResolved current segments
    else if seg = ['.', '.'] then
      if IsWithinPath baseResolved (dirname current) then
        checkSegments host baseResolved (dirname current) segments
      else .error .notPermitted
    else
      match host.lstat (current ++ [seg]) with
      | .error .noent => .ok ()
      | .error errno => .error (.host errno)
      | .ok (.link target) =>
        let next := resolvePath (dirname (current ++ [seg])) target
        if IsWithinPath baseResolved next then checkSegments host baseResolved next segments
        else .error .notPermitted
      | .ok _ => checkSegments host baseResolved (current ++ [seg]) segments

/-- `nodePath.resolve(base)`. -/
def Host.baseResolved (host : Host) (descriptor : Descriptor) : Location :=
  resolvePath host.cwd descriptor.base

/-- `subpath.replaceAll("\\", "/").replace(/\/\/+/g, "/").split("/")`. -/
def segments (subpath : Path) : List Path := (normalise subpath).splitOn '/'

/-- What a host call on a path reaches, with its last link followed or not. -/
def Host.Finds (host : Host) (follow : Bool) (path : Path) (place : Location) : Prop :=
  path ≠ [] ∧ Reaches host follow (startOf host.cwd path) (path.splitOn '/') place

/-- In the directory a descriptor stands for. -/
def Inside (host : Host) (descriptor : Descriptor) (place : Location) : Prop :=
  ∃ real, host.Finds true descriptor.base real ∧ real <+: place

/-- Every resolution of the path stays inside: as text, and part by part on the
host, where each part has to lead to a place inside. -/
def Stays (host : Host) (descriptor : Descriptor) (subpath : Path) : Prop :=
  reference subpath ≠ none ∧
    ∀ pre, pre <+: segments subpath → ∃ place,
      Reaches host true (startOf host.cwd descriptor.base) (descriptor.base.splitOn '/' ++ pre) place ∧
        Inside host descriptor place

/-- No `..` of the parts takes away what stood before them. -/
def Lasting (parts : List Path) : Prop := Move.walk [] (parts.filterMap move) ≠ none

/-- The readings of a path do not part. `base` is the text of the base, which has
to lead to the directory `real` once a name is looked up; the walk stands at `rel`
below it, and `stack` has where each name the text still has was looked up. -/
def TameFrom (host : Host) (base real : Location) : List Location → Location → List Path → Prop
  | _, _, [] => True
  | stack, rel, part :: rest =>
    match move part with
    | none => TameFrom host base real stack rel rest
    | some .up =>
      match stack with
      | [] => True
      | prev :: stack =>
        -- the parent is outside, or it is where the name taken away was looked up; the root is
        -- its own parent, which its text tells only if it is the root's
        (rel = [] ∧ real ≠ []) ∨
          (rel.dropLast = prev ∧ (rel = [] → base = []) ∧ IsWithinPath base (base ++ prev) ∧
            TameFrom host base real stack prev rest)
    | some (.enter name) =>
      Reaches host true [] base real ∧
      match host.node (real ++ rel ++ [name]) with
      | none => host.node (real ++ rel) = some .file ∨ Lasting rest
      | some (.link target) =>
        -- the link leads where its text says, or nowhere, or outside as its text says
        (∃ rel', resolvePath (base ++ rel) target = base ++ rel' ∧
            IsWithinPath base (base ++ rel') ∧
            Reaches host true (startOf (real ++ rel) target) (target.splitOn '/') (real ++ rel') ∧
            TameFrom host base real (rel :: stack) rel' rest) ∨
          ((∀ place, ¬ Reaches host true (startOf (real ++ rel) target) (target.splitOn '/') place) ∧
            Lasting rest) ∨
          (¬ IsWithinPath base (resolvePath (base ++ rel) target) ∧
            ∀ place, Reaches host true (startOf (real ++ rel) target) (target.splitOn '/') place →
              ¬ real <+: place)
      | some _ => TameFrom host base real (rel :: stack) (rel ++ [name]) rest

end Jco.Filesystem

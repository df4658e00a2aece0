import Mathlib.Data.List.Basic
import Jco.Js.Bytes
import Jco.Lib.Keyed
import Jco.Filesystem.Path

/-!
# The file tree in the browser

The filesystem of the browser is a tree of JavaScript objects: a directory has an object
`dir` with a member for each child, a file has its `source`. One function finds the entry
of a path and, if it is asked to, makes what is missing; a child is looked up like any
property, so that a name of `Object.prototype` finds something in every directory.

The tree is a value here; the function answers the entry it found and the tree it left.
-/

namespace Jco.Filesystem.BrowserTree

open Keyed Js

inductive Source where
  | text (s : String)
  | bytes (b : Bytes)
deriving DecidableEq, Repr

/-- `FileDataEntry` -/
inductive FileEntry where
  | mk (dir : Option (List (Path × FileEntry))) (source : Option Source)

namespace FileEntry

def dir : FileEntry → Option (List (Path × FileEntry))
  | mk dir _ => dir

def source : FileEntry → Option Source
  | mk _ source => source

/-- The directory with these children. -/
def withDir (e : FileEntry) (dir : List (Path × FileEntry)) : FileEntry := mk (some dir) e.source

/-- `if (entry.source)`: an empty text is not there. -/
def hasSource (e : FileEntry) : Bool :=
  match e.source with
  | none => false
  | some (.text s) => s ≠ ""
  | some (.bytes _) => true

end FileEntry

/-- The flags that are looked at. -/
structure OpenFlags where
  create : Bool
  directory : Bool
deriving DecidableEq, Repr

inductive FsError where
  | notDirectory
  | noEntry
  | exist
deriving DecidableEq, Repr

/-- What a path was resolved to. -/
inductive Target where
  /-- The entry under these names. -/
  | own (names : List Path)
  /-- What a directory inherits under the name. -/
  | inherited (name : Path)
deriving DecidableEq, Repr

/-- A target of a child, seen from its parent. -/
def Target.below (segment : Path) : Target → Target
  | own names => own (segment :: names)
  | inherited name => inherited name

/-- The properties of `Object.prototype`. None of them has a `dir` or a `source`. -/
def objectPrototype : List Path :=
  ["constructor".toList, "__proto__".toList, "toString".toList, "toLocaleString".toList,
    "valueOf".toList, "hasOwnProperty".toList, "isPrototypeOf".toList,
    "propertyIsEnumerable".toList, "__defineGetter__".toList, "__defineSetter__".toList,
    "__lookupGetter__".toList, "__lookupSetter__".toList]

def isInherited (segment : Path) : Bool := objectPrototype.contains segment

/-- A segment that stays where it is. -/
def Blank (segment : Path) : Prop := segment = ['.'] ∨ segment = []

instance : DecidablePred Blank := fun _ => inferInstanceAs (Decidable (_ ∨ _))

/-- What is made where nothing is found. -/
def newEntry (flags : OpenFlags) : FileEntry :=
  if flags.directory then .mk (some []) none else .mk none (some (.bytes []))

/-- The loop of `getChildEntry`, from one segment on. -/
def walk (flags : OpenFlags) : List Path → FileEntry → Except FsError Target × FileEntry
  | [], e => (.ok (.own []), e)
  | segment :: rest, e =>
    match e.dir with
    | none => (.error .notDirectory, e)
    | some dir =>
      if segment = ['.', '.'] then (.error .noEntry, e)
      else if Blank segment then walk flags rest e
      else
        match lookup dir segment with
        | some child =>
          let (result, child') := walk flags rest child
          (result.map (Target.below segment), e.withDir (alter segment (fun _ => child') dir))
        | none =>
          if isInherited segment then
            -- what is inherited is no directory
            (if rest = [] then .ok (.inherited segment) else .error .notDirectory, e)
          else if flags.create then
            let (result, child') := walk flags rest (newEntry flags)
            (result.map (Target.below segment), e.withDir (dir ++ [(segment, child')]))
          else
            -- `entry` is undefined
            (.error (if rest = [] then .noEntry else .notDirectory), e)

/-- In the root preopen `.` is the working directory. `cwd` is there in the root only. -/
def effectivePath (cwd : Option Path) (subpath : Path) : Path :=
  match cwd with
  | none => subpath
  | some cwd =>
    if subpath = ['.'] then
      if cwd.head? = some '/' ∧ cwd ≠ ['/'] then cwd.drop 1 else cwd
    else subpath

/-- The segments of a path. -/
def segments (cwd : Option Path) (subpath : Path) : List Path :=
  (effectivePath cwd subpath).splitOn '/'

def getChildEntry (parentEntry : FileEntry) (cwd : Option Path) (subpath : Path)
    (openFlags : OpenFlags) : Except FsError Target × FileEntry :=
  walk openFlags (segments cwd subpath) parentEntry

/-- The entry under these names. -/
def entryAt : List Path → FileEntry → Option FileEntry
  | [], e => some e
  | name :: names, e =>
    match e.dir with
    | none => none
    | some dir =>
      match lookup dir name with
      | none => none
      | some child => entryAt names child

inductive Op where
  | openAt (openFlags : OpenFlags)
  | createDirectoryAt
deriving DecidableEq, Repr

/-- The flags that an operation looks for its entry with. -/
def Op.flags : Op → OpenFlags
  | .openAt openFlags => openFlags
  | .createDirectoryAt => ⟨true, true⟩

/-- Whether what was found has a `source`. -/
def foundSource (e : FileEntry) : Target → Bool
  | .own names => (entryAt names e).any FileEntry.hasSource
  | .inherited _ => false

/-- `if (entry.source) { throw "exist"; }` -/
def unlessSource (outcome : Except FsError Target × FileEntry) :
    Except FsError Target × FileEntry :=
  match outcome.1 with
  | .error _ => outcome
  | .ok target => if foundSource outcome.2 target then (.error .exist, outcome.2) else outcome

/-- `openAt` and `createDirectoryAt` -/
def Op.apply (op : Op) (e : FileEntry) (cwd : Option Path) (subpath : Path) :
    Except FsError Target × FileEntry :=
  match op with
  | .openAt openFlags => getChildEntry e cwd subpath openFlags
  | .createDirectoryAt => unlessSource (getChildEntry e cwd subpath ⟨true, true⟩)

/-! ## What is promised -/

/-- The names among the segments. -/
def names (segs : List Path) : List Path := segs.filter fun segment => ¬ Blank segment

/-- The tree with an entry under these names, where its parent is a directory of the tree
that has no such member yet. -/
def insertNew (new : FileEntry) : List Path → FileEntry → Option FileEntry
  | [], _ => none
  | name :: rest, e =>
    match e.dir with
    | none => none
    | some dir =>
      match lookup dir name with
      | some child =>
        (insertNew new rest child).map fun child' => e.withDir (alter name (fun _ => child') dir)
      | none => if rest = [] then some (e.withDir (dir ++ [(name, new)])) else none

/-- What is promised of a path with the given segments. A failure leaves the tree as it is;
otherwise the target is the entry under the names of the path, it is in the tree, and the
tree is as it was or has that one entry more. -/
def Right (flags : OpenFlags) (segs : List Path) (e : FileEntry)
    (outcome : Except FsError Target × FileEntry) : Prop :=
  match outcome with
  | (.error _, e') => e' = e
  | (.ok target, e') =>
    target = .own (names segs) ∧ (entryAt (names segs) e').isSome = true ∧
      (e' = e ∨ flags.create = true ∧ insertNew (newEntry flags) (names segs) e = some e')

/-- The first segment that is no member of the tree is the last if it is made as a file,
is followed by blanks only if it is made as a directory, and is not the last if it is
inherited. -/
def Ok (flags : OpenFlags) : List Path → FileEntry → Prop
  | [], _ => True
  | segment :: rest, e =>
    match e.dir with
    | none => True
    | some dir =>
      if segment = ['.', '.'] then True
      else if Blank segment then Ok flags rest e
      else
        match lookup dir segment with
        | some child => Ok flags rest child
        | none =>
          if isInherited segment then rest ≠ []
          else if flags.create then
            if flags.directory then ∀ s ∈ rest, Blank s else rest = []
          else True

/-! ## One segment -/

section Segment

variable {flags : OpenFlags} {segment : Path} {rest : List Path} {e child child' : FileEntry}
  {dir : List (Path × FileEntry)} {outcome : Except FsError Target × FileEntry}

@[simp] theorem dir_withDir (e : FileEntry) (dir : List (Path × FileEntry)) :
    (e.withDir dir).dir = some dir := rfl

theorem withDir_self (hdir : e.dir = some dir) : e.withDir dir = e := by
  cases e with
  | mk d source =>
    cases hdir
    rfl

theorem withDir_inj {dir' : List (Path × FileEntry)} (h : e.withDir dir = e.withDir dir') :
    dir = dir' := by
  have hdir := congrArg FileEntry.dir h
  exact Option.some.inj hdir

/-- A row that is replaced by itself. -/
theorem alter_self (hchild : lookup dir segment = some child) :
    alter segment (fun _ => child) dir = dir := by
  induction dir with
  | nil => cases hchild
  | cons row dir ih =>
    rw [lookup_cons] at hchild
    by_cases hrow : row.1 = segment
    · rw [if_pos hrow] at hchild
      cases hchild
      rw [alter, if_pos hrow, ← hrow]
    · rw [if_neg hrow] at hchild
      rw [alter, if_neg hrow, ih hchild]

/-- The parent has changed exactly where the child has. -/
theorem withDir_alter_eq_iff (hdir : e.dir = some dir) (hchild : lookup dir segment = some child) :
    e.withDir (alter segment (fun _ => child') dir) = e ↔ child' = child := by
  constructor
  · intro h
    have halter : alter segment (fun _ => child') dir = dir :=
      withDir_inj (e := e) (h.trans (withDir_self hdir).symm)
    have hlookup := lookup_alter_self segment (fun _ => child') dir
    rw [halter, hchild] at hlookup
    exact (Option.some.inj hlookup).symm
  · rintro rfl
    rw [alter_self hchild, withDir_self hdir]

/-- A directory with one child more is another one. -/
theorem withDir_append_ne (hdir : e.dir = some dir) :
    e.withDir (dir ++ [(segment, child)]) ≠ e := by
  intro h
  have happend := withDir_inj (e := e) (h.trans (withDir_self hdir).symm)
  have hlen := congrArg List.length happend
  rw [List.length_append] at hlen
  simp at hlen

theorem names_blank (hblank : Blank segment) : names (segment :: rest) = names rest := by
  unfold names
  rw [List.filter_cons_of_neg (by simpa using hblank)]

theorem names_cons (hblank : ¬ Blank segment) :
    names (segment :: rest) = segment :: names rest := by
  unfold names
  rw [List.filter_cons_of_pos (by simpa using hblank)]

theorem names_eq_nil_iff : names rest = [] ↔ ∀ s ∈ rest, Blank s := by
  unfold names
  simp [List.filter_eq_nil_iff]

theorem blank_ne_dots (hblank : Blank segment) : segment ≠ ['.', '.'] := by
  rintro rfl
  revert hblank
  decide

/-- Only blanks are left: what is made stays as it is. -/
theorem walk_blank (hdir : e.dir = some dir) (hblank : ∀ s ∈ rest, Blank s) :
    walk flags rest e = (.ok (.own []), e) := by
  induction rest with
  | nil => rfl
  | cons s rest ih =>
    rcases List.forall_mem_cons.1 hblank with ⟨hs, hrest⟩
    rw [walk, hdir]
    simp only [if_neg (blank_ne_dots hs), if_pos hs]
    exact ih hrest

/-- A child is to be judged as its parent is. -/
theorem right_child (hblank : ¬ Blank segment) (hdir : e.dir = some dir)
    (hchild : lookup dir segment = some child) :
    Right flags (segment :: rest) e (outcome.1.map (Target.below segment),
        e.withDir (alter segment (fun _ => outcome.2) dir)) ↔
      Right flags rest child outcome := by
  rcases outcome with ⟨result, child'⟩
  cases result with
  | error err => exact withDir_alter_eq_iff hdir hchild
  | ok target =>
    have htarget : Target.below segment target = .own (segment :: names rest) ↔
        target = .own (names rest) := by
      cases target with
      | own ns => simp [Target.below]
      | inherited n => simp [Target.below]
    have hentry : entryAt (segment :: names rest)
        (e.withDir (alter segment (fun _ => child') dir)) = entryAt (names rest) child' := by
      simp only [entryAt, dir_withDir, lookup_alter_self]
    have hinsert : insertNew (newEntry flags) (segment :: names rest) e =
          some (e.withDir (alter segment (fun _ => child') dir)) ↔
        insertNew (newEntry flags) (names rest) child = some child' := by
      simp only [insertNew, hdir, hchild, Option.map_eq_some_iff]
      constructor
      · rintro ⟨c, hc, heq⟩
        have halter := withDir_inj heq
        have hlookup := lookup_alter_self segment (fun _ => child') dir
        rw [← halter, lookup_alter_self] at hlookup
        cases Option.some.inj hlookup
        exact hc
      · intro hc
        exact ⟨child', hc, rfl⟩
    simp only [Right, Except.map, names_cons hblank, htarget, hentry, hinsert,
      withDir_alter_eq_iff hdir hchild]

theorem lookup_append_new (hnone : lookup dir segment = none) :
    lookup (dir ++ [(segment, child)]) segment = some child := by
  induction dir with
  | nil => simp [lookup_cons]
  | cons row dir ih =>
    rw [lookup_cons] at hnone
    rw [List.cons_append, lookup_cons]
    by_cases hrow : row.1 = segment
    · rw [if_pos hrow] at hnone
      cases hnone
    · rw [if_neg hrow] at hnone ⊢
      exact ih hnone

/-- What may follow a segment that is made. -/
def MakesLast (flags : OpenFlags) (rest : List Path) : Prop :=
  if flags.directory then ∀ s ∈ rest, Blank s else rest = []

theorem MakesLast.walk_new (h : MakesLast flags rest) :
    walk flags rest (newEntry flags) = (.ok (.own []), newEntry flags) ∧ names rest = [] := by
  unfold MakesLast at h
  cases hdirectory : flags.directory with
  | true =>
    rw [if_pos hdirectory] at h
    have hdir : (newEntry flags).dir = some [] := by simp [newEntry, hdirectory, FileEntry.dir]
    exact ⟨walk_blank hdir h, names_eq_nil_iff.2 h⟩
  | false =>
    rw [if_neg (by simp [hdirectory])] at h
    subst h
    exact ⟨rfl, rfl⟩

/-- Otherwise a file is taken for a directory, or there are more names. -/
theorem not_makesLast (h : ¬ MakesLast flags rest) :
    (walk flags rest (newEntry flags)).1 = .error .notDirectory ∨ names rest ≠ [] := by
  unfold MakesLast at h
  cases hdirectory : flags.directory with
  | true =>
    rw [if_pos hdirectory] at h
    exact .inr fun hnil => h (names_eq_nil_iff.1 hnil)
  | false =>
    rw [if_neg (by simp [hdirectory])] at h
    cases rest with
    | nil => exact absurd rfl h
    | cons s rest =>
      left
      have hdir : (newEntry flags).dir = none := by simp [newEntry, hdirectory, FileEntry.dir]
      simp only [walk, hdir]

theorem create_right_iff (hblank : ¬ Blank segment) (hdir : e.dir = some dir)
    (hnone : lookup dir segment = none) (hcreate : flags.create = true) :
    Right flags (segment :: rest) e
        ((walk flags rest (newEntry flags)).1.map (Target.below segment),
          e.withDir (dir ++ [(segment, (walk flags rest (newEntry flags)).2)])) ↔
      MakesLast flags rest := by
  constructor
  · intro hright
    by_contra hnot
    have hmore := not_makesLast hnot
    revert hright
    cases hresult : (walk flags rest (newEntry flags)).1 with
    | error err => exact withDir_append_ne hdir
    | ok target =>
      have hnames : names rest ≠ [] := by
        rcases hmore with herror | hnames
        · cases hresult.symm.trans herror
        · exact hnames
      rintro ⟨-, -, hsame | ⟨-, hinsert⟩⟩
      · exact withDir_append_ne hdir hsame
      · -- the parent of the last name is not there
        rw [names_cons hblank] at hinsert
        simp only [insertNew, hdir, hnone, if_neg hnames] at hinsert
        cases hinsert
  · intro hlast
    rcases hlast.walk_new with ⟨hwalk, hnames⟩
    rw [hwalk]
    refine ⟨?_, ?_, .inr ⟨hcreate, ?_⟩⟩
    · rw [names_cons hblank, hnames]
      rfl
    · rw [names_cons hblank, hnames]
      simp only [entryAt, dir_withDir, lookup_append_new hnone, Option.isSome_some]
    · rw [names_cons hblank, hnames]
      simp only [insertNew, hdir, hnone, if_true]

end Segment

/-! ## Every path -/

theorem walk_right_iff (flags : OpenFlags) (segs : List Path) (e : FileEntry) :
    Right flags segs e (walk flags segs e) ↔ Ok flags segs e := by
  induction segs generalizing e with
  | nil => exact iff_of_true ⟨rfl, rfl, .inl rfl⟩ trivial
  | cons segment rest ih =>
    cases hdir : e.dir with
    | none =>
      simp only [walk, Ok, hdir]
      exact iff_of_true rfl trivial
    | some dir =>
      by_cases hdots : segment = ['.', '.']
      · simp only [walk, Ok, hdir, if_pos hdots]
        exact iff_of_true rfl trivial
      by_cases hblank : Blank segment
      · simp only [walk, Ok, hdir, if_neg hdots, if_pos hblank]
        rw [← ih e]
        unfold Right
        rw [names_blank hblank]
      cases hchild : lookup dir segment with
      | some child =>
        simp only [walk, Ok, hdir, if_neg hdots, if_neg hblank, hchild]
        rw [← ih child]
        exact right_child hblank hdir hchild
      | none =>
        by_cases hinherited : isInherited segment = true
        · simp only [walk, Ok, hdir, if_neg hdots, if_neg hblank, hchild, if_pos hinherited]
          by_cases hlast : rest = []
          · rw [if_pos hlast]
            refine iff_of_false ?_ (fun hne => hne hlast)
            rintro ⟨hown, -⟩
            cases hown
          · rw [if_neg hlast]
            exact iff_of_true rfl hlast
        · by_cases hcreate : flags.create = true
          · simp only [walk, Ok, hdir, if_neg hdots, if_neg hblank, hchild, if_neg hinherited,
              if_pos hcreate]
            exact create_right_iff hblank hdir hchild hcreate
          · simp only [walk, Ok, hdir, if_neg hdots, if_neg hblank, hchild, if_neg hinherited,
              if_neg hcreate]
            exact iff_of_true rfl trivial

/-- Whatever is found is what the names stand for, unless it is inherited. -/
theorem walk_target (flags : OpenFlags) (segs : List Path) (e : FileEntry) (target : Target)
    (hok : (walk flags segs e).1 = .ok target) :
    target = .own (names segs) ∧ (entryAt (names segs) (walk flags segs e).2).isSome = true ∨
      ∃ name, target = .inherited name := by
  induction segs generalizing e target with
  | nil =>
    cases hok
    exact .inl ⟨rfl, rfl⟩
  | cons segment rest ih =>
    cases hdir : e.dir with
    | none =>
      simp only [walk, hdir] at hok
      cases hok
    | some dir =>
      by_cases hdots : segment = ['.', '.']
      · simp only [walk, hdir, if_pos hdots] at hok
        cases hok
      by_cases hblank : Blank segment
      · simp only [walk, hdir, if_neg hdots, if_pos hblank] at hok ⊢
        rw [names_blank hblank]
        exact ih e target hok
      -- a child that is found or made answers for its parent
      have hbelow (child : FileEntry) (dir' : FileEntry → List (Path × FileEntry))
          (hlookup : ∀ c, lookup (dir' c) segment = some c)
          (hresult : (walk flags rest child).1.map (Target.below segment) = .ok target) :
          target = .own (segment :: names rest) ∧
              (entryAt (segment :: names rest)
                (e.withDir (dir' (walk flags rest child).2))).isSome = true ∨
            ∃ name, target = .inherited name := by
        cases hchild : (walk flags rest child).1 with
        | error err =>
          rw [hchild] at hresult
          cases hresult
        | ok found =>
          rw [hchild] at hresult
          cases hresult
          rcases ih child found hchild with ⟨rfl, hsome⟩ | ⟨name, rfl⟩
          · refine .inl ⟨rfl, ?_⟩
            simpa only [entryAt, dir_withDir, hlookup] using hsome
          · exact .inr ⟨name, rfl⟩
      cases hchild : lookup dir segment with
      | some child =>
        simp only [walk, hdir, if_neg hdots, if_neg hblank, hchild] at hok ⊢
        rw [names_cons hblank]
        exact hbelow child (fun c => alter segment (fun _ => c) dir)
          (fun c => lookup_alter_self segment (fun _ => c) dir) hok
      | none =>
        by_cases hinherited : isInherited segment = true
        · simp only [walk, hdir, if_neg hdots, if_neg hblank, hchild, if_pos hinherited] at hok
          by_cases hlast : rest = []
          · rw [if_pos hlast] at hok
            cases hok
            exact .inr ⟨segment, rfl⟩
          · rw [if_neg hlast] at hok
            cases hok
        · by_cases hcreate : flags.create = true
          · simp only [walk, hdir, if_neg hdots, if_neg hblank, hchild, if_neg hinherited,
              if_pos hcreate] at hok ⊢
            rw [names_cons hblank]
            exact hbelow (newEntry flags) (fun c => dir ++ [(segment, c)])
              (fun _ => lookup_append_new hchild) hok
          · simp only [walk, hdir, if_neg hdots, if_neg hblank, hchild, if_neg hinherited,
              if_neg hcreate] at hok
            cases hok

/-- What was inserted stands under its names. -/
theorem entryAt_insertNew {new : FileEntry} {ns : List Path} {e e' : FileEntry}
    (h : insertNew new ns e = some e') : entryAt ns e' = some new := by
  induction ns generalizing e e' with
  | nil => cases h
  | cons name rest ih =>
    cases hdir : e.dir with
    | none =>
      simp only [insertNew, hdir] at h
      cases h
    | some dir =>
      cases hchild : lookup dir name with
      | some child =>
        simp only [insertNew, hdir, hchild] at h
        rcases Option.map_eq_some_iff.1 h with ⟨child', hinsert, rfl⟩
        simp only [entryAt, dir_withDir, lookup_alter_self]
        exact ih hinsert
      | none =>
        simp only [insertNew, hdir, hchild] at h
        by_cases hrest : rest = []
        · rw [if_pos hrest] at h
          cases h
          subst hrest
          simp only [entryAt, dir_withDir, lookup_append_new hchild]
        · rw [if_neg hrest] at h
          cases h

/-- A file that is in the way is reported before anything is made. -/
theorem unlessSource_right_iff {flags : OpenFlags} {segs : List Path} {e : FileEntry}
    (hdirectory : flags.directory = true) :
    Right flags segs e (unlessSource (walk flags segs e)) ↔
      Right flags segs e (walk flags segs e) := by
  have htarget := walk_target flags segs e
  rcases hwalk : walk flags segs e with ⟨result, e'⟩
  rw [hwalk] at htarget
  cases result with
  | error err => rfl
  | ok target =>
    by_cases hsource : foundSource e' target = true
    · simp only [unlessSource, if_pos hsource]
      rcases htarget target rfl with ⟨rfl, hsome⟩ | ⟨name, rfl⟩
      · constructor
        · intro hsame
          exact ⟨rfl, hsome, .inl hsame⟩
        · rintro ⟨-, -, hsame | ⟨-, hinsert⟩⟩
          · exact hsame
          · -- a new directory has no source
            unfold foundSource at hsource
            simp only [entryAt_insertNew hinsert, newEntry, hdirectory, if_true] at hsource
            cases hsource
      · cases hsource
    · simp only [unlessSource, if_neg hsource]

/-- `openAt` and `createDirectoryAt` do what is promised exactly where the first segment
that is no member of the tree meets the condition. -/
theorem apply_right_iff (op : Op) (e : FileEntry) (cwd : Option Path) (subpath : Path) :
    Right op.flags (segments cwd subpath) e (op.apply e cwd subpath) ↔
      Ok op.flags (segments cwd subpath) e := by
  rw [← walk_right_iff]
  cases op with
  | openAt openFlags => rfl
  | createDirectoryAt => exact unlessSource_right_iff rfl

/-- The path of a file below a directory that is missing. -/
def missingParent : Path := "a/b".toList

/-- The file `a` is made on the way, and the open fails. -/
theorem openAt_leaves_file :
    ¬ Right ⟨true, false⟩ (segments none missingParent) (.mk (some []) none)
      ((Op.openAt ⟨true, false⟩).apply (.mk (some []) none) none missingParent) := by
  intro hright
  have hdir := congrArg (fun e : FileEntry => e.dir.map List.length) hright
  revert hdir
  decide

end Jco.Filesystem.BrowserTree

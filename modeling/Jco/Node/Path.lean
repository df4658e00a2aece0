import Mathlib
import Jco.Filesystem.FullPath
import Jco.Js.Basic

/-! # Paths of `node:path`

`posix.resolve` and `posix.relative`, and what they promise: resolving is one `cd` after
another, and the relative path leads from the one place to the other.
-/

namespace Jco.Node

open Jco.Filesystem (Path noSeparator_of_mem_splitOnP)
open Jco.Js (JsError)
open List

/-! ## The functions -/

/-- The segment `..`. -/
def dotDot : Path := ['.', '.']

/-- One turn of the loop of `normalizeParts`. -/
def normalizePart (allowAboveRoot : Bool) (parts : List Path) (part : Path) : List Path :=
  if part = [] ∨ part = ['.'] then parts
  else if part = dotDot then
    if parts ≠ [] ∧ parts.getLast? ≠ some dotDot then parts.dropLast
    else if allowAboveRoot then parts ++ [dotDot]
    else parts
  else parts ++ [part]

def normalizeParts (path : Path) (allowAboveRoot : Bool) (separator : Char)
    (isSeparator : Char → Bool) : Path :=
  [separator].intercalate
    ((path.splitOnP isSeparator).foldl (normalizePart allowAboveRoot) [])

def posixSeparator (c : Char) : Bool := c == '/'

structure PathProviders where
  initialCwd : Option Path

def cwd (providers : PathProviders) : Except JsError Path :=
  match providers.initialCwd with
  | none => .error (.error "node:path requires wasi:cli/environment initial-cwd")
  | some value => .ok value

def isAbsolute (path : Path) : Bool := path.head? = some '/'

/-- The loop of `resolve` over the paths that are left, the last one first. Behind them
comes the working directory. -/
def resolveFrom (providers : PathProviders) : List Path → Path → Except JsError (Path × Bool)
  | [], resolved => do
      let path ← cwd providers
      if path = [] then return (resolved, false)
      else return (path ++ '/' :: resolved, isAbsolute path)
  | path :: paths, resolved =>
    if path = [] then resolveFrom providers paths resolved
    else if isAbsolute path then .ok (path ++ '/' :: resolved, true)
    else resolveFrom providers paths (path ++ '/' :: resolved)

def resolve (providers : PathProviders) (paths : List Path) : Except JsError Path := do
  let (resolved, absolute) ← resolveFrom providers paths.reverse []
  let normalized := normalizeParts resolved (!absolute) '/' posixSeparator
  if absolute then return '/' :: normalized
  else return if normalized = [] then ['.'] else normalized

/-- `while (i < af.length && af[i] === bf[i]) i++` -/
def commonSegments : List Path → List Path → Nat
  | a :: af, b :: bf => if a = b then commonSegments af bf + 1 else 0
  | _, _ => 0

/-- The path that `relative` puts together from the segments of both paths. -/
def relativeText (af bf : List Path) : Path :=
  let i := commonSegments af bf
  ['/'].intercalate ((af.drop i).map (fun _ => dotDot) ++ bf.drop i)

def relative (providers : PathProviders) (fromPath toPath : Path) : Except JsError Path := do
  let a ← resolve providers [fromPath]
  let b ← resolve providers [toPath]
  if a = b then return []
  else return relativeText ((a.drop 1).splitOn '/') ((b.drop 1).splitOn '/')

/-! ## Places -/

/-- A segment that goes down. -/
def IsName (part : Path) : Prop := part ≠ [] ∧ part ≠ ['.'] ∧ part ≠ dotDot ∧ '/' ∉ part

/-- The names on the way down from the root. -/
def IsPlace (place : List Path) : Prop := ∀ name ∈ place, IsName name

/-- One segment on the way: it stays, goes up or goes down, and from the root it goes up to the
root. -/
def step (place : List Path) (part : Path) : List Path :=
  if part = [] ∨ part = ['.'] then place
  else if part = dotDot then place.dropLast
  else place ++ [part]

/-- Where segments lead. -/
def follow (place parts : List Path) : List Path := parts.foldl step place

/-- An absolute path starts over. -/
def cd (place : List Path) (path : Path) : List Path :=
  follow (if isAbsolute path then [] else place) (path.splitOn '/')

def placeText (place : List Path) : Path := '/' :: ['/'].intercalate place

variable {place parts : List Path} {path part name : Path} {providers : PathProviders}

theorem step_name (place : List Path) (h : IsName name) : step place name = place ++ [name] := by
  rw [step, if_neg (not_or.2 ⟨h.1, h.2.1⟩), if_neg h.2.2.1]

theorem step_up (place : List Path) : step place dotDot = place.dropLast := by
  rw [step, if_neg (by decide), if_pos rfl]

theorem isPlace_step (h : IsPlace place) (hpart : '/' ∉ part) : IsPlace (step place part) := by
  by_cases hempty : part = [] ∨ part = ['.']
  · rwa [step, if_pos hempty]
  · by_cases hup : part = dotDot
    · rw [hup, step_up]
      exact fun name hmem => h name (mem_of_mem_dropLast hmem)
    · have hname : IsName part := ⟨mt .inl hempty, mt .inr hempty, hup, hpart⟩
      rw [step_name place hname]
      simpa [IsPlace, or_imp, forall_and, hname] using h

theorem isPlace_follow (h : IsPlace place) (hparts : ∀ part ∈ parts, '/' ∉ part) :
    IsPlace (follow place parts) := by
  induction parts generalizing place with
  | nil => exact h
  | cons part parts ih =>
    obtain ⟨hpart, hrest⟩ := forall_mem_cons.1 hparts
    exact ih (isPlace_step h hpart) hrest

/-- At a place, a turn of the loop is a step: no `..` is left that could be in the way. -/
theorem normalizePart_eq (h : IsPlace place) (part : Path) :
    normalizePart false place part = step place part := by
  unfold normalizePart step
  rcases eq_nil_or_concat place with rfl | ⟨init, last, rfl⟩
  · simp
  · have hlast : last ≠ dotDot := (h last (by simp)).2.2.1
    simp [hlast]

theorem foldl_normalizePart (h : IsPlace place) (hparts : ∀ part ∈ parts, '/' ∉ part) :
    parts.foldl (normalizePart false) place = follow place parts := by
  induction parts generalizing place with
  | nil => rfl
  | cons part parts ih =>
    obtain ⟨hpart, hrest⟩ := forall_mem_cons.1 hparts
    rw [foldl_cons, normalizePart_eq h]
    exact ih (isPlace_step h hpart) hrest

theorem slash_notMem_splitOn (path : Path) : ∀ part ∈ path.splitOn '/', '/' ∉ part := by
  intro part hmem hin
  cases noSeparator_of_mem_splitOnP hmem _ hin

theorem isPlace_cd (h : IsPlace place) (path : Path) : IsPlace (cd place path) := by
  refine isPlace_follow ?_ (slash_notMem_splitOn path)
  split_ifs
  · exact fun _ hmem => nomatch hmem
  · exact h

theorem follow_names (place : List Path) {names : List Path} (h : IsPlace names) :
    follow place names = place ++ names := by
  induction names generalizing place with
  | nil => exact (append_nil place).symm
  | cons name names ih =>
    obtain ⟨hname, hrest⟩ := forall_mem_cons.1 h
    rw [follow, foldl_cons, step_name place hname]
    exact (ih _ hrest).trans (append_assoc ..)

theorem follow_ups (h : IsPlace place) (k : Nat) :
    follow place (replicate k dotDot) = place.take (place.length - k) := by
  induction k generalizing place with
  | zero => exact (take_length ..).symm
  | succ k ih =>
    rw [replicate_succ, follow, foldl_cons, step_up, ← follow,
      ih fun name hmem => h name (mem_of_mem_dropLast hmem), dropLast_eq_take, take_take,
      length_take]
    congr 1
    omega

theorem follow_splitOn_append (place : List Path) (a b : Path) :
    follow place ((a ++ '/' :: b).splitOn '/') =
      follow (follow place (a.splitOn '/')) (b.splitOn '/') := by
  rw [splitOn_append_cons_self, follow, foldl_append, follow, follow]

theorem cd_relative (place : List Path) (habs : isAbsolute path ≠ true) :
    cd place path = follow place (path.splitOn '/') := by
  rw [cd, if_neg habs]

theorem cd_nil (place : List Path) : cd place [] = place := by
  rw [cd_relative place (by decide)]
  rfl

theorem cd_placeText (h : IsPlace place) (other : List Path) :
    cd other (placeText place) = place := by
  have habs : isAbsolute (placeText place) = true := rfl
  have htext := follow_splitOn_append [] [] (['/'].intercalate place)
  rw [cd, if_pos habs, placeText]
  refine htext.trans ?_
  by_cases hnil : place = []
  · rw [hnil]
    rfl
  · rw [splitOn_intercalate '/' (fun name hmem => (h name hmem).2.2.2) hnil]
    exact follow_names [] h

/-! ## Resolving -/

/-- There is a place to start from: an absolute path or an absolute working directory. -/
def Anchored (providers : PathProviders) (paths : List Path) : Prop :=
  (∃ dir, providers.initialCwd = some dir ∧ isAbsolute dir = true) ∨
    ∃ path ∈ paths, isAbsolute path = true

/-- Where resolving starts, the root if there is no working directory. -/
def start (providers : PathProviders) : List Path := (providers.initialCwd.map (cd [])).getD []

theorem isPlace_start (providers : PathProviders) : IsPlace (start providers) := by
  have hroot : IsPlace [] := fun _ hmem => nomatch hmem
  unfold start
  cases providers.initialCwd with
  | none => exact hroot
  | some dir => exact isPlace_cd hroot dir

/-- What the loop has gathered is followed from where the paths that are left lead, one
`cd` after another. -/
theorem resolveFrom_spec {paths : List Path} (h : Anchored providers paths) (resolved : Path) :
    ∃ whole, resolveFrom providers paths resolved = .ok (whole, true) ∧
      follow [] (whole.splitOn '/') =
        follow (paths.foldr (fun path place => cd place path) (start providers))
          (resolved.splitOn '/') := by
  have hstart : ∀ {path resolved : Path} (place : List Path), isAbsolute path = true →
      follow [] ((path ++ '/' :: resolved).splitOn '/') =
        follow (cd place path) (resolved.splitOn '/') := by
    intro path resolved place habs
    rw [follow_splitOn_append, cd, if_pos habs]
  -- from the right: an absolute path ends the walk, a relative one waits for its place
  induction paths generalizing resolved with
  | nil =>
    rcases h with ⟨dir, hcwd, hdir⟩ | ⟨path, hmem, -⟩
    · have hne : dir ≠ [] := by rintro rfl; cases hdir
      refine ⟨dir ++ '/' :: resolved, ?_, ?_⟩
      · rw [resolveFrom, cwd, hcwd]
        change (if dir = [] then _ else _) = _
        rw [if_neg hne, hdir]
        rfl
      · rw [foldr_nil, start, hcwd]
        exact hstart [] hdir
    · cases hmem
  | cons path paths ih =>
    have hrest : isAbsolute path ≠ true → Anchored providers paths := fun hrel => by
      simpa [Anchored, hrel] using h
    rw [resolveFrom, foldr_cons]
    split_ifs with hnil habs
    · rw [hnil, cd_nil]
      exact ih (hrest (by rw [hnil]; decide)) resolved
    · exact ⟨_, rfl, hstart _ habs⟩
    · obtain ⟨whole, hok, hplace⟩ := ih (hrest habs) (path ++ '/' :: resolved)
      refine ⟨whole, hok, hplace.trans ?_⟩
      rw [follow_splitOn_append, cd_relative _ habs]

theorem resolve_eq {paths : List Path} (h : Anchored providers paths) :
    resolve providers paths = .ok (placeText (paths.foldl cd (start providers))) := by
  have hreverse : Anchored providers paths.reverse := by simpa [Anchored] using h
  obtain ⟨whole, hok, hplace⟩ := resolveFrom_spec hreverse []
  rw [foldr_reverse] at hplace
  have hnormal : normalizeParts whole false '/' posixSeparator =
      ['/'].intercalate (follow [] (whole.splitOn '/')) := by
    have hroot : IsPlace [] := fun _ hmem => nomatch hmem
    unfold normalizeParts
    rw [← foldl_normalizePart hroot (slash_notMem_splitOn whole)]
    rfl
  unfold resolve
  rw [hok]
  change Except.ok ('/' :: normalizeParts whole false '/' posixSeparator) = _
  rw [hnormal, hplace]
  rfl

theorem isPlace_foldl (h : IsPlace place) (paths : List Path) : IsPlace (paths.foldl cd place) := by
  induction paths generalizing place with
  | nil => exact h
  | cons path paths ih => exact ih (isPlace_cd h path)

/-- Resolving is one `cd` after another, and what the first paths resolve to can stand for
them in front of others. -/
theorem resolve_lawful {paths : List Path} (h : Anchored providers paths) (others : List Path) :
    IsPlace (paths.foldl cd (start providers)) ∧
      resolve providers paths = .ok (placeText (paths.foldl cd (start providers))) ∧
      resolve providers (placeText (paths.foldl cd (start providers)) :: others) =
        resolve providers (paths ++ others) := by
  have hplace := isPlace_foldl (isPlace_start providers) paths
  refine ⟨hplace, resolve_eq h, ?_⟩
  rw [resolve_eq (.inr ⟨_, mem_cons_self, rfl⟩), resolve_eq, foldl_cons, cd_placeText hplace,
    foldl_append]
  exact h.imp id fun ⟨path, hmem, habs⟩ => ⟨path, mem_append_left _ hmem, habs⟩

def workspace : PathProviders := ⟨some ['/', 'a']⟩

theorem resolve_lawful_dotDot :
    IsPlace [['b']] ∧ resolve workspace [dotDot, ['b']] = .ok ['/', 'b'] ∧
      resolve workspace [['/', 'b'], ['c']] = resolve workspace [dotDot, ['b'], ['c']] :=
  @resolve_lawful workspace [dotDot, ['b']] (.inl ⟨_, rfl, rfl⟩) [['c']]

/-! ## Relating -/

/-- The segments of the text of a place, of which the root has one that is empty. -/
def slots (place : List Path) : List Path := if place = [] then [[]] else place

theorem splitOn_placeText (h : IsPlace place) :
    ((placeText place).drop 1).splitOn '/' = slots place := by
  unfold slots
  split_ifs with hnil
  · rw [hnil]
    rfl
  · exact splitOn_intercalate '/' (fun name hmem => (h name hmem).2.2.2) hnil

theorem follow_slots (place : List Path) (h : IsPlace parts) (i : Nat) :
    follow place ((slots parts).drop i) = place ++ parts.drop i := by
  unfold slots
  split_ifs with hnil
  · rw [hnil, drop_nil, append_nil]
    cases i with
    | zero => rfl
    | succ i => rw [drop_succ_cons, drop_nil]; rfl
  · exact follow_names place fun name hmem => h name (mem_of_mem_drop hmem)

theorem commonSegments_spec (af bf : List Path) :
    commonSegments af bf ≤ af.length ∧
      af.take (commonSegments af bf) = bf.take (commonSegments af bf) := by
  fun_induction commonSegments af bf with
  | case1 a af bf ih =>
    exact ⟨Nat.succ_le_succ ih.1, by rw [take_succ_cons, take_succ_cons, ih.2]⟩
  | case2 | case3 => exact ⟨Nat.zero_le _, rfl⟩

/-- Going up from `a` past the segments in common leaves these, and there is a way to go
unless the two are the same. -/
theorem commonSegments_slots {a b : List Path} (ha : IsPlace a) (hb : IsPlace b) (hne : a ≠ b)
    {i : Nat} (hi : commonSegments (slots a) (slots b) = i) :
    a.take (a.length - ((slots a).length - i)) = b.take i ∧
      (i < (slots a).length ∨ b.drop i ≠ []) := by
  cases a with
  | nil =>
    cases b with
    | nil => exact absurd rfl hne
    | cons name names =>
      have hname := (hb name mem_cons_self).1
      simp [slots, ← hi, commonSegments, hname.symm]
  | cons name names =>
    cases b with
    | nil =>
      have hname := (ha name mem_cons_self).1
      simp [slots, ← hi, commonSegments, hname]
    | cons name' names' =>
      obtain ⟨hle, htake⟩ := commonSegments_spec (name :: names) (name' :: names')
      simp only [slots, reduceCtorEq, if_false] at hi ⊢
      rw [hi] at hle htake
      refine ⟨by rwa [Nat.sub_sub_self hle], or_iff_not_imp_left.2 fun hlt hnil => hne ?_⟩
      rw [← take_append_drop i (name' :: names'), hnil, append_nil, ← htake,
        take_of_length_le (Nat.not_lt.1 hlt)]

/-- From the one place the answer leads to the other, and it is empty for the same alone. -/
theorem cd_relativeText {a b : List Path} (ha : IsPlace a) (hb : IsPlace b) (hne : a ≠ b) :
    relativeText (slots a) (slots b) ≠ [] ∧ cd a (relativeText (slots a) (slots b)) = b := by
  unfold relativeText
  generalize hi : commonSegments (slots a) (slots b) = i
  obtain ⟨htake, hway⟩ := commonSegments_slots ha hb hne hi
  dsimp only
  rw [map_const', length_drop]
  -- The first segment is `..` or a name, so the text is neither empty nor absolute.
  obtain ⟨c, cs, parts, hparts⟩ : ∃ c cs parts,
      replicate ((slots a).length - i) dotDot ++ (slots b).drop i = (c :: cs) :: parts := by
    cases hk : (slots a).length - i with
    | succ k => exact ⟨_, _, _, rfl⟩
    | zero =>
      have hdrop := hway.resolve_left (by omega)
      have hslots : slots b = b := if_neg fun h => hdrop (by rw [h, drop_nil])
      obtain ⟨name, rest, hname⟩ := exists_cons_of_ne_nil hdrop
      obtain ⟨c, cs, hcs⟩ :=
        exists_cons_of_ne_nil (hb name (mem_of_mem_drop (hname ▸ mem_cons_self))).1
      exact ⟨c, cs, rest, by rw [hslots, hname, hcs]; rfl⟩
  have hslash : ∀ part ∈ (c :: cs) :: parts, '/' ∉ part := by
    intro part hmem
    rw [← hparts] at hmem
    rcases mem_append.1 hmem with hup | hdown
    · rw [eq_of_mem_replicate hup]
      decide
    · rw [← splitOn_placeText hb] at hdown
      exact slash_notMem_splitOn _ part (mem_of_mem_drop hdown)
  rw [hparts, intercalate_cons_cons_left]
  refine ⟨cons_ne_nil _ _, ?_⟩
  have hc : c ≠ '/' := fun h => hslash _ mem_cons_self (h ▸ mem_cons_self)
  rw [cd_relative _ (by simpa [isAbsolute] using hc), ← intercalate_cons_cons_left,
    splitOn_intercalate '/' hslash (cons_ne_nil _ _), ← hparts, follow, foldl_append, ← follow,
    ← follow, follow_ups ha, htake, follow_slots _ hb, take_append_drop]

/-- From `fromPath` the answer of `relative` leads to `toPath`, and it is empty exactly if
the two are the same place. -/
theorem relative_lawful {fromPath toPath : Path} (hfrom : Anchored providers [fromPath])
    (hto : Anchored providers [toPath]) :
    ∃ path, relative providers fromPath toPath = .ok path ∧
      resolve providers [fromPath, path] = resolve providers [toPath] ∧
      (path = [] ↔ resolve providers [fromPath] = resolve providers [toPath]) := by
  have hboth : ∀ path, Anchored providers [fromPath, path] := fun path =>
    hfrom.imp id fun ⟨q, hmem, habs⟩ => ⟨q, mem_append_left [path] hmem, habs⟩
  simp only [resolve_eq, hfrom, hto, hboth, foldl_cons, foldl_nil, relative]
  have ha := isPlace_cd (isPlace_start providers) fromPath
  have hb := isPlace_cd (isPlace_start providers) toPath
  generalize cd (start providers) fromPath = a at ha
  generalize cd (start providers) toPath = b at hb
  change ∃ path, (if placeText a = placeText b then (.ok [] : Except JsError Path) else
    .ok (relativeText _ _)) = _ ∧ _
  by_cases hab : a = b
  · rw [hab, if_pos rfl]
    exact ⟨[], rfl, by rw [cd_nil], iff_of_true rfl rfl⟩
  · have hne : placeText a ≠ placeText b :=
      fun h => hab ((cd_placeText ha []).symm.trans (h ▸ cd_placeText hb []))
    obtain ⟨hnil, hcd⟩ := cd_relativeText ha hb hab
    rw [if_neg hne, splitOn_placeText ha, splitOn_placeText hb]
    exact ⟨_, rfl, by rw [hcd], iff_of_false hnil fun h => hne (Except.ok.inj h)⟩

theorem relative_lawful_root :
    ∃ path, relative workspace ['.'] ['/'] = .ok path ∧
      resolve workspace [['.'], path] = resolve workspace [['/']] ∧
      (path = [] ↔ resolve workspace [['.']] = resolve workspace [['/']]) :=
  relative_lawful (.inl ⟨_, rfl, rfl⟩) (.inl ⟨_, rfl, rfl⟩)

end Jco.Node

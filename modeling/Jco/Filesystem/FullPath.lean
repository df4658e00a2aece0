import Jco.Filesystem.Path
import Mathlib.Data.List.Basic

/-! # Guest paths are confined lexically

Both loops take the walk of the reference: preview3 part by part, preview2 from
the start of one segment to the start of the next. What they put in front of
the segments is the base only for some descriptors.
-/

namespace Jco.Filesystem

open Jco.Lib List Move Preview2

/-! ## Splitting -/

/-- What both shims read: one kind of slash, none after another. -/
def normalise (subpath : Path) : Path := collapseSlashes (replaceBackslashes subpath)

/-- No slash follows another. -/
def NoDouble (s : Path) : Prop := ¬ ['/', '/'] <:+: s

theorem splitOn_replaceBackslashes (s : Path) :
    (replaceBackslashes s).splitOn '/' = s.splitOnP (IsSeparator ·) := by
  induction s with
  | nil => rfl
  | cons c cs ih =>
    unfold replaceBackslashes at ih ⊢
    rw [map_cons, splitOn_cons_eq_if_modifyHead, splitOnP_cons_eq_if_modifyHead, ih]
    by_cases hback : c = '\\'
    · simp [hback, IsSeparator]
    · simp [hback, IsSeparator]

/-- Collapsing drops empty parts only, and no first part. -/
theorem splitOn_collapseSlashes (s : Path) :
    ∃ part collapsed parts, (collapseSlashes s).splitOn '/' = part :: collapsed ∧
      s.splitOn '/' = part :: parts ∧ collapsed.filterMap move = parts.filterMap move := by
  induction s with
  | nil => exact ⟨[], [], [], rfl, rfl, rfl⟩
  | cons c cs ih =>
    obtain ⟨part, collapsed, parts, hcollapsed, hparts, heq⟩ := ih
    by_cases hslash : c = '/'
    · subst hslash
      by_cases hnext : cs.head? = some '/'
      · -- the slash goes: the part between it and the next one is empty
        obtain ⟨rest, rfl⟩ : ∃ rest, cs = '/' :: rest := by
          cases cs with
          | nil => simp at hnext
          | cons d rest => exact ⟨rest, by simpa using hnext⟩
        have hempty : part = [] := by
          rw [splitOn_cons_eq_if_modifyHead, if_pos (by simp)] at hparts
          exact (List.cons.inj hparts).1.symm
        refine ⟨part, collapsed, part :: parts, ?_, ?_, ?_⟩
        · rw [collapseSlashes, if_pos ⟨rfl, hnext⟩, hcollapsed]
        · rw [splitOn_cons_eq_if_modifyHead, if_pos (by simp), hparts, hempty]
        · rw [filterMap_cons, hempty, heq]
          simp [move]
      · refine ⟨[], part :: collapsed, part :: parts, ?_, ?_, ?_⟩
        · rw [collapseSlashes, if_neg (by simp [hnext]), splitOn_cons_eq_if_modifyHead,
            if_pos (by simp), hcollapsed]
        · rw [splitOn_cons_eq_if_modifyHead, if_pos (by simp), hparts]
        · rw [filterMap_cons, filterMap_cons, heq]
    · refine ⟨c :: part, collapsed, parts, ?_, ?_, heq⟩
      · rw [collapseSlashes, if_neg (by simp [hslash]), splitOn_cons_eq_if_modifyHead,
          if_neg (by simp [hslash]), hcollapsed, modifyHead_cons]
      · rw [splitOn_cons_eq_if_modifyHead, if_neg (by simp [hslash]), hparts,
          modifyHead_cons]

theorem moves_normalise (subpath : Path) :
    ((normalise subpath).splitOn '/').filterMap move = moves subpath := by
  obtain ⟨part, collapsed, parts, hcollapsed, hparts, heq⟩ :=
    splitOn_collapseSlashes (replaceBackslashes subpath)
  unfold normalise moves
  rw [← splitOn_replaceBackslashes, hcollapsed, hparts, filterMap_cons, filterMap_cons,
    heq]

theorem head?_collapseSlashes (s : Path) : (collapseSlashes s).head? = s.head? := by
  induction s with
  | nil => rfl
  | cons c cs ih =>
    unfold collapseSlashes
    split
    next h => rw [ih, h.2, List.head?_cons, h.1]
    next => rfl

theorem head?_normalise (subpath : Path) :
    (normalise subpath).head? = some '/' ↔ Absolute subpath := by
  unfold normalise
  rw [head?_collapseSlashes]
  cases subpath with
  | nil => simp [replaceBackslashes, Absolute]
  | cons c cs =>
    by_cases hback : c = '\\'
    · simp [replaceBackslashes, Absolute, IsSeparator, hback]
    · simp [replaceBackslashes, Absolute, IsSeparator, hback]

theorem normalise_eq_nil (subpath : Path) : normalise subpath = [] ↔ subpath = [] := by
  have hhead : (normalise subpath).head? = (replaceBackslashes subpath).head? :=
    head?_collapseSlashes _
  rw [← List.head?_eq_none_iff, hhead, List.head?_eq_none_iff]
  simp [replaceBackslashes]

theorem noDouble_collapseSlashes (s : Path) : NoDouble (collapseSlashes s) := by
  induction s with
  | nil => simp [NoDouble, collapseSlashes]
  | cons c cs ih =>
    unfold collapseSlashes
    split
    next => exact ih
    next h =>
      unfold NoDouble at ih ⊢
      rw [infix_cons_iff]
      rintro (hfront | hinner)
      · -- a double slash in front is the case that was taken out
        obtain ⟨hc, hrest⟩ := cons_prefix_cons.mp hfront
        refine h ⟨hc.symm, ?_⟩
        obtain ⟨rest, hrest⟩ := hrest
        rw [← head?_collapseSlashes, ← hrest]
        rfl
      · exact ih hinner

theorem collapseSlashes_of_noDouble {s : Path} (h : NoDouble s) : collapseSlashes s = s := by
  induction s with
  | nil => rfl
  | cons c cs ih =>
    have htail : NoDouble cs := fun hinner => h (hinner.trans (suffix_cons c cs).isInfix)
    unfold collapseSlashes
    split
    next hdouble =>
      obtain ⟨hc, hhead⟩ := hdouble
      cases cs with
      | nil => simp at hhead
      | cons d rest =>
        have hd : d = '/' := by simpa using hhead
        exact absurd ⟨[], rest, by simp [hc, hd]⟩ h
    next => rw [ih htail]

/-! ## The loop of preview3 -/

theorem preview3_resolve_eq (segments parts : List Path) :
    Preview3.resolve segments parts =
      (walk segments (parts.filterMap move)).elim (.error .notPermitted) .ok := by
  induction parts generalizing segments with
  | nil => rfl
  | cons part parts ih =>
    unfold Preview3.resolve
    rw [filterMap_cons]
    by_cases hskip : part = [] ∨ part = ['.']
    · rw [if_pos hskip, ih, move, if_pos hskip]
    · rw [if_neg hskip, move, if_neg hskip]
      by_cases hup : part = ['.', '.']
      · rw [if_pos hup, if_pos hup]
        simp only [length_eq_zero_iff, walk]
        by_cases hroot : segments = []
        · simp [hroot]
        · rw [if_neg hroot, if_neg hroot, ih]
      · rw [if_neg hup, if_neg hup, ih, walk_enter]

/-! ## The scanner of preview2

The scanner is followed from the start of one segment to the start of the next.
There the text left has no slash in front, and every segment read so far ends
with a slash.
-/

def withSlash (name : Path) : Path := name ++ ['/']

/-- The text of a segment ends here: at the end of the path or before a slash. -/
def Boundary (tail : Path) : Prop := tail = [] ∨ tail.head? = some '/'

namespace Preview2

variable {s : Path} {i start : Nat} {segments : List Path}

theorem get_drop (k : Nat) : s[i + k]? = (s.drop i)[k]? := by
  rw [List.getElem?_drop]

theorem lt_of_drop_ne_nil (h : s.drop i ≠ []) : i < s.length := by
  by_contra hle
  exact h (drop_eq_nil_of_le (by omega))

theorem scan_done (h : s.drop i = []) : scan s i none segments = .ok segments := by
  rw [scan, if_neg (by have := drop_eq_nil_iff.mp h; omega)]

/-- Reading a segment up to its slash. -/
theorem scan_read {w tail : Path} (hw : ∀ c ∈ w, c ≠ '/') (h : s.drop i = w ++ '/' :: tail) :
    scan s i (some start) segments =
      scan s (i + w.length + 1) none (segments ++ [(s.take (i + w.length + 1)).drop start]) := by
  have hlt : i < s.length := lt_of_drop_ne_nil (by simp [h])
  have hget : s[i]? = (w ++ '/' :: tail)[0]? := by rw [← h, ← get_drop, Nat.add_zero]
  induction w generalizing i with
  | nil =>
    rw [scan, if_pos hlt]
    simp [hget]
  | cons c w ih =>
    have hc : c ≠ '/' := hw c mem_cons_self
    have hnext : s.drop (i + 1) = w ++ '/' :: tail := by
      rw [← drop_drop, h]
      rfl
    rw [scan, if_pos hlt]
    simp only [hget, cons_append, List.getElem?_cons_zero, Option.some.injEq, hc, if_false]
    rw [ih (fun d hd => hw d (mem_cons_of_mem _ hd)) hnext
      (lt_of_drop_ne_nil (by simp [hnext])) (by rw [← hnext, ← get_drop, Nat.add_zero])]
    rw [length_cons, show i + 1 + w.length = i + (w.length + 1) by omega]

/-- Reading a segment up to the end of the path. -/
theorem scan_read_end {w : Path} (hw : ∀ c ∈ w, c ≠ '/') (h : s.drop i = w) :
    scan s i (some start) segments = .ok (segments ++ [s.drop start]) := by
  induction w generalizing i with
  | nil => rw [scan, if_neg (by have := drop_eq_nil_iff.mp h; omega)]
  | cons c w ih =>
    have hc : c ≠ '/' := hw c mem_cons_self
    have hget : s[i]? = some c := by
      rw [show s[i]? = (s.drop i)[0]? by rw [← get_drop, Nat.add_zero], h]
      rfl
    have hnext : s.drop (i + 1) = w := by
      rw [← drop_drop, h]
      rfl
    rw [scan, if_pos (lt_of_drop_ne_nil (by simp [h]))]
    simp only [hget, Option.some.injEq, hc, if_false]
    exact ih (fun d hd => hw d (mem_cons_of_mem _ hd)) hnext

theorem length_of_drop {w : Path} (h : s.drop i = w) (hne : w ≠ []) : s.length = i + w.length := by
  have hlen : (s.drop i).length = w.length := by rw [h]
  have hlt : i < s.length := lt_of_drop_ne_nil (by rwa [h])
  rw [length_drop] at hlen
  omega

/-- A `..` segment takes the last one away. -/
theorem scan_up {tail : Path} (h : s.drop i = '.' :: '.' :: tail) (hb : Boundary tail) :
    scan s i none segments =
      if segments = [] then .error .notPermitted else scan s (i + 2 + 1) none segments.dropLast := by
  have hget (k : Nat) : s[i + k]? = ('.' :: '.' :: tail)[k]? := by rw [← h, get_drop]
  have hend : s[i + 2]? = some '/' ∨ i + 2 = s.length := by
    rcases hb with rfl | hhead
    · exact Or.inr (length_of_drop h (by simp)).symm
    · refine Or.inl ?_
      rw [hget 2, ← hhead, List.head?_eq_getElem?]
      rfl
  rw [scan, if_pos (lt_of_drop_ne_nil (by simp [h])), if_pos ⟨hget 0, hget 1, hend⟩]

/-- A `.` segment is left out. -/
theorem scan_here {tail : Path} (h : s.drop i = '.' :: tail) (hb : Boundary tail) :
    scan s i none segments = scan s (i + 1 + 1) none segments := by
  have hget (k : Nat) : s[i + k]? = ('.' :: tail)[k]? := by rw [← h, get_drop]
  have hnext : s[i + 1]? = tail.head? := by
    rw [hget 1, List.head?_eq_getElem?]
    rfl
  have hend : s[i + 1]? = some '/' ∨ i + 1 = s.length := by
    rcases hb with rfl | hhead
    · exact Or.inr (length_of_drop h (by simp)).symm
    · exact Or.inl (hnext.trans hhead)
  have hnotUp : s[i + 1]? ≠ some '.' := by
    rcases hb with rfl | hhead
    · simp [hnext]
    · simp [hnext, hhead]
  rw [scan, if_pos (lt_of_drop_ne_nil (by simp [h])), if_neg (fun hup => hnotUp hup.2.1),
    if_pos ⟨hget 0, hend⟩]

/-- Any other segment is read from its first character on. -/
theorem scan_start {c : Char} {w tail : Path} (h : s.drop i = (c :: w) ++ tail)
    (hw : ∀ d ∈ c :: w, d ≠ '/') (hhere : c :: w ≠ ['.']) (hup : c :: w ≠ ['.', '.']) :
    scan s i none segments = scan s (i + 1) (some i) segments := by
  have hget (k : Nat) : s[i + k]? = ((c :: w) ++ tail)[k]? := by rw [← h, get_drop]
  have hc : s[i]? = some c := hget 0
  have hlen : s.length = i + (w.length + tail.length + 1) := by
    rw [length_of_drop h (by simp)]
    simp only [length_append, length_cons]
    omega
  have hnotUp : ¬ (s[i]? = some '.' ∧ s[i + 1]? = some '.' ∧
      (s[i + 2]? = some '/' ∨ i + 2 = s.length)) := by
    rintro ⟨h0, h1, h2⟩
    have hcdot : c = '.' := by simpa [hc] using h0
    subst hcdot
    cases w with
    | nil => exact hhere rfl
    | cons d w =>
      have hd : d = '.' := by simpa [hget 1] using h1
      subst hd
      cases w with
      | nil => exact hup rfl
      | cons e w =>
        rcases h2 with h2 | h2
        · have he : e = '/' := by simpa [hget 2] using h2
          exact hw e (by simp) he
        · simp only [length_cons] at hlen
          omega
  have hnotHere : ¬ (s[i]? = some '.' ∧ (s[i + 1]? = some '/' ∨ i + 1 = s.length)) := by
    rintro ⟨h0, h1⟩
    have hcdot : c = '.' := by simpa [hc] using h0
    subst hcdot
    cases w with
    | nil => exact hhere rfl
    | cons d w =>
      rcases h1 with h1 | h1
      · have hd : d = '/' := by simpa [hget 1] using h1
        exact hw d (by simp) hd
      · simp only [length_cons] at hlen
        omega
  have hskip : skipSlashes s i = i := by
    have hne : c ≠ '/' := hw c mem_cons_self
    simp [skipSlashes, h, hne]
  have hlt : i < s.length := by omega
  conv_lhs => rw [scan, if_pos hlt]
  simp only [if_neg hnotUp, if_neg hnotHere, hskip]

/-- What the scanner makes of a walk: no answer when the walk leaves the root,
else its names, the last one with its slash or without. -/
inductive Scanned : Except ErrorCode (List Path) → Option (List Path) → Prop
  | refused : Scanned (.error .notPermitted) none
  | closed (names : List Path) : Scanned (.ok (names.map withSlash)) (some names)
  | unclosed (names : List Path) (last : Path) :
      Scanned (.ok (names.map withSlash ++ [last])) (some (names ++ [last]))

theorem noSlash_takeWhile (rest : Path) : ∀ c ∈ rest.takeWhile (· != '/'), c ≠ '/' := by
  intro c hc
  simpa using mem_takeWhile_imp hc

theorem splitOn_noSlash {w : Path} (hw : ∀ c ∈ w, c ≠ '/') : w.splitOn '/' = [w] := by
  rw [splitOn_eq_splitOnP]
  exact splitOnP_eq_singleton (fun c hc => by simpa using hw c hc)

theorem splitOn_slash {w tail : Path} (hw : ∀ c ∈ w, c ≠ '/') :
    (w ++ '/' :: tail).splitOn '/' = w :: tail.splitOn '/' := by
  rw [splitOn_eq_splitOnP, splitOn_eq_splitOnP]
  exact splitOnP_append_cons_of_forall_mem (fun c hc => by simpa using hw c hc) '/' (by simp) tail

theorem NoDouble.tail {w tail : Path} (h : NoDouble (w ++ '/' :: tail)) :
    NoDouble tail ∧ tail.head? ≠ some '/' := by
  constructor
  · intro hinner
    exact h (hinner.trans ⟨w ++ ['/'], [], by simp⟩)
  · intro hhead
    cases tail with
    | nil => simp at hhead
    | cons d rest =>
      have hd : d = '/' := by simpa using hhead
      exact h ⟨w, rest, by simp [hd]⟩

/-- One segment, with the slash after it: the scanner arrives behind the slash
with the segments of one move of the walk more. -/
theorem scan_segment (names : List Path) {w tail : Path} (h : s.drop i = w ++ '/' :: tail)
    (hw : ∀ c ∈ w, c ≠ '/') (hne : w ≠ []) :
    (scan s i none (names.map withSlash) = .error .notPermitted ∧
        walk names ([w].filterMap move) = none) ∨
      ∃ names', walk names ([w].filterMap move) = some names' ∧
        scan s i none (names.map withSlash) =
          scan s (i + w.length + 1) none (names'.map withSlash) := by
  have hb : Boundary ('/' :: tail) := Or.inr rfl
  by_cases hhere : w = ['.']
  · subst hhere
    exact Or.inr ⟨names, by simp [move], scan_here h hb⟩
  · by_cases hup : w = ['.', '.']
    · subst hup
      rw [scan_up h hb]
      rcases eq_nil_or_concat names with rfl | ⟨init, last, rfl⟩
      · exact Or.inl ⟨by simp, by simp [move]⟩
      · rw [concat_eq_append]
        refine Or.inr ⟨init, by simp [move], ?_⟩
        simp only [map_append, map_cons, map_nil, append_eq_nil_iff,
          cons_ne_self, and_false, if_false, dropLast_concat, length_cons,
          length_nil]
    · obtain ⟨c, w, rfl⟩ := exists_cons_of_ne_nil hne
      refine Or.inr ⟨names ++ [c :: w], by simp [move, hhere, hup], ?_⟩
      have hnext : s.drop (i + 1) = w ++ '/' :: tail := by
        rw [← drop_drop, h]
        rfl
      rw [scan_start h hw hhere hup,
        scan_read (fun d hd => hw d (mem_cons_of_mem _ hd)) hnext]
      have hslice : (s.take (i + 1 + w.length + 1)).drop i = withSlash (c :: w) := by
        rw [drop_take, h, show i + 1 + w.length + 1 - i = w.length + 2 by omega]
        simp [withSlash, take_append]
      rw [hslice, map_append, map_singleton, length_cons,
        show i + 1 + w.length = i + (w.length + 1) by omega]

/-- The last segment, with no slash after it. -/
theorem scan_last {names : List Path} {w : Path} (h : s.drop i = w) (hw : ∀ c ∈ w, c ≠ '/')
    (hne : w ≠ []) :
    Scanned (scan s i none (names.map withSlash)) (walk names ([w].filterMap move)) := by
  have hb : Boundary [] := Or.inl rfl
  have hlen : s.length = i + w.length := length_of_drop h hne
  by_cases hhere : w = ['.']
  · subst hhere
    rw [scan_here h hb, scan_done (drop_eq_nil_of_le (by rw [hlen]; simp))]
    have hmove : walk names ([['.']].filterMap move) = some names := by simp [move]
    rw [hmove]
    exact .closed names
  · by_cases hup : w = ['.', '.']
    · subst hup
      rw [scan_up h hb, scan_done (drop_eq_nil_of_le (by rw [hlen]; simp))]
      rcases eq_nil_or_concat names with rfl | ⟨init, last, rfl⟩
      · have hmove : walk ([] : List Path) ([['.', '.']].filterMap move) = none := by simp [move]
        rw [hmove]
        exact .refused
      · rw [concat_eq_append]
        have hmove : walk (init ++ [last]) ([['.', '.']].filterMap move) = some init := by
          simp [move]
        rw [hmove, if_neg (by simp), map_append, map_singleton, dropLast_concat]
        exact .closed init
    · obtain ⟨c, w, rfl⟩ := exists_cons_of_ne_nil hne
      have hmove : walk names ([c :: w].filterMap move) = some (names ++ [c :: w]) := by
        simp [move, hhere, hup]
      have hnext : s.drop (i + 1) = w := by
        rw [← drop_drop, h]
        rfl
      rw [hmove, scan_start (by rw [h, append_nil]) hw hhere hup,
        scan_read_end (fun d hd => hw d (mem_cons_of_mem _ hd)) hnext, h]
      exact .unclosed names (c :: w)

theorem walk_append (names : List Path) (w : Path) (parts : List Path) :
    walk names ((w :: parts).filterMap move) =
      (walk names ([w].filterMap move)).bind
        fun names' => walk names' (parts.filterMap move) := by
  rw [filterMap_cons, filterMap_cons]
  cases hw : move w with
  | none => simp
  | some m =>
    cases m with
    | enter name => simp
    | up =>
      by_cases hroot : names = []
      · simp [hroot]
      · simp [walk, hroot]

/-- The scanner takes the walk of the text it has left. -/
theorem scan_spec (rest : Path) (names : List Path) (h : s.drop i = rest) (hd : NoDouble rest)
    (hhead : rest.head? ≠ some '/') :
    Scanned (scan s i none (names.map withSlash))
      (walk names ((rest.splitOn '/').filterMap move)) := by
  -- the induction is on the text left: every segment takes some of it
  induction hn : rest.length using Nat.strong_induction_on generalizing rest names i with
  | _ n ih =>
    have hw := noSlash_takeWhile rest
    have hsplit : rest = rest.takeWhile (· != '/') ++ rest.dropWhile (· != '/') :=
      takeWhile_append_dropWhile.symm
    generalize rest.takeWhile (· != '/') = w at hw hsplit
    generalize htail : rest.dropWhile (· != '/') = tail at hsplit
    cases tail with
    | nil =>
      rw [append_nil] at hsplit
      subst hsplit
      rw [splitOn_noSlash hw]
      by_cases hne : rest = []
      · subst hne
        rw [scan_done h]
        have hmove : walk names ([([] : Path)].filterMap move) = some names := by simp [move]
        rw [hmove]
        exact .closed names
      · exact scan_last h hw hne
    | cons d tail =>
      have hslash : d = '/' := by
        have := List.head?_dropWhile_not (· != '/') rest
        rw [htail] at this
        simpa using this
      subst hslash
      have hne : w ≠ [] := by
        rintro rfl
        exact hhead (by rw [hsplit]; rfl)
      rw [hsplit] at h hd
      obtain ⟨hdTail, hheadTail⟩ := NoDouble.tail hd
      have hnext : s.drop (i + w.length + 1) = tail := by
        rw [Nat.add_assoc, ← drop_drop, h]
        simp
      rw [hsplit, splitOn_slash hw, walk_append]
      rcases scan_segment names h hw hne with ⟨herr, hnone⟩ | ⟨names', hsome, hscan⟩
      · rw [herr, hnone]
        exact .refused
      · rw [hscan, hsome, Option.bind_some]
        refine ih tail.length ?_ tail names' hnext hdTail hheadTail rfl
        rw [← hn, hsplit]
        simp only [length_append, length_cons]
        omega

end Preview2

/-! ## What the two functions return -/

theorem flatten_withSlash {names : List Path} (h : names ≠ []) :
    (names.map withSlash).flatten = List.intercalate ['/'] names ++ ['/'] := by
  induction names with
  | nil => exact absurd rfl h
  | cons name names ih =>
    cases names with
    | nil => simp [withSlash]
    | cons next names =>
      rw [map_cons, flatten_cons, ih (by simp), intercalate_cons_cons]
      simp [withSlash]

theorem flatten_withSlash_concat (names : List Path) (last : Path) :
    (names.map withSlash ++ [last]).flatten = List.intercalate ['/'] (names ++ [last]) := by
  induction names with
  | nil => simp
  | cons name names ih =>
    rw [map_cons, cons_append, flatten_cons, ih]
    cases names with
    | nil => simp [withSlash, intercalate_cons_cons]
    | cons next names => simp [withSlash, intercalate_cons_cons]

theorem replaceBackslashes_of_notMem {s : Path} (h : '\\' ∉ s) : replaceBackslashes s = s := by
  conv_rhs => rw [← map_id s]
  refine map_congr_left (fun c hc => if_neg ?_)
  rintro rfl
  exact h hc

/-- The tests in front of the two replacements change nothing. -/
theorem preview2_getFullPath (descriptor : Descriptor) (subpath : Path) :
    getFullPath descriptor subpath =
      if Absolute subpath then .error .notPermitted
      else (scan (normalise subpath) 0 none []).map
        fun segments => join descriptor segments.flatten := by
  have hback : (if '\\' ∈ subpath then replaceBackslashes subpath else subpath) =
      replaceBackslashes subpath := by
    split
    next => rfl
    next h => exact (replaceBackslashes_of_notMem h).symm
  have hdouble : (if ['/', '/'] <:+: replaceBackslashes subpath then
      collapseSlashes (replaceBackslashes subpath) else replaceBackslashes subpath) =
      normalise subpath := by
    split
    next => rfl
    next h => exact (collapseSlashes_of_noDouble h).symm
  unfold getFullPath
  simp only [hback, hdouble, head?_normalise]

theorem scan_normalise {subpath : Path} (habs : ¬ Absolute subpath) :
    Preview2.Scanned (scan (normalise subpath) 0 none [])
      (walk [] (moves subpath)) := by
  have hhead : (normalise subpath).head? ≠ some '/' :=
    fun hhead => habs ((head?_normalise subpath).mp hhead)
  rw [← moves_normalise]
  exact scan_spec (normalise subpath) [] rfl (noDouble_collapseSlashes _) hhead

/-- A path that leaves its base is refused by preview2. -/
theorem preview2_refused {subpath : Path} (descriptor : Descriptor) (h : reference subpath = none) :
    getFullPath descriptor subpath = .error .notPermitted := by
  rw [preview2_getFullPath]
  by_cases habs : Absolute subpath
  · rw [if_pos habs]
  · have hscan := scan_normalise habs
    unfold reference at h
    rw [if_neg habs] at h
    rw [h] at hscan
    rw [if_neg habs]
    generalize scan (normalise subpath) 0 none [] = out at hscan
    cases hscan
    rfl

/-- Any other path is joined by preview2 from the names of its walk. -/
theorem preview2_followed {subpath : Path} {names : List Path} (descriptor : Descriptor)
    (h : reference subpath = some names) :
    ∃ rest, getFullPath descriptor subpath = .ok (join descriptor rest) ∧
      (names = [] → rest = []) ∧
      (rest = List.intercalate ['/'] names ∨ rest = List.intercalate ['/'] names ++ ['/']) := by
  have habs : ¬ Absolute subpath := by
    intro habs
    rw [(reference_eq_none_iff subpath).mpr (Or.inl habs)] at h
    cases h
  have hscan := scan_normalise habs
  unfold reference at h
  rw [if_neg habs] at h
  rw [h] at hscan
  rw [preview2_getFullPath, if_neg habs]
  generalize scan (normalise subpath) 0 none [] = out at hscan
  cases hscan with
  | closed =>
    refine ⟨_, rfl, ?_, ?_⟩
    · rintro rfl
      rfl
    · by_cases hnil : names = []
      · subst hnil
        exact Or.inl rfl
      · exact Or.inr (flatten_withSlash hnil)
  | unclosed init last =>
    refine ⟨_, rfl, ?_, Or.inl (flatten_withSlash_concat init last)⟩
    intro hnil
    simp at hnil

theorem preview3_getFullPath (descriptor : Descriptor) (subpath : Path) :
    Preview3.getFullPath descriptor subpath =
      if subpath = [] then .error .noEntry
      else (reference subpath).elim (.error .notPermitted)
        fun names => .ok (Preview3.join descriptor names) := by
  unfold Preview3.getFullPath reference
  change (if normalise subpath = [] then _ else _) = _
  simp only [normalise_eq_nil]
  split
  next => rfl
  next =>
    change (if (normalise subpath).head? = some '/' then _ else _) = _
    simp only [head?_normalise]
    split
    next => rfl
    next =>
      change ((Preview3.resolve [] ((normalise subpath).splitOn '/')).map _) = _
      rw [preview3_resolve_eq, moves_normalise]
      cases walk [] (moves subpath) with
      | none => rfl
      | some names => rfl

/-! ## The names of a walk -/

theorem noSeparator_of_mem_splitOnP {p : Char → Bool} {s part : Path} (h : part ∈ s.splitOnP p) :
    ∀ c ∈ part, p c = false := by
  induction s generalizing part with
  | nil =>
    rw [splitOnP_nil, mem_singleton] at h
    simp [h]
  | cons c cs ih =>
    rw [splitOnP_cons_eq_if_modifyHead] at h
    obtain ⟨first, parts, hparts⟩ := exists_cons_of_ne_nil (splitOnP_ne_nil p cs)
    rw [hparts] at h ih
    split at h
    next =>
      rcases mem_cons.mp h with rfl | hmem
      · simp
      · exact ih hmem
    next hc =>
      rw [modifyHead_cons] at h
      rcases mem_cons.mp h with rfl | hmem
      · intro d hd
        rcases mem_cons.mp hd with rfl | hd
        · simpa using hc
        · exact ih mem_cons_self d hd
      · exact ih (mem_cons_of_mem _ hmem)

theorem plain_of_reference {subpath : Path} {names : List Path}
    (h : reference subpath = some names) : ∀ name ∈ names, Plain name := by
  intro name hmem
  unfold reference at h
  split at h
  next => cases h
  next =>
    rcases mem_of_walk h hmem with hroot | hentered
    · cases hroot
    · obtain ⟨part, hpart, hmove⟩ := mem_filterMap.mp hentered
      unfold move at hmove
      split at hmove
      next => cases hmove
      next hskip =>
        split at hmove
        next => cases hmove
        next hup =>
          have hname : part = name := by simpa using hmove
          subst hname
          rw [not_or] at hskip
          refine ⟨hskip.1, hskip.2, hup, ?_⟩
          intro c hc
          simpa using noSeparator_of_mem_splitOnP hpart c hc

end Jco.Filesystem

import Mathlib
import Jco.Bindgen.Names
import Jco.Lib.Keyed

/-! # Mapping imports to specifiers

`map_import` resolves an import name by a map from names and patterns to
specifiers, class by class: the name itself, the name without its version,
patterns with a version, patterns without, and versions that semver holds
compatible. Within a class it takes what the hash map happens to yield first.

A map is given by its entries with different keys, and an iteration order is
any permutation of them. The `semver` crate is a parameter: versions in a linear
order, with their numbers. Lengths are counted in characters where the source
counts bytes; prefixes and suffixes of one text compare the same either way.
-/

namespace Jco.Bindgen

open Jco.Lib List Keyed

/-- What an entry makes of an import: nothing, a panic, or a result. -/
inductive Attempt (α : Type*) where
  | misses
  | panics
  | hits (a : α)
deriving DecidableEq, Repr

/-! ## Versions -/

/-- The crate `semver` as far as it is used. -/
structure Semver (V : Type*) where
  parse : Text → Option V
  major : V → Nat
  minor : V → Nat
  preIsEmpty : V → Bool

variable {V : Type*}

/-- The track of compatible versions, with the version. -/
def semverCompatKey (semver : Semver V) (versionStr : Text) : Option (Text × V) :=
  match semver.parse versionStr with
  | none => none
  | some version =>
    if semver.preIsEmpty version = false then
      none
    else if semver.major version ≠ 0 then
      some (Nat.toDigits 10 (semver.major version), version)
    else if semver.minor version ≠ 0 then
      some ('0' :: '.' :: Nat.toDigits 10 (semver.minor version), version)
    else
      none

/-- The text before the first `@`. -/
def sansVersion (t : Text) : Text := t.takeWhile (· ≠ '@')

/-- The text after the first `@`. -/
def versionStr (t : Text) : Option Text :=
  if '@' ∈ t then some (t.dropWhile (· ≠ '@')).tail else none

/-! ## Mappings -/

/-- A specifier and what is taken from it. The search for `#` starts at the
second byte; where that is no boundary of characters the slice panics. -/
def parseMapping : Text → Option (Text × Option Text)
  | [] => some ([], none)
  | c :: cs =>
    if c.utf8Size = 1 then
      if '#' ∈ cs then
        some (c :: cs.takeWhile (· ≠ '#'), some (cs.dropWhile (· ≠ '#')).tail)
      else
        some (c :: cs, none)
    else
      none

/-- `mapping.replace('*', matched)` -/
def replaceStars (mapping matched : Text) : Text :=
  mapping.flatMap fun c => if c = '*' then matched else [c]

/-- A pattern with one star against an import. Both ends are tested without
regard to each other; where they overlap the length between them underflows. -/
def resolveWildcardMapping (key mapping impt : Text) : Attempt Text :=
  if '*' ∈ key then
    let lhs := key.takeWhile (· ≠ '*')
    let rhs := (key.dropWhile (· ≠ '*')).tail
    if ¬ (lhs <+: impt ∧ rhs <:+ impt) then
      .misses
    else if impt.length < lhs.length + rhs.length then
      .panics
    else
      .hits (replaceStars mapping
        ((impt.drop lhs.length).take (impt.length - lhs.length - rhs.length)))
  else
    .misses

abbrev Entry := Text × Text

/-! ## The classes -/

/-- Versioned patterns, against the import as it is. -/
def versionedWildcard (impt : Text) (e : Entry) : Attempt Text :=
  if '@' ∈ e.1 then resolveWildcardMapping e.1 e.2 impt else .misses

/-- Unversioned patterns, against the import without its version. -/
def unversionedWildcard (impt : Text) (e : Entry) : Attempt Text :=
  if '@' ∈ e.1 then .misses else resolveWildcardMapping e.1 e.2 (sansVersion impt)

/-- Keys with a version on the track of the import's. -/
def compatible (semver : Semver V) (imptCompat impt : Text) (e : Entry) : Attempt (Text × V) :=
  match (versionStr e.1).bind (semverCompatKey semver) with
  | none => .misses
  | some (keyCompat, keyVer) =>
    if imptCompat ≠ keyCompat then
      .misses
    else
      match resolveWildcardMapping (sansVersion e.1) e.2 (sansVersion impt) with
      | .panics => .panics
      | .hits mapping => .hits (mapping, keyVer)
      | .misses =>
        if sansVersion e.1 = sansVersion impt then .hits (e.2, keyVer) else .misses

/-! ## The loops -/

variable {α : Type*}

/-- The first entry that does not miss. -/
def firstHit (attempt : Entry → Attempt α) : List Entry → Attempt α
  | [] => .misses
  | e :: es =>
    match attempt e with
    | .misses => firstHit attempt es
    | .panics => .panics
    | .hits a => .hits a

/-- The loop that keeps the highest version, the earlier of equal ones. -/
def bestMatch [LinearOrder V] (attempt : Entry → Attempt (Text × V)) :
    Option (Text × V) → List Entry → Attempt (Option (Text × V))
  | best, [] => .hits best
  | best, e :: es =>
    match attempt e with
    | .panics => .panics
    | .misses => bestMatch attempt best es
    | .hits (resolved, keyVer) =>
      match best with
      | none => bestMatch attempt (some (resolved, keyVer)) es
      | some (prev, prevVer) =>
        if keyVer ≤ prevVer then bestMatch attempt (some (prev, prevVer)) es
        else bestMatch attempt (some (resolved, keyVer)) es

section MapImport

variable [LinearOrder V] (semver : Semver V)

/-- The last class, once nothing else has matched. -/
def mapCompatible (order : List Entry) (impt : Text) : Option (Text × Option Text) :=
  match (versionStr impt).bind (semverCompatKey semver) with
  | none => some (sansVersion impt, none)
  | some (imptCompat, _) =>
    match bestMatch (compatible semver imptCompat impt) none order with
    | .hits (some (mapping, _)) => parseMapping mapping
    | .hits none => some (sansVersion impt, none)
    | .panics => none
    | .misses => none

/-- `map_import` with the entries of the map in the order of iteration; `none`
is a panic. -/
def mapImport (order : List Entry) (impt : Text) : Option (Text × Option Text) :=
  match Keyed.lookup order impt with
  | some mapping => parseMapping mapping
  | none =>
    match Keyed.lookup order (sansVersion impt) with
    | some mapping => parseMapping mapping
    | none =>
      match firstHit (versionedWildcard impt) order with
      | .hits mapping => parseMapping mapping
      | .panics => none
      | .misses =>
        match firstHit (unversionedWildcard impt) order with
        | .hits mapping => parseMapping mapping
        | .panics => none
        | .misses => mapCompatible semver order impt

end MapImport

/-! ## What is promised -/

/-- A map: its keys are different. -/
structure ImportMap where
  entries : List Entry
  keysDistinct : (Keyed.keys entries).Nodup

/-- The class of compatible versions, for the import with its version. -/
def compatibleTo (semver : Semver V) (impt : Text) (e : Entry) : Attempt (Text × V) :=
  match (versionStr impt).bind (semverCompatKey semver) with
  | none => .misses
  | some (imptCompat, _) => compatible semver imptCompat impt e

/-- No key is the import, with its version or without. -/
def Unnamed (entries : List Entry) (impt : Text) : Prop :=
  impt ∉ Keyed.keys entries ∧ sansVersion impt ∉ Keyed.keys entries

/-- Nothing of a class matches. -/
def AllMiss (attempt : Entry → Attempt α) (entries : List Entry) : Prop :=
  ∀ e ∈ entries, attempt e = .misses

/-- `v` is the highest version that matches. -/
def Highest [LinearOrder V] (attempt : Entry → Attempt (Text × V)) (entries : List Entry)
    (v : V) : Prop :=
  ∀ e ∈ entries, ∀ mapping' v', attempt e = .hits (mapping', v') → v' ≤ v

/-- The result comes from the first class that has a match, and in the last
class from a match of the highest version. -/
inductive Chosen [LinearOrder V] (semver : Semver V) (entries : List Entry) (impt : Text) :
    Text × Option Text → Prop where
  | exact {mapping r} : (impt, mapping) ∈ entries → parseMapping mapping = some r →
      Chosen semver entries impt r
  | sansVersion {mapping r} : impt ∉ Keyed.keys entries →
      (sansVersion impt, mapping) ∈ entries → parseMapping mapping = some r →
      Chosen semver entries impt r
  | versioned {e mapping r} : Unnamed entries impt → e ∈ entries →
      versionedWildcard impt e = .hits mapping → parseMapping mapping = some r →
      Chosen semver entries impt r
  | unversioned {e mapping r} : Unnamed entries impt → AllMiss (versionedWildcard impt) entries →
      e ∈ entries → unversionedWildcard impt e = .hits mapping →
      parseMapping mapping = some r → Chosen semver entries impt r
  | compatible {e mapping v r} : Unnamed entries impt →
      AllMiss (versionedWildcard impt) entries → AllMiss (unversionedWildcard impt) entries →
      e ∈ entries → compatibleTo semver impt e = .hits (mapping, v) →
      Highest (compatibleTo semver impt) entries v → parseMapping mapping = some r →
      Chosen semver entries impt r
  | unmapped : Unnamed entries impt → AllMiss (versionedWildcard impt) entries →
      AllMiss (unversionedWildcard impt) entries → AllMiss (compatibleTo semver impt) entries →
      Chosen semver entries impt (Bindgen.sansVersion impt, none)

/-- In every order of iteration the import is resolved, to the same result, by
the classes in their order. Without a map only the version is dropped. -/
def Determined [LinearOrder V] (semver : Semver V) (map : Option ImportMap) (impt : Text) : Prop :=
  ∀ m ∈ map, ∃ r, Chosen semver m.entries impt r ∧
    ∀ order : List Entry, order.Perm m.entries → mapImport semver order impt = some r

/-! ## Parsing -/

/-- The text does not start with a character of several bytes. -/
def StartsPlain (mapping : Text) : Prop := ∀ c ∈ mapping.head?, c.utf8Size = 1

theorem append_of_mem {c : Char} {t : Text} (h : c ∈ t) :
    t.takeWhile (· ≠ c) ++ c :: (t.dropWhile (· ≠ c)).tail = t := by
  induction t with
  | nil => exact nomatch h
  | cons d t ih =>
    by_cases hd : d = c
    · subst hd
      simp
    · have hmem : c ∈ t := (mem_cons.mp h).resolve_left fun heq => hd heq.symm
      rw [takeWhile_cons_of_pos (by simpa using hd),
        dropWhile_cons_of_pos (by simpa using hd), cons_append, ih hmem]

theorem exists_parseMapping_iff {mapping : Text} :
    (∃ r, parseMapping mapping = some r) ↔ StartsPlain mapping := by
  cases mapping with
  | nil => exact ⟨fun _ => nofun, fun _ => ⟨_, rfl⟩⟩
  | cons c cs =>
    have hhead : StartsPlain (c :: cs) ↔ c.utf8Size = 1 :=
      ⟨fun h => h c rfl, fun h d hd => Option.some.inj hd ▸ h⟩
    rw [hhead, parseMapping]
    constructor
    · rintro ⟨r, hr⟩
      by_contra hwide
      rw [if_neg hwide] at hr
      exact nomatch hr
    · intro hplain
      rw [if_pos hplain]
      split
      · exact ⟨_, rfl⟩
      · exact ⟨_, rfl⟩

/-- The specifier and the member give the mapping back. -/
def unparse (r : Text × Option Text) : Text :=
  match r.2 with
  | none => r.1
  | some ifaceMember => r.1 ++ '#' :: ifaceMember

theorem unparse_parseMapping {mapping : Text} {r : Text × Option Text}
    (h : parseMapping mapping = some r) : unparse r = mapping := by
  cases mapping with
  | nil =>
    cases h
    rfl
  | cons c cs =>
    rw [parseMapping] at h
    split at h
    · split at h
      next hhash =>
        cases h
        exact congrArg (c :: ·) (append_of_mem hhash)
      next =>
        cases h
        rfl
    · exact nomatch h

theorem parseMapping_injective {mapping mapping' : Text} {r : Text × Option Text}
    (h : parseMapping mapping = some r) (h' : parseMapping mapping' = some r) :
    mapping = mapping' :=
  (unparse_parseMapping h).symm.trans (unparse_parseMapping h')

/-! ## The loops -/

variable {attempt : Entry → Attempt α}

theorem firstHit_eq_misses_iff {es : List Entry} :
    firstHit attempt es = .misses ↔ AllMiss attempt es := by
  induction es with
  | nil => exact ⟨fun _ => nofun, fun _ => rfl⟩
  | cons e es ih =>
    rw [firstHit, AllMiss, forall_mem_cons, ← AllMiss, ← ih]
    cases attempt e with
    | misses => exact ⟨fun h => ⟨rfl, h⟩, And.right⟩
    | panics => exact ⟨nofun, fun h => nomatch h.1⟩
    | hits a => exact ⟨nofun, fun h => nomatch h.1⟩

/-- What the loop takes is some entry's. -/
theorem exists_of_firstHit {es : List Entry}
    (h : firstHit attempt es ≠ .misses) : ∃ e ∈ es, attempt e = firstHit attempt es := by
  induction es with
  | nil => exact absurd rfl h
  | cons e es ih =>
    rw [firstHit] at h ⊢
    cases hattempt : attempt e with
    | misses =>
      rw [hattempt] at h
      obtain ⟨d, hd, hsame⟩ := ih h
      exact ⟨d, mem_cons_of_mem e hd, hsame⟩
    | panics => exact ⟨e, mem_cons_self, hattempt⟩
    | hits a => exact ⟨e, mem_cons_self, hattempt⟩

/-- An entry that comes first is taken, unless it misses. -/
theorem firstHit_cons {e : Entry} (es : List Entry)
    (h : attempt e ≠ .misses) : firstHit attempt (e :: es) = attempt e := by
  rw [firstHit]
  cases hattempt : attempt e with
  | misses => exact absurd hattempt h
  | panics => rfl
  | hits a => rfl

section Best

variable [LinearOrder V] {attempt : Entry → Attempt (Text × V)}

variable {es : List Entry}

theorem bestMatch_eq_panics {e : Entry} (he : e ∈ es)
    (h : attempt e = .panics) (best : Option (Text × V)) :
    bestMatch attempt best es = .panics := by
  induction es generalizing best with
  | nil => exact nomatch he
  | cons d es ih =>
    rw [bestMatch]
    rcases mem_cons.mp he with rfl | he
    · rw [h]
    · cases attempt d with
      | panics => rfl
      | misses => exact ih he best
      | hits hit =>
        dsimp only
        split
        · exact ih he _
        · split
          · exact ih he _
          · exact ih he _

/-- What the loop ends with is the best so far or one of the entries', and none
is higher; nothing only if there was nothing. -/
theorem bestMatch_spec (h : ∀ e ∈ es, attempt e ≠ .panics)
    (best : Option (Text × V)) :
    (bestMatch attempt best es = .hits none ∧ best = none ∧ AllMiss attempt es) ∨
      ∃ mapping v, bestMatch attempt best es = .hits (some (mapping, v)) ∧
        (best = some (mapping, v) ∨ ∃ e ∈ es, attempt e = .hits (mapping, v)) ∧
        Highest attempt es v ∧ ∀ b ∈ best, b.2 ≤ v := by
  induction es generalizing best with
  | nil =>
    cases best with
    | none => exact .inl ⟨rfl, rfl, nofun⟩
    | some b => exact .inr ⟨b.1, b.2, rfl, .inl rfl, nofun, fun b' hb' => by cases hb'; exact le_rfl⟩
  | cons e es ih =>
    have hrest := ih fun d hd => h d (mem_cons_of_mem e hd)
    rw [bestMatch]
    cases hattempt : attempt e with
    | panics => exact absurd hattempt (h e mem_cons_self)
    | misses =>
      rcases hrest best with ⟨heq, hnone, hmiss⟩ | ⟨mapping, v, heq, hfrom, hhigh, hbest⟩
      · exact .inl ⟨heq, hnone, forall_mem_cons.mpr ⟨hattempt, hmiss⟩⟩
      · refine .inr ⟨mapping, v, heq, ?_, ?_, hbest⟩
        · exact hfrom.imp_right fun ⟨d, hd, hhit⟩ => ⟨d, mem_cons_of_mem e hd, hhit⟩
        · refine forall_mem_cons.mpr ⟨fun m' v' hhit => ?_, hhigh⟩
          rw [hattempt] at hhit
          exact nomatch hhit
    | hits hit =>
      -- the best after this entry is the one before or the entry's, whichever is higher
      have hkept : ∀ b : Text × V, (best = some b ∨ hit = b) → hit.2 ≤ b.2 →
          (∀ b' ∈ best, b'.2 ≤ b.2) → ∃ mapping v,
            bestMatch attempt (some b) es = .hits (some (mapping, v)) ∧
            (best = some (mapping, v) ∨ ∃ d ∈ e :: es, attempt d = .hits (mapping, v)) ∧
            Highest attempt (e :: es) v ∧ ∀ b' ∈ best, b'.2 ≤ v := by
        intro b hb hhit hbest
        obtain ⟨_, hnone, _⟩ | ⟨mapping, v, heq, hfrom, hhigh, hle⟩ := hrest (some b)
        · exact nomatch hnone
        have hbv : b.2 ≤ v := hle b rfl
        refine ⟨mapping, v, heq, ?_, ?_, fun b' hb' => (hbest b' hb').trans hbv⟩
        · rcases hfrom with hsame | ⟨d, hd, hhit'⟩
          · cases hsame
            exact hb.imp_right fun heq => ⟨e, mem_cons_self, hattempt.trans (by rw [heq])⟩
          · exact .inr ⟨d, mem_cons_of_mem e hd, hhit'⟩
        · refine forall_mem_cons.mpr ⟨fun m' v' hhit' => ?_, hhigh⟩
          rw [hattempt] at hhit'
          cases hhit'
          exact hhit.trans hbv
      dsimp only
      cases best with
      | none => exact .inr (hkept hit (.inr rfl) le_rfl nofun)
      | some prev =>
        dsimp only
        split
        next hle => exact .inr (hkept prev (.inl rfl) hle fun b' hb' => by cases hb'; exact le_rfl)
        next hlt =>
          exact .inr (hkept hit (.inr rfl) le_rfl
            fun b' hb' => by cases hb'; exact (not_le.mp hlt).le)

/-- The best so far stays if nothing is higher. -/
theorem bestMatch_of_highest (h : ∀ e ∈ es, attempt e ≠ .panics)
    {mapping : Text} {v : V} (hv : Highest attempt es v) :
    bestMatch attempt (some (mapping, v)) es = .hits (some (mapping, v)) := by
  induction es with
  | nil => rfl
  | cons e es ih =>
    have hrest := ih (fun d hd => h d (mem_cons_of_mem e hd))
      fun d hd => hv d (mem_cons_of_mem e hd)
    rw [bestMatch]
    cases hattempt : attempt e with
    | panics => exact absurd hattempt (h e mem_cons_self)
    | misses => exact hrest
    | hits hit =>
      dsimp only
      rw [if_pos (hv e mem_cons_self hit.1 hit.2 hattempt)]
      exact hrest

end Best

/-! ## When the result is determined -/

/-- The entries of a class that match all give one mapping, that can be parsed. -/
def Agree (attempt : Entry → Attempt Text) (entries : List Entry) : Prop :=
  ∃ mapping, StartsPlain mapping ∧ ∀ e ∈ entries, attempt e = .misses ∨ attempt e = .hits mapping

/-- So do those of the highest version, and no entry panics. -/
def AgreeHighest [LinearOrder V] (attempt : Entry → Attempt (Text × V)) (entries : List Entry) :
    Prop :=
  (∀ e ∈ entries, attempt e ≠ .panics) ∧ ∃ mapping, StartsPlain mapping ∧
    ∀ e ∈ entries, ∀ mapping' v, attempt e = .hits (mapping', v) →
      Highest attempt entries v → mapping' = mapping

/-- The class that decides has one result: named keys are parsed, the patterns
that match agree, the compatible keys of the highest version agree. -/
structure Unambiguous [LinearOrder V] (semver : Semver V) (entries : List Entry) (impt : Text) :
    Prop where
  exact : ∀ mapping, (impt, mapping) ∈ entries → StartsPlain mapping
  sansVersion : impt ∉ Keyed.keys entries →
    ∀ mapping, (sansVersion impt, mapping) ∈ entries → StartsPlain mapping
  versioned : Unnamed entries impt → Agree (versionedWildcard impt) entries
  unversioned : Unnamed entries impt → AllMiss (versionedWildcard impt) entries →
    Agree (unversionedWildcard impt) entries
  compatible : Unnamed entries impt → AllMiss (versionedWildcard impt) entries →
    AllMiss (unversionedWildcard impt) entries → AgreeHighest (compatibleTo semver impt) entries

/-- What a class gives, or else what comes after it. -/
def settle (a : Attempt Text) (rest : Option (Text × Option Text)) : Option (Text × Option Text) :=
  match a with
  | .hits mapping => parseMapping mapping
  | .panics => none
  | .misses => rest

theorem AllMiss.perm {es es' : List Entry} (hperm : es.Perm es')
    (h : AllMiss attempt es') : AllMiss attempt es :=
  fun e he => h e (hperm.mem_iff.mp he)

section Pattern

variable {attempt : Entry → Attempt Text} {entries : List Entry}
  {rest : List Entry → Option (Text × Option Text)}

/-- Where the matches agree every order gives what one of them gives. -/
theorem exists_of_agree (hagree : Agree attempt entries) (hmatch : ¬ AllMiss attempt entries) :
    ∃ e ∈ entries, ∃ mapping r, attempt e = .hits mapping ∧ parseMapping mapping = some r ∧
      ∀ order : List Entry, order.Perm entries →
        settle (firstHit attempt order) (rest order) = some r := by
  obtain ⟨mapping, hplain, hall⟩ := hagree
  obtain ⟨r, hr⟩ := exists_parseMapping_iff.mpr hplain
  -- whatever comes first among the matches has this mapping
  have hfirst : ∀ order : List Entry, order.Perm entries →
      ∃ e ∈ entries, attempt e = .hits mapping ∧ firstHit attempt order = .hits mapping := by
    intro order hperm
    have hne : firstHit attempt order ≠ .misses := fun h =>
      hmatch ((firstHit_eq_misses_iff.mp h).perm hperm.symm)
    obtain ⟨e, he, hsame⟩ := exists_of_firstHit hne
    rw [hperm.mem_iff] at he
    rcases hall e he with hmiss | hhit
    · exact absurd (hsame.symm.trans hmiss) hne
    · exact ⟨e, he, hhit, hsame.symm.trans hhit⟩
  obtain ⟨e, he, hhit, _⟩ := hfirst entries (List.Perm.refl _)
  refine ⟨e, he, mapping, r, hhit, hr, fun order hperm => ?_⟩
  obtain ⟨_, _, _, hsame⟩ := hfirst order hperm
  rw [hsame]
  exact hr

/-- Where every order gives the same the matches agree: each may come first. -/
theorem agree_of_forall {r : Text × Option Text}
    (h : ∀ order : List Entry, order.Perm entries →
      settle (firstHit attempt order) (rest order) = some r) : Agree attempt entries := by
  have hhits : ∀ e ∈ entries, attempt e = .misses ∨
      ∃ mapping, attempt e = .hits mapping ∧ parseMapping mapping = some r := by
    intro e he
    have hsettled := h (e :: entries.erase e) (perm_cons_erase he).symm
    cases hattempt : attempt e with
    | misses => exact .inl rfl
    | panics =>
      rw [firstHit_cons _ (by rw [hattempt]; exact nofun), hattempt] at hsettled
      exact nomatch hsettled
    | hits mapping =>
      rw [firstHit_cons _ (by rw [hattempt]; exact nofun), hattempt] at hsettled
      exact .inr ⟨mapping, rfl, hsettled⟩
  by_cases hmiss : AllMiss attempt entries
  · exact ⟨[], nofun, fun e he => .inl (hmiss e he)⟩
  · obtain ⟨e, he, hne⟩ : ∃ e ∈ entries, attempt e ≠ .misses := by
      by_contra hnone
      exact hmiss fun e he => by_contra fun hne => hnone ⟨e, he, hne⟩
    obtain ⟨mapping, _, hparse⟩ := (hhits e he).resolve_left hne
    refine ⟨mapping, exists_parseMapping_iff.mp ⟨r, hparse⟩, fun d hd => ?_⟩
    exact (hhits d hd).imp_right fun ⟨mapping', hhit, hparse'⟩ =>
      hhit.trans (by rw [parseMapping_injective hparse' hparse])

end Pattern

section Determined

variable [LinearOrder V] {semver : Semver V} {entries : List Entry} {impt : Text}

theorem mapImport_of_unnamed {order : List Entry} (h : Unnamed order impt) :
    mapImport semver order impt = settle (firstHit (versionedWildcard impt) order)
      (settle (firstHit (unversionedWildcard impt) order) (mapCompatible semver order impt)) := by
  rw [mapImport, lookup_eq_none_iff.mpr h.1, lookup_eq_none_iff.mpr h.2]
  dsimp only
  cases firstHit (versionedWildcard impt) order with
  | hits mapping => rfl
  | panics => rfl
  | misses =>
    cases firstHit (unversionedWildcard impt) order with
    | hits mapping => rfl
    | panics => rfl
    | misses => rfl

/-- What the last class does, whether the import has a track or not. -/
theorem mapCompatible_eq (order : List Entry) :
    mapCompatible semver order impt =
      match bestMatch (compatibleTo semver impt) none order with
      | .hits (some (mapping, _)) => parseMapping mapping
      | .hits none => some (sansVersion impt, none)
      | .panics => none
      | .misses => none := by
  unfold mapCompatible
  cases htrack : (versionStr impt).bind (semverCompatKey semver) with
  | some track =>
    have hsame : compatibleTo semver impt = compatible semver track.1 impt := by
      funext e
      rw [compatibleTo, htrack]
    rw [hsame]
  | none =>
    have hmiss : ∀ e, compatibleTo semver impt e = .misses := fun e => by
      rw [compatibleTo, htrack]
    have hsafe : ∀ e ∈ order, compatibleTo semver impt e ≠ .panics := fun e _ => by
      rw [hmiss]
      exact nofun
    obtain ⟨heq, _, _⟩ | ⟨mapping, v, _, hfrom, _⟩ := bestMatch_spec hsafe none
    · rw [heq]
    · obtain ⟨e, _, hhit⟩ := hfrom.resolve_left nofun
      exact nomatch (hmiss e).symm.trans hhit

theorem Highest.perm {attempt : Entry → Attempt (Text × V)} {es es' : List Entry} {v : V}
    (hperm : es.Perm es') (h : Highest attempt es' v) : Highest attempt es v :=
  fun e he => h e (hperm.mem_iff.mp he)

/-- The last class: every order gives the same exactly where the highest
versions agree, and then it is what is promised. -/
theorem compatible_iff (hunnamed : Unnamed entries impt)
    (hversioned : AllMiss (versionedWildcard impt) entries)
    (hunversioned : AllMiss (unversionedWildcard impt) entries) :
    (∃ r, Chosen semver entries impt r ∧ ∀ order : List Entry, order.Perm entries →
      mapCompatible semver order impt = some r) ↔
        AgreeHighest (compatibleTo semver impt) entries := by
  constructor
  · rintro ⟨r, _, hall⟩
    have hsafe : ∀ e ∈ entries, compatibleTo semver impt e ≠ .panics := by
      intro e he hpanics
      have hresult := hall entries (List.Perm.refl _)
      rw [mapCompatible_eq, bestMatch_eq_panics he hpanics] at hresult
      exact nomatch hresult
    -- a highest match that comes first is what the loop ends with
    have hfirst : ∀ e ∈ entries, ∀ mapping v, compatibleTo semver impt e = .hits (mapping, v) →
        Highest (compatibleTo semver impt) entries v → parseMapping mapping = some r := by
      intro e he mapping v hhit hhigh
      have hperm := (perm_cons_erase he).symm
      have hresult := hall _ hperm
      have hbest : bestMatch (compatibleTo semver impt) (some (mapping, v)) (entries.erase e) =
          .hits (some (mapping, v)) :=
        bestMatch_of_highest (fun d hd => hsafe d (mem_of_mem_erase hd))
          (fun d hd => hhigh d (mem_of_mem_erase hd))
      rw [mapCompatible_eq, bestMatch, hhit] at hresult
      dsimp only at hresult
      rw [hbest] at hresult
      exact hresult
    refine ⟨hsafe, ?_⟩
    by_cases hsome : ∃ e ∈ entries, ∃ mapping v, compatibleTo semver impt e = .hits (mapping, v) ∧
        Highest (compatibleTo semver impt) entries v
    · obtain ⟨e, he, mapping, v, hhit, hhigh⟩ := hsome
      have hparse := hfirst e he mapping v hhit hhigh
      exact ⟨mapping, exists_parseMapping_iff.mp ⟨r, hparse⟩, fun d hd mapping' v' hhit' hhigh' =>
        parseMapping_injective (hfirst d hd mapping' v' hhit' hhigh') hparse⟩
    · exact ⟨[], nofun, fun d hd mapping' v' hhit' hhigh' =>
        absurd ⟨d, hd, mapping', v', hhit', hhigh'⟩ hsome⟩
  · rintro ⟨hsafe, mapping, hplain, hagree⟩
    have hsafe' : ∀ order : List Entry, order.Perm entries →
        ∀ e ∈ order, compatibleTo semver impt e ≠ .panics :=
      fun order hperm e he => hsafe e (hperm.mem_iff.mp he)
    rcases bestMatch_spec hsafe none with ⟨_, _, hmiss⟩ | ⟨mapping', v, _, hfrom, hhigh, _⟩
    · -- nothing matches, in any order
      refine ⟨_, .unmapped hunnamed hversioned hunversioned hmiss, fun order hperm => ?_⟩
      rw [mapCompatible_eq]
      rcases bestMatch_spec (hsafe' order hperm) none with ⟨heq, _, _⟩ | ⟨_, _, _, hfrom, _⟩
      · rw [heq]
      · obtain ⟨e, he, hhit⟩ := hfrom.resolve_left nofun
        exact nomatch (hmiss e (hperm.mem_iff.mp he)).symm.trans hhit
    · obtain ⟨e, he, hhit⟩ := hfrom.resolve_left nofun
      have hsame := hagree e he mapping' v hhit hhigh
      obtain ⟨r, hr⟩ := exists_parseMapping_iff.mpr hplain
      refine ⟨r, .compatible hunnamed hversioned hunversioned he hhit hhigh (hsame ▸ hr),
        fun order hperm => ?_⟩
      rw [mapCompatible_eq]
      rcases bestMatch_spec (hsafe' order hperm) none with
        ⟨_, _, hmiss⟩ | ⟨mapping'', v', heq, hfrom', hhigh', _⟩
      · exact nomatch (hmiss.perm hperm.symm e he).symm.trans hhit
      · obtain ⟨d, hd, hhit'⟩ := hfrom'.resolve_left nofun
        have hsame' := hagree d (hperm.mem_iff.mp hd) mapping'' v' hhit' (hhigh'.perm hperm.symm)
        rw [heq, hsame']
        exact hr

theorem Unnamed.perm {es es' : List Entry} (hperm : es.Perm es') (h : Unnamed es' impt) :
    Unnamed es impt := by
  have hkeys : ∀ k, k ∈ keys es ↔ k ∈ keys es' := fun k =>
    (hperm.map Prod.fst).mem_iff
  exact ⟨fun hk => h.1 ((hkeys _).mp hk), fun hk => h.2 ((hkeys _).mp hk)⟩

theorem mem_keys_of_mem {k mapping : Text} (h : (k, mapping) ∈ entries) :
    k ∈ keys entries :=
  mem_map_of_mem (f := Prod.fst) h

/-- One map: the import is resolved the same in every order exactly where the
deciding class has one result. -/
theorem resolved_iff (map : ImportMap) :
    (∃ r, Chosen semver map.entries impt r ∧ ∀ order : List Entry, order.Perm map.entries →
      mapImport semver order impt = some r) ↔ Unambiguous semver map.entries impt := by
  have hlookup : ∀ k (order : List Entry), order.Perm map.entries →
      Keyed.lookup order k = Keyed.lookup map.entries k :=
    fun k order hperm => Keyed.lookup_perm hperm map.keysDistinct k
  cases hexact : lookup map.entries impt with
  | some mapping =>
    -- the name itself is a key
    have hmem := (lookup_eq_some_iff map.keysDistinct).mp hexact
    have hresult : ∀ order : List Entry, order.Perm map.entries →
        mapImport semver order impt = parseMapping mapping := fun order hperm => by
      rw [mapImport, hlookup impt order hperm, hexact]
    have hnamed : ¬ Unnamed map.entries impt := fun h => h.1 (mem_keys_of_mem hmem)
    constructor
    · rintro ⟨r, _, hall⟩
      have hparse := (hresult _ (List.Perm.refl _)).symm.trans (hall _ (List.Perm.refl _))
      exact {
        exact := by
          intro mapping' hmem'
          have hsame := (lookup_eq_some_iff map.keysDistinct).mpr hmem'
          rw [hexact, Option.some.injEq] at hsame
          exact hsame ▸ exists_parseMapping_iff.mp ⟨r, hparse⟩
        sansVersion := fun hout => absurd (mem_keys_of_mem hmem) hout
        versioned := fun h => absurd h hnamed
        unversioned := fun h => absurd h hnamed
        compatible := fun h => absurd h hnamed }
    · intro h
      obtain ⟨r, hr⟩ := exists_parseMapping_iff.mpr (h.exact mapping hmem)
      exact ⟨r, .exact hmem hr, fun order hperm => (hresult order hperm).trans hr⟩
  | none =>
    have hout := lookup_eq_none_iff.mp hexact
    cases hsans : lookup map.entries (sansVersion impt) with
    | some mapping =>
      -- the name without its version is a key
      have hmem := (lookup_eq_some_iff map.keysDistinct).mp hsans
      have hresult : ∀ order : List Entry, order.Perm map.entries →
          mapImport semver order impt = parseMapping mapping := fun order hperm => by
        rw [mapImport, hlookup impt order hperm, hexact, hlookup _ order hperm, hsans]
      have hnamed : ¬ Unnamed map.entries impt := fun h => h.2 (mem_keys_of_mem hmem)
      constructor
      · rintro ⟨r, _, hall⟩
        have hparse := (hresult _ (List.Perm.refl _)).symm.trans (hall _ (List.Perm.refl _))
        exact {
          exact := fun mapping' hmem' => absurd (mem_keys_of_mem hmem') hout
          sansVersion := by
            intro _ mapping' hmem'
            have hsame := (lookup_eq_some_iff map.keysDistinct).mpr hmem'
            rw [hsans, Option.some.injEq] at hsame
            exact hsame ▸ exists_parseMapping_iff.mp ⟨r, hparse⟩
          versioned := fun h => absurd h hnamed
          unversioned := fun h => absurd h hnamed
          compatible := fun h => absurd h hnamed }
      · intro h
        obtain ⟨r, hr⟩ := exists_parseMapping_iff.mpr (h.sansVersion hout mapping hmem)
        exact ⟨r, .sansVersion hout hmem hr, fun order hperm => (hresult order hperm).trans hr⟩
    | none =>
      have hunnamed : Unnamed map.entries impt := ⟨hout, lookup_eq_none_iff.mp hsans⟩
      have hexactNone : ∀ mapping, (impt, mapping) ∈ map.entries → StartsPlain mapping :=
        fun mapping hmem => absurd (mem_keys_of_mem hmem) hunnamed.1
      have hsansNone : impt ∉ keys map.entries → ∀ mapping,
          (sansVersion impt, mapping) ∈ map.entries → StartsPlain mapping :=
        fun _ mapping hmem => absurd (mem_keys_of_mem hmem) hunnamed.2
      have hresult : ∀ order : List Entry, order.Perm map.entries →
          mapImport semver order impt = settle (firstHit (versionedWildcard impt) order)
            (settle (firstHit (unversionedWildcard impt) order)
              (mapCompatible semver order impt)) :=
        fun order hperm => mapImport_of_unnamed (hunnamed.perm hperm)
      by_cases hversioned : AllMiss (versionedWildcard impt) map.entries
      swap
      · -- a pattern with a version decides
        constructor
        · rintro ⟨r, _, hall⟩
          have hagree := agree_of_forall fun order hperm =>
            (hresult order hperm).symm.trans (hall order hperm)
          exact ⟨hexactNone, hsansNone, fun _ => hagree, fun _ h => absurd h hversioned,
            fun _ h => absurd h hversioned⟩
        · intro h
          obtain ⟨e, he, mapping, r, hhit, hr, hall⟩ :=
            exists_of_agree (h.versioned hunnamed) hversioned
          exact ⟨r, .versioned hunnamed he hhit hr, fun order hperm =>
            (hresult order hperm).trans (hall order hperm)⟩
      have hrest : ∀ order : List Entry, order.Perm map.entries →
          mapImport semver order impt = settle (firstHit (unversionedWildcard impt) order)
            (mapCompatible semver order impt) := fun order hperm => by
        rw [hresult order hperm, firstHit_eq_misses_iff.mpr (hversioned.perm hperm)]
        rfl
      have hversionedAgree : Agree (versionedWildcard impt) map.entries :=
        ⟨[], nofun, fun e he => .inl (hversioned e he)⟩
      by_cases hunversioned : AllMiss (unversionedWildcard impt) map.entries
      swap
      · -- a pattern without a version decides
        constructor
        · rintro ⟨r, _, hall⟩
          have hagree := agree_of_forall fun order hperm =>
            (hrest order hperm).symm.trans (hall order hperm)
          exact ⟨hexactNone, hsansNone, fun _ => hversionedAgree, fun _ _ => hagree,
            fun _ _ h => absurd h hunversioned⟩
        · intro h
          obtain ⟨e, he, mapping, r, hhit, hr, hall⟩ :=
            exists_of_agree (h.unversioned hunnamed hversioned) hunversioned
          exact ⟨r, .unversioned hunnamed hversioned he hhit hr, fun order hperm =>
            (hrest order hperm).trans (hall order hperm)⟩
      -- no pattern matches: the compatible versions decide
      have hlast : ∀ order : List Entry, order.Perm map.entries →
          mapImport semver order impt = mapCompatible semver order impt := fun order hperm => by
        rw [hrest order hperm, firstHit_eq_misses_iff.mpr (hunversioned.perm hperm)]
        rfl
      have hunversionedAgree : Agree (unversionedWildcard impt) map.entries :=
        ⟨[], nofun, fun e he => .inl (hunversioned e he)⟩
      constructor
      · rintro ⟨r, hchosen, hall⟩
        have hagree := (compatible_iff hunnamed hversioned hunversioned).mp
          ⟨r, hchosen, fun order hperm => (hlast order hperm).symm.trans (hall order hperm)⟩
        exact ⟨hexactNone, hsansNone, fun _ => hversionedAgree, fun _ _ => hunversionedAgree,
          fun _ _ _ => hagree⟩
      · intro h
        obtain ⟨r, hchosen, hall⟩ := (compatible_iff hunnamed hversioned hunversioned).mpr
          (h.compatible hunnamed hversioned hunversioned)
        exact ⟨r, hchosen, fun order hperm => (hlast order hperm).trans (hall order hperm)⟩

/-- Every map and every import. -/
theorem determined_iff (semver : Semver V) (map : Option ImportMap) (impt : Text) :
    Determined semver map impt ↔ ∀ m ∈ map, Unambiguous semver m.entries impt :=
  forall_congr' fun m => imp_congr_right fun _ => resolved_iff m

end Determined

/-- Two patterns for one import. -/
def overlapping : ImportMap where
  entries := [("wasi:*".toList, "./all.js".toList), ("wasi:cli/*".toList, "./cli.js".toList)]
  keysDistinct := by decide

/-- A crate that parses nothing; the import below has no version to parse. -/
def noVersions : Semver Nat where
  parse _ := none
  major v := v
  minor _ := 0
  preIsEmpty _ := true

/-- Each order of iteration takes another. -/
theorem overlapping_not_determined :
    ¬ Determined noVersions (some overlapping) "wasi:cli/stdout".toList := by
  intro h
  obtain ⟨r, _, hall⟩ := h overlapping rfl
  have hforward := hall overlapping.entries (List.Perm.refl _)
  have hbackward := hall overlapping.entries.reverse (reverse_perm _)
  have hdifferent : mapImport noVersions overlapping.entries "wasi:cli/stdout".toList ≠
      mapImport noVersions overlapping.entries.reverse "wasi:cli/stdout".toList := by decide
  exact hdifferent (hforward.trans hbackward.symm)

end Jco.Bindgen

import Mathlib
import Jco.Bindgen.Names

/-! # Case conversions of names

The names of exports are labels: words with hyphens between them, each in lower or in upper case.
The crate `heck` cuts a name into words and puts these together in another case. Here is what it
documents, for names of ASCII letters, digits and hyphens.

1. The words of a name and the two conversions.
2. Labels, and what the conversions make of a label.
3. When a label comes back from camel case.
-/

namespace Jco.Bindgen

open List

namespace Heck

/-! ## Words -/

/-- The case of the last letter of the current word. -/
inductive Mode where
  | boundary
  | lowercase
  | uppercase
deriving DecidableEq, Repr

def Mode.after (mode : Mode) (c : Char) : Mode :=
  if c.isLower then .lowercase else if c.isUpper then .uppercase else mode

/-- The words of a name without separators, of which `current` was read. A word ends before an
upper case letter that follows a lower case one, and before the last of several upper case
letters when a lower case one follows. -/
def splitWord (mode : Mode) (current : Text) : Text → List Text
  | [] => []
  | [c] => [current ++ [c]]
  | c :: next :: rest =>
    if mode.after c = .lowercase ∧ next.isUpper then
      (current ++ [c]) :: splitWord .boundary [] (next :: rest)
    else if mode = .uppercase ∧ c.isUpper ∧ next.isLower then
      current :: splitWord .boundary [c] (next :: rest)
    else
      splitWord (mode.after c) (current ++ [c]) (next :: rest)

/-- Hyphens are separators. -/
def words (t : Text) : List Text := (t.splitOn '-').flatMap (splitWord .boundary [])

def lowercase (w : Text) : Text := w.map Char.toLower

def capitalize : Text → Text
  | [] => []
  | c :: w => c.toUpper :: lowercase w

/-- `to_lower_camel_case` -/
def lowerCamelCase (t : Text) : Text :=
  match words t with
  | [] => []
  | w :: ws => lowercase w ++ ws.flatMap capitalize

/-- `to_kebab_case` -/
def kebabCase (t : Text) : Text := ['-'].intercalate ((words t).map lowercase)

/-- A name to which the conversions apply. -/
def Plain (t : Text) : Prop := ∀ c ∈ t, c.isAlphanum ∨ c = '-'

/-- The conversions are as documented. -/
structure Documented (toLowerCamelCase toKebabCase : Text → Text) : Prop where
  lowerCamelCase : ∀ t, Plain t → toLowerCamelCase t = Heck.lowerCamelCase t
  kebabCase : ∀ t, Plain t → toKebabCase t = Heck.kebabCase t

/-! ## Labels -/

/-- A word of a label is in one case. -/
def IsWord (w : Text) : Prop :=
  w ≠ [] ∧ ((∀ c ∈ w, c.isDigit ∨ c.isLower) ∨ ∀ c ∈ w, c.isDigit ∨ c.isUpper)

/-- A label begins with a letter. -/
structure Label where
  first : Text
  rest : List Text
  isWord : ∀ w ∈ first :: rest, IsWord w
  letter : ∀ c ∈ first.head?, c.isAlpha

def Label.text (l : Label) : Text := l.first ++ l.rest.flatMap ('-' :: ·)

def IsLabel (t : Text) : Prop := ∃ l : Label, t = l.text

variable {w : Text}

theorem isWord_isAlphanum (h : IsWord w) : ∀ c ∈ w, c.isAlphanum := by
  intro c hc
  rcases h.2 with hlower | hupper
  · rcases hlower c hc with hdigit | hcase
    · simp [Char.isAlphanum, hdigit]
    · simp [Char.isAlphanum, Char.isAlpha, hcase]
  · rcases hupper c hc with hdigit | hcase
    · simp [Char.isAlphanum, hdigit]
    · simp [Char.isAlphanum, Char.isAlpha, hcase]

variable {c : Char}

theorem not_hyphen_of_isAlphanum (h : c.isAlphanum) : c ≠ '-' := by
  rintro rfl
  exact absurd h (by decide)

theorem intercalate_cons (w : Text) (ws : List Text) :
    ['-'].intercalate (w :: ws) = w ++ ws.flatMap ('-' :: ·) := by
  induction ws generalizing w with
  | nil => simp
  | cons v ws ih => rw [intercalate_cons_cons, ih, flatMap_cons]; simp

theorem Label.plain (l : Label) : Plain l.text := by
  intro c hc
  have hword : ∀ w ∈ l.first :: l.rest, ∀ c ∈ w, c.isAlphanum ∨ c = '-' :=
    fun w hw c hc => .inl (isWord_isAlphanum (l.isWord w hw) c hc)
  rcases mem_append.1 hc with hc | hc
  · exact hword l.first mem_cons_self c hc
  · rcases mem_flatMap.1 hc with ⟨w, hw, hc⟩
    rcases mem_cons.1 hc with rfl | hc
    · exact .inr rfl
    · exact hword w (mem_cons_of_mem l.first hw) c hc

theorem not_isUpper (h : c.isDigit ∨ c.isLower) : c.isUpper = false := by
  rcases h with h | h
  · grind [Char.isDigit, Char.isUpper]
  · exact Bool.eq_false_of_not_eq_true (Char.not_isUpper_of_isLower h)

theorem not_isLower (h : c.isDigit ∨ c.isUpper) : c.isLower = false := by
  rcases h with h | h
  · grind [Char.isDigit, Char.isLower]
  · exact Bool.eq_false_of_not_eq_true (Char.not_isLower_of_isUpper h)

/-- No word begins where there is no upper case letter. -/
theorem splitWord_lower (hne : w ≠ []) (h : ∀ c ∈ w, c.isUpper = false) (mode : Mode)
    (current : Text) : splitWord mode current w = [current ++ w] := by
  induction w generalizing mode current with
  | nil => exact absurd rfl hne
  | cons c w ih =>
    cases w with
    | nil => rfl
    | cons next w =>
      rcases forall_mem_cons.1 h with ⟨hc, hw⟩
      have hnext := hw next mem_cons_self
      rw [splitWord, if_neg (by simp [hnext]), if_neg (by simp [hc]),
        ih (cons_ne_nil _ _) hw, append_assoc, singleton_append]

/-- No word begins where there is no lower case letter, and none before. -/
theorem splitWord_upper (hne : w ≠ []) (h : ∀ c ∈ w, c.isLower = false) {mode : Mode}
    (hmode : mode ≠ .lowercase) (current : Text) : splitWord mode current w = [current ++ w] := by
  induction w generalizing mode current with
  | nil => exact absurd rfl hne
  | cons c w ih =>
    cases w with
    | nil => rfl
    | cons next w =>
      rcases forall_mem_cons.1 h with ⟨hc, hw⟩
      have hnext := hw next mem_cons_self
      have hafter : mode.after c ≠ .lowercase := by
        rw [Mode.after, hc, if_neg Bool.false_ne_true]
        split
        · decide
        · exact hmode
      rw [splitWord, if_neg (fun h => hafter h.1), if_neg (by simp [hnext]),
        ih (cons_ne_nil _ _) hw hafter, append_assoc, singleton_append]

theorem splitWord_word (h : IsWord w) : splitWord .boundary [] w = [w] := by
  rcases h with ⟨hne, hlower | hupper⟩
  · exact splitWord_lower hne (fun c hc => not_isUpper (hlower c hc)) .boundary []
  · exact splitWord_upper hne (fun c hc => not_isLower (hupper c hc)) (by decide) []

/-- The words of a label are those it is made of. -/
theorem Label.words_text (l : Label) : words l.text = l.first :: l.rest := by
  have hsplit : l.text.splitOn '-' = l.first :: l.rest := by
    rw [Label.text, ← intercalate_cons]
    refine splitOn_intercalate '-' ?_ (cons_ne_nil _ _)
    intro w hw hhyphen
    exact not_hyphen_of_isAlphanum (isWord_isAlphanum (l.isWord w hw) '-' hhyphen) rfl
  have hwords : ∀ ws : List Text, (∀ w ∈ ws, IsWord w) →
      ws.flatMap (splitWord .boundary []) = ws := by
    intro ws hws
    induction ws with
    | nil => rfl
    | cons w ws ih =>
      rw [flatMap_cons, splitWord_word (hws w mem_cons_self),
        ih fun v hv => hws v (mem_cons_of_mem w hv)]
      rfl
  rw [words, hsplit]
  exact hwords _ l.isWord

theorem lowerCamelCase_label (l : Label) :
    lowerCamelCase l.text = lowercase l.first ++ l.rest.flatMap capitalize := by
  rw [lowerCamelCase, l.words_text]

theorem lowercase_append (w v : Text) : lowercase (w ++ v) = lowercase w ++ lowercase v :=
  map_append

theorem lowercase_flatMap (ws : List Text) :
    lowercase (ws.flatMap ('-' :: ·)) = (ws.map lowercase).flatMap ('-' :: ·) := by
  induction ws with
  | nil => rfl
  | cons w ws ih =>
    rw [flatMap_cons, lowercase_append, ih, map_cons, flatMap_cons]
    rfl

/-- A label in kebab case is the label in lower case. -/
theorem kebabCase_label (l : Label) : kebabCase l.text = lowercase l.text := by
  rw [kebabCase, l.words_text, map_cons, intercalate_cons, Label.text, lowercase_append,
    lowercase_flatMap]

theorem lowercase_eq_self {t : Text} : lowercase t = t ↔ ∀ c ∈ t, c.isUpper = false := by
  induction t with
  | nil => exact ⟨nofun, fun _ => rfl⟩
  | cons c t ih =>
    have hc : c.toLower = c ↔ c.isUpper = false := by
      constructor
      · intro h
        rw [← h]
        exact Char.isUpper_toLower_eq_false c
      · intro h
        exact Char.toLower_eq_of_not_isUpper (by rw [h]; decide)
    rw [lowercase, map_cons, List.cons.injEq, hc, forall_mem_cons, ← ih, lowercase]

/-! ## Back from camel case -/

/-- A hyphen is put before `c`, which is followed by `rest`. -/
def hyphenated (mode : Mode) (c : Char) (rest : Text) : Bool :=
  c.isUpper && (mode = .lowercase || mode = .uppercase && rest.head?.any Char.isLower)

/-- The text of the words in lower case, with the hyphens between them. -/
def kebabFrom (mode : Mode) : Text → Text
  | [] => []
  | c :: t =>
    (if hyphenated mode c t then ['-'] else []) ++ c.toLower :: kebabFrom (mode.after c) t

theorem after_of_isUpper (h : c.isUpper) (mode : Mode) : mode.after c = .uppercase := by
  rw [Mode.after, if_neg (Char.not_isLower_of_isUpper h), if_pos h]

theorem after_of_isLower (h : c.isLower) (mode : Mode) : mode.after c = .lowercase := by
  rw [Mode.after, if_pos h]

theorem intercalate_splitWord_ne_nil (mode : Mode) (current : Text) (c : Char) (t : Text) :
    ∃ w ws, splitWord mode current (c :: t) = w :: ws := by
  induction t generalizing mode current c with
  | nil => exact ⟨_, _, rfl⟩
  | cons next t ih =>
    rw [splitWord]
    split
    · exact ⟨_, _, rfl⟩
    · split
      · exact ⟨_, _, rfl⟩
      · exact ih _ _ _

/-- The words of a text, put together. The last letter that was read does not end a word. -/
theorem intercalate_splitWord (mode : Mode) (current : Text) (c : Char) (t : Text)
    (h : ¬ (mode = .lowercase ∧ c.isUpper)) :
    ['-'].intercalate ((splitWord mode current (c :: t)).map lowercase) =
      lowercase current ++ kebabFrom mode (c :: t) := by
  -- a word that is read is followed by a hyphen and the next words
  have hcons : ∀ (w : Text) (mode : Mode) (current : Text) (c : Char) (t : Text),
      ['-'].intercalate ((w :: splitWord mode current (c :: t)).map lowercase) =
        lowercase w ++ '-' :: ['-'].intercalate ((splitWord mode current (c :: t)).map lowercase) := by
    intro w mode current c t
    obtain ⟨v, ws, hws⟩ := intercalate_splitWord_ne_nil mode current c t
    rw [hws, map_cons, map_cons, intercalate_cons_cons]
    simp
  induction t generalizing mode current c with
  | nil =>
    have hno : hyphenated mode c [] = false := by
      unfold hyphenated
      by_cases hc : c.isUpper
      · have hmode : mode ≠ .lowercase := fun hm => h ⟨hm, hc⟩
        simp [hmode]
      · simp [hc]
    rw [kebabFrom, hno, splitWord, map_singleton, lowercase_append]
    simp [kebabFrom, lowercase]
  | cons next t ih =>
    rw [splitWord, kebabFrom]
    by_cases hends : mode.after c = .lowercase ∧ next.isUpper
    · -- the word ends after `c`
      have hc : hyphenated mode c (next :: t) = false := by
        by_contra hyphen
        have hupper : c.isUpper := by
          unfold hyphenated at hyphen
          grind
        rw [after_of_isUpper hupper] at hends
        exact absurd hends.1 (by decide)
      have hnext : hyphenated .lowercase next t = true := by simp [hyphenated, hends.2]
      have hboundary : hyphenated .boundary next t = false := by simp [hyphenated]
      rw [if_pos hends, hcons, ih .boundary [] next (by simp), hc, hends.1, kebabFrom, kebabFrom,
        hnext, hboundary, after_of_isUpper hends.2, after_of_isUpper hends.2, lowercase_append]
      simp [lowercase]
    · rw [if_neg hends]
      by_cases hbegins : mode = .uppercase ∧ c.isUpper ∧ next.isLower
      · -- a word begins at `c`
        have hc : hyphenated mode c (next :: t) = true := by
          simp [hyphenated, hbegins.1, hbegins.2.1, hbegins.2.2]
        have hnext : ∀ mode, hyphenated mode next t = false := by
          intro mode
          simp [hyphenated, Char.not_isUpper_of_isLower hbegins.2.2]
        rw [if_pos hbegins, hcons, ih .boundary [c] next (by simp), hc, kebabFrom, kebabFrom,
          hnext, hnext, after_of_isLower hbegins.2.2, after_of_isLower hbegins.2.2]
        simp [lowercase]
      · have hc : hyphenated mode c (next :: t) = false := by
          unfold hyphenated
          rw [not_and] at h
          by_cases hmode : mode = .lowercase
          · simp [h hmode]
          · simp only [hmode, decide_false, Bool.false_or, List.head?_cons, Option.any_some]
            grind
        rw [if_neg hbegins, ih (mode.after c) (current ++ [c]) next hends, hc, lowercase_append]
        simp [lowercase]

/-- A text without hyphens in kebab case. -/
theorem kebabCase_of_not_mem {t : Text} (h : '-' ∉ t) : kebabCase t = kebabFrom .boundary t := by
  cases t with
  | nil => rfl
  | cons c t =>
    have hsplit : (c :: t).splitOn '-' = [c :: t] := by
      have hword : ∀ w ∈ [c :: t], '-' ∉ w := by
        intro w hw
        rw [mem_singleton.1 hw]
        exact h
      have hone := splitOn_intercalate '-' hword (cons_ne_nil _ _)
      rwa [intercalate_singleton] at hone
    rw [kebabCase, words, hsplit, flatMap_singleton,
      intercalate_splitWord .boundary [] c t (by simp)]
    rfl

theorem kebabFrom_lower (h : ∀ c ∈ w, c.isUpper = false) (mode : Mode) (t : Text) :
    kebabFrom mode (w ++ t) = w ++ kebabFrom (w.foldl Mode.after mode) t := by
  induction w generalizing mode with
  | nil => rfl
  | cons c w ih =>
    rcases forall_mem_cons.1 h with ⟨hc, hw⟩
    have hno : hyphenated mode c (w ++ t) = false := by simp [hyphenated, hc]
    have hlower : c.toLower = c := Char.toLower_eq_of_not_isUpper (by rw [hc]; decide)
    rw [cons_append, kebabFrom, hno, hlower, ih hw]
    rfl

/-- The hyphen before a word comes back from camel case: the word begins with a letter, and the
word before has a lower case letter at its end, or none while this one begins with two letters. -/
def separated (mode : Mode) : Text → Bool
  | [] => false
  | c :: w => c.isAlpha && (mode = .lowercase || mode = .uppercase && w.head?.any Char.isAlpha)

theorem toLower_ne_hyphen (h : c.isAlphanum) : c.toLower ≠ '-' := by
  intro heq
  by_cases hupper : c.isUpper
  · have hlower : c.toLower.isLower = true := by
      rw [Char.isLower_toLower_eq_isAlpha, Char.isAlpha, hupper]
      rfl
    rw [heq] at hlower
    exact absurd hlower (by decide)
  · rw [Char.toLower_eq_of_not_isUpper hupper] at heq
    exact not_hyphen_of_isAlphanum h heq

theorem isUpper_lowercase : ∀ c ∈ lowercase w, c.isUpper = false := by
  intro c hc
  obtain ⟨d, _, rfl⟩ := mem_map.1 hc
  exact Char.isUpper_toLower_eq_false d

/-- A word in camel case, followed by words. -/
theorem kebabFrom_capitalize (hne : w ≠ []) (mode : Mode) {t : Text}
    (ht : t.head?.any Char.isLower = false) :
    kebabFrom mode (capitalize w ++ t) = (if separated mode w then ['-'] else []) ++
      (lowercase w ++ kebabFrom ((capitalize w).foldl Mode.after mode) t) := by
  cases w with
  | nil => exact absurd rfl hne
  | cons c w =>
    have hhyphen : hyphenated mode c.toUpper (lowercase w ++ t) = separated mode (c :: w) := by
      unfold hyphenated separated
      rw [Char.isUpper_toUpper_eq_isAlpha]
      cases w with
      | nil =>
        rw [lowercase, map_nil, nil_append, ht]
        rfl
      | cons d w => simp [lowercase, Char.isLower_toLower_eq_isAlpha]
    rw [capitalize, cons_append, kebabFrom, hhyphen, Char.toLower_toUpper_eq_toLower,
      kebabFrom_lower isUpper_lowercase]
    rfl

/-- All hyphens before the words come back. -/
def allSeparated : Mode → List Text → Bool
  | _, [] => true
  | mode, w :: ws => separated mode w && allSeparated ((capitalize w).foldl Mode.after mode) ws

theorem head_capitalize (ws : List Text) (hne : ∀ w ∈ ws, w ≠ []) :
    (ws.flatMap capitalize).head?.any Char.isLower = false := by
  cases ws with
  | nil => rfl
  | cons w ws =>
    cases w with
    | nil => exact absurd rfl (hne [] mem_cons_self)
    | cons c w =>
      rw [flatMap_cons, capitalize, cons_append, List.head?_cons, Option.any_some]
      exact Char.isLower_toUpper_eq_false c

/-- Words in camel case come back if and only if they are in lower case and separated. -/
theorem kebabFrom_words (ws : List Text) (hws : ∀ w ∈ ws, IsWord w) (mode : Mode) :
    kebabFrom mode (ws.flatMap capitalize) = ws.flatMap ('-' :: ·) ↔
      (∀ w ∈ ws, ∀ c ∈ w, c.isUpper = false) ∧ allSeparated mode ws = true := by
  induction ws generalizing mode with
  | nil => exact ⟨fun _ => ⟨nofun, rfl⟩, fun _ => rfl⟩
  | cons w ws ih =>
    rcases forall_mem_cons.1 hws with ⟨hw, hrest⟩
    rw [flatMap_cons, flatMap_cons, kebabFrom_capitalize hw.1 mode
      (head_capitalize ws fun v hv => (hrest v hv).1), allSeparated, forall_mem_cons]
    cases hsep : separated mode w
    · -- without its hyphen the word begins with another character
      refine ⟨fun heq => ?_, fun h => absurd h.2 (by simp)⟩
      obtain ⟨c, v, rfl⟩ := exists_cons_of_ne_nil hw.1
      have hc : c.toLower = '-' := (List.cons.inj heq).1
      exact absurd hc (toLower_ne_hyphen (isWord_isAlphanum hw c mem_cons_self))
    · rw [if_pos rfl, Bool.true_and]
      have hlength : (lowercase w).length = w.length := length_map _
      constructor
      · intro heq
        have htext : lowercase w ++ kebabFrom ((capitalize w).foldl Mode.after mode)
            (ws.flatMap capitalize) = w ++ ws.flatMap ('-' :: ·) := (List.cons.inj heq).2
        rcases append_inj htext hlength with ⟨hword, htail⟩
        rcases (ih hrest _).1 htail with ⟨hlower, hall⟩
        exact ⟨⟨lowercase_eq_self.1 hword, hlower⟩, hall⟩
      · rintro ⟨⟨hlower, hlowers⟩, hall⟩
        rw [lowercase_eq_self.2 hlower, (ih hrest _).2 ⟨hlowers, hall⟩]
        rfl

/-- A label comes back from camel case. -/
def Label.Survives (l : Label) : Prop :=
  (∀ c ∈ l.text, c.isUpper = false) ∧ allSeparated .lowercase l.rest = true

theorem hyphen_isUpper (ws : List Text) :
    (∀ c ∈ ws.flatMap ('-' :: ·), c.isUpper = false) ↔ ∀ w ∈ ws, ∀ c ∈ w, c.isUpper = false := by
  simp only [mem_flatMap, mem_cons]
  constructor
  · intro h w hw c hc
    exact h c ⟨w, hw, .inr hc⟩
  · rintro h c ⟨w, hw, rfl | hc⟩
    · decide
    · exact h w hw c hc

/-- The first word of a label leaves a lower case letter behind. -/
theorem Label.mode_first (l : Label) :
    (lowercase l.first).foldl Mode.after .boundary = .lowercase := by
  have hword := l.isWord l.first mem_cons_self
  have hletter := l.letter
  -- later characters are lower case letters or digits
  have hkeeps : ∀ w : Text, (∀ c ∈ w, c.isAlphanum) →
      (lowercase w).foldl Mode.after .lowercase = .lowercase := by
    intro w hw
    induction w with
    | nil => rfl
    | cons c w ih =>
      rcases forall_mem_cons.1 hw with ⟨_, hrest⟩
      have hc : Mode.after .lowercase c.toLower = .lowercase := by
        rw [Mode.after, Char.isUpper_toLower_eq_false, if_neg Bool.false_ne_true, ite_self]
      rw [lowercase, map_cons, foldl_cons, hc]
      exact ih hrest
  obtain ⟨c, w, hfirst⟩ := exists_cons_of_ne_nil hword.1
  rw [hfirst] at hword hletter ⊢
  have hc : c.toLower.isLower := by
    rw [Char.isLower_toLower_eq_isAlpha]
    exact hletter c rfl
  rw [lowercase, map_cons, foldl_cons, after_of_isLower hc]
  exact hkeeps w fun d hd => isWord_isAlphanum hword d (mem_cons_of_mem c hd)

theorem hyphen_notMem_lowercase (h : ∀ c ∈ w, c.isAlphanum) : '-' ∉ lowercase w := by
  intro hmem
  obtain ⟨c, hc, heq⟩ := mem_map.1 hmem
  exact toLower_ne_hyphen (h c hc) heq

/-- A digit is the same in every case. -/
theorem case_of_not_isAlpha (h : ¬ c.isAlpha) : c.toUpper = c ∧ c.toLower = c := by
  rw [Char.isAlpha, Bool.or_eq_true, not_or] at h
  exact ⟨Char.toUpper_eq_of_not_isLower h.2, Char.toLower_eq_of_not_isUpper h.1⟩

theorem isAlphanum_toLower (h : c.isAlphanum) : c.toLower.isAlphanum := by
  by_cases halpha : c.isAlpha
  · rw [Char.isAlphanum, Char.isAlpha_toLower_eq_isAlpha, halpha]
    rfl
  · rwa [(case_of_not_isAlpha halpha).2]

theorem isAlphanum_toUpper (h : c.isAlphanum) : c.toUpper.isAlphanum := by
  by_cases halpha : c.isAlpha
  · rw [Char.isAlphanum, Char.isAlpha_toUpper_eq_isAlpha, halpha]
    rfl
  · rwa [(case_of_not_isAlpha halpha).1]

/-- Camel case has no separators. -/
theorem Label.isAlphanum_camel (l : Label) : ∀ c ∈ lowerCamelCase l.text, c.isAlphanum := by
  have hlowercase : ∀ w : Text, (∀ c ∈ w, c.isAlphanum) → ∀ c ∈ lowercase w, c.isAlphanum := by
    intro w hw c hc
    obtain ⟨d, hd, rfl⟩ := mem_map.1 hc
    exact isAlphanum_toLower (hw d hd)
  intro c hc
  rw [lowerCamelCase_label, mem_append] at hc
  rcases hc with hc | hc
  · exact hlowercase _ (isWord_isAlphanum (l.isWord _ mem_cons_self)) c hc
  · rcases mem_flatMap.1 hc with ⟨w, hw, hc⟩
    have halnum := isWord_isAlphanum (l.isWord w (mem_cons_of_mem l.first hw))
    cases w with
    | nil => cases hc
    | cons d w =>
      rcases forall_mem_cons.1 halnum with ⟨hd, hrest⟩
      rcases mem_cons.1 hc with rfl | hc
      · exact isAlphanum_toUpper hd
      · exact hlowercase w hrest c hc

theorem Label.plain_camel (l : Label) : Plain (lowerCamelCase l.text) :=
  fun c hc => .inl (l.isAlphanum_camel c hc)

theorem hyphen_notMem_camel (l : Label) : '-' ∉ lowerCamelCase l.text :=
  fun h => not_hyphen_of_isAlphanum (l.isAlphanum_camel '-' h) rfl

/-- A label is what kebab case makes of its camel case, exactly when it survives. -/
theorem Label.kebab_camel_iff (l : Label) :
    kebabCase (lowerCamelCase l.text) = l.text ↔ l.Survives := by
  rw [kebabCase_of_not_mem (hyphen_notMem_camel l), lowerCamelCase_label,
    kebabFrom_lower isUpper_lowercase, l.mode_first, Label.Survives]
  have hwords := kebabFrom_words l.rest
    (fun w hw => l.isWord w (mem_cons_of_mem l.first hw)) .lowercase
  have hlength : (lowercase l.first).length = l.first.length := length_map _
  rw [Label.text]
  constructor
  · intro heq
    rcases append_inj heq hlength with ⟨hfirst, hrest⟩
    rcases hwords.1 hrest with ⟨hlower, hall⟩
    refine ⟨?_, hall⟩
    intro c hc
    rcases mem_append.1 hc with hc | hc
    · exact lowercase_eq_self.1 hfirst c hc
    · exact (hyphen_isUpper l.rest).2 hlower c hc
  · rintro ⟨hlower, hall⟩
    have hfirst := lowercase_eq_self.2 fun c hc => hlower c (mem_append_left _ hc)
    have hrest := (hyphen_isUpper l.rest).1 fun c hc => hlower c (mem_append_right _ hc)
    rw [hfirst, hwords.2 ⟨hrest, hall⟩]

/-! ## Labels of one camel case -/

/-- A word after the first, with its hyphen where it begins with a letter. -/
def marked : Text → Text
  | [] => []
  | c :: w => (if c.isAlpha then ['-'] else []) ++ lowercase (c :: w)

/-- A label in lower case, without the hyphens before digits. -/
def Label.joined (l : Label) : Text := lowercase l.first ++ l.rest.flatMap marked

/-- The mark of an upper case letter. -/
def unfuse (t : Text) : Text := t.flatMap fun c => if c.isUpper then ['-', c.toLower] else [c]

/-- What is written for a letter that has a hyphen before it. -/
def fuse : Text → Text
  | [] => []
  | [c] => [c]
  | c :: d :: t => if c = '-' then d.toUpper :: fuse t else c :: fuse (d :: t)

theorem unfuse_append (u t : Text) : unfuse (u ++ t) = unfuse u ++ unfuse t := flatMap_append

theorem unfuse_lower (h : ∀ c ∈ w, c.isUpper = false) : unfuse w = w := by
  induction w with
  | nil => rfl
  | cons c w ih =>
    rcases forall_mem_cons.1 h with ⟨hc, hw⟩
    rw [unfuse, flatMap_cons, if_neg (by rw [hc]; decide)]
    exact congrArg (c :: ·) (ih hw)

theorem unfuse_capitalize (h : IsWord w) : unfuse (capitalize w) = marked w := by
  cases w with
  | nil => rfl
  | cons c w =>
    have hrest : unfuse (lowercase w) = lowercase w := unfuse_lower isUpper_lowercase
    rw [capitalize, marked, unfuse, flatMap_cons, Char.isUpper_toUpper_eq_isAlpha,
      Char.toLower_toUpper_eq_toLower]
    change _ ++ unfuse (lowercase w) = _
    rw [hrest]
    by_cases hc : c.isAlpha
    · rw [if_pos hc, if_pos hc]
      rfl
    · rcases case_of_not_isAlpha hc with ⟨hupper, hlower⟩
      rw [if_neg hc, if_neg hc, hupper]
      change c :: lowercase w = c.toLower :: lowercase w
      rw [hlower]

theorem Label.unfuse_camel (l : Label) : unfuse (lowerCamelCase l.text) = l.joined := by
  have hwords : ∀ ws : List Text, (∀ w ∈ ws, IsWord w) →
      unfuse (ws.flatMap capitalize) = ws.flatMap marked := by
    intro ws hws
    induction ws with
    | nil => rfl
    | cons w ws ih =>
      rcases forall_mem_cons.1 hws with ⟨hw, hrest⟩
      rw [flatMap_cons, unfuse_append, unfuse_capitalize hw, ih hrest, flatMap_cons]
  rw [lowerCamelCase_label, unfuse_append, unfuse_lower isUpper_lowercase,
    hwords l.rest fun w hw => l.isWord w (mem_cons_of_mem l.first hw), Label.joined]

theorem fuse_append (h : '-' ∉ w) (t : Text) : fuse (w ++ t) = w ++ fuse t := by
  induction w with
  | nil => rfl
  | cons c w ih =>
    rw [mem_cons, not_or] at h
    have hc : c ≠ '-' := fun heq => h.1 heq.symm
    have hrest := ih h.2
    rw [cons_append, cons_append]
    cases hwt : w ++ t with
    | nil =>
      rw [hwt] at hrest
      rw [← hrest]
      rfl
    | cons d u => rw [fuse, if_neg hc, ← hwt, hrest]

theorem Label.fuse_joined (l : Label) : fuse l.joined = lowerCamelCase l.text := by
  have hwords : ∀ ws : List Text, (∀ w ∈ ws, IsWord w) →
      fuse (ws.flatMap marked) = ws.flatMap capitalize := by
    intro ws hws
    induction ws with
    | nil => rfl
    | cons w ws ih =>
      rcases forall_mem_cons.1 hws with ⟨hw, hrest⟩
      have halnum := isWord_isAlphanum hw
      obtain ⟨c, w, rfl⟩ := exists_cons_of_ne_nil hw.1
      rcases forall_mem_cons.1 halnum with ⟨hc, hwrest⟩
      rw [flatMap_cons, flatMap_cons, marked, capitalize]
      by_cases halpha : c.isAlpha
      · rw [if_pos halpha, lowercase, map_cons]
        change fuse ('-' :: c.toLower :: (lowercase w ++ ws.flatMap marked)) = _
        rw [fuse, if_pos rfl, Char.toUpper_toLower_eq_toUpper,
          fuse_append (hyphen_notMem_lowercase hwrest), ih hrest]
        rfl
      · rcases case_of_not_isAlpha halpha with ⟨hupper, hlower⟩
        rw [if_neg halpha, nil_append, fuse_append (hyphen_notMem_lowercase halnum), ih hrest,
          hupper, lowercase, map_cons, hlower]
        rfl
  rw [lowerCamelCase_label, Label.joined,
    fuse_append (hyphen_notMem_lowercase (isWord_isAlphanum (l.isWord _ mem_cons_self))),
    hwords l.rest fun w hw => l.isWord w (mem_cons_of_mem l.first hw)]

/-- Two labels have one camel case if and only if they differ in case and in hyphens before digits
only. -/
theorem camel_eq_iff (l l' : Label) :
    lowerCamelCase l.text = lowerCamelCase l'.text ↔ l.joined = l'.joined := by
  constructor
  · intro h
    rw [← l.unfuse_camel, h, l'.unfuse_camel]
  · intro h
    rw [← l.fuse_joined, h, l'.fuse_joined]

end Heck

end Jco.Bindgen

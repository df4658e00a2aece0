import Mathlib.Data.List.Induction
import Jco.Bindgen.Names

/-! # Exports of the `asm.js` wrapper

`generateASMJS` declares a function for each exported function, with a variable that holds
what it calls, and a variable for each exported instance; `$init` sets the variables from
what `instantiate` returns. All identifiers are made by `asmMangle`. This is the wrapper
without `--instantiation`. It has bindings of its own beside those: the imports, what the
component's source declares at its top, `asmInit`, `instantiate` and `$init`.
-/

namespace Jco.Bindgen.AsmExports

open List

/-! ## Mangling -/

def letter (c : Char) : Bool :=
  97 ≤ c.toNat && c.toNat ≤ 122 || 65 ≤ c.toNat && c.toNat ≤ 90

def digit (c : Char) : Bool := 48 ≤ c.toNat && c.toNat ≤ 57

/-- What stands for a character behind the first. -/
def mangleChar (c : Char) : Char :=
  if digit c || c = '$' || c = '_' || letter c then c else '_'

/-- The words of the `switch`, which goes by the first letter. -/
def keywords : List Text :=
  ["arguments", "break", "case", "continue", "catch", "const", "class", "do", "default",
    "debugger", "else", "enum", "eval", "export", "extends", "for", "false", "finally",
    "function", "if", "in", "import", "interface", "implements", "instanceof", "let", "new",
    "null", "public", "package", "private", "protected", "return", "super", "static", "switch",
    "try", "this", "true", "throw", "typeof", "var", "void", "with", "while", "yield"].map
      String.toList

/-- The mangled name before the keywords, and `mightBeKeyword`. -/
def mangled : Text → Text × Bool
  | [] => (['$'], false)
  | c :: rest =>
    let body := rest.map mangleChar
    if digit c then ('$' :: c :: body, false)
    else if c = '$' || c = '_' then (c :: body, false)
    else if letter c then (c :: body, rest.all letter)
    else ('$' :: body, false)

def asmMangle (name : Text) : Text :=
  let (name, mightBeKeyword) := mangled name
  if mightBeKeyword && 2 ≤ name.length && name.length ≤ 10 && keywords.contains name then
    name ++ ['_']
  else name

/-! ## The wrapper -/

inductive ExportType where
  | function : ExportType
  | instance : ExportType
deriving DecidableEq, Repr

abbrev Export := Text × ExportType

/-- What `$init` sets for an export. -/
def target (e : Export) : Text :=
  match e.2 with
  | .function => '_' :: asmMangle e.1
  | .instance => asmMangle e.1

def functions (exports : List Export) : List Export := exports.filter fun e => e.2 = .function

/-- What `exportTrampolines` declares: one `let` for all functions, then each export. -/
def declared (exports : List Export) : List Text :=
  (functions exports).map target ++ exports.map fun e => asmMangle e.1

/-- The names that the wrapper declares itself, as far as they begin with a letter. -/
def letterNames (imports : Nat) : List Text :=
  (range imports).map (fun nth => "import".toList ++ Nat.toDigits 10 nth) ++
    ["asmInit".toList, "instantiate".toList]

/-- The bindings of the wrapper that are not for an export, in a component with so many imports.
The source declares `_instantiate`, as it is renamed, and `_util`. -/
def wrapperBindings (imports : Nat) : List Text :=
  letterNames imports ++ ["_instantiate".toList, "_util".toList, "$init".toList]

/-- The variables behind `$init`, by the name of the export that each is set to. -/
def init (exports : List Export) : Text → Option Text :=
  exports.foldl (fun env e => Function.update env (target e) (some e.1)) fun _ => none

/-- The wrapper parses as far as the `let` of the functions goes, which needs a name; what it
declares can be bound, is distinct and is nothing of the wrapper's; and each name is that of its
export. -/
structure Lawful (imports : Nat) (exports : List Export) : Prop where
  parses : exports ≠ [] → functions exports ≠ []
  legal : ∀ id ∈ declared exports, BindingIdentifier id
  distinct : (declared exports).Nodup
  apart : (declared exports).Disjoint (wrapperBindings imports)
  refers : ∀ e ∈ exports, init exports (target e) = some e.1

/-- A name begins with a letter and ends with a letter or a digit, as component names and
their camel case do. -/
def ValidName (name : Text) : Prop :=
  ∃ c rest, name = c :: rest ∧ letter c = true ∧
    ∀ d ∈ name.getLast?, letter d = true ∨ digit d = true

/-- No name is one of the two words that the table lacks or one of the wrapper's, no function is
named `util`, no two names become one when characters are replaced, and a function is among them. -/
structure Harmless (imports : Nat) (exports : List Export) : Prop where
  words : ∀ e ∈ exports, e.1 ≠ "await".toList ∧ e.1 ≠ "delete".toList
  wrapper : ∀ e ∈ exports, e.1 ∉ letterNames imports
  util : ∀ e ∈ exports, e.2 = .function → e.1 ≠ "util".toList
  replaced : (exports.map fun e => e.1.map mangleChar).Nodup
  function : exports ≠ [] → ∃ e ∈ exports, e.2 = .function

section

variable {name name' : Text} {imports : Nat} {exports : List Export} {e e' : Export}

theorem mangleChar_letter {c : Char} (hc : letter c = true) : mangleChar c = c := by
  simp [mangleChar, hc]

theorem not_digit_of_letter {c : Char} (hc : letter c = true) : digit c = false := by
  unfold letter at hc
  unfold digit
  simp at hc ⊢
  omega

theorem mangled_valid (hname : ValidName name) :
    mangled name = (name.map mangleChar, name.all letter) := by
  rcases hname with ⟨c, rest, rfl, hc, -⟩
  have hdollar : c ≠ '$' ∧ c ≠ '_' := by
    constructor <;> rintro rfl <;> exact absurd hc (by decide)
  simp [mangled, hc, not_digit_of_letter hc, hdollar, mangleChar_letter hc]

theorem map_mangleChar_letters (hname : name.all letter = true) : name.map mangleChar = name := by
  rw [all_eq_true] at hname
  exact (map_congr_left fun c hc => mangleChar_letter (hname c hc)).trans (map_id _)

theorem keywords_letters : ∀ word ∈ keywords, word.all letter = true ∧ 2 ≤ word.length ∧
    word.length ≤ 10 := by
  decide

theorem asmMangle_valid (hname : ValidName name) :
    asmMangle name = if name ∈ keywords then name ++ ['_'] else name.map mangleChar := by
  unfold asmMangle
  rw [mangled_valid hname]
  dsimp only
  by_cases hword : name ∈ keywords
  · rcases keywords_letters name hword with ⟨hletters, hlength⟩
    rw [map_mangleChar_letters hletters]
    simp [hletters, hlength, hword]
  · rw [if_neg hword]
    by_cases hletters : name.all letter = true
    · rw [map_mangleChar_letters hletters]
      simp [hword]
    · simp [hletters]

theorem letters_of_map (hname : (name.map mangleChar).all letter = true) :
    name.all letter = true := by
  rw [all_eq_true] at hname ⊢
  intro c hc
  have hmangled := hname _ (mem_map_of_mem hc)
  by_cases hkeep : (digit c || c = '$' || c = '_' || letter c) = true
  · rwa [mangleChar, if_pos hkeep] at hmangled
  · rw [mangleChar, if_neg hkeep] at hmangled
    exact absurd hmangled (by decide)

/-- A keyword is only what it is. -/
theorem eq_of_map_keyword (hword : name ∈ keywords)
    (heq : name'.map mangleChar = name.map mangleChar) : name' = name := by
  have hletters := (keywords_letters name hword).1
  have hname := map_mangleChar_letters hletters
  rw [hname] at heq
  have hname' := map_mangleChar_letters (letters_of_map (heq ▸ hletters))
  exact hname'.symm.trans heq

theorem map_ne_underscore (hname : ValidName name) (w : Text) :
    name.map mangleChar ≠ w ++ ['_'] := by
  intro heq
  rcases hname with ⟨c, rest, hcons, -, hlast⟩
  have hmap := congrArg List.getLast? heq
  rw [List.getLast?_map, List.getLast?_concat] at hmap
  rcases Option.map_eq_some_iff.1 hmap with ⟨d, hd, hmangled⟩
  have hkeep : (digit d || d = '$' || d = '_' || letter d) = true := by
    rcases hlast d hd with h | h <;> simp [h]
  rw [mangleChar, if_pos hkeep] at hmangled
  subst hmangled
  exact absurd (hlast '_' hd) (by decide)

/-- Two names become one exactly if they do so character by character. -/
theorem asmMangle_eq_iff (hname : ValidName name) (hname' : ValidName name') :
    asmMangle name = asmMangle name' ↔ name.map mangleChar = name'.map mangleChar := by
  rw [asmMangle_valid hname, asmMangle_valid hname']
  by_cases hword : name ∈ keywords <;> by_cases hword' : name' ∈ keywords
  · rw [if_pos hword, if_pos hword', append_left_inj]
    exact ⟨fun heq => by rw [heq], fun heq => eq_of_map_keyword hword' heq⟩
  · rw [if_pos hword, if_neg hword']
    refine ⟨fun heq => absurd heq.symm (map_ne_underscore hname' name), fun heq => ?_⟩
    exact absurd (eq_of_map_keyword hword heq.symm ▸ hword) hword'
  · rw [if_neg hword, if_pos hword']
    refine ⟨fun heq => absurd heq (map_ne_underscore hname name'), fun heq => ?_⟩
    exact absurd (eq_of_map_keyword hword' heq ▸ hword') hword
  · rw [if_neg hword, if_neg hword']

/-! ## Identifiers -/

theorem strictReserved_cases : ∀ word ∈ strictReserved, word.all letter = true ∧
    (word ∈ keywords ∨ word = "await".toList ∨ word = "delete".toList) := by
  decide

theorem start_of_letter {c : Char} (hc : letter c = true) : isValidJsIdentifierStart c = true := by
  simp [letter, isValidJsIdentifierStart, Char.le_def, UInt32.le_iff_toNat_le] at hc ⊢
  omega

theorem char_mangleChar (c : Char) : isValidJsIdentifierChar (mangleChar c) = true := by
  by_cases hkeep : (digit c || c = '$' || c = '_' || letter c) = true
  · rw [mangleChar, if_pos hkeep]
    by_cases hdollar : c = '$' ∨ c = '_'
    · rcases hdollar with rfl | rfl <;> decide
    · rw [not_or] at hdollar
      simp [letter, digit, isValidJsIdentifierChar, Char.le_def, UInt32.le_iff_toNat_le,
        hdollar] at hkeep ⊢
      omega
  · rw [mangleChar, if_neg hkeep]
    decide

/-- The mangled name, with an underscore behind it or not. -/
theorem asmMangle_append (hname : ValidName name) :
    ∃ t, (∀ d ∈ t, isValidJsIdentifierChar d = true) ∧
      asmMangle name = name.map mangleChar ++ t := by
  rw [asmMangle_valid hname]
  by_cases hword : name ∈ keywords
  · refine ⟨['_'], ?_, ?_⟩
    · intro d hd
      rw [mem_singleton.1 hd]
      rfl
    · rw [if_pos hword, map_mangleChar_letters (keywords_letters name hword).1]
  · exact ⟨[], fun d hd => (not_mem_nil hd).elim, by rw [if_neg hword, append_nil]⟩

theorem asmMangle_name (hname : ValidName name) :
    ∃ c rest, asmMangle name = c :: rest ∧ letter c = true ∧
      ∀ d ∈ rest, isValidJsIdentifierChar d = true := by
  rcases asmMangle_append hname with ⟨t, ht, heq⟩
  rcases hname with ⟨c, rest, rfl, hc, -⟩
  refine ⟨c, rest.map mangleChar ++ t, ?_, hc, fun d hd => ?_⟩
  · rw [heq, map_cons, mangleChar_letter hc]
    rfl
  · rcases mem_append.1 hd with hd | hd
    · rcases mem_map.1 hd with ⟨d', -, rfl⟩
      exact char_mangleChar d'
    · exact ht d hd

/-- A mangled name can be bound unless it is one of the two words that the table lacks. -/
theorem asmMangle_legal_iff (hname : ValidName name) :
    BindingIdentifier (asmMangle name) ↔ name ≠ "await".toList ∧ name ≠ "delete".toList := by
  rcases asmMangle_name hname with ⟨c, rest, hcons, hc, hrest⟩
  have hidentifier : IdentifierName (asmMangle name) := by
    rw [hcons]
    exact ⟨start_of_letter hc, hrest⟩
  have hnot : asmMangle name ∉ strictReserved ↔
      name ≠ "await".toList ∧ name ≠ "delete".toList := by
    constructor
    · intro hfree
      constructor <;> rintro rfl <;> exact hfree (by decide)
    · rintro ⟨hawait, hdelete⟩ hmem
      rcases strictReserved_cases _ hmem with ⟨hletters, hcases⟩
      rw [asmMangle_valid hname] at hletters hcases
      by_cases hword : name ∈ keywords
      · rw [if_pos hword, all_append] at hletters
        exact absurd (Bool.and_eq_true _ _ ▸ hletters).2 (by decide)
      · rw [if_neg hword] at hletters hcases
        rw [map_mangleChar_letters (letters_of_map hletters)] at hcases
        rcases hcases with h | h | h
        · exact hword h
        · exact hawait h
        · exact hdelete h
  rw [BindingIdentifier, hnot, and_iff_right hidentifier]

/-- The variable of a function can always be bound. -/
theorem underscore_legal (hname : ValidName name) : BindingIdentifier ('_' :: asmMangle name) := by
  rcases asmMangle_name hname with ⟨c, rest, hcons, hc, hrest⟩
  refine ⟨⟨by decide, fun d hd => ?_⟩, fun hmem => ?_⟩
  · rw [hcons] at hd
    rcases mem_cons.1 hd with rfl | hd
    · have hself := char_mangleChar d
      rwa [mangleChar_letter hc] at hself
    · exact hrest d hd
  · exact absurd (strictReserved_cases _ hmem).1 (by simp [letter])

/-! ## The bindings of the wrapper -/

theorem mangleChar_eq {c d : Char} (hd : letter d = true ∨ digit d = true) :
    mangleChar c = d ↔ c = d := by
  have hkeep : (digit d || d = '$' || d = '_' || letter d) = true := by
    rcases hd with h | h <;> simp [h]
  constructor
  · intro heq
    unfold mangleChar at heq
    split at heq
    · exact heq
    · rw [← heq] at hd
      exact absurd hd (by decide)
  · rintro rfl
    exact if_pos hkeep

/-- A word of letters and digits is only what it is. -/
theorem map_mangleChar_eq {w : Text} (hw : ∀ d ∈ w, letter d = true ∨ digit d = true) :
    name.map mangleChar = w ↔ name = w := by
  induction w generalizing name with
  | nil => exact map_eq_nil_iff
  | cons d w ih =>
    cases name with
    | nil => exact ⟨nofun, nofun⟩
    | cons c name =>
      rw [map_cons, cons.injEq, cons.injEq, mangleChar_eq (hw d mem_cons_self),
        ih fun d' hd' => hw d' (mem_cons_of_mem d hd')]

theorem asmMangle_eq_word (hname : ValidName name) {w : Text}
    (hw : ∀ d ∈ w, letter d = true ∨ digit d = true) (hfree : w ∉ keywords) :
    asmMangle name = w ↔ name = w := by
  rw [asmMangle_valid hname]
  by_cases hword : name ∈ keywords
  · rw [if_pos hword]
    constructor
    · rintro rfl
      exact absurd (hw '_' (mem_append_right _ mem_cons_self)) (by decide)
    · rintro rfl
      exact absurd hword hfree
  · rw [if_neg hword, map_mangleChar_eq hw]

theorem word_of_all {w : Text} (h : (w.all fun d => letter d || digit d) = true) :
    ∀ d ∈ w, letter d = true ∨ digit d = true := by
  simpa using h

theorem letterNames_word {w : Text} (hw : w ∈ letterNames imports) :
    (∀ d ∈ w, letter d = true ∨ digit d = true) ∧ w ∉ keywords := by
  rcases mem_append.1 hw with hw | hw
  · obtain ⟨nth, -, rfl⟩ := mem_map.1 hw
    have hdigits : ∀ d ∈ Nat.toDigits 10 nth, digit d = true := by
      intro d hd
      have hdigit := Nat.isDigit_of_mem_toDigits (by decide) (Nat.le_refl 10) hd
      simpa [digit, Char.isDigit, Char.le_def, UInt32.le_iff_toNat_le] using hdigit
    refine ⟨fun d hd => ?_, fun hmem => ?_⟩
    · rcases mem_append.1 hd with hd | hd
      · have hword : "import".toList.all letter = true := by decide
        exact .inl (all_eq_true.1 hword d hd)
      · exact .inr (hdigits d hd)
    · -- a keyword has letters only, and a number has a digit
      have hletters := (keywords_letters _ hmem).1
      rw [all_append, Bool.and_eq_true] at hletters
      obtain ⟨d, hd⟩ := exists_mem_of_ne_nil _ (Nat.toDigits_ne_nil (n := nth) (b := 10))
      have hnot := not_digit_of_letter (all_eq_true.1 hletters.2 d hd)
      rw [hdigits d hd] at hnot
      cases hnot
  · have hwords : ∀ w ∈ ["asmInit".toList, "instantiate".toList],
        (w.all fun d => letter d || digit d) = true ∧ w ∉ keywords := by
      decide
    exact (hwords w hw).imp_left word_of_all

/-- A mangled name is a binding of the wrapper if the name is one of them. -/
theorem asmMangle_mem_wrapperBindings (hname : ValidName name) :
    asmMangle name ∈ wrapperBindings imports ↔ name ∈ letterNames imports := by
  rcases asmMangle_name hname with ⟨c, rest, hcons, hc, -⟩
  have hstart : asmMangle name ∉ ["_instantiate".toList, "_util".toList, "$init".toList] := by
    rw [hcons]
    intro hmem
    simp at hmem
    rcases hmem with ⟨rfl, -⟩ | ⟨rfl, -⟩ | ⟨rfl, -⟩ <;> exact absurd hc (by decide)
  rw [wrapperBindings, mem_append, or_iff_left hstart]
  constructor
  · intro hmem
    rcases letterNames_word hmem with ⟨hw, hfree⟩
    rwa [← (asmMangle_eq_word hname hw hfree).1 rfl] at hmem
  · intro hmem
    rcases letterNames_word hmem with ⟨hw, hfree⟩
    rwa [(asmMangle_eq_word hname hw hfree).2 rfl]

/-- So is the variable of a function, if the name is `instantiate` or `util`. -/
theorem underscore_mem_wrapperBindings (hname : ValidName name) :
    '_' :: asmMangle name ∈ wrapperBindings imports ↔
      name = "instantiate".toList ∨ name = "util".toList := by
  have hletters : '_' :: asmMangle name ∉ letterNames imports := by
    intro hmem
    exact absurd ((letterNames_word hmem).1 '_' mem_cons_self) (by decide)
  rw [wrapperBindings, mem_append, or_iff_right hletters,
    ← asmMangle_eq_word hname (w := "instantiate".toList) (word_of_all (by decide))
      (by decide),
    ← asmMangle_eq_word hname (w := "util".toList) (word_of_all (by decide)) (by decide)]
  simp

/-! ## Exports -/

/-- A variable is set to the one name that it stands for. -/
theorem init_eq (exports : List Export) {id : Text} {n : Text}
    (hall : ∀ e ∈ exports, target e = id → e.1 = n) :
    init exports id = if ∃ e ∈ exports, target e = id then some n else none := by
  unfold init
  induction exports using List.reverseRecOn with
  | nil => simp
  | append_singleton exports e ih =>
    rw [foldl_append, foldl_cons, foldl_nil]
    by_cases hid : target e = id
    · have hname := hall e (by simp) hid
      rw [← hid, Function.update_self, hname, if_pos ⟨e, by simp, rfl⟩]
    · rw [Function.update_of_ne (Ne.symm hid),
        ih fun e' he' => hall e' (mem_append_left _ he')]
      refine if_congr ⟨fun ⟨e', he', h⟩ => ⟨e', mem_append_left _ he', h⟩, ?_⟩ rfl rfl
      rintro ⟨e', he', h⟩
      rcases mem_append.1 he' with he' | he'
      · exact ⟨e', he', h⟩
      · exact absurd (mem_singleton.1 he' ▸ h) hid

theorem lawful_of_harmless (hvalid : ∀ e ∈ exports, ValidName e.1)
    (h : Harmless imports exports) : Lawful imports exports := by
  have hinj : ∀ e ∈ exports, ∀ e' ∈ exports, asmMangle e.1 = asmMangle e'.1 → e = e' := by
    intro e he e' he' heq
    exact inj_on_of_nodup_map h.replaced he he'
      ((asmMangle_eq_iff (hvalid e he) (hvalid e' he')).1 heq)
  -- a mangled name begins with a letter
  have hne : ∀ e ∈ exports, ∀ w, asmMangle e.1 ≠ '_' :: w := by
    intro e he w heq
    rcases asmMangle_name (hvalid e he) with ⟨c, rest, hcons, hc, -⟩
    rw [heq] at hcons
    cases hcons
    exact absurd hc (by decide)
  have htarget : ∀ e ∈ exports, ∀ e' ∈ exports, target e = target e' → e = e' := by
    rintro ⟨name, ty⟩ he ⟨name', ty'⟩ he' heq
    cases ty <;> cases ty'
    · exact hinj _ he _ he' (List.cons.inj heq).2
    · exact absurd heq.symm (hne _ he' _)
    · exact absurd heq (hne _ he _)
    · exact hinj _ he _ he' heq
  have hnodup : exports.Nodup := h.replaced.of_map
  refine ⟨fun hexports => ?_, fun id hid => ?_, ?_, fun id hid hown => ?_, fun e he => ?_⟩
  · rcases h.function hexports with ⟨e, he, hty⟩
    exact ne_nil_of_mem (mem_filter.2 ⟨he, by simp [hty]⟩)
  · rcases mem_append.1 hid with hid | hid
    · rcases mem_map.1 hid with ⟨e, he, rfl⟩
      rcases mem_filter.1 he with ⟨he, hty⟩
      rw [target, of_decide_eq_true hty]
      exact underscore_legal (hvalid e he)
    · rcases mem_map.1 hid with ⟨e, he, rfl⟩
      exact (asmMangle_legal_iff (hvalid e he)).2 (h.words e he)
  · refine nodup_append.2 ⟨?_, ?_, ?_⟩
    · refine List.Nodup.map_on (fun e he e' he' => ?_) (hnodup.filter _)
      exact htarget e (mem_filter.1 he).1 e' (mem_filter.1 he').1
    · exact List.Nodup.map_on hinj hnodup
    · intro a ha b hb heq
      rcases mem_map.1 ha with ⟨e, he, rfl⟩
      rcases mem_map.1 hb with ⟨e', he', rfl⟩
      rw [target, of_decide_eq_true (mem_filter.1 he).2] at heq
      exact hne e' he' _ heq.symm
  · rcases mem_append.1 hid with hid | hid
    · rcases mem_map.1 hid with ⟨e, he, rfl⟩
      rcases mem_filter.1 he with ⟨he, hty⟩
      rw [target, of_decide_eq_true hty] at hown
      rcases (underscore_mem_wrapperBindings (hvalid e he)).1 hown with hname | hname
      · exact h.wrapper e he (hname ▸ mem_append_right _ (by simp))
      · exact h.util e he (of_decide_eq_true hty) hname
    · rcases mem_map.1 hid with ⟨e, he, rfl⟩
      exact h.wrapper e he ((asmMangle_mem_wrapperBindings (hvalid e he)).1 hown)
  · rw [init_eq exports fun e' he' heq => congrArg Prod.fst (htarget e' he' e he heq),
      if_pos ⟨e, he, rfl⟩]

theorem harmless_of_lawful (hvalid : ∀ e ∈ exports, ValidName e.1)
    (h : Lawful imports exports) : Harmless imports exports := by
  have hmem : ∀ e ∈ exports, asmMangle e.1 ∈ declared exports := fun e he =>
    mem_append_right _ (mem_map_of_mem (f := fun e : Export => asmMangle e.1) he)
  refine ⟨fun e he => ?_, fun e he hown => ?_, fun e he hty hutil => ?_, ?_, fun hexports => ?_⟩
  · exact (asmMangle_legal_iff (hvalid e he)).1 (h.legal _ (hmem e he))
  · exact h.apart (hmem e he) ((asmMangle_mem_wrapperBindings (hvalid e he)).2 hown)
  · have hvar : target e ∈ declared exports :=
      mem_append_left _ (mem_map_of_mem (mem_filter.2 ⟨he, by simp [hty]⟩))
    rw [target, hty] at hvar
    exact h.apart hvar ((underscore_mem_wrapperBindings (hvalid e he)).2 (.inr hutil))
  · have hnodup := (nodup_append.1 h.distinct).2.1
    refine List.Nodup.map_on (fun e he e' he' heq => ?_) hnodup.of_map
    exact inj_on_of_nodup_map hnodup he he'
      ((asmMangle_eq_iff (hvalid e he) (hvalid e' he')).2 heq)
  · rcases exists_mem_of_ne_nil _ (h.parses hexports) with ⟨e, he⟩
    rcases mem_filter.1 he with ⟨he, hty⟩
    exact ⟨e, he, of_decide_eq_true hty⟩

end

/-- The wrapper of any exports with valid names is lawful exactly if they are harmless. -/
theorem asm_exports_iff (imports : Nat) (exports : List Export)
    (hvalid : ∀ e ∈ exports, ValidName e.1) :
    Lawful imports exports ↔ Harmless imports exports :=
  ⟨harmless_of_lawful hvalid, lawful_of_harmless hvalid⟩

theorem asm_exports_run :
    Lawful 2 [("new".toList, .function), ("a:b/c".toList, .instance)] ↔
      Harmless 2 [("new".toList, .function), ("a:b/c".toList, .instance)] :=
  asm_exports_iff 2 _ (by
    intro e he
    rcases mem_cons.1 he with rfl | he
    · exact ⟨'n', ['e', 'w'], rfl, by decide, by simp; decide⟩
    · rw [mem_singleton.1 he]
      exact ⟨'a', [':', 'b', '/', 'c'], rfl, by decide, by simp; decide⟩)

/-- A function named `delete` is declared under a reserved word. -/
theorem delete_declared : ¬ Lawful 0 [("delete".toList, .function)] := by
  intro h
  exact (h.legal "delete".toList (by decide)).2 (by decide)

end Jco.Bindgen.AsmExports

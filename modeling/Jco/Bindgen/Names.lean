import Jco.Lib.Fresh
import Jco.Lib.Run

/-! # Local names of the generated module

`LocalNames` hands out the identifiers the generated JavaScript binds: a goal
string is made an identifier, numbered when it is taken, and remembered.

1. `to_js_identifier` and its test for reserved words, a binary search.
2. `create_once` and `get_or_create`, and sessions of calls with a record of
   what was handed out.
3. What holds of every session.

`heck`'s lower camel case is a parameter; nothing is assumed of it. Identifiers
of ids are compared by the ids, not by their hashes.
-/

namespace Jco.Bindgen

open Jco.Lib List

abbrev Text := List Char

/-! ## Reserved words -/

/-- The table in the order of the source: `eval` stands before `else`. -/
def reservedKeywords : List Text :=
  ["await", "break", "case", "catch", "class", "const", "continue", "debugger", "default",
    "delete", "do", "eval", "else", "enum", "export", "extends", "false", "finally", "for",
    "function", "if", "implements", "import", "in", "instanceof", "interface", "let", "new",
    "null", "package", "private", "protected", "public", "return", "static", "super", "switch",
    "this", "throw", "true", "try", "typeof", "var", "void", "while", "with", "yield"].map
      String.toList

/-- The loop of `slice::binary_search`: the half that may hold `s` is kept until
one entry is left; there is no early exit. `fuel` is the length. -/
def searchBase (table : List Text) (s : Text) : Nat → Nat → Nat → Nat
  | fuel + 1, size, base =>
    if 1 < size then
      let half := size / 2
      let mid := base + half
      searchBase table s fuel (size - half) (if s < table.getD mid [] then base else mid)
    else
      base
  | 0, _, base => base

def binarySearch (table : List Text) (s : Text) : Option Nat :=
  let base := searchBase table s table.length table.length 0
  if table[base]? = some s then some base else none

def isJsReservedWord (s : Text) : Bool := (binarySearch reservedKeywords s).isSome

/-- On any table the search finds entries only. -/
theorem mem_of_binarySearch {table : List Text} {s : Text}
    (h : (binarySearch table s).isSome) : s ∈ table := by
  unfold binarySearch at h
  dsimp only at h
  split at h
  next hentry => exact mem_of_getElem? hentry
  next => exact nomatch h

/-- On this one, which is out of order, it finds all but `eval`. -/
theorem isJsReservedWord_of_mem {s : Text} (h : s ∈ reservedKeywords) :
    isJsReservedWord s ∨ s = "eval".toList := by
  have htable : ∀ s ∈ reservedKeywords, isJsReservedWord s ∨ s = "eval".toList := by decide
  exact htable s h

/-! ## Identifiers -/

def isValidJsIdentifierStart (c : Char) : Bool :=
  'A' ≤ c ∧ c ≤ 'Z' ∨ 'a' ≤ c ∧ c ≤ 'z' ∨ c = '$' ∨ c = '_'

def isValidJsIdentifierChar (c : Char) : Bool :=
  '0' ≤ c ∧ c ≤ '9' ∨ 'A' ≤ c ∧ c ≤ 'Z' ∨ 'a' ≤ c ∧ c ≤ 'z' ∨ c = '$' ∨ c = '_'

def isValidJsIdentifier : Text → Bool
  | [] => false
  | c :: cs =>
    isValidJsIdentifierStart c && cs.all isValidJsIdentifierChar && !isJsReservedWord (c :: cs)

/-- What is pushed for a character; `valid` is the test of its place. -/
def replaceChar (valid : Char → Bool) (c : Char) : Char :=
  if valid c then c else if c = '.' then '_' else '$'

/-- The loop over the characters: the first one is tested as a start. -/
def replaceInvalid : Text → Text
  | [] => []
  | c :: cs =>
    replaceChar isValidJsIdentifierStart c :: cs.map (replaceChar isValidJsIdentifierChar)

section Identifier

variable (toLowerCamelCase : Text → Text)

/-- `none` is the panic. -/
def toJsIdentifier (goalName : Text) : Option Text :=
  if isValidJsIdentifier goalName then
    some goalName
  else
    let identifier := replaceInvalid (toLowerCamelCase goalName)
    if isValidJsIdentifier identifier then
      some identifier
    else
      let identifier := '_' :: identifier
      if isValidJsIdentifier identifier then some identifier else none

end Identifier

/-! ## Names -/

structure LocalNames (ι : Type*) where
  localNameIds : List (ι × Text) := []
  localNames : List Text := []

/-- The text after the last slash. -/
def afterLastSlash (t : Text) : Text := (t.reverse.takeWhile (· ≠ '/')).reverse

/-- `format!("{goal}${idx}")` -/
def suffixed (goal : Text) (idx : Nat) : Text := goal ++ '$' :: Nat.toDigits 10 idx

section Names

variable {ι : Type*} [DecidableEq ι] (toLowerCamelCase : Text → Text)

def LocalNames.excludeGlobals (names : LocalNames ι) (globals : List Text) : LocalNames ι :=
  { names with localNames := globals ++ names.localNames }

/-- The name that is made for a goal. The loop over the suffixes has no bound in
the source; here it may try one suffix more than there are names. -/
def createName (localNames : List Text) (goalName : Text) : Option Text :=
  match toJsIdentifier toLowerCamelCase (afterLastSlash goalName) with
  | none => none
  | some goal =>
    if goal ∈ localNames then
      firstFresh localNames (suffixed goal) (localNames.length + 1) 1
    else
      some goal

def LocalNames.createOnce (names : LocalNames ι) (goalName : Text) :
    Option (LocalNames ι × Text) :=
  (createName toLowerCamelCase names.localNames goalName).map fun goal =>
    ({ names with localNames := goal :: names.localNames }, goal)

/-- The name of an id and whether it was seen before. -/
def LocalNames.getOrCreate (names : LocalNames ι) (uniqueId : ι) (goalName : Text) :
    Option (LocalNames ι × Text × Bool) :=
  match names.localNameIds.lookup uniqueId with
  | some name => some (names, name, true)
  | none =>
    (names.createOnce toLowerCamelCase goalName).map fun (names, goal) =>
      ({ names with localNameIds := (uniqueId, goal) :: names.localNameIds }, goal, false)

/-! ## Sessions -/

inductive Call (ι : Type*) where
  | excludeGlobals (globals : List Text)
  | createOnce (goalName : Text)
  | getOrCreate (uniqueId : ι) (goalName : Text)
deriving DecidableEq, Repr

/-- The names with a record: every answer with its id, every name created, and
every global excluded. -/
structure Session (ι : Type*) where
  names : LocalNames ι := {}
  handed : List (Option ι × Text) := []
  created : List Text := []
  excluded : List Text := []

/-- One call; `none` if it panics or never returns. -/
def Session.call (s : Session ι) : Call ι → Option (Session ι)
  | .excludeGlobals globals => some { s with
      names := s.names.excludeGlobals globals
      excluded := globals ++ s.excluded }
  | .createOnce goalName =>
    (s.names.createOnce toLowerCamelCase goalName).map fun (names, name) => { s with
      names
      handed := (none, name) :: s.handed
      created := name :: s.created }
  | .getOrCreate uniqueId goalName =>
    (s.names.getOrCreate toLowerCamelCase uniqueId goalName).map fun (names, name, seen) => { s with
      names
      handed := (some uniqueId, name) :: s.handed
      created := if seen then s.created else name :: s.created }

def next : Action (Call ι) (Session ι) := fun c s s' => s.call toLowerCamelCase c = some s'

end Names

/-! ## Identifiers made -/

/-- The words a binding in module code cannot have: the reserved words, those
of strict code, and `eval` and `arguments`. -/
def strictReserved : List Text :=
  ["await", "break", "case", "catch", "class", "const", "continue", "debugger", "default",
    "delete", "do", "else", "enum", "export", "extends", "false", "finally", "for", "function",
    "if", "import", "in", "instanceof", "new", "null", "return", "super", "switch", "this",
    "throw", "true", "try", "typeof", "var", "void", "while", "with", "yield", "let", "static",
    "implements", "interface", "package", "private", "protected", "public", "eval",
    "arguments"].map String.toList

/-- An identifier name, as far as the test of the source admits them. -/
def IdentifierName : Text → Prop
  | [] => False
  | c :: cs => isValidJsIdentifierStart c ∧ ∀ c ∈ cs, isValidJsIdentifierChar c

/-- What module code can bind. -/
def BindingIdentifier (t : Text) : Prop := IdentifierName t ∧ t ∉ strictReserved

/-- The words that slip through: `eval` is missed by the search, `arguments` is
not in the table. -/
def slips : List Text := ["eval".toList, "arguments".toList]

theorem isValidJsIdentifier_iff {t : Text} :
    isValidJsIdentifier t ↔ IdentifierName t ∧ isJsReservedWord t = false := by
  cases t with
  | nil => exact ⟨nofun, fun h => h.1.elim⟩
  | cons c cs =>
    simp only [isValidJsIdentifier, IdentifierName, Bool.and_eq_true, Bool.not_eq_true',
      all_eq_true]

/-- The test lets through what can be bound, and two words more. -/
theorem slips_of_isValid {t : Text} (h : isValidJsIdentifier t) (hword : t ∈ strictReserved) :
    t ∈ slips := by
  have htable : ∀ s ∈ strictReserved, s ∈ reservedKeywords ∨ s ∈ slips := by decide
  rcases htable t hword with hreserved | hslips
  · rcases isJsReservedWord_of_mem hreserved with hfound | heval
    · exact absurd (isValidJsIdentifier_iff.mp h).2 (by rw [hfound]; exact Bool.noConfusion)
    · exact mem_cons.mpr (.inl heval)
  · exact hslips

theorem reserved_sub_strict {t : Text} (h : t ∈ reservedKeywords) : t ∈ strictReserved := by
  have htable : ∀ s ∈ reservedKeywords, s ∈ strictReserved := by decide
  exact htable t h

theorem isValidJsIdentifierChar_of_start {c : Char} (h : isValidJsIdentifierStart c) :
    isValidJsIdentifierChar c := by
  unfold isValidJsIdentifierStart at h
  unfold isValidJsIdentifierChar
  simp only [decide_eq_true_eq] at h ⊢
  exact .inr h

theorem isValidJsIdentifierChar_replaceChar {valid : Char → Bool}
    (hvalid : ∀ c, valid c → isValidJsIdentifierChar c) (c : Char) :
    isValidJsIdentifierChar (replaceChar valid c) := by
  unfold replaceChar
  split
  next h => exact hvalid c h
  next =>
    split
    · decide
    · decide

theorem all_replaceInvalid (t : Text) : ∀ c ∈ replaceInvalid t, isValidJsIdentifierChar c := by
  cases t with
  | nil => exact fun c hc => nomatch hc
  | cons c cs =>
    intro d hd
    rcases mem_cons.mp hd with rfl | hd
    · exact isValidJsIdentifierChar_replaceChar (fun _ => isValidJsIdentifierChar_of_start) c
    · obtain ⟨e, _, rfl⟩ := mem_map.mp hd
      exact isValidJsIdentifierChar_replaceChar (fun _ h => h) e

/-- An underscore in front always helps. -/
theorem isValid_underscore (t : Text) : isValidJsIdentifier ('_' :: replaceInvalid t) := by
  have hname : IdentifierName ('_' :: replaceInvalid t) := ⟨by decide, all_replaceInvalid t⟩
  have hword : isJsReservedWord ('_' :: replaceInvalid t) = false := by
    by_contra hfound
    have htable : ∀ s ∈ reservedKeywords, s.head? ≠ some '_' := by decide
    exact htable _ (mem_of_binarySearch (Bool.of_not_eq_false hfound)) rfl
  exact isValidJsIdentifier_iff.mpr ⟨hname, hword⟩

section Made

variable (toLowerCamelCase : Text → Text)

/-- The goal is made the identifier `word`. -/
def Spells (goalName word : Text) : Prop :=
  afterLastSlash goalName = word ∨
    ¬ isValidJsIdentifier (afterLastSlash goalName) ∧
      replaceInvalid (toLowerCamelCase (afterLastSlash goalName)) = word

/-- No goal panics. -/
theorem exists_toJsIdentifier (goalName : Text) :
    ∃ identifier, toJsIdentifier toLowerCamelCase goalName = some identifier := by
  unfold toJsIdentifier
  dsimp only
  rw [if_pos (isValid_underscore (toLowerCamelCase goalName))]
  split
  · exact ⟨_, rfl⟩
  · split
    · exact ⟨_, rfl⟩
    · exact ⟨_, rfl⟩

variable {toLowerCamelCase}

theorem toJsIdentifier_valid {goalName identifier : Text}
    (h : toJsIdentifier toLowerCamelCase goalName = some identifier) :
    isValidJsIdentifier identifier := by
  unfold toJsIdentifier at h
  dsimp only at h
  split at h
  next hvalid =>
    cases h
    exact hvalid
  next =>
    split at h
    next hvalid =>
      cases h
      exact hvalid
    next =>
      split at h
      next hvalid =>
        cases h
        exact hvalid
      next => exact nomatch h

theorem spells_of_toJsIdentifier {goalName word : Text} (hword : word ∈ slips)
    (h : toJsIdentifier toLowerCamelCase (afterLastSlash goalName) = some word) :
    Spells toLowerCamelCase goalName word := by
  unfold toJsIdentifier at h
  dsimp only at h
  split at h
  next => exact .inl (Option.some.inj h)
  next hinvalid =>
    split at h
    next => exact .inr ⟨hinvalid, Option.some.inj h⟩
    next =>
      split at h
      next =>
        -- no word starts with an underscore
        have hstart : ∀ s ∈ slips, s.head? ≠ some '_' := by decide
        cases h
        exact absurd rfl (hstart _ hword)
      next => exact nomatch h

end Made

/-! ## Names made -/

theorem suffixed_injective (goal : Text) : Function.Injective (suffixed goal) := by
  intro i j h
  have hdigits := (List.cons.inj (append_cancel_left h)).2
  have hi : Nat.ofDigitChars 10 (Nat.toDigits 10 i) 0 = i := Nat.ofDigitChars_ten_toDigits
  rw [hdigits, Nat.ofDigitChars_ten_toDigits] at hi
  exact hi.symm

theorem isValidJsIdentifierChar_of_digit {c : Char} (h : c.isDigit) :
    isValidJsIdentifierChar c := by
  unfold isValidJsIdentifierChar
  simp only [Char.isDigit, Bool.and_eq_true, decide_eq_true_eq] at h ⊢
  exact .inl h

/-- A suffix keeps an identifier name, and no word has one. -/
theorem suffixed_binding {goal : Text} (h : IdentifierName goal) (idx : Nat) :
    BindingIdentifier (suffixed goal idx) := by
  constructor
  · cases goal with
    | nil => exact h.elim
    | cons c cs =>
      refine ⟨h.1, fun d hd => ?_⟩
      rcases mem_append.mp hd with hd | hd
      · exact h.2 d hd
      rcases mem_cons.mp hd with rfl | hd
      · decide
      · exact isValidJsIdentifierChar_of_digit
          (Nat.isDigit_of_mem_toDigits (by omega) (Nat.le_refl 10) hd)
  · intro hword
    have htable : ∀ s ∈ strictReserved, '$' ∉ s := by decide
    exact htable _ hword (mem_append_right goal mem_cons_self)

section Create

variable {toLowerCamelCase : Text → Text} {used : List Text} {goalName name : Text}

/-- A name is always found. -/
theorem exists_createName (toLowerCamelCase : Text → Text) (used : List Text) (goalName : Text) :
    ∃ name, createName toLowerCamelCase used goalName = some name := by
  obtain ⟨goal, hgoal⟩ := exists_toJsIdentifier toLowerCamelCase (afterLastSlash goalName)
  rw [createName, hgoal]
  dsimp only
  split
  · exact exists_firstFresh (suffixed_injective goal) (Nat.lt_succ_self used.length) 1
  · exact ⟨goal, rfl⟩

/-- A name created is new, and legal unless it is one of the two words. -/
theorem createName_spec (h : createName toLowerCamelCase used goalName = some name) :
    name ∉ used ∧ (BindingIdentifier name ∨
      name ∈ slips ∧ Spells toLowerCamelCase goalName name) := by
  unfold createName at h
  split at h
  next => exact nomatch h
  next goal hgoal =>
    have hvalid := toJsIdentifier_valid hgoal
    have hname := (isValidJsIdentifier_iff.mp hvalid).1
    split at h
    next =>
      obtain ⟨hfree, idx, rfl⟩ := firstFresh_eq_some h
      exact ⟨hfree, .inl (suffixed_binding hname idx)⟩
    next hfree =>
      cases h
      refine ⟨hfree, ?_⟩
      by_cases hword : name ∈ strictReserved
      · have hslips := slips_of_isValid hvalid hword
        exact .inr ⟨hslips, spells_of_toJsIdentifier hslips hgoal⟩
      · exact .inl ⟨hname, hword⟩

end Create

/-! ## Names kept -/

section Kept

variable {ι : Type*} [DecidableEq ι] {toLowerCamelCase : Text → Text}
  {names names' names'' : LocalNames ι}

/-- The names of ids are taken, and no two ids have one name. -/
structure LocalNames.Ok (names : LocalNames ι) : Prop where
  taken : ∀ i n, names.localNameIds.lookup i = some n → n ∈ names.localNames
  distinct : ∀ i j n, names.localNameIds.lookup i = some n →
    names.localNameIds.lookup j = some n → i = j

/-- Names are added only, to ids that had none. -/
structure LocalNames.Grows (names names' : LocalNames ι) : Prop where
  kept : ∀ i n, names.localNameIds.lookup i = some n → names'.localNameIds.lookup i = some n
  taken : ∀ n ∈ names.localNames, n ∈ names'.localNames
  fresh : ∀ i n, names'.localNameIds.lookup i = some n →
    names.localNameIds.lookup i = some n ∨ n ∉ names.localNames

theorem LocalNames.Grows.refl (names : LocalNames ι) : names.Grows names :=
  ⟨fun _ _ h => h, fun _ h => h, fun _ _ h => .inl h⟩

theorem LocalNames.Grows.trans (h : names.Grows names') (h' : names'.Grows names'') :
    names.Grows names'' where
  kept i n hi := h'.kept i n (h.kept i n hi)
  taken n hn := h'.taken n (h.taken n hn)
  fresh i n hi := by
    rcases h'.fresh i n hi with hold | hnew
    · exact h.fresh i n hold
    · exact .inr fun hn => hnew (h.taken n hn)

omit [DecidableEq ι] in
theorem LocalNames.exists_createOnce (toLowerCamelCase : Text → Text) (names : LocalNames ι)
    (goalName : Text) : ∃ named, names.createOnce toLowerCamelCase goalName = some named := by
  obtain ⟨name, hname⟩ := exists_createName toLowerCamelCase names.localNames goalName
  rw [LocalNames.createOnce, hname]
  exact ⟨_, rfl⟩

theorem LocalNames.exists_getOrCreate (toLowerCamelCase : Text → Text) (names : LocalNames ι)
    (uniqueId : ι) (goalName : Text) :
    ∃ named, names.getOrCreate toLowerCamelCase uniqueId goalName = some named := by
  rw [LocalNames.getOrCreate]
  split
  · exact ⟨_, rfl⟩
  · obtain ⟨named, hnamed⟩ := names.exists_createOnce toLowerCamelCase goalName
    rw [hnamed]
    exact ⟨_, rfl⟩

/-- A name that is created once is new, and of no id. -/
theorem LocalNames.Ok.createOnce (h : names.Ok) {goalName name : Text}
    (hcreate : names.createOnce toLowerCamelCase goalName = some (names', name)) :
    names'.Ok ∧ names.Grows names' ∧ name ∉ names.localNames ∧ name ∈ names'.localNames ∧
      ∀ i, names'.localNameIds.lookup i ≠ some name := by
  rw [LocalNames.createOnce, Option.map_eq_some_iff] at hcreate
  obtain ⟨goal, hgoal, heq⟩ := hcreate
  cases heq
  have hfree := (createName_spec hgoal).1
  refine ⟨⟨fun i n hi => mem_cons_of_mem name (h.taken i n hi), h.distinct⟩,
    ⟨fun _ _ hi => hi, fun _ hn => mem_cons_of_mem name hn, fun _ _ hi => .inl hi⟩,
    hfree, mem_cons_self, ?_⟩
  intro i hi
  exact hfree (h.taken i name hi)

theorem LocalNames.Ok.getOrCreate (h : names.Ok) {uniqueId : ι} {goalName name : Text}
    {seen : Bool}
    (hget : names.getOrCreate toLowerCamelCase uniqueId goalName = some (names', name, seen)) :
    names'.Ok ∧ names.Grows names' ∧ names'.localNameIds.lookup uniqueId = some name := by
  rw [LocalNames.getOrCreate] at hget
  split at hget
  next known hknown =>
    cases hget
    exact ⟨h, .refl _, hknown⟩
  next hnone =>
    rw [Option.map_eq_some_iff] at hget
    obtain ⟨made, hmade, heq⟩ := hget
    cases heq
    obtain ⟨hok, hgrows, hfree, htaken, hid⟩ := h.createOnce hmade
    have hids : made.1.localNameIds = names.localNameIds := by
      rw [LocalNames.createOnce, Option.map_eq_some_iff] at hmade
      obtain ⟨_, _, rfl⟩ := hmade
      rfl
    -- the new row is the first, and the others are looked up as before
    have hlookup : ∀ i, List.lookup i ((uniqueId, made.2) :: made.1.localNameIds) =
        if i = uniqueId then some made.2 else names.localNameIds.lookup i := by
      intro i
      rw [lookup_cons, hids]
      by_cases heq : i = uniqueId
      · rw [if_pos heq, heq, beq_self_eq_true]
      · rw [if_neg heq, beq_false_of_ne heq]
    have hcases : ∀ i n, List.lookup i ((uniqueId, made.2) :: made.1.localNameIds) = some n →
        i = uniqueId ∧ n = made.2 ∨ names.localNameIds.lookup i = some n := by
      intro i n hi
      rw [hlookup] at hi
      split at hi
      next heq => exact .inl ⟨heq, (Option.some.inj hi).symm⟩
      next => exact .inr hi
    refine ⟨⟨?_, ?_⟩, ⟨?_, hgrows.taken, ?_⟩, ?_⟩
    · intro i n hi
      rcases hcases i n hi with ⟨_, rfl⟩ | hold
      · exact htaken
      · exact hgrows.taken n (h.taken i n hold)
    · intro i j n hi hj
      rcases hcases i n hi with ⟨rfl, rfl⟩ | hi
      · rcases hcases j _ hj with ⟨rfl, _⟩ | hj
        · rfl
        · exact absurd (h.taken j _ hj) hfree
      · rcases hcases j n hj with ⟨_, rfl⟩ | hj
        · exact absurd (h.taken i _ hi) hfree
        · exact h.distinct i j n hi hj
    · intro i n hi
      change List.lookup i ((uniqueId, made.2) :: made.1.localNameIds) = some n
      rw [hlookup, if_neg (fun heq => by rw [heq, hnone] at hi; cases hi)]
      exact hi
    · intro i n hi
      rcases hcases i n hi with ⟨_, rfl⟩ | hold
      · exact .inr hfree
      · exact .inl hold
    · change List.lookup uniqueId ((uniqueId, made.2) :: made.1.localNameIds) = some made.2
      rw [hlookup, if_pos rfl]

end Kept

/-! ## Sessions -/

section Session

variable {ι : Type*} [DecidableEq ι]

/-- What is claimed of the names handed out. -/
structure Lawful (s : Session ι) : Prop where
  legal : ∀ h ∈ s.handed, BindingIdentifier h.2 ∧ h.2 ∉ reservedKeywords
  created : ∀ h ∈ s.handed, h.2 ∈ s.created
  distinct : s.created.Nodup
  byId : ∀ i j n m, (some i, n) ∈ s.handed → (some j, m) ∈ s.handed → (i = j ↔ n = m)
  once : ∀ i n m, (none, n) ∈ s.handed → (some i, m) ∈ s.handed → n ≠ m
  separate : ∀ h ∈ s.handed, h.2 ∉ s.excluded

/-- The calls that stay clear of the two words, unless these are taken, and do
not exclude a name after it was handed out. -/
def Clear (toLowerCamelCase : Text → Text) : Call ι → Session ι → Prop
  | .excludeGlobals globals, s => ∀ h ∈ s.handed, h.2 ∉ globals
  | .createOnce goalName, s =>
    ∀ word ∈ slips, Spells toLowerCamelCase goalName word → word ∈ s.names.localNames
  | .getOrCreate uniqueId goalName, s =>
    s.names.localNameIds.lookup uniqueId = none →
      ∀ word ∈ slips, Spells toLowerCamelCase goalName word → word ∈ s.names.localNames

/-- The invariant: what is claimed, and what the tables hold. -/
structure Session.Inv (s : Session ι) : Prop where
  lawful : Lawful s
  taken : ∀ n, n ∈ s.names.localNames ↔ n ∈ s.created ∨ n ∈ s.excluded
  ids : ∀ i n, s.names.localNameIds.lookup i = some n ↔ (some i, n) ∈ s.handed

variable {toLowerCamelCase : Text → Text} {s s' : Session ι}

theorem Session.Inv.start : ({} : Session ι).Inv where
  lawful := {
    legal := fun _ h => nomatch h
    created := fun _ h => nomatch h
    distinct := nodup_nil
    byId := fun _ _ _ _ h => nomatch h
    once := fun _ _ _ h => nomatch h
    separate := fun _ h => nomatch h }
  taken := fun _ => ⟨nofun, nofun⟩
  ids := fun _ _ => ⟨nofun, nofun⟩

/-- Every call returns. -/
theorem Session.exists_call (toLowerCamelCase : Text → Text) (s : Session ι) (c : Call ι) :
    ∃ s', s.call toLowerCamelCase c = some s' := by
  cases c with
  | excludeGlobals globals => exact ⟨_, rfl⟩
  | createOnce goalName =>
    obtain ⟨name, hname⟩ := exists_createName toLowerCamelCase s.names.localNames goalName
    rw [Session.call, LocalNames.createOnce, hname]
    exact ⟨_, rfl⟩
  | getOrCreate uniqueId goalName =>
    rw [Session.call, LocalNames.getOrCreate]
    split
    next => exact ⟨_, rfl⟩
    next =>
      obtain ⟨name, hname⟩ := exists_createName toLowerCamelCase s.names.localNames goalName
      rw [LocalNames.createOnce, hname]
      exact ⟨_, rfl⟩

/-- A new name is handed out, to an id that had none or to no id. -/
theorem Session.Inv.create (h : s.Inv) {name : Text} (hfree : name ∉ s.names.localNames)
    (hlegal : BindingIdentifier name) {o : Option ι} {ids : List (ι × Text)}
    (hnew : ∀ i, o = some i → s.names.localNameIds.lookup i = none)
    (hids : ∀ i n, ids.lookup i = some n ↔
      o = some i ∧ n = name ∨ s.names.localNameIds.lookup i = some n) :
    ({ names := ⟨ids, name :: s.names.localNames⟩
       handed := (o, name) :: s.handed
       created := name :: s.created
       excluded := s.excluded } : Session ι).Inv := by
  have hout : name ∉ s.created ∧ name ∉ s.excluded := by
    rw [← not_or, ← h.taken]
    exact hfree
  -- the name is none of those handed out before
  have hother : ∀ e ∈ s.handed, e.2 ≠ name := by
    rintro e he rfl
    exact hout.1 (h.lawful.created e he)
  have hold : ∀ i n, o = some i → (some i, n) ∉ s.handed := by
    intro i n hi hhanded
    rw [← h.ids, hnew i hi] at hhanded
    exact nomatch hhanded
  constructor
  · constructor
    · intro e he
      rcases mem_cons.mp he with rfl | he
      · exact ⟨hlegal, fun hword => hlegal.2 (reserved_sub_strict hword)⟩
      · exact h.lawful.legal e he
    · intro e he
      rcases mem_cons.mp he with rfl | he
      · exact mem_cons_self
      · exact mem_cons_of_mem name (h.lawful.created e he)
    · exact nodup_cons.mpr ⟨hout.1, h.lawful.distinct⟩
    · intro i j n m hi hj
      rcases mem_cons.mp hi with hfirst | hi'
      · cases hfirst
        rcases mem_cons.mp hj with hsecond | hj'
        · obtain ⟨hij, rfl⟩ := Prod.mk.inj hsecond
          exact ⟨fun _ => rfl, fun _ => (Option.some.inj hij).symm⟩
        · constructor
          · rintro rfl
            exact absurd hj' (hold i m rfl)
          · intro heq
            exact absurd heq.symm (hother _ hj')
      · rcases mem_cons.mp hj with hsecond | hj'
        · cases hsecond
          constructor
          · rintro rfl
            exact absurd hi' (hold i n rfl)
          · intro heq
            exact absurd heq (hother _ hi')
        · exact h.lawful.byId i j n m hi' hj'
    · intro i n m hn hm
      rcases mem_cons.mp hn with hfirst | hn'
      · cases hfirst
        rcases mem_cons.mp hm with hsecond | hm'
        · exact nomatch hsecond
        · exact (hother _ hm').symm
      · rcases mem_cons.mp hm with hsecond | hm'
        · obtain ⟨_, rfl⟩ := Prod.mk.inj hsecond
          exact hother _ hn'
        · exact h.lawful.once i n m hn' hm'
    · intro e he
      rcases mem_cons.mp he with rfl | he
      · exact hout.2
      · exact h.lawful.separate e he
  · intro n
    rw [mem_cons, mem_cons, h.taken, or_assoc]
  · intro i n
    rw [hids, mem_cons, Prod.mk.injEq, ← h.ids, eq_comm (a := o)]

/-- One call that stays clear. -/
theorem Session.Inv.next {c : Call ι} (h : s.Inv) (hclear : Clear toLowerCamelCase c s)
    (hstep : next toLowerCamelCase c s s') : s'.Inv := by
  unfold Bindgen.next at hstep
  cases c with
  | excludeGlobals globals =>
    cases hstep
    exact {
      lawful := {
        legal := h.lawful.legal
        created := h.lawful.created
        distinct := h.lawful.distinct
        byId := h.lawful.byId
        once := h.lawful.once
        separate := fun e he hmem =>
          (mem_append.mp hmem).elim (hclear e he) (h.lawful.separate e he) }
      taken := by
        intro n
        rw [LocalNames.excludeGlobals, mem_append, mem_append, h.taken]
        exact or_left_comm
      ids := h.ids }
  | createOnce goalName =>
    rw [Session.call, LocalNames.createOnce, Option.map_map, Option.map_eq_some_iff] at hstep
    obtain ⟨name, hname, rfl⟩ := hstep
    obtain ⟨hfree, hlegal⟩ := createName_spec hname
    have hbinding := hlegal.resolve_right fun ⟨hslips, hspells⟩ =>
      hfree (hclear name hslips hspells)
    exact h.create hfree hbinding (fun i hi => nomatch hi)
      (fun i n => ⟨.inr, fun hn => hn.resolve_left fun hnone => nomatch hnone.1⟩)
  | getOrCreate uniqueId goalName =>
    rw [Session.call, LocalNames.getOrCreate] at hstep
    cases hlookup : s.names.localNameIds.lookup uniqueId with
    | some name =>
      -- the name of the id is handed out again
      rw [hlookup] at hstep
      cases hstep
      have hhanded := (h.ids uniqueId name).mp hlookup
      have hsub : ∀ e, e ∈ (some uniqueId, name) :: s.handed ↔ e ∈ s.handed := fun e =>
        ⟨fun he => (mem_cons.mp he).elim (fun heq => heq ▸ hhanded) id,
          mem_cons_of_mem _⟩
      exact {
        lawful := {
          legal := fun e he => h.lawful.legal e ((hsub e).mp he)
          created := fun e he => h.lawful.created e ((hsub e).mp he)
          distinct := h.lawful.distinct
          byId := fun i j n m hi hj =>
            h.lawful.byId i j n m ((hsub _).mp hi) ((hsub _).mp hj)
          once := fun i n m hn hm => h.lawful.once i n m ((hsub _).mp hn) ((hsub _).mp hm)
          separate := fun e he => h.lawful.separate e ((hsub e).mp he) }
        taken := h.taken
        ids := fun i n => (h.ids i n).trans (hsub (some i, n)).symm }
    | none =>
      rw [hlookup, LocalNames.createOnce] at hstep
      rw [Option.map_map, Option.map_map, Option.map_eq_some_iff] at hstep
      obtain ⟨name, hname, rfl⟩ := hstep
      obtain ⟨hfree, hlegal⟩ := createName_spec hname
      have hbinding := hlegal.resolve_right fun ⟨hslips, hspells⟩ =>
        hfree (hclear hlookup name hslips hspells)
      apply h.create hfree hbinding
      · rintro i ⟨⟩
        exact hlookup
      · intro i n
        rw [lookup_cons]
        by_cases hi : i = uniqueId
        · subst hi
          simp [hlookup, eq_comm]
        · have hfalse : (i == uniqueId) = false := beq_false_of_ne hi
          simp [hfalse, Ne.symm hi]

/-- The run, from no names: every call returns, and where all calls stay clear
the names are legal and unique. -/
theorem lawful_of_run (toLowerCamelCase : Text → Text) :
    (∀ goalName, ∃ identifier, toJsIdentifier toLowerCamelCase goalName = some identifier) ∧
      (∀ (s : Session ι) (c : Call ι), ∃ s', next toLowerCamelCase c s s') ∧
        ∀ (calls : List (Call ι)) (s : Session ι),
          Run (guarded (Clear toLowerCamelCase) (next toLowerCamelCase)) {} calls s → Lawful s := by
  refine ⟨exists_toJsIdentifier toLowerCamelCase, Session.exists_call toLowerCamelCase, ?_⟩
  intro calls s hrun
  have hinv : s.Inv :=
    hrun.invariant (fun c s s' hstep hinv => hinv.next hstep.1 hstep.2) Session.Inv.start
  exact hinv.lawful

end Session

/-- A goal whose last segment is an identifier, and none of the two words, stays clear. -/
theorem clear_of_segment {goalName : Text} {names : List Text}
    (hvalid : isValidJsIdentifier (afterLastSlash goalName)) (hno : afterLastSlash goalName ∉ slips) :
    ∀ word ∈ slips, Spells id goalName word → word ∈ names := by
  rintro word hword (h | h)
  · rw [h] at hno
    exact absurd hword hno
  · exact absurd hvalid h.1

/-- A global is excluded, and the goals clash with it and with each other. -/
def clashingCalls : List (Call Nat) :=
  [.excludeGlobals ["Array".toList], .createOnce "wasi:cli/run".toList,
    .createOnce "my:app/run".toList, .getOrCreate 0 "Array".toList, .getOrCreate 0 "Array".toList]

theorem clashing_run : ∃ s : Session Nat,
    Run (guarded (Clear id) (next id)) {} clashingCalls s ∧
      s.created = ["Array$1".toList, "run$1".toList, "run".toList] := by
  refine ⟨_, .cons ⟨nofun, rfl⟩ <| .cons ⟨?_, rfl⟩ <| .cons ⟨?_, rfl⟩ <| .cons ⟨fun _ => ?_, rfl⟩ <|
    .cons ⟨fun _ => ?_, rfl⟩ <| .nil _, rfl⟩
  · exact clear_of_segment (by decide) (by decide)
  · exact clear_of_segment (by decide) (by decide)
  · exact clear_of_segment (by decide) (by decide)
  · exact clear_of_segment (by decide) (by decide)

theorem clashing_lawful : ∃ s : Session Nat,
    Run (guarded (Clear id) (next id)) {} clashingCalls s ∧ Lawful s ∧
      s.created = ["Array$1".toList, "run$1".toList, "run".toList] := by
  obtain ⟨s, hrun, hcreated⟩ := clashing_run
  exact ⟨s, hrun, (lawful_of_run (ι := Nat) id).2.2 clashingCalls s hrun, hcreated⟩

/-- A goal `eval` gets the name `eval`, which is in the table. -/
theorem eval_handed_out :
    ¬ ∀ (calls : List (Call Nat)) (s : Session Nat), Run (next id) {} calls s → Lawful s := by
  intro h
  have hlawful := h [.createOnce "eval".toList]
    { names := { localNames := ["eval".toList] }
      handed := [(none, "eval".toList)]
      created := ["eval".toList] } (.cons rfl (.nil _))
  have hlegal := hlawful.legal _ mem_cons_self
  exact hlegal.2 (by decide)

end Jco.Bindgen

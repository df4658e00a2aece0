import Mathlib

/-! # Assembling source text

`Source` collects generated JavaScript piece by piece and indents it by the braces it
sees. Where a piece is a part of a line, its blanks are kept; where it has several
lines, each is trimmed in front. Here a piece is compared with what the buffer makes of
it through its marks: the characters that are no whitespace, each with whether whitespace
stands before it.
-/

namespace Jco.Bindgen.Assembly

open List

abbrev Text := List Char

/-! ## Text -/

/-- `char::is_whitespace`: the property White_Space. -/
def white (c : Char) : Bool :=
  9 ≤ c.toNat && c.toNat ≤ 13 || 0x2000 ≤ c.toNat && c.toNat ≤ 0x200A ||
    [0x20, 0x85, 0xA0, 0x1680, 0x2028, 0x2029, 0x202F, 0x205F, 0x3000].contains c.toNat

def trimStart (t : Text) : Text := t.dropWhile white

def trim (t : Text) : Text := ((trimStart t).reverse.dropWhile white).reverse

/-- `split_inclusive('\n')` -/
def splitInclusive : Text → List Text
  | [] => []
  | c :: rest =>
    if c = '\n' then [c] :: splitInclusive rest
    else match splitInclusive rest with
      | [] => [[c]]
      | line :: others => (c :: line) :: others

/-- A line without its end, `\n` or `\r\n`. -/
def withoutEnd (line : Text) : Text :=
  if line.getLast? = some '\n' then
    if line.dropLast.getLast? = some '\r' then line.dropLast.dropLast else line.dropLast
  else line

/-- `str::lines` -/
def lines (src : Text) : List Text := (splitInclusive src).map withoutEnd

/-! ## The buffer -/

structure Source where
  s : Text
  indent : Nat
deriving DecidableEq, Repr

/-- Two spaces of indentation go before a closing brace. -/
def closed (s trimmed : Text) : Text :=
  if trimmed.head? = some '}' ∧ [' ', ' '] <:+ s then s.dropLast.dropLast else s

/-- What is written of a line that stands alone in its piece, or does not. -/
def kept (alone : Bool) (line : Text) : Text := if alone then line else trimStart line

namespace Source

def newline (b : Source) : Source :=
  { b with s := b.s ++ '\n' :: List.replicate (2 * b.indent) ' ' }

/-- The body of the loop up to its last test. -/
def pushLine (alone : Bool) (b : Source) (line : Text) : Source where
  s := closed b.s (trim line) ++ kept alone line
  indent :=
    let opened := if (trim line).getLast? = some '{' then b.indent + 1 else b.indent
    if (trim line).head? = some '}' then opened - 1 else opened

/-- The loop; `endsLine` is `src.ends_with('\n')`. -/
def pushLines (alone endsLine : Bool) : Source → List Text → Source
  | b, [] => b
  | b, line :: rest =>
    let written := pushLine alone b line
    pushLines alone endsLine (if rest ≠ [] ∨ endsLine then newline written else written) rest

def pushStr (b : Source) (src : Text) : Source :=
  pushLines ((lines src).length = 1) (src.getLast? = some '\n') b (lines src)

/-- The pieces of a `write!`, one after the other. -/
def pushAll (b : Source) (pieces : List Text) : Source := pieces.foldl pushStr b

end Source

/-! ## Marks -/

/-- Whether a text ends in whitespace; of the empty one, what is said. -/
def endsWhite (g : Bool) (t : Text) : Bool := (t.getLast?.map white).getD g

/-- The characters that are no whitespace, each with whether whitespace stands before it;
`g` says so of the first. -/
def marks : Bool → Text → List (Char × Bool)
  | _, [] => []
  | g, c :: t => if white c then marks true t else (c, g) :: marks false t

/-- The same character, separated if it was. -/
def Kept (out cat : Char × Bool) : Prop := out.1 = cat.1 ∧ (cat.2 = true → out.2 = true)

/-- The characters are the same in the same order, and what whitespace separates in the
second text is separated in the first. -/
def Faithful (out cat : Text) : Prop := List.Forall₂ Kept (marks true out) (marks true cat)

/-- A line is written as `start` right behind text, where the buffer or the line had
whitespace: the two spaces that went before a brace, or the line's own. -/
def GluesLine (opened s line start : Text) : Prop :=
  endsWhite true opened = false ∧ start.head?.map white = some false ∧
    (endsWhite true s = true ∨ line.head?.map white = some true)

/-- The first line of a piece does so. -/
def Glues (s src : Text) : Prop :=
  match lines src with
  | [] => False
  | line :: others => GluesLine (closed s (trim line)) s line (kept others.isEmpty line)

/-- No piece glues in the state that it is pushed to. -/
def Unglued : Source → List Text → Prop
  | _, [] => True
  | b, src :: pieces => ¬ Glues b.s src ∧ Unglued (b.pushStr src) pieces

section

variable {g h : Bool} {s t line src rest : Text} {c : Char}

theorem endsWhite_append : endsWhite g (s ++ t) = endsWhite (endsWhite g s) t := by
  unfold endsWhite
  cases t using List.reverseRecOn with
  | nil => simp
  | append_singleton t c => simp [← append_assoc]

theorem marks_append : marks g (s ++ t) = marks g s ++ marks (endsWhite g s) t := by
  induction s generalizing g with
  | nil => rfl
  | cons c s ih =>
    have hcons : endsWhite g (c :: s) = endsWhite (white c) s := endsWhite_append (s := [c])
    rw [hcons]
    cases hc : white c <;> simp [marks, hc, ih]

theorem marks_white (ht : ∀ c ∈ t, white c = true) : marks g t = [] := by
  induction t generalizing g with
  | nil => rfl
  | cons c t ih =>
    rw [marks, if_pos (ht c mem_cons_self)]
    exact ih fun d hd => ht d (mem_cons_of_mem _ hd)

theorem endsWhite_white (ht : ∀ c ∈ t, white c = true) (hne : t ≠ []) : endsWhite g t = true := by
  rw [endsWhite, List.getLast?_eq_some_getLast hne]
  exact ht _ (getLast_mem hne)

theorem endsWhite_of_ne_nil (hne : t ≠ []) : endsWhite g t = endsWhite h t := by
  rw [endsWhite, endsWhite, List.getLast?_eq_some_getLast hne]
  rfl

theorem white_cons_trimStart (hc : white c = true) : trimStart (c :: t) = trimStart t :=
  dropWhile_cons_of_pos hc

theorem marks_trimStart : marks true (trimStart t) = marks true t := by
  induction t with
  | nil => rfl
  | cons c t ih =>
    cases hc : white c
    · rw [trimStart, dropWhile_cons_of_neg (by simp [hc])]
    · rw [white_cons_trimStart hc, marks, if_pos hc, ih]

theorem endsWhite_trimStart : endsWhite true (trimStart t) = endsWhite true t := by
  induction t with
  | nil => rfl
  | cons c t ih =>
    cases hc : white c
    · rw [trimStart, dropWhile_cons_of_neg (by simp [hc])]
    · have hcons : endsWhite true (c :: t) = endsWhite (white c) t := endsWhite_append (s := [c])
      rw [white_cons_trimStart hc, ih, hcons, hc]

/-- A line is blank, or has text behind its leading whitespace. -/
theorem line_cases (line : Text) :
    (∀ c ∈ line, white c = true) ∨ ∃ w c t, line = w ++ c :: t ∧ (∀ d ∈ w, white d = true) ∧
      white c = false ∧ trimStart line = c :: t := by
  cases hstart : trimStart line with
  | nil => exact .inl (dropWhile_eq_nil_iff.1 hstart)
  | cons c t =>
    refine .inr ⟨line.takeWhile white, c, t, ?_, fun d hd => mem_takeWhile_imp hd, ?_, rfl⟩
    · rw [← hstart, trimStart, takeWhile_append_dropWhile]
    · have hhead := List.head?_dropWhile_not white line
      rw [show line.dropWhile white = c :: t from hstart] at hhead
      exact Bool.eq_false_iff.2 (by simpa using hhead)

/-! ## The brace -/

theorem closed_cases (s trimmed : Text) :
    closed s trimmed = s ∨ s = closed s trimmed ++ [' ', ' '] := by
  unfold closed
  by_cases hpop : trimmed.head? = some '}' ∧ [' ', ' '] <:+ s
  · rw [if_pos hpop]
    rcases hpop.2 with ⟨t, rfl⟩
    right
    simp
  · rw [if_neg hpop]
    exact .inl rfl

theorem white_spaces : ∀ c ∈ [' ', ' '], white c = true := by simp [white]

theorem marks_closed (s trimmed : Text) : marks true (closed s trimmed) = marks true s := by
  rcases closed_cases s trimmed with heq | heq
  · rw [heq]
  · generalize closed s trimmed = u at heq ⊢
    rw [heq, marks_append, marks_white white_spaces, append_nil]

theorem endsWhite_closed {trimmed : Text} (hclosed : endsWhite true (closed s trimmed) = true) :
    endsWhite true s = true := by
  rcases closed_cases s trimmed with heq | heq
  · rwa [heq] at hclosed
  · generalize closed s trimmed = u at heq
    rw [heq, endsWhite_append]
    exact endsWhite_white white_spaces (cons_ne_nil _ _)

/-- The buffer is at the start of a line. -/
def Fresh (s : Text) : Prop := ∃ t n, s = t ++ '\n' :: List.replicate n ' '

theorem Fresh.endsWhite (hs : Fresh s) : endsWhite true s = true := by
  rcases hs with ⟨t, n, rfl⟩
  refine endsWhite_append.trans (endsWhite_white (fun c hc => ?_) (cons_ne_nil _ _))
  rcases mem_cons.1 hc with rfl | hc
  · decide
  · rw [(mem_replicate.1 hc).2]
    decide

theorem Fresh.closed (hs : Fresh s) (trimmed : Text) : Fresh (closed s trimmed) := by
  rcases closed_cases s trimmed with heq | heq
  · rwa [heq]
  · rcases hs with ⟨t, n, hs⟩
    generalize Assembly.closed s trimmed = u at heq ⊢
    rw [hs] at heq
    match n with
    | 0 => exact absurd (congrArg List.getLast? heq) (by simp)
    | 1 => exact absurd (congrArg (fun v => v.dropLast.getLast?) heq) (by simp)
    | n + 2 =>
      have hspaces : t ++ '\n' :: List.replicate (n + 2) ' ' =
          (t ++ '\n' :: List.replicate n ' ') ++ [' ', ' '] := by
        rw [replicate_add, ← cons_append, ← append_assoc]
        rfl
      exact ⟨t, n, append_cancel_right (heq.symm.trans hspaces)⟩

theorem Source.fresh_newline (b : Source) : Fresh b.newline.s := ⟨b.s, 2 * b.indent, rfl⟩

/-! ## Lines -/

/-- A text is empty, is the rest of a line, or has an end of line. -/
theorem text_cases (src : Text) :
    src = [] ∨ (src ≠ [] ∧ '\n' ∉ src) ∨
      ∃ line rest, '\n' ∉ line ∧ src = line ++ '\n' :: rest := by
  by_cases hmem : '\n' ∈ src
  · rcases eq_append_cons_of_mem hmem with ⟨line, rest, heq, hnot⟩
    exact .inr (.inr ⟨line, rest, hnot, heq⟩)
  · by_cases hempty : src = []
    · exact .inl hempty
    · exact .inr (.inl ⟨hempty, hmem⟩)

theorem lines_last (hne : t ≠ []) (ht : '\n' ∉ t) : lines t = [t] := by
  have hsplit : splitInclusive t = [t] := by
    induction t with
    | nil => exact absurd rfl hne
    | cons c t ih =>
      rw [mem_cons, not_or] at ht
      rw [splitInclusive, if_neg (Ne.symm ht.1)]
      by_cases hnil : t = []
      · rw [hnil, splitInclusive]
      · rw [ih hnil ht.2]
  have hlast : t.getLast? ≠ some '\n' := fun h => ht (mem_of_getLast? h)
  rw [lines, hsplit, map_cons, withoutEnd, if_neg hlast, map_nil]

theorem lines_cons (hline : '\n' ∉ line) :
    lines (line ++ '\n' :: rest) = withoutEnd (line ++ ['\n']) :: lines rest := by
  have hsplit : splitInclusive (line ++ '\n' :: rest) =
      (line ++ ['\n']) :: splitInclusive rest := by
    induction line with
    | nil => exact if_pos rfl
    | cons c line ih =>
      rw [mem_cons, not_or] at hline
      rw [cons_append, splitInclusive, if_neg (Ne.symm hline.1), ih hline.2]
      rfl
  rw [lines, hsplit, map_cons, lines]

theorem lines_ne_nil (hne : t ≠ []) : lines t ≠ [] := by
  rcases text_cases t with h | ⟨h, hnot⟩ | ⟨l, r, hl, rfl⟩
  · exact absurd h hne
  · rw [lines_last h hnot]
    exact cons_ne_nil _ _
  · rw [lines_cons hl]
    exact cons_ne_nil _ _

theorem getLast?_line (hne : rest ≠ []) : (line ++ '\n' :: rest).getLast? = rest.getLast? := by
  rw [List.getLast?_append_of_ne_nil _ (cons_ne_nil _ _), List.getLast?_cons_of_ne_nil hne]

/-- The end of a line is whitespace. -/
theorem withoutEnd_white (line : Text) :
    ∃ e, line = withoutEnd (line ++ ['\n']) ++ e ∧ ∀ c ∈ e, white c = true := by
  unfold withoutEnd
  rw [if_pos (by simp), dropLast_concat]
  by_cases hreturn : line.getLast? = some '\r'
  · rw [if_pos hreturn]
    refine ⟨['\r'], (dropLast_append_getLast? _ hreturn).symm, fun c hc => ?_⟩
    rw [mem_singleton.1 hc]
    simp [white]
  · rw [if_neg hreturn]
    exact ⟨[], (append_nil _).symm, fun c hc => by cases hc⟩

/-- Marks of a text by its first line. -/
theorem marks_line (g : Bool) (line rest : Text) :
    marks g (line ++ '\n' :: rest) =
      marks g (withoutEnd (line ++ ['\n'])) ++ marks true rest := by
  rcases withoutEnd_white line with ⟨e, heq, he⟩
  generalize withoutEnd (line ++ ['\n']) = bare at heq ⊢
  rw [marks_append, heq, marks_append, marks_white he, append_nil, marks,
    if_pos (by simp [white])]

theorem endsWhite_line : endsWhite g (line ++ '\n' :: rest) = endsWhite true rest := by
  rw [← singleton_append, endsWhite_append, endsWhite_append]
  rfl

/-! ## A piece -/

theorem Source.marks_pushLine (alone : Bool) (b : Source) (line : Text) :
    marks true (b.pushLine alone line).s = marks true b.s ++
      marks (endsWhite true (closed b.s (trim line))) (kept alone line) := by
  rw [Source.pushLine, marks_append, marks_closed]

theorem Source.newline_marks (b : Source) : marks true b.newline.s = marks true b.s := by
  have hwhite : ∀ c ∈ '\n' :: List.replicate (2 * b.indent) ' ', white c = true := by
    intro c hc
    rcases mem_cons.1 hc with rfl | hc
    · simp [white]
    · rw [(mem_replicate.1 hc).2]
      simp [white]
  rw [Source.newline, marks_append, marks_white hwhite, append_nil]

/-- From the start of a line on nothing glues. -/
theorem Source.pushLines_fresh {b : Source} (hb : Fresh b.s) (src : Text) :
    marks true (pushLines false (src.getLast? = some '\n') b (lines src)).s =
        marks true b.s ++ marks true src ∧
      endsWhite true (pushLines false (src.getLast? = some '\n') b (lines src)).s =
        endsWhite true src := by
  induction hlength : src.length using Nat.strong_induction_on generalizing b src with
  | _ n ih =>
  subst hlength
  rcases text_cases src with rfl | ⟨hne, hnot⟩ | ⟨line, rest, hline, rfl⟩
  · exact ⟨(append_nil _).symm, hb.endsWhite⟩
  · have hopen := (hb.closed (trim src)).endsWhite
    have hlast : src.getLast? ≠ some '\n' := fun h => hnot (mem_of_getLast? h)
    rw [lines_last hne hnot, pushLines, if_neg (by simpa using hlast)]
    refine ⟨?_, ?_⟩
    · rw [pushLines, marks_pushLine, hopen]
      exact congrArg _ marks_trimStart
    · rw [pushLines, pushLine, endsWhite_append, hopen]
      exact endsWhite_trimStart
  · have hopen := (hb.closed (trim (withoutEnd (line ++ ['\n'])))).endsWhite
    have hwritten : marks true (b.pushLine false (withoutEnd (line ++ ['\n']))).newline.s =
        marks true b.s ++ marks true (withoutEnd (line ++ ['\n'])) := by
      rw [newline_marks, marks_pushLine, hopen]
      exact congrArg _ marks_trimStart
    rw [lines_cons hline, pushLines, marks_line, endsWhite_line, ← append_assoc, ← hwritten]
    have hshorter : rest.length < (line ++ '\n' :: rest).length := by
      rw [length_append, length_cons]
      omega
    have hih := ih rest.length hshorter
      (b.pushLine false (withoutEnd (line ++ ['\n']))).fresh_newline rest rfl
    by_cases hrest : rest = []
    · subst hrest
      rw [if_pos (by simp)]
      exact hih
    · rw [if_pos (.inl (lines_ne_nil hrest)), getLast?_line hrest]
      exact hih

/-- The first mark says that whitespace stands before it in the one list and not in the
other. -/
def Lost (ms cat : List (Char × Bool)) : Prop :=
  ∃ c rest, cat = (c, true) :: rest ∧ ms = (c, false) :: rest

theorem first_line (alone : Bool) (s trimmed line : Text) :
    (GluesLine (closed s trimmed) s line (kept alone line) →
      Lost (marks (endsWhite true (closed s trimmed)) (kept alone line))
        (marks (endsWhite true s) line)) ∧
      (¬ GluesLine (closed s trimmed) s line (kept alone line) →
        marks (endsWhite true (closed s trimmed)) (kept alone line) =
          marks (endsWhite true s) line) := by
  have hle : endsWhite true (closed s trimmed) = true → endsWhite true s = true :=
    endsWhite_closed
  generalize closed s trimmed = opened at hle ⊢
  unfold GluesLine Lost
  rcases line_cases line with hblank | ⟨w, c, t, rfl, hw, hc, hstart⟩
  · have hkept : ∀ c ∈ kept alone line, white c = true := by
      intro c hc
      cases alone with
      | true => exact hblank c hc
      | false => exact hblank c ((dropWhile_sublist _).mem hc)
    rw [marks_white hblank, marks_white hkept]
    refine ⟨fun hglues => ?_, fun _ => rfl⟩
    cases hhead : (kept alone line).head? with
    | none => simp [hhead] at hglues
    | some d => simp [hhead, hkept d (mem_of_head? hhead)] at hglues
  · -- the flag of the first mark is all that the two may differ in
    have hmarks : ∀ g, marks g (w ++ c :: t) = (c, endsWhite g w) :: marks false t := by
      intro g
      rw [marks_append, marks_white hw, nil_append, marks, if_neg (by simp [hc])]
    have hrest : ∀ g, marks g (c :: t) = (c, g) :: marks false t := by
      intro g
      rw [marks, if_neg (by simp [hc])]
    have hkept : kept false (w ++ c :: t) = c :: t := hstart
    cases w with
    | nil =>
      have hboth : kept alone ([] ++ c :: t) = c :: t := by cases alone <;> [exact hkept; rfl]
      rw [hboth, hmarks, hrest]
      cases ho : endsWhite true opened <;> cases hs : endsWhite true s <;>
        simp_all [endsWhite]
    | cons d w =>
      have hd : white d = true := hw d mem_cons_self
      have hfull : ∀ g, endsWhite g (d :: w) = true := fun g =>
        endsWhite_white hw (cons_ne_nil _ _)
      cases alone with
      | true =>
        rw [show kept true (d :: w ++ c :: t) = d :: w ++ c :: t from rfl, hmarks, hmarks, hfull,
          hfull]
        simp [hd]
      | false =>
        rw [hkept, hmarks, hrest, hfull]
        cases ho : endsWhite true opened <;> simp [hc, hd]

theorem forall₂_append_self (ms : List (Char × Bool)) {more cat : List (Char × Bool)} :
    List.Forall₂ Kept (ms ++ more) (ms ++ cat) ↔ List.Forall₂ Kept more cat := by
  induction ms with
  | nil => rfl
  | cons m ms ih => simp [Kept, ih]

theorem Lost.append {ms cat : List (Char × Bool)} (h : Lost ms cat) (more : List (Char × Bool)) :
    Lost (ms ++ more) (cat ++ more) := by
  rcases h with ⟨c, rest, rfl, rfl⟩
  exact ⟨c, rest ++ more, rfl, rfl⟩

/-- What a piece adds to the marks. -/
theorem Source.pushStr_marks (b : Source) (src : Text) :
    endsWhite true (b.pushStr src).s = endsWhite (endsWhite true b.s) src ∧
      ∃ ms, marks true (b.pushStr src).s = marks true b.s ++ ms ∧
        (Glues b.s src → Lost ms (marks (endsWhite true b.s) src)) ∧
        (¬ Glues b.s src → ms = marks (endsWhite true b.s) src) := by
  rcases text_cases src with rfl | ⟨hne, hnot⟩ | ⟨line, rest, hline, rfl⟩
  · exact ⟨rfl, [], (append_nil _).symm, fun hglues => hglues.elim, fun _ => rfl⟩
  · have hlines := lines_last hne hnot
    have hlast : src.getLast? ≠ some '\n' := fun h => hnot (mem_of_getLast? h)
    have hpush : b.pushStr src = b.pushLine true src := by
      rw [pushStr, hlines, pushLines, if_neg (by simpa using hlast)]
      rfl
    have hfirst := first_line true b.s (trim src) src
    rw [hpush, marks_pushLine, Glues, hlines]
    refine ⟨?_, _, rfl, hfirst⟩
    rw [pushLine, endsWhite_append]
    exact endsWhite_of_ne_nil hne
  · generalize hbare : withoutEnd (line ++ ['\n']) = bare
    have hlines : lines (line ++ '\n' :: rest) = bare :: lines rest := by
      rw [lines_cons hline, hbare]
    have hpush : b.pushStr (line ++ '\n' :: rest) = pushLines false (rest.getLast? = some '\n')
        (b.pushLine (lines rest).isEmpty bare).newline (lines rest) := by
      rw [pushStr, hlines, pushLines]
      by_cases hrest : rest = []
      · subst hrest
        rw [if_pos (.inr (by simp))]
        rfl
      · have hmore := lines_ne_nil hrest
        rw [if_pos (.inl hmore), getLast?_line hrest]
        cases hcase : lines rest with
        | nil => exact absurd hcase hmore
        | cons l ls => rfl
    have hlater := pushLines_fresh (b.pushLine (lines rest).isEmpty bare).fresh_newline rest
    have hfirst := first_line (lines rest).isEmpty b.s (trim bare) bare
    rw [hpush, hlater.1, hlater.2, newline_marks, marks_pushLine, marks_line, hbare,
      endsWhite_line, Glues, hlines]
    refine ⟨rfl, _, append_assoc _ _ _, ?_, ?_⟩
    · intro hglues
      exact (hfirst.1 hglues).append _
    · intro hglues
      rw [hfirst.2 hglues]

/-- What the pieces add to the marks, in any state. -/
theorem Source.pushAll_marks (b : Source) (pieces : List Text) :
    ∃ ms, marks true (b.pushAll pieces).s = marks true b.s ++ ms ∧
      ms.map Prod.fst = (marks (endsWhite true b.s) pieces.flatten).map Prod.fst ∧
      (List.Forall₂ Kept ms (marks (endsWhite true b.s) pieces.flatten) ↔ Unglued b pieces) := by
  induction pieces generalizing b with
  | nil => exact ⟨[], (append_nil _).symm, rfl, by simp [Unglued, marks]⟩
  | cons src pieces ih =>
    rcases b.pushStr_marks src with ⟨hends, ms, hms, hglued, hunglued⟩
    rcases ih (b.pushStr src) with ⟨more, hmore, hchars, hiff⟩
    rw [hends] at hchars hiff
    refine ⟨ms ++ more, ?_, ?_, ?_⟩
    · rw [pushAll, foldl_cons]
      exact hmore.trans (by rw [hms, append_assoc])
    · rw [flatten_cons, marks_append, map_append, map_append, hchars]
      by_cases hglues : Glues b.s src
      · rcases hglued hglues with ⟨c, rest, hcat, hout⟩
        rw [hcat, hout]
        rfl
      · rw [hunglued hglues]
    · rw [flatten_cons, marks_append, Unglued]
      by_cases hglues : Glues b.s src
      · rcases hglued hglues with ⟨c, rest, hcat, hout⟩
        rw [hcat, hout]
        simp [Kept, hglues]
      · rw [hunglued hglues, ← hiff]
        simp [forall₂_append_self, hglues]

end

/-- Whatever pieces are pushed, the characters that are no whitespace come out in order,
and what whitespace separates stays separated exactly if no piece glues. -/
theorem assembly_iff (indent : Nat) (pieces : List Text) :
    (marks true (Source.pushAll ⟨[], indent⟩ pieces).s).map Prod.fst =
        (marks true pieces.flatten).map Prod.fst ∧
      (Faithful (Source.pushAll ⟨[], indent⟩ pieces).s pieces.flatten ↔
        Unglued ⟨[], indent⟩ pieces) := by
  rcases Source.pushAll_marks ⟨[], indent⟩ pieces with ⟨ms, hms, hchars, hiff⟩
  have hmarks : marks true (Source.pushAll ⟨[], indent⟩ pieces).s = ms := hms
  rw [Faithful, hmarks]
  exact ⟨hchars, hiff⟩

/-- The space in front of the first of two lines is lost. -/
theorem return_glued : ¬ Faithful
    (Source.pushAll ⟨[], 0⟩ ["return".toList, " a;\nb;".toList]).s "return a;\nb;".toList := by
  intro h
  have hout : marks true (Source.pushAll ⟨[], 0⟩ ["return".toList, " a;\nb;".toList]).s =
      [('r', true), ('e', false), ('t', false), ('u', false), ('r', false), ('n', false),
        ('a', false), (';', false), ('b', true), (';', false)] := by
    decide
  have hcat : marks true "return a;\nb;".toList =
      [('r', true), ('e', false), ('t', false), ('u', false), ('r', false), ('n', false),
        ('a', true), (';', false), ('b', true), (';', false)] := by
    decide
  rw [Faithful, hout, hcat] at h
  simp [Kept] at h

end Jco.Bindgen.Assembly

import Mathlib
import Jco.Js.Basic

/-!
# The text of an address

`tupleToIPv6`, `tupleToIpv4` and the parsers that go the other way, in both shims, with
`socketResolveAddress` for names that are literals. What Node takes for a literal is a
structure here, whose text is rendered and whose segments are computed beside it.

1. Numbers and separators.
2. The functions.
3. Literals, their text and what they denote.
4. One segment, one list of segments, one literal.
-/

namespace Jco.Sockets.IpText

open List Nat

open Jco.Js (JsError)

abbrev Text := List Char

/-! ## Numbers -/

def digit (c : Char) : Option Nat :=
  if c.isDigit then some (c.toNat - 48)
  else if 97 ≤ c.toNat ∧ c.toNat ≤ 102 then some (c.toNat - 87)
  else if 65 ≤ c.toNat ∧ c.toNat ≤ 70 then some (c.toNat - 55)
  else none

def isDigitOf (radix : Nat) (c : Char) : Bool := (digit c).any (· < radix)

def valueOf (radix : Nat) (ds : Text) : Nat :=
  ds.foldl (fun v c => v * radix + (digit c).getD 0) 0

def startsWithAny (s : Text) (cs : List Char) : Bool := s.head?.any fun c => cs.any (· == c)

/-- `parseInt(s, radix)`; `none` is NaN. -/
def parseInt (radix : Nat) (s : Text) : Option Int :=
  let trimmed := s.dropWhile Char.isWhitespace
  let unsigned := if startsWithAny trimmed ['-', '+'] then trimmed.tail else trimmed
  let bare :=
    if radix == 16 && startsWithAny unsigned ['0'] && startsWithAny unsigned.tail ['x', 'X'] then
      unsigned.drop 2
    else unsigned
  let ds := bare.takeWhile (isDigitOf radix)
  if ds.isEmpty then none
  else some (if startsWithAny trimmed ['-'] then -(valueOf radix ds : Int) else valueOf radix ds)

/-- The text before the first `::`, and what follows. -/
def cut : Text → Option (Text × Text)
  | ':' :: ':' :: rest => some ([], rest)
  | c :: rest => (cut rest).map fun p => (c :: p.1, p.2)
  | [] => none

/-! ## The functions -/

def tupleToIPv6 (segments : List Nat) : Option Text :=
  if segments.length = 8 then some ([':'].intercalate (segments.map (Nat.toDigits 16))) else none

def tupleToIpv4 (segments : List Nat) : Option Text :=
  if segments.length = 4 then some (['.'].intercalate (segments.map (Nat.toDigits 10))) else none

/-- `s === "" ? [] : s.split(":")` -/
def parts (s : Text) : List Text := if s.isEmpty then [] else s.splitOn ':'

/-- `ipv6.includes("::") ? ipv6.split("::") : [ipv6]`, of which two are taken. -/
def halves (ipv6 : Text) : Text × Text :=
  match cut ipv6 with
  | some (lhs, rest) => (lhs, ((cut rest).map Prod.fst).getD rest)
  | none => (ipv6, [])

/-- The parts that are mapped; what fills the gap is the number zero. -/
def segments (ipv6 : Text) : Except JsError (List (Option Text)) :=
  let (lhs, rhs) := halves ipv6
  let count := (parts lhs).length + (parts rhs).length
  if 8 < count then .error .engine
  else .ok ((parts lhs).map some ++ List.replicate (8 - count) none ++ (parts rhs).map some)

/-- `parseInt(segment, 16)`, also of the number zero -/
def parseSegment : Option Text → Option Int
  | some segment => parseInt 16 segment
  | none => some 0

namespace Preview2

def ipv6ToTuple (ipv6 : Text) : Except JsError (List (Option Int)) := do
  let ss ← segments ipv6
  return ss.map parseSegment

def ipv4ToTuple (ipv4 : Text) : Except JsError (List (Option Int)) :=
  .ok ((ipv4.splitOn '.').map (parseInt 10))

/-- The tag and the value, for a name that `isIP` takes; `none` where the name is looked up. -/
def socketResolveAddress (isIP : Text → Nat) (name : Text) :
    Option (Nat × Except JsError (List (Option Int))) :=
  let bracketed := name.head? == some '[' && name.getLast? == some ']'
  let isIpNum := isIP (if bracketed then name.tail.dropLast else name)
  if 0 < isIpNum then
    some (isIpNum, (if isIpNum = 4 then ipv4ToTuple else ipv6ToTuple) name)
  else none

end Preview2

namespace Preview3

/-- A segment in range, or the error that names it. -/
def inRange (max : Int) (kind : String) (segment : Text) (val : Option Int) :
    Except JsError (Option Int) :=
  match val with
  | some n => if n < 0 ∨ max < n then
      .error (.error s!"Invalid {kind} segment: {String.ofList segment}") else .ok (some n)
  | none => .error (.error s!"Invalid {kind} segment: {String.ofList segment}")

def ipv6ToTuple (ipv6 : Text) : Except JsError (List (Option Int)) := do
  let ss ← segments ipv6
  ss.mapM fun segment => inRange 0xffff "IPv6" (segment.getD ['0']) (parseSegment segment)

def ipv4ToTuple (ipv4 : Text) : Except JsError (List (Option Int)) :=
  (ipv4.splitOn '.').mapM fun segment => inRange 255 "IPv4" segment (parseInt 10 segment)

end Preview3

/-- A tuple of numbers none of which is NaN. -/
def numbers (ns : List Nat) : List (Option Int) := ns.map fun n : Nat => some (n : Int)

/-! ## Literals -/

/-- One to four hexadecimal digits, in any case. -/
structure Group where
  digits : Text
  nonempty : digits ≠ []
  short : digits.length ≤ 4
  hex : ∀ c ∈ digits, isDigitOf 16 c = true

def Group.value (g : Group) : Nat := valueOf 16 g.digits

/-- A dotted quad. -/
structure Octets where
  a : Fin 256
  b : Fin 256
  c : Fin 256
  d : Fin 256

namespace Octets

variable (o : Octets)

def list : List (Fin 256) := [o.a, o.b, o.c, o.d]

def text : Text := ['.'].intercalate (o.list.map fun n => Nat.toDigits 10 n.val)

/-- The two groups that it stands for. -/
def groups : List Nat := [o.a.val * 256 + o.b.val, o.c.val * 256 + o.d.val]

end Octets

/-- The literals: a dotted quad, eight groups, or groups around `::`; the last two groups
may be written as a dotted quad, and a zone may follow. -/
inductive Literal where
  | ipv4 (o : Octets)
  | full (left : List Group) (tail : Option Octets) (zone : Option Text)
      (count : left.length + 2 * tail.toList.length = 8)
  | compressed (left right : List Group) (tail : Option Octets) (zone : Option Text)
      (count : left.length + right.length + 2 * tail.toList.length ≤ 7)

/-- Groups and a tail, as they stand between the colons. -/
def pieces (gs : List Group) (tail : Option Octets) : List Text :=
  gs.map Group.digits ++ tail.toList.map Octets.text

def values (gs : List Group) (tail : Option Octets) : List Nat :=
  gs.map Group.value ++ tail.toList.flatMap Octets.groups

def zoneText (zone : Option Text) : Text := zone.elim [] ('%' :: ·)

namespace Literal

def text : Literal → Text
  | ipv4 o => o.text
  | full left tail zone _ => [':'].intercalate (pieces left tail) ++ zoneText zone
  | compressed left right tail zone _ =>
    [':'].intercalate (pieces left none) ++
      ':' :: ':' :: ([':'].intercalate (pieces right tail) ++ zoneText zone)

def version : Literal → Nat
  | ipv4 _ => 4
  | _ => 6

/-- The segments that it denotes; a zone is none of them. -/
def denotes : Literal → List Nat
  | ipv4 o => o.list.map Fin.val
  | full left tail _ _ => values left tail
  | compressed left right tail _ _ =>
    let shown := values left none ++ values right tail
    values left none ++ List.replicate (8 - shown.length) 0 ++ values right tail

end Literal

/-- What is read besides of a zone up to `::`: its parts after the first. -/
def zoneRead (zone : Option Text) : List (Option Int) :=
  zone.elim [] fun z => ((halves z).1.splitOn ':').tail.map (parseInt 16)

/-- What is read of a zone after its first `::`. -/
def zoneRest (zone : Option Text) : List (Option Int) :=
  zone.elim [] fun z => (parts (halves z).2).map (parseInt 16)

/-- The last groups come out right, with `more` read after them: there is nothing to go wrong, or
the misreading shifts zeros only, or the zone happens to spell what the tail has been short of. -/
def TailRead (right : List Group) (tail : Option Octets) (more : List (Option Int)) : Prop :=
  match tail, more with
  | none, [] => True
  | none, _ => (∀ g ∈ right, g.value = 0) ∧ ∀ n ∈ more, n = some 0
  | some o, [] => o.groups = [0, 0] ∧ ∀ g ∈ right, g.value = 0
  | some o, [n] => numbers o.groups = [some 0, n]
  | some o, _ => o.a.val = 0 ∧ (∀ g ∈ right, g.value = 0) ∧
    more = List.replicate (more.length - 2) (some 0) ++ numbers o.groups

namespace Literal

/-- There are eight parts at most, a zone is not directly behind `::`, and the last groups come
out right. -/
def ReadRight : Literal → Prop
  | ipv4 _ => True
  | full left tail zone _ =>
    let more := zoneRead zone ++ zoneRest zone
    left.length + tail.toList.length + more.length ≤ 8 ∧ TailRead [] tail more
  | compressed left right tail zone _ =>
    let more := zoneRead zone
    left.length + right.length + tail.toList.length + more.length ≤ 8 ∧
      (zone = none ∨ pieces right tail ≠ []) ∧ TailRead right tail more

end Literal

/-- The name under which a literal is resolved. -/
def nameOf (bracketed : Bool) (t : Text) : Text := if bracketed then '[' :: (t ++ [']']) else t

/-! ## One segment -/

section Segments

variable {radix : Nat} {ds rest : Text} {c : Char}

theorem digit_of_isDigitOf (h : isDigitOf radix c = true) : (digit c).isSome = true := by
  unfold isDigitOf at h
  cases hd : digit c with
  | none =>
    rw [hd] at h
    cases h
  | some n => rfl

/-- The characters that `parseInt` treats apart are no digits. -/
theorem plain_of_isDigitOf (h : isDigitOf radix c = true) :
    c.isWhitespace = false ∧ c ≠ '-' ∧ c ≠ '+' ∧ c ≠ 'x' ∧ c ≠ 'X' ∧ c ≠ ':' ∧ c ≠ '.' ∧
      c ≠ '[' := by
  have hdigit := digit_of_isDigitOf h
  have hno : ∀ x : Char, digit x = none → c ≠ x := by
    rintro x hx rfl
    rw [hx] at hdigit
    cases hdigit
  refine ⟨?_, hno _ rfl, hno _ rfl, hno _ rfl, hno _ rfl, hno _ rfl, hno _ rfl, hno _ rfl⟩
  unfold Char.isWhitespace
  simp only [hno ' ' rfl, hno '\t' rfl, hno '\r' rfl, hno '\n' rfl, decide_false, Bool.or_false]

/-- `parseInt` reads the digits up to the first character that is none. -/
theorem parseInt_digits (hne : ds ≠ []) (hds : ∀ c ∈ ds, isDigitOf radix c = true)
    (hrest : ∀ c ∈ rest.head?, isDigitOf radix c = false ∧ c ≠ 'x' ∧ c ≠ 'X') :
    parseInt radix (ds ++ rest) = some (valueOf radix ds) := by
  rcases exists_cons_of_ne_nil hne with ⟨first, others, rfl⟩
  rcases plain_of_isDigitOf (hds first mem_cons_self) with
    ⟨hspace, hminus, hplus, -, -, -, -, -⟩
  -- digits have no space, sign or `0x` to be taken off
  have htrim : (first :: others ++ rest).dropWhile Char.isWhitespace =
      first :: others ++ rest := by
    rw [cons_append, dropWhile_cons_of_neg (by rw [hspace]; exact Bool.false_ne_true)]
  have hsign : startsWithAny (first :: others ++ rest) ['-', '+'] = false := by
    simp [startsWithAny, hminus.symm, hplus.symm]
  have hnegative : startsWithAny (first :: others ++ rest) ['-'] = false := by
    simp [startsWithAny, hminus.symm]
  have hprefix : startsWithAny (first :: others ++ rest).tail ['x', 'X'] = false := by
    rw [cons_append, tail_cons]
    cases others with
    | nil =>
      cases rest with
      | nil => rfl
      | cons c more =>
        have hc := hrest c rfl
        simp [startsWithAny, hc.2.1.symm, hc.2.2.symm]
    | cons second more =>
      have hc := plain_of_isDigitOf (hds second (by simp))
      simp [startsWithAny, hc.2.2.2.1.symm, hc.2.2.2.2.1.symm]
  have htake : (first :: others ++ rest).takeWhile (isDigitOf radix) = first :: others := by
    rw [takeWhile_append_of_pos hds]
    cases rest with
    | nil => simp
    | cons c more => rw [takeWhile_cons_of_neg (by simp [(hrest c rfl).1]), append_nil]
  unfold parseInt
  simp only [htrim, hsign, hprefix, hnegative, Bool.and_false, Bool.false_eq_true, if_false,
    htake]
  rfl

theorem parseInt_all (hne : ds ≠ []) (hds : ∀ c ∈ ds, isDigitOf radix c = true) :
    parseInt radix ds = some (valueOf radix ds) := by
  have hparse : parseInt radix (ds ++ []) = some (valueOf radix ds) :=
    parseInt_digits hne hds (fun c hc => by cases hc)
  rwa [append_nil] at hparse

/-- A bracket or a percent sign is no number. -/
theorem parseInt_sign (hc : c = '[' ∨ c = '%') : parseInt radix (c :: rest) = none := by
  have hplain : c.isWhitespace = false ∧ digit c = none ∧ startsWithAny (c :: rest) ['-', '+'] =
      false ∧ startsWithAny (c :: rest) ['0'] = false := by
    rcases hc with rfl | rfl <;> exact ⟨by decide, by decide, rfl, rfl⟩
  obtain ⟨hspace, hdigit, hsign, hzero⟩ := hplain
  have htrim : (c :: rest).dropWhile Char.isWhitespace = c :: rest := by
    rw [dropWhile_cons_of_neg (by rw [hspace]; exact Bool.false_ne_true)]
  have htake : (c :: rest).takeWhile (isDigitOf radix) = [] := by
    rw [takeWhile_cons_of_neg]
    rw [isDigitOf, hdigit]
    exact Bool.false_ne_true
  unfold parseInt
  simp [htrim, hsign, hzero, htake]

theorem valueOf_append (d : Char) :
    valueOf radix (ds ++ [d]) = valueOf radix ds * radix + (digit d).getD 0 := by
  rw [valueOf, foldl_append]
  rfl

theorem valueOf_lt (hds : ∀ c ∈ ds, isDigitOf radix c = true) :
    valueOf radix ds < radix ^ ds.length ∨ ds = [] := by
  induction ds using List.reverseRecOn with
  | nil => exact .inr rfl
  | append_singleton ds d ih =>
    left
    have hd := hds d (by simp)
    unfold isDigitOf at hd
    rw [valueOf_append, length_append, length_singleton, pow_succ]
    cases hdigit : digit d with
    | none =>
      rw [hdigit] at hd
      cases hd
    | some n =>
      rw [hdigit] at hd
      have hn : n < radix := of_decide_eq_true hd
      rw [Option.getD_some]
      rcases ih fun c hc => hds c (mem_append_left _ hc) with hlt | rfl
      · calc valueOf radix ds * radix + n < valueOf radix ds * radix + radix := by omega
          _ = (valueOf radix ds + 1) * radix := by ring
          _ ≤ radix ^ ds.length * radix := mul_le_mul_right _ hlt
      · simp [valueOf]
        omega

theorem digit_digitChar : ∀ n : Fin 16, digit n.val.digitChar = some n.val := by decide

/-- The digits of a number spell it. -/
theorem toDigits_spells (hradix : 1 < radix) (hmax : radix ≤ 16) (n : Nat) :
    (∀ c ∈ Nat.toDigits radix n, isDigitOf radix c = true) ∧
      valueOf radix (Nat.toDigits radix n) = n := by
  have hone : ∀ d < radix, isDigitOf radix d.digitChar = true ∧
      (digit d.digitChar).getD 0 = d := by
    intro d hd
    have hdigit := digit_digitChar ⟨d, by omega⟩
    unfold isDigitOf
    rw [hdigit]
    exact ⟨decide_eq_true hd, rfl⟩
  induction n using Nat.strongRecOn with
  | ind n ih =>
    by_cases hlt : n < radix
    · rw [toDigits_of_lt_base hlt]
      refine ⟨fun c hc => ?_, ?_⟩
      · rw [mem_singleton.1 hc]
        exact (hone n hlt).1
      · simpa [valueOf] using (hone n hlt).2
    · have hdiv : n / radix < n := div_lt_self (by omega) hradix
      have hmod : n % radix < radix := mod_lt _ (by omega)
      rw [toDigits_of_base_le hradix (by omega)]
      refine ⟨fun c hc => ?_, ?_⟩
      · rcases mem_append.1 hc with hhead | hlast
        · exact (ih _ hdiv).1 c hhead
        · rw [mem_singleton.1 hlast]
          exact (hone _ hmod).1
      · rw [valueOf_append, (ih _ hdiv).2, (hone _ hmod).2]
        exact div_add_mod' n radix

end Segments

/-! ## A list of segments -/

section Pieces

variable {ps : List Text} {s rest : Text} {c : Char}

/-- What stands between colons. -/
def Clean (s : Text) : Prop := s ≠ [] ∧ ':' ∉ s

theorem cut_append (hs : ':' ∉ s) :
    cut (s ++ rest) = (cut rest).map fun p => (s ++ p.1, p.2) := by
  induction s with
  | nil => exact Option.map_id'.symm
  | cons c s ih =>
    have hc : c ≠ ':' := fun heq => hs (heq ▸ mem_cons_self)
    rw [cons_append, cut, ih fun hmem => hs (mem_cons_of_mem _ hmem)]
    · cases cut rest <;> rfl
    · intro more heq
      exact absurd heq hc

theorem cut_colon (hrest : rest.head? ≠ some ':') :
    cut (':' :: rest) = (cut rest).map fun p => (':' :: p.1, p.2) := by
  rw [cut]
  rintro more - rfl
  exact hrest rfl

theorem cut_intercalate (hps : ∀ p ∈ ps, Clean p) :
    cut ([':'].intercalate ps ++ rest) =
      (cut rest).map fun p => ([':'].intercalate ps ++ p.1, p.2) := by
  induction ps with
  | nil => exact Option.map_id'.symm
  | cons p ps ih =>
    have hp := hps p mem_cons_self
    cases ps with
    | nil =>
      rw [intercalate_singleton]
      exact cut_append hp.2
    | cons q ps =>
      have hq := hps q (by simp)
      have hhead : ([':'].intercalate (q :: ps) ++ rest).head? ≠ some ':' := by
        rcases exists_cons_of_ne_nil hq.1 with ⟨c, more, rfl⟩
        have hc : c ≠ ':' := fun heq => hq.2 (heq ▸ mem_cons_self)
        cases ps <;> simp [intercalate_cons_cons, hc]
      rw [intercalate_cons_cons, append_assoc, append_assoc, cut_append hp.2,
        singleton_append, cut_colon hhead,
        ih fun p hmem => hps p (mem_cons_of_mem _ hmem)]
      cases cut rest <;> simp

theorem parts_intercalate (hps : ∀ p ∈ ps, Clean p) : parts ([':'].intercalate ps) = ps := by
  unfold parts
  cases ps with
  | nil => rfl
  | cons p ps =>
    have hne : [':'].intercalate (p :: ps) ≠ [] := by
      have hp := (hps p mem_cons_self).1
      cases ps <;> simp [intercalate_cons_cons, hp]
    rw [if_neg (by rwa [List.isEmpty_iff])]
    exact splitOn_intercalate ':' (fun q hq => (hps q hq).2) (cons_ne_nil _ _)

theorem halves_eq (s : Text) :
    halves s = match cut s with
      | some (lhs, rest) => (lhs, (halves rest).1)
      | none => (s, []) := by
  unfold halves
  cases cut s with
  | none => rfl
  | some p => cases hrest : cut p.2 <;> simp [hrest]

theorem halves_intercalate (hps : ∀ p ∈ ps, Clean p) :
    halves ([':'].intercalate ps ++ rest) =
      ([':'].intercalate ps ++ (halves rest).1, (halves rest).2) := by
  rw [halves_eq, halves_eq rest, cut_intercalate hps]
  cases cut rest <;> rfl

theorem halves_cons (hc : c ≠ ':') : halves (c :: s) = (c :: (halves s).1, (halves s).2) := by
  have hclean : ∀ p ∈ [[c]], Clean p := by
    intro p hp
    rw [mem_singleton.1 hp]
    exact ⟨cons_ne_nil _ _, by simpa using hc.symm⟩
  have hhalves : halves ([':'].intercalate [[c]] ++ s) = _ := halves_intercalate hclean
  simpa using hhalves

theorem halves_compressed (hps : ∀ p ∈ ps, Clean p) :
    halves ([':'].intercalate ps ++ ':' :: ':' :: rest) =
      ([':'].intercalate ps, (halves rest).1) := by
  rw [halves_intercalate hps, halves_eq (':' :: ':' :: rest), cut, append_nil]

theorem splitOn_cons {c : Char} (hc : c ≠ ':') :
    (c :: rest).splitOn ':' = (rest.splitOn ':').modifyHead (c :: ·) := by
  rw [splitOn_cons_eq_if_modifyHead, if_neg (by simpa using hc)]

theorem splitOn_append (hs : ':' ∉ s) :
    (s ++ rest).splitOn ':' = (rest.splitOn ':').modifyHead (s ++ ·) := by
  induction s with
  | nil =>
    rw [nil_append]
    cases rest.splitOn ':' <;> rfl
  | cons c s ih =>
    have hc : c ≠ ':' := fun heq => hs (heq ▸ mem_cons_self)
    rw [cons_append, splitOn_cons hc, ih fun hmem => hs (mem_cons_of_mem _ hmem)]
    cases rest.splitOn ':' <;> rfl

/-- Only the last of the parts is longer by what follows. -/
theorem splitOn_intercalate_append (hps : ∀ p ∈ ps, Clean p) (hs : ':' ∉ s) :
    ([':'].intercalate (ps ++ [s]) ++ rest).splitOn ':' =
      ps ++ (rest.splitOn ':').modifyHead (s ++ ·) := by
  induction ps with
  | nil =>
    rw [nil_append, intercalate_singleton]
    exact splitOn_append hs
  | cons p ps ih =>
    have hp := hps p mem_cons_self
    have hcons : [':'].intercalate (p :: ps ++ [s]) =
        p ++ ':' :: [':'].intercalate (ps ++ [s]) := by
      cases ps <;> simp [intercalate_cons_cons]
    rw [hcons, append_assoc, splitOn_append hp.2, cons_append, splitOn_cons_eq_if_modifyHead,
      if_pos (by decide), ih fun q hq => hps q (mem_cons_of_mem _ hq)]
    simp

/-- Numbers around a gap that is filled up with zeros. -/
def filled (ns ms : List (Option Int)) : List (Option Int) :=
  ns ++ List.replicate (8 - (ns.length + ms.length)) (some 0) ++ ms

/-- The numbers between colons. -/
def partsRead (s : Text) : List (Option Int) := (parts s).map (parseInt 16)

theorem ipv6ToTuple_eq (s : Text) :
    Preview2.ipv6ToTuple s =
      if 8 < (partsRead (halves s).1).length + (partsRead (halves s).2).length then .error .engine
      else .ok (filled (partsRead (halves s).1) (partsRead (halves s).2)) := by
  have hone : ∀ ps : List Text, (ps.map some).map parseSegment = ps.map (parseInt 16) :=
    fun ps => map_map
  unfold Preview2.ipv6ToTuple segments partsRead filled
  simp only [length_map]
  by_cases hcount : 8 < (parts (halves s).1).length + (parts (halves s).2).length
  · rw [if_pos hcount, if_pos hcount]
    rfl
  · rw [if_neg hcount, if_neg hcount]
    refine congrArg Except.ok ?_
    rw [map_append, map_append, hone, hone, map_replicate]
    rfl

/-- A sign before the first part makes it NaN. -/
theorem partsRead_sign (hc : c = '[' ∨ c = '%') :
    partsRead (c :: s) = none :: (s.splitOn ':').tail.map (parseInt 16) := by
  have hne : c ≠ ':' := by rcases hc with rfl | rfl <;> decide
  unfold partsRead parts
  rw [if_neg (by simp), splitOn_cons hne]
  cases hsplit : s.splitOn ':' with
  | nil => exact absurd hsplit (splitOn_ne_nil ':' _)
  | cons first more => exact congrArg (· :: _) (parseInt_sign hc)

end Pieces

/-! ## One literal -/

section Literals

variable {left right : List Group} {tail : Option Octets} {lit : Literal}

theorem Group.clean (g : Group) : Clean g.digits :=
  ⟨g.nonempty, fun hmem => (plain_of_isDigitOf (g.hex _ hmem)).2.2.2.2.2.1 rfl⟩

theorem Group.value_lt (g : Group) : g.value < 2 ^ 16 := by
  rcases valueOf_lt g.hex with hlt | hnil
  · exact hlt.trans_le (Nat.pow_le_pow_right (by decide) g.short)
  · exact absurd hnil g.nonempty

/-- The text of an octet: decimal digits, which are hexadecimal ones as well. -/
theorem octet_digits (n : Fin 256) : ∀ c ∈ Nat.toDigits 10 n.val, isDigitOf 16 c = true := by
  intro c hc
  have hten := (toDigits_spells (by decide) (by decide) n.val).1 c hc
  unfold isDigitOf at hten ⊢
  cases hd : digit c with
  | none =>
    rw [hd] at hten
    cases hten
  | some d =>
    rw [hd] at hten
    have hlt : d < 10 := of_decide_eq_true hten
    exact decide_eq_true (by omega)

theorem Octets.text_eq (o : Octets) : ∃ more, o.text = Nat.toDigits 10 o.a.val ++ '.' :: more ∧
    ':' ∉ o.text := by
  have hno : ∀ n : Fin 256, ':' ∉ Nat.toDigits 10 n.val := fun n hmem =>
    (plain_of_isDigitOf (octet_digits n _ hmem)).2.2.2.2.2.1 rfl
  refine ⟨['.'].intercalate ([o.b, o.c, o.d].map fun n => Nat.toDigits 10 n.val), ?_, ?_⟩
  · rw [map_cons, map_cons, intercalate_cons_cons, append_assoc]
    rfl
  · simp [Octets.text, Octets.list, intercalate_cons_cons, hno]

theorem Octets.clean (o : Octets) : Clean o.text := by
  rcases o.text_eq with ⟨more, htext, hcolon⟩
  refine ⟨?_, hcolon⟩
  rw [htext]
  exact append_ne_nil_of_right_ne_nil _ (cons_ne_nil _ _)

/-- What `parseInt` makes of a dotted tail: the digits of its first octet. -/
def Octets.misread (o : Octets) : Nat := valueOf 16 (Nat.toDigits 10 o.a.val)

theorem Octets.parse (o : Octets) : parseInt 16 o.text = some (o.misread : Int) := by
  rcases o.text_eq with ⟨more, htext, -⟩
  rw [htext]
  refine parseInt_digits toDigits_ne_nil (octet_digits o.a) ?_
  intro c hc
  cases hc
  decide

/-- The groups that the parsers see. -/
def seen (gs : List Group) (tail : Option Octets) : List Nat :=
  gs.map Group.value ++ tail.toList.map Octets.misread

theorem pieces_clean : ∀ p ∈ pieces left tail, Clean p := by
  intro p hp
  rcases mem_append.1 hp with hgroup | htail
  · rcases mem_map.1 hgroup with ⟨g, -, rfl⟩
    exact g.clean
  · rcases mem_map.1 htail with ⟨o, -, rfl⟩
    exact o.clean

/-- What a zone does to the part before it: nothing. -/
theorem parse_piece {p : Text} (hp : p ∈ pieces left tail) (rest : Text)
    (hrest : ∀ c ∈ rest.head?, isDigitOf 16 c = false ∧ c ≠ 'x' ∧ c ≠ 'X') :
    parseInt 16 (p ++ rest) = parseInt 16 p := by
  rcases mem_append.1 hp with hgroup | htail
  · rcases mem_map.1 hgroup with ⟨g, -, rfl⟩
    exact (parseInt_digits g.nonempty g.hex hrest).trans (parseInt_all g.nonempty g.hex).symm
  · rcases mem_map.1 htail with ⟨o, -, rfl⟩
    rcases o.text_eq with ⟨more, htext, -⟩
    rw [o.parse, htext, append_assoc]
    refine parseInt_digits toDigits_ne_nil (octet_digits o.a) ?_
    intro c hc
    cases hc
    decide

theorem parse_pieces : (pieces left tail).map (parseInt 16) = numbers (seen left tail) := by
  unfold pieces seen numbers
  rw [map_append, map_append, map_map, map_map, map_map, map_map]
  congr 1
  · refine map_congr_left fun g _ => ?_
    exact parseInt_all g.nonempty g.hex
  · exact map_congr_left fun o _ => o.parse

theorem partsRead_pieces :
    partsRead ([':'].intercalate (pieces left tail)) = numbers (seen left tail) := by
  unfold partsRead
  rw [parts_intercalate pieces_clean, parse_pieces]

/-- The numbers of the groups after a gap: there is one too many, and it is NaN, where a zone has
no group before it. -/
def behind (right : List Group) (tail : Option Octets) (zone : Option Text) : List (Option Int) :=
  (if zone.isSome ∧ pieces right tail = [] then [none] else numbers (seen right tail)) ++
    zoneRead zone

theorem partsRead_zone (zone : Option Text) :
    partsRead ([':'].intercalate (pieces right tail) ++ (halves (zoneText zone)).1) =
      behind right tail zone := by
  unfold behind
  cases zone with
  | none =>
    rw [if_neg (by simp)]
    have hpieces : partsRead ([':'].intercalate (pieces right tail)) = _ := partsRead_pieces
    simpa [zoneText, zoneRead, halves, cut] using hpieces
  | some z =>
    have hzone : (halves (zoneText (some z))).1 = '%' :: (halves z).1 :=
      congrArg Prod.fst (halves_cons (by decide))
    rw [hzone]
    rcases List.eq_nil_or_concat' (pieces right tail) with hnil | ⟨ps, p, hps⟩
    · -- the zone itself is taken for a group
      rw [if_pos ⟨rfl, hnil⟩, hnil, intercalate_nil, nil_append, partsRead_sign (.inr rfl)]
      rfl
    · have hclean : ∀ q ∈ ps ++ [p], Clean q := by
        intro q hq
        rw [← hps] at hq
        exact pieces_clean q hq
      have hp : p ∈ pieces right tail := by
        rw [hps]
        simp
      rw [if_neg (by simp [hps]), ← parse_pieces, partsRead, parts, if_neg (by simp), hps,
        splitOn_intercalate_append (fun q hq => hclean q (mem_append_left _ hq))
          (hclean p (by simp)).2, splitOn_cons (c := '%') (by decide)]
      unfold zoneRead
      rw [Option.elim_some]
      cases hz : (halves z).1.splitOn ':' with
      | nil => exact absurd hz (splitOn_ne_nil ':' _)
      | cons first more =>
        have hparse := parse_piece hp ('%' :: first) (by
          intro c hc
          cases hc
          decide)
        simp [hparse]

/-- What the parsers make of a literal, if they do not throw. -/
def tuple : Literal → List (Option Int)
  | .ipv4 o => numbers (o.list.map Fin.val)
  | .full left tail zone _ => filled (behind left tail zone) (zoneRest zone)
  | .compressed left right tail zone _ =>
    filled (numbers (seen left none)) (behind right tail zone)

/-- How many parts there are. -/
def count : Literal → Nat
  | .ipv4 _ => 4
  | .full left tail zone _ => (behind left tail zone).length + (zoneRest zone).length
  | .compressed left right tail zone _ => left.length + (behind right tail zone).length

theorem parse_preview2 (hversion : lit.version = 6) :
    Preview2.ipv6ToTuple lit.text = if 8 < count lit then .error .engine else .ok (tuple lit) := by
  rw [ipv6ToTuple_eq]
  cases lit with
  | ipv4 o => cases hversion
  | full left tail zone hcount =>
    have hrest : partsRead (halves (zoneText zone)).2 = zoneRest zone := by
      cases zone with
      | none => rfl
      | some z => exact congrArg (partsRead ·.2) (halves_cons (show '%' ≠ ':' by decide))
    rw [Literal.text, halves_intercalate pieces_clean, hrest, partsRead_zone]
    rfl
  | compressed left right tail zone hcount =>
    rw [Literal.text, halves_compressed pieces_clean, halves_intercalate pieces_clean,
      partsRead_pieces, partsRead_zone]
    simp [count, tuple, numbers, seen]

theorem misread_lt : ∀ n : Fin 256,
    0 < valueOf 16 (Nat.toDigits 10 n.val) ∧ valueOf 16 (Nat.toDigits 10 n.val) < n.val * 256 ∨
      n.val = 0 ∧ valueOf 16 (Nat.toDigits 10 n.val) = 0 := by
  decide +kernel

theorem values_lt : ∀ n ∈ values left tail, n < 2 ^ 16 := by
  intro n hn
  rcases mem_append.1 hn with hgroup | htail
  · rcases mem_map.1 hgroup with ⟨g, -, rfl⟩
    exact g.value_lt
  · rcases mem_flatMap.1 htail with ⟨o, -, ho⟩
    have ha := o.a.isLt
    have hc := o.c.isLt
    simp only [Octets.groups, mem_cons, not_mem_nil, or_false] at ho
    omega

theorem denotes_lt : ∀ n ∈ lit.denotes, n < 2 ^ 16 := by
  intro n hn
  cases lit with
  | ipv4 o =>
    rcases mem_map.1 hn with ⟨a, -, rfl⟩
    omega
  | full left tail zone count => exact values_lt n hn
  | compressed left right tail zone count =>
    rcases mem_append.1 hn with hn | hn
    · rcases mem_append.1 hn with hn | hn
      · exact values_lt n hn
      · rw [eq_of_mem_replicate hn]
        decide
    · exact values_lt n hn

theorem mapM_ok {α β ε : Type} {f : α → Except ε β} {g : α → β} {xs : List α}
    (h : ∀ x ∈ xs, f x = .ok (g x)) : xs.mapM f = .ok (xs.map g) := by
  induction xs with
  | nil => rfl
  | cons x xs ih =>
    rw [mapM_cons, h x mem_cons_self, ih fun y hy => h y (mem_cons_of_mem _ hy)]
    rfl

theorem inRange_ok {max n : Nat} {kind : String} {segment : Text} (hn : n ≤ max) :
    Preview3.inRange max kind segment (some n) = .ok (some n) := by
  rw [Preview3.inRange, if_neg (by omega)]

/-- Segments in range are read by both shims alike. -/
theorem preview3_of_preview2 {t : Text} {ns : List Nat}
    (h : Preview2.ipv6ToTuple t = .ok (numbers ns)) (hns : ∀ n ∈ ns, n < 2 ^ 16) :
    Preview3.ipv6ToTuple t = .ok (numbers ns) := by
  unfold Preview2.ipv6ToTuple at h
  unfold Preview3.ipv6ToTuple
  cases hss : segments t with
  | error err =>
    rw [hss] at h
    cases h
  | ok ss =>
    rw [hss] at h
    have hparse : ss.map parseSegment = numbers ns := Except.ok.inj h
    rw [← hparse]
    refine mapM_ok fun segment hmem => ?_
    have hnumber : parseSegment segment ∈ numbers ns := by
      rw [← hparse]
      exact mem_map_of_mem hmem
    rcases mem_map.1 hnumber with ⟨n, hn, heq⟩
    rw [← heq]
    exact inRange_ok (le_of_lt_succ (hns n hn))

theorem parse_ipv4 (o : Octets) :
    Preview2.ipv4ToTuple o.text = .ok (numbers (o.list.map Fin.val)) ∧
      Preview3.ipv4ToTuple o.text = .ok (numbers (o.list.map Fin.val)) := by
  have hdigits : ∀ n : Fin 256, ∀ c ∈ Nat.toDigits 10 n.val, isDigitOf 10 c = true := fun n =>
    (toDigits_spells (by decide) (by decide) n.val).1
  have hsplit : o.text.splitOn '.' = o.list.map fun n => Nat.toDigits 10 n.val := by
    refine splitOn_intercalate '.' ?_ (by simp [Octets.list])
    intro l hl hdot
    rcases mem_map.1 hl with ⟨n, -, rfl⟩
    exact (plain_of_isDigitOf (hdigits n _ hdot)).2.2.2.2.2.2.1 rfl
  have hparse : ∀ n : Fin 256, parseInt 10 (Nat.toDigits 10 n.val) = some (Int.ofNat n.val) := by
    intro n
    rw [parseInt_all toDigits_ne_nil (hdigits n),
      (toDigits_spells (by decide) (by decide) n.val).2]
    rfl
  constructor
  · rw [Preview2.ipv4ToTuple, hsplit, numbers, map_map, map_map]
    exact congrArg _ (map_congr_left fun n _ => hparse n)
  · rw [Preview3.ipv4ToTuple, hsplit]
    have hall : ∀ segment ∈ o.list.map fun n => Nat.toDigits 10 n.val,
        Preview3.inRange 255 "IPv4" segment (parseInt 10 segment) =
          .ok (parseInt 10 segment) := by
      intro segment hmem
      rcases mem_map.1 hmem with ⟨n, -, rfl⟩
      rw [hparse n]
      exact inRange_ok (le_of_lt_succ n.isLt)
    rw [mapM_ok hall, numbers, map_map, map_map]
    exact congrArg _ (map_congr_left fun n _ => hparse n)

/-- A dotted tail read as one number is the first of its groups when that is zero. -/
theorem Octets.misread_iff (o : Octets) :
    (o.misread = o.a.val * 256 + o.b.val ↔ o.a.val * 256 + o.b.val = 0) ∧
      (o.misread = 0 ↔ o.a.val = 0) := by
  have hlt := misread_lt o.a
  unfold Octets.misread
  omega

theorem numbers_append (ns ms : List Nat) : numbers (ns ++ ms) = numbers ns ++ numbers ms :=
  map_append

theorem numbers_zeros (n : Nat) : numbers (List.replicate n 0) = List.replicate n (some 0) :=
  map_replicate

/-- A list is itself behind as many zeros as follow it: nothing follows, or all is zero. -/
theorem shift_iff {α : Type} {xs ys : List α} {z : α} :
    xs ++ ys = List.replicate ys.length z ++ xs ↔
      ys = [] ∨ (∀ x ∈ xs, x = z) ∧ ∀ y ∈ ys, y = z := by
  constructor
  · intro h
    by_cases hnil : ys = []
    · exact .inl hnil
    have hpos : 0 < ys.length := length_pos_iff.2 hnil
    -- every element of the list is one of the zeros, or stands further on in the list
    have hall : ∀ i : Nat, ∀ x ∈ xs[i]?, x = z := by
      intro i
      induction i using Nat.strongRecOn with
      | ind i ih =>
        intro x hx
        have hi : i < xs.length := (List.getElem?_eq_some_iff.1 hx).1
        have hget : (xs ++ ys)[i]? = (List.replicate ys.length z ++ xs)[i]? := by rw [h]
        rw [getElem?_append_left hi, Option.mem_def.1 hx] at hget
        by_cases hlt : i < ys.length
        · rw [getElem?_append_left (by rwa [length_replicate]), getElem?_replicate,
            if_pos hlt] at hget
          exact Option.some.inj hget
        · rw [getElem?_append_right (by rw [length_replicate]; omega), length_replicate] at hget
          exact ih (i - ys.length) (by omega) x hget.symm
    have hxs : xs = List.replicate xs.length z := by
      refine eq_replicate_iff.2 ⟨rfl, fun x hx => ?_⟩
      obtain ⟨i, hi⟩ := getElem?_of_mem hx
      exact hall i x hi
    have hys : ys = List.replicate ys.length z := by
      rw [hxs, replicate_append_replicate, Nat.add_comm, ← replicate_append_replicate,
        append_cancel_left_eq] at h
      exact h
    exact .inr ⟨(eq_replicate_iff.1 hxs).2, (eq_replicate_iff.1 hys).2⟩
  · rintro (rfl | ⟨hxs, hys⟩)
    · simp
    · rw [eq_replicate_iff.2 ⟨rfl, hxs⟩, eq_replicate_iff.2 ⟨rfl, hys⟩, length_replicate,
        replicate_append_replicate, replicate_append_replicate, Nat.add_comm]

section

variable {α : Type} {xs fill : List α} {x y y' z f f' : α}

/-- Shifted by one, with one element for two at the end. -/
theorem shift_short :
    z :: (xs ++ [x]) = xs ++ [y, y'] ↔ (y = z ∧ ∀ a ∈ xs, a = z) ∧ x = y' := by
  have hshift : xs ++ [y] = [z] ++ xs ↔ _ := shift_iff
  have hends : z :: (xs ++ [x]) = xs ++ [y, y'] ↔ (z :: xs) ++ [x] = (xs ++ [y]) ++ [y'] := by
    simp
  rw [hends, append_eq_append_iff_of_size_eq_right (show [x].length = [y'].length from rfl),
    eq_comm (a := z :: xs)]
  refine and_congr (hshift.trans ?_) (by simp)
  simp [and_comm]

/-- Shifted, with what was missing at the end. -/
theorem shift_filled :
    xs ++ x :: (fill ++ [f, f']) = List.replicate (fill.length + 1) z ++ (xs ++ [y, y']) ↔
      (∀ a ∈ xs, a = z) ∧ x = z ∧ (∀ a ∈ fill, a = z) ∧ f = y ∧ f' = y' := by
  have hshift : xs ++ x :: fill = List.replicate (fill.length + 1) z ++ xs ↔ _ := shift_iff
  rw [← cons_append, ← append_assoc, ← append_assoc,
    append_eq_append_iff_of_size_eq_right (show [f, f'].length = [y, y'].length from rfl)]
  refine (and_congr hshift Iff.rfl).trans ?_
  simp [and_assoc]

end

theorem zeros_iff (gs : List Group) :
    (∀ n ∈ numbers (gs.map Group.value), n = some 0) ↔ ∀ g ∈ gs, g.value = 0 := by
  simp [numbers]

/-- Without a tail the numbers behind a gap are shifted by those of the zone. -/
theorem behind_none (more : List (Option Int)) :
    numbers (seen right none) ++ more =
        List.replicate more.length (some 0) ++ numbers (values right none) ↔
      TailRead right none more := by
  have hseen : numbers (seen right none) = numbers (right.map Group.value) := by simp [seen]
  rw [show numbers (values right none) = numbers (seen right none) from rfl, shift_iff, hseen,
    zeros_iff]
  cases more with
  | nil => simp [TailRead]
  | cons n more => simp [TailRead]

/-- A tail is one number short, which the zone may make up for. -/
theorem behind_some (o : Octets) (more : List (Option Int)) :
    some 0 :: (numbers (seen right (some o)) ++ more) =
        List.replicate more.length (some 0) ++ numbers (values right (some o)) ↔
      TailRead right (some o) more := by
  obtain ⟨hhigh, hzero⟩ := o.misread_iff
  have hseen : numbers (seen right (some o)) =
      numbers (right.map Group.value) ++ [some (o.misread : Int)] := by
    simp [seen, numbers]
  have hvalues : numbers (values right (some o)) =
      numbers (right.map Group.value) ++
        [some ((o.a.val * 256 + o.b.val : Nat) : Int), some ((o.c.val * 256 + o.d.val : Nat) : Int)]
      := by
    simp [values, numbers, Octets.groups]
  rw [hseen, hvalues]
  match more with
  | [] =>
    -- the groups are shifted by one, and the misread tail stands for the second of its two
    rw [append_nil, length_nil, replicate_zero, nil_append, shift_short, zeros_iff, TailRead,
      Octets.groups]
    simp only [Option.some.injEq, List.cons.injEq, and_true]
    constructor
    · rintro ⟨⟨hfirst, hall⟩, hsecond⟩
      exact ⟨by omega, hall⟩
    · rintro ⟨hgroups, hall⟩
      exact ⟨⟨by omega, hall⟩, by omega⟩
  | [n] =>
    -- the tail is the first of its groups, and the zone the second
    rw [append_assoc, length_singleton, replicate_one, singleton_append, singleton_append,
      List.cons.injEq, append_cancel_left_eq, TailRead, Octets.groups, numbers]
    simp only [List.cons.injEq, Option.some.injEq, map_cons, map_nil, and_true, true_and]
    refine and_congr ?_ eq_comm
    omega
  | n :: n' :: more =>
    -- all but the last two of the zone are shifted by one more than their number
    obtain ⟨fill, f, f', hmore⟩ : ∃ fill f f', n :: n' :: more = fill ++ [f, f'] := by
      rcases List.eq_nil_or_concat' more with rfl | ⟨front, f', rfl⟩
      · exact ⟨[], n, n', rfl⟩
      · rcases List.eq_nil_or_concat' (n :: n' :: front) with hnil | ⟨fill, f, hfront⟩
        · cases hnil
        · exact ⟨fill, f, f', by rw [← cons_append, ← cons_append, hfront, append_assoc]; rfl⟩
    have hlength : (n :: n' :: more).length = fill.length + 2 := by simp [hmore]
    have htail : TailRead right (some o) (n :: n' :: more) ↔
        o.a.val = 0 ∧ (∀ g ∈ right, g.value = 0) ∧ n :: n' :: more =
          List.replicate ((n :: n' :: more).length - 2) (some 0) ++ numbers o.groups := Iff.rfl
    rw [htail, hlength, hmore, append_assoc, singleton_append, replicate_succ, cons_append,
      List.cons.injEq, shift_filled, zeros_iff, Nat.add_sub_cancel, Octets.groups,
      append_eq_append_iff_of_size_eq_left (by rw [length_replicate]), eq_replicate_iff]
    simp only [Option.some.injEq, List.cons.injEq, numbers, map_cons, map_nil, and_true, true_and]
    have hmisread : (o.misread : Int) = 0 ↔ o.a.val = 0 := by omega
    rw [hmisread]
    exact and_left_comm

theorem behind_eq {zone : Option Text} (h : zone = none ∨ pieces right tail ≠ []) :
    behind right tail zone = numbers (seen right tail) ++ zoneRead zone := by
  unfold behind
  rw [if_neg]
  rintro ⟨hsome, hnil⟩
  rcases h with rfl | h
  · cases hsome
  · exact h hnil

theorem length_seen : (numbers (seen right tail)).length = right.length + tail.toList.length := by
  simp [numbers, seen]

/-- The eight groups, with what is read of a zone behind them. -/
theorem full_iff {more rest : List (Option Int)} (count : left.length + 2 * tail.toList.length = 8)
    (hmore : left.length + tail.toList.length + (more ++ rest).length ≤ 8) :
    filled (numbers (seen left tail) ++ more) rest = numbers (values left tail) ↔
      TailRead [] tail (more ++ rest) := by
  have hlength : (numbers (seen left tail)).length = _ := length_seen
  unfold filled
  rw [length_append, hlength]
  cases tail with
  | none =>
    have hleft : left.length = 8 := by simpa using count
    have hnil : more ++ rest = [] := length_eq_zero_iff.1 (by omega)
    obtain ⟨rfl, rfl⟩ := append_eq_nil_iff.1 hnil
    simp [TailRead, seen, values, hleft]
  | some o =>
    have hleft : left.length = 6 := by
      simp at count
      omega
    obtain ⟨hhigh, -⟩ := o.misread_iff
    have hseen : numbers (seen left (some o)) =
        numbers (left.map Group.value) ++ [some (o.misread : Int)] := by
      simp [seen, numbers]
    have hvalues : numbers (values left (some o)) =
        numbers (left.map Group.value) ++ numbers o.groups := by
      simp [values, numbers]
    rw [hseen, hvalues, append_assoc, append_assoc, append_assoc, append_cancel_left_eq]
    have hone : (more ++ rest).length ≤ 1 := by
      simp [hleft] at hmore ⊢
      omega
    have hread : ∀ n,
        [some (o.misread : Int), n] = numbers o.groups ↔ TailRead [] (some o) [n] := by
      intro n
      simp only [TailRead, Octets.groups, numbers, map_cons, map_nil, List.cons.injEq,
        Option.some.injEq, and_true]
      refine and_congr ?_ eq_comm
      omega
    match more, rest with
    | [], [] =>
      -- the gap is the second group of the tail
      refine Iff.trans ?_ (?_ : o.groups = [0, 0] ↔ _)
      · simp only [Octets.groups, numbers, hleft]
        simp
        omega
      · simp [TailRead]
    | [n], [] => simpa [hleft] using hread n
    | [], [n] => simpa [hleft] using hread n

/-- The groups behind a gap, with what is read of a zone behind them. -/
theorem compressed_iff {more : List (Option Int)}
    (count : left.length + right.length + 2 * tail.toList.length ≤ 7)
    (hmore : left.length + right.length + tail.toList.length + more.length ≤ 8) :
    filled (numbers (seen left none)) (numbers (seen right tail) ++ more) =
        numbers (values left none) ++
          List.replicate (8 - (values left none ++ values right tail).length) (some 0) ++
            numbers (values right tail) ↔
      TailRead right tail more := by
  have hlength : (numbers (seen right tail)).length = _ := length_seen
  have hleft : (numbers (seen left none)).length = left.length := by simp [length_seen]
  unfold filled
  rw [length_append, hlength, hleft, show numbers (seen left none) = numbers (values left none)
    from rfl, append_assoc, append_assoc, append_cancel_left_eq]
  let gap := 8 - (left.length + (right.length + tail.toList.length + more.length))
  cases tail with
  | none =>
    have hgap : 8 - (values left none ++ values right none).length = gap + more.length := by
      simp [values, gap] at hmore ⊢
      omega
    rw [hgap, ← replicate_append_replicate, append_assoc, append_cancel_left_eq]
    exact behind_none more
  | some o =>
    -- one zero more on both sides, so that the tail is not short of one
    have hgap : 8 - (values left none ++ values right (some o)).length + 1 =
        gap + more.length := by
      simp [values, gap, Octets.groups] at count hmore ⊢
      omega
    have hcons : ∀ (n : Nat) (ns : List (Option Int)),
        some 0 :: (List.replicate n (some 0) ++ ns) =
          List.replicate n (some 0) ++ some 0 :: ns := by
      intro n ns
      rw [← cons_append, ← replicate_succ, replicate_succ', append_assoc, singleton_append]
    rw [← cons_inj_right (some 0), hcons, ← @cons_append _ (some 0) (List.replicate _ _) _,
      ← replicate_succ, hgap, ← replicate_append_replicate, append_assoc, append_cancel_left_eq]
    exact behind_some o more

/-- The parsers see what a literal denotes exactly where its last groups come out right. -/
theorem tuple_iff (lit : Literal) :
    count lit ≤ 8 ∧ tuple lit = numbers lit.denotes ↔ lit.ReadRight := by
  cases lit with
  | ipv4 o => exact iff_of_true ⟨Nat.le_of_ble_eq_true rfl, rfl⟩ trivial
  | full left tail zone hcount =>
    have hne : pieces left tail ≠ [] := by
      intro hnil
      have hlength := congrArg List.length hnil
      simp [pieces] at hlength
      obtain ⟨rfl, htail⟩ := hlength
      simp [htail] at hcount
    have hparts : count (.full left tail zone hcount) =
        left.length + tail.toList.length + (zoneRead zone ++ zoneRest zone).length := by
      rw [count, behind_eq (.inr hne), length_append, length_append, length_seen]
      omega
    rw [hparts, tuple, behind_eq (.inr hne)]
    exact and_congr_right fun hfits => full_iff hcount hfits
  | compressed left right tail zone hcount =>
    by_cases hzone : zone = none ∨ pieces right tail ≠ []
    · have hparts : count (.compressed left right tail zone hcount) =
          left.length + right.length + tail.toList.length + (zoneRead zone).length := by
        rw [count, behind_eq hzone, length_append, length_seen]
        omega
      rw [hparts, tuple, behind_eq hzone]
      refine and_congr_right fun hfits => ?_
      refine Iff.trans ?_ ((compressed_iff hcount hfits).trans (and_iff_right hzone).symm)
      rw [Literal.denotes, numbers_append, numbers_append, numbers_zeros]
    · -- the first number behind the gap is NaN
      refine iff_of_false ?_ fun hread => hzone hread.2.1
      rintro ⟨-, htuple⟩
      have hnan : none ∈ numbers (Literal.compressed left right tail zone hcount).denotes := by
        rw [← htuple, tuple, filled, behind, if_pos]
        · simp
        · push Not at hzone
          exact ⟨Option.isSome_iff_ne_none.2 hzone.1, hzone.2⟩
      simp [numbers] at hnan

theorem head_text (lit : Literal) : lit.text.head? ≠ some '[' := by
  -- groups and octets begin with a digit
  have hpieces : ∀ (gs : List Group) (tail : Option Octets) (rest : Text),
      rest.head? ≠ some '[' → ([':'].intercalate (pieces gs tail) ++ rest).head? ≠ some '[' := by
    intro gs tail rest hrest
    have hdigit : ∀ ds : Text, ds ≠ [] → (∀ c ∈ ds, isDigitOf 16 c = true) → ∀ more,
        (ds ++ more).head? ≠ some '[' := by
      rintro ds hne hds more
      rcases exists_cons_of_ne_nil hne with ⟨c, cs, rfl⟩
      simpa using (plain_of_isDigitOf (hds c mem_cons_self)).2.2.2.2.2.2.2
    cases gs with
    | nil =>
      cases tail with
      | none => exact hrest
      | some o =>
        rcases o.text_eq with ⟨more, htext, -⟩
        simpa [pieces, htext] using
          hdigit _ toDigits_ne_nil (octet_digits o.a) ('.' :: more ++ rest)
    | cons g gs =>
      cases hmore : pieces gs tail with
      | nil =>
        have heq : pieces (g :: gs) tail = [g.digits] := congrArg (g.digits :: ·) hmore
        rw [heq, intercalate_singleton]
        exact hdigit _ g.nonempty g.hex rest
      | cons p ps =>
        have heq : pieces (g :: gs) tail = g.digits :: p :: ps := congrArg (g.digits :: ·) hmore
        rw [heq, intercalate_cons_cons, append_assoc, append_assoc]
        exact hdigit _ g.nonempty g.hex _
  cases lit with
  | ipv4 o =>
    have h := hpieces [] (some o) [] (by simp)
    simpa [pieces, Literal.text] using h
  | full left tail zone count => exact hpieces left tail _ (by cases zone <;> simp [zoneText])
  | compressed left right tail zone count => exact hpieces left none _ (by simp)

/-- A name in brackets is not read. -/
theorem parse_bracket (t : Text) (ns : List Nat) :
    Preview2.ipv6ToTuple ('[' :: t) ≠ .ok (numbers ns) ∧
      Preview2.ipv4ToTuple ('[' :: t) ≠ .ok (numbers ns) := by
  have hno : ∀ (radix : Nat) (first : Text) (more : List (Option Int)),
      parseInt radix ('[' :: first) :: more ≠ numbers ns := by
    intro radix first more heq
    rw [parseInt_sign (.inl rfl)] at heq
    cases ns with
    | nil => cases heq
    | cons n ns => cases (List.cons.inj heq).1
  constructor
  · intro h
    rw [ipv6ToTuple_eq, halves_cons (by decide), partsRead_sign (.inl rfl)] at h
    split at h
    · cases h
    · have heq := Except.ok.inj h
      cases ns with
      | nil => cases heq
      | cons n ns => cases (List.cons.inj heq).1
  · intro h
    rw [Preview2.ipv4ToTuple, splitOn_cons_eq_if_modifyHead, if_neg (by decide)] at h
    cases hsplit : t.splitOn '.' with
    | nil => exact splitOn_ne_nil '.' t hsplit
    | cons first more =>
      rw [hsplit] at h
      exact hno 10 first _ (Except.ok.inj h)

/-! ## The codec -/

/-- The parsers and the resolver read a literal as what it denotes. -/
structure Read (isIP : Text → Nat) (lit : Literal) (bracketed : Bool) : Prop where
  preview2 : (if lit.version = 4 then Preview2.ipv4ToTuple else Preview2.ipv6ToTuple) lit.text =
    .ok (numbers lit.denotes)
  preview3 : (if lit.version = 4 then Preview3.ipv4ToTuple else Preview3.ipv6ToTuple) lit.text =
    .ok (numbers lit.denotes)
  resolved : Preview2.socketResolveAddress isIP (nameOf bracketed lit.text) =
    some (lit.version, .ok (numbers lit.denotes))

/-- The parsers read a literal right exactly where its last groups come out right. -/
theorem parse_iff (lit : Literal) :
    (if lit.version = 4 then Preview2.ipv4ToTuple else Preview2.ipv6ToTuple) lit.text =
        .ok (numbers lit.denotes) ↔ lit.ReadRight := by
  have hsix : lit.version = 6 →
      (Preview2.ipv6ToTuple lit.text = .ok (numbers lit.denotes) ↔ lit.ReadRight) := by
    intro hversion
    rw [parse_preview2 hversion, ← tuple_iff]
    by_cases hcount : 8 < count lit
    · rw [if_pos hcount]
      exact iff_of_false nofun fun h => absurd h.1 (by omega)
    · rw [if_neg hcount, Except.ok.injEq]
      exact (and_iff_right (by omega)).symm
  cases lit with
  | ipv4 o => exact iff_of_true (parse_ipv4 o).1 trivial
  | full left tail zone count => exact hsix rfl
  | compressed left right tail zone count => exact hsix rfl

theorem parse_preview3 {lit : Literal} (hread : lit.ReadRight) :
    (if lit.version = 4 then Preview3.ipv4ToTuple else Preview3.ipv6ToTuple) lit.text =
      .ok (numbers lit.denotes) := by
  have hparse := (parse_iff lit).2 hread
  cases lit with
  | ipv4 o => exact (parse_ipv4 o).2
  | full left tail zone count => exact preview3_of_preview2 hparse denotes_lt
  | compressed left right tail zone count => exact preview3_of_preview2 hparse denotes_lt

theorem version_pos (lit : Literal) : 0 < lit.version := by
  cases lit <;> exact succ_pos _

/-- A literal that Node takes for one is read right exactly where it stands without brackets
and its last groups come out right. -/
theorem read_iff (isIP : Text → Nat) (lit : Literal) (bracketed : Bool)
    (hip : isIP lit.text = lit.version) :
    Read isIP lit bracketed ↔ bracketed = false ∧ lit.ReadRight := by
  constructor
  · intro hread
    refine ⟨?_, (parse_iff lit).1 hread.preview2⟩
    cases bracketed with
    | false => rfl
    | true =>
      have hresolved := hread.resolved
      have htest : (('[' :: (lit.text ++ [']'])).head? == some '[' &&
          ('[' :: (lit.text ++ [']'])).getLast? == some ']') = true := by
        simp [List.getLast?_cons]
      rw [nameOf, if_pos rfl, Preview2.socketResolveAddress] at hresolved
      simp only [htest, if_true, tail_cons, dropLast_concat, hip,
        if_pos (version_pos lit)] at hresolved
      have hvalue := (Prod.mk.inj (Option.some.inj hresolved)).2
      have hbracket := parse_bracket (lit.text ++ [']']) lit.denotes
      -- the bracket is parsed as a part of the first segment
      by_cases hfour : lit.version = 4
      · rw [if_pos hfour] at hvalue
        exact absurd hvalue hbracket.2
      · rw [if_neg hfour] at hvalue
        exact absurd hvalue hbracket.1
  · rintro ⟨rfl, hread⟩
    have hparse := (parse_iff lit).2 hread
    refine ⟨hparse, parse_preview3 hread, ?_⟩
    have hhead : (lit.text.head? == some '[') = false := beq_false_of_ne (head_text lit)
    rw [nameOf, if_neg Bool.false_ne_true, Preview2.socketResolveAddress]
    simp only [hhead, Bool.false_and, Bool.false_eq_true, if_false, hip,
      if_pos (version_pos lit), hparse]

/-- The group that a number is written as. -/
def Group.ofNat (n : Nat) (h : n < 2 ^ 16) : Group where
  digits := Nat.toDigits 16 n
  nonempty := Nat.toDigits_ne_nil
  short := (Nat.length_toDigits_le_iff (by decide) (by decide)).2 h
  hex := (toDigits_spells (by decide) (by decide) n).1

theorem parse_serialize_ipv6 {t : Text} {ns : List Nat} (ht : tupleToIPv6 ns = some t)
    (hns : ∀ n ∈ ns, n < 2 ^ 16) :
    Preview2.ipv6ToTuple t = .ok (numbers ns) ∧ Preview3.ipv6ToTuple t = .ok (numbers ns) := by
  unfold tupleToIPv6 at ht
  by_cases hlength : ns.length = 8
  · rw [if_pos hlength] at ht
    cases ht
    have hcount : (ns.pmap Group.ofNat hns).length + 2 * (none : Option Octets).toList.length =
        8 := by
      rw [length_pmap, hlength]
      rfl
    let lit : Literal := .full (ns.pmap Group.ofNat hns) none none hcount
    have hparse : Preview2.ipv6ToTuple lit.text = .ok (numbers lit.denotes) :=
      (parse_iff lit).2 ⟨by simp [hlength, zoneRead, zoneRest], trivial⟩
    have htext : (ns.pmap Group.ofNat hns).map Group.digits = ns.map (Nat.toDigits 16) := by
      rw [map_pmap]
      exact pmap_eq_map _
    have hvalues : (ns.pmap Group.ofNat hns).map Group.value = ns := by
      refine ext_getElem (by simp) fun i _ _ => ?_
      rw [getElem_map, getElem_pmap]
      exact (toDigits_spells (by decide) (by decide) _).2
    have htuple : Preview2.ipv6ToTuple ([':'].intercalate (ns.map (Nat.toDigits 16))) =
        .ok (numbers ns) := by
      simpa [lit, Literal.text, Literal.denotes, pieces, zoneText, values, htext, hvalues]
        using hparse
    exact ⟨htuple, preview3_of_preview2 htuple hns⟩
  · rw [if_neg hlength] at ht
    cases ht

theorem parse_serialize_ipv4 {t : Text} {ns : List Nat} (ht : tupleToIpv4 ns = some t)
    (hns : ∀ n ∈ ns, n < 256) :
    Preview2.ipv4ToTuple t = .ok (numbers ns) ∧ Preview3.ipv4ToTuple t = .ok (numbers ns) := by
  unfold tupleToIpv4 at ht
  by_cases hlength : ns.length = 4
  · rw [if_pos hlength] at ht
    cases ht
    match ns, hlength with
    | [a, b, c, d], _ =>
      exact parse_ipv4 ⟨⟨a, hns a (by simp)⟩, ⟨b, hns b (by simp)⟩, ⟨c, hns c (by simp)⟩,
        ⟨d, hns d (by simp)⟩⟩
  · rw [if_neg hlength] at ht
    cases ht

/-- What both shims write for a tuple they read back as the tuple, and a literal is read right
exactly where it stands without brackets and its last groups come out right. -/
theorem codec_iff (isIP : Text → Nat) (lit : Literal) (bracketed : Bool)
    (hip : isIP lit.text = lit.version) :
    (∀ ns t, tupleToIPv6 ns = some t → (∀ n ∈ ns, n < 2 ^ 16) →
        Preview2.ipv6ToTuple t = .ok (numbers ns) ∧ Preview3.ipv6ToTuple t = .ok (numbers ns)) ∧
      (∀ ns t, tupleToIpv4 ns = some t → (∀ n ∈ ns, n < 256) →
        Preview2.ipv4ToTuple t = .ok (numbers ns) ∧ Preview3.ipv4ToTuple t = .ok (numbers ns)) ∧
      (Read isIP lit bracketed ↔ bracketed = false ∧ lit.ReadRight) := by
  refine ⟨?_, ?_, read_iff isIP lit bracketed hip⟩
  · intro ns t ht hns
    exact parse_serialize_ipv6 ht hns
  · intro ns t ht hns
    exact parse_serialize_ipv4 ht hns

/-- The literal fe80::1%eth0. -/
def linkLocal : Literal :=
  .compressed [Group.ofNat 0xfe80 (by decide)] [Group.ofNat 1 (by decide)] none
    (some "eth0".toList) (by decide)

theorem codec_linkLocal : linkLocal.text = "fe80::1%eth0".toList ∧
    Read (fun _ => 6) linkLocal false := by
  have hcodec := codec_iff (fun _ => 6) linkLocal false rfl
  have hread : linkLocal.ReadRight := ⟨by decide, .inr (cons_ne_nil _ _), trivial⟩
  exact ⟨by decide, hcodec.2.2.2 ⟨rfl, hread⟩⟩

/-- The literal ::1. -/
def loopback : Literal := .compressed [] [Group.ofNat 1 (by decide)] none none (by decide)

/-- In brackets it is not read. -/
theorem loopback_bracketed : ¬ Read (fun _ => 6) loopback true := by
  intro hread
  have hvalue := (Prod.mk.inj (Option.some.inj hread.resolved)).2
  exact absurd hvalue (by decide)

end Literals

end Jco.Sockets.IpText

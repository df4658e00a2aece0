import Mathlib
import Jco.Bindgen.Names
import Jco.Lib.Base64

/-! # Core modules among the files

`transpile` puts each core module into a file of its own. `finish_component` takes out those
that are small enough to be inlined, and renames the others so that their numbers have no
gaps.

1. `Files`, the names, and the loop that writes the compilation of each module.
2. The gaps are always the numbers between the modules that were kept and the next one.
-/

namespace Jco.Bindgen

open Jco.Lib Function UInt32 List

namespace CoreFiles

abbrev Bytes := List UInt8

/-! ## `Files` -/

/-- `Files` -/
abbrev Files := Text → Option Bytes

namespace Files

def push (files : Files) (name : Text) (contents : Bytes) : Files :=
  Function.update files name (some ((files name).getD [] ++ contents))

def getSize (files : Files) (name : Text) : Option Nat := (files name).map List.length

/-- The contents that are removed, and the files that are left. -/
def remove (files : Files) (name : Text) : Option Bytes × Files :=
  (files name, Function.update files name none)

end Files

/-- `core_file_name` -/
def coreFileName (name : Text) (idx : UInt32) : Text :=
  let iStr := if idx = 0 then [] else Nat.toDigits 10 (idx + 1).toNat
  name ++ ".core".toList ++ iStr ++ ".wasm".toList

/-! ## `finish_component` -/

inductive InstantiationMode where
  | async | sync
deriving DecidableEq, Repr

structure Opts where
  instantiationMode : Option InstantiationMode
  base64Cutoff : Nat
deriving DecidableEq, Repr

/-- What a local `module{i}` is set to. -/
inductive Compile where
  | getCoreModule (nameIdx : Text)
  | base64Compile (data : List Char)
  | fetchCompile (nameIdx : Text)
deriving DecidableEq, Repr

structure State where
  files : Files
  removed : Finset Nat
  compilationPromises : List (Text × Compile)

def localName (i : Nat) : Text := "module".toList ++ Nat.toDigits 10 i

/-- One pass of the loop over the core modules. `none` is a panic. -/
def setupModule (opts : Opts) (name : Text) (s : State) (i : Nat) : Option State :=
  let nameIdx := coreFileName name (UInt32.ofNat i)
  let write (c : Compile) := s.compilationPromises ++ [(localName i, c)]
  if opts.instantiationMode.isSome then
    some { s with compilationPromises := write (.getCoreModule nameIdx) }
  else do
    let size ← s.files.getSize nameIdx
    if size < opts.base64Cutoff then
      if i ∈ s.removed then none
      else
        let (data, files) := s.files.remove nameIdx
        let data ← data
        some ⟨files, insert i s.removed, write (.base64Compile (Base64.encode data))⟩
    else if h : s.removed.Nonempty then
      -- the file goes into the first gap, and leaves one at its own number
      let replacement := s.removed.min' h
      let removed := s.removed.erase replacement
      if i ∈ removed then none
      else
        let (data, files) := s.files.remove nameIdx
        let data ← data
        let nameIdx := coreFileName name (UInt32.ofNat replacement)
        some ⟨files.push nameIdx data, insert i removed, write (.fetchCompile nameIdx)⟩
    else some { s with compilationPromises := write (.fetchCompile nameIdx) }

/-- The contents of the core modules. Their index type has less than `2 ^ 32` values. -/
structure CoreModules where
  list : List Bytes
  bound : list.length < 2 ^ 32

/-- `finish_component`. The text of the module is written around the compilations. -/
def finishComponent (opts : Opts) (name : Text) (coreModuleCnt : Nat) (files : Files)
    (render : List (Text × Compile) → Bytes) : Option (List (Text × Compile) × Files) := do
  let s ← (List.range coreModuleCnt).foldlM (setupModule opts name) ⟨files, ∅, []⟩
  return (s.compilationPromises, s.files.push (name ++ ".js".toList) (render s.compilationPromises))

/-! ## `transpile` -/

/-- A text that is pushed to a file of declarations. -/
structure Declarations where
  stem : Text
  contents : Bytes

/-- The core modules, each under its number. -/
def pushModules (name : Text) (modules : List Bytes) (files : Files) : Files :=
  (modules.zipIdx).foldl (fun files m => files.push (coreFileName name (UInt32.ofNat m.2)) m.1)
    files

/-- `ts_bindgen` -/
def pushDeclarations (ts : List Declarations) (files : Files) : Files :=
  ts.foldl (fun files d => files.push (d.stem ++ ".d.ts".toList) d.contents) files

def transpile (opts : Opts) (name : Text) (modules : CoreModules) (ts : List Declarations)
    (render : List (Text × Compile) → Bytes) : Option (List (Text × Compile) × Files) :=
  finishComponent opts name modules.list.length
    (pushDeclarations ts (pushModules name modules.list fun _ => none)) render

/-! ## What is expected -/

/-- The module is in the text that is written. -/
def Compile.isInlined : Compile → Bool
  | .base64Compile _ => true
  | _ => false

/-- The bytes that a local module is compiled from, with the files at hand. -/
def Compile.bytes (files : Files) : Compile → Option Bytes
  | .base64Compile data => Base64.decode data
  | .getCoreModule nameIdx | .fetchCompile nameIdx => files nameIdx

/-- The modules that are not inlined, in their order. -/
def notInlined (promises : List (Text × Compile)) (modules : List Bytes) : List Bytes :=
  ((promises.zip modules).filter fun p => !p.1.2.isInlined).map Prod.snd

/-! ## Names -/

theorem toDigits_injective : Function.Injective (Nat.toDigits 10) := by
  intro i j h
  apply suffixed_injective []
  unfold suffixed
  rw [h]

theorem toNat_ofNat_add_one {i : Nat} (hi : i + 1 < 2 ^ 32) :
    (UInt32.ofNat i + 1).toNat = i + 1 := by
  rw [UInt32.toNat_add, UInt32.toNat_ofNat', UInt32.toNat_one]
  omega

theorem ofNat_eq_zero {i : Nat} (hi : i + 1 < 2 ^ 32) : UInt32.ofNat i = 0 ↔ i = 0 := by
  rw [← UInt32.toNat_inj, UInt32.toNat_ofNat', UInt32.toNat_zero]
  omega

theorem coreFileName_inj (name : Text) {i j : Nat} (hi : i + 1 < 2 ^ 32) (hj : j + 1 < 2 ^ 32)
    (h : coreFileName name (ofNat i) = coreFileName name (ofNat j)) : i = j := by
  unfold coreFileName at h
  simp only [ofNat_eq_zero hi, ofNat_eq_zero hj, toNat_ofNat_add_one hi,
    toNat_ofNat_add_one hj] at h
  have hnum := append_cancel_left (append_cancel_right h)
  -- the first file has no number, and every number has a digit
  by_cases hi0 : i = 0 <;> by_cases hj0 : j = 0
  · rw [hi0, hj0]
  · rw [if_pos hi0, if_neg hj0] at hnum
    exact (Nat.toDigits_ne_nil hnum.symm).elim
  · rw [if_neg hi0, if_pos hj0] at hnum
    exact (Nat.toDigits_ne_nil hnum).elim
  · rw [if_neg hi0, if_neg hj0] at hnum
    have hsucc := toDigits_injective hnum
    omega

theorem coreFileName_ne (name stem suffix : Text) (idx : UInt32)
    (h : suffix.getLast? = some 's') : coreFileName name idx ≠ stem ++ suffix := by
  intro heq
  have hcore : (coreFileName name idx).getLast? = some 'm' := by
    unfold coreFileName
    rw [List.getLast?_append]
    rfl
  have hother : (stem ++ suffix).getLast? = some 's' := by
    rw [List.getLast?_append, h]
    rfl
  rw [heq, hother] at hcore
  cases hcore

/-! ## The files before the loop -/

section

variable (name : Text) (files : Files)

theorem push_self (f : Text) (data : Bytes) (h : files f = none) :
    files.push f data f = some data := by
  unfold Files.push
  rw [update_self, h]
  rfl

theorem push_of_ne {f g : Text} (data : Bytes) (h : g ≠ f) : files.push f data g = files g :=
  update_of_ne h _ _

/-- A core file with a number of those that are given out. -/
def IsCore (name : Text) (n : Nat) (f : Text) : Prop :=
  ∃ j < n, f = coreFileName name (UInt32.ofNat j)

/-- Each core module is in the file of its number. -/
theorem pushModules_spec (modules : List Bytes) (hbound : modules.length < 2 ^ 32) :
    (∀ j < modules.length,
      pushModules name modules (fun _ => none) (coreFileName name (ofNat j)) =
        modules[j]?) ∧
    ∀ f, ¬ IsCore name modules.length f → pushModules name modules (fun _ => none) f = none := by
  induction modules using List.reverseRecOn with
  | nil => exact ⟨fun j hj => (Nat.not_lt_zero j hj).elim, fun _ _ => rfl⟩
  | append_singleton ms m ih =>
    rw [length_append, length_singleton] at hbound
    rcases ih (by omega) with ⟨hcore, hother⟩
    have hpush : pushModules name (ms ++ [m]) (fun _ => none) =
        (pushModules name ms fun _ => none).push (coreFileName name (ofNat ms.length)) m := by
      unfold pushModules
      rw [zipIdx_append, foldl_append, Nat.zero_add]
      rfl
    -- the number of the last module is not in use
    have hfree : ¬ IsCore name ms.length (coreFileName name (ofNat ms.length)) := by
      rintro ⟨j, hj, heq⟩
      have := coreFileName_inj name (by omega) (by omega) heq
      omega
    rw [hpush, length_append, length_singleton]
    constructor
    · intro j hj
      by_cases hlast : j = ms.length
      · rw [hlast, push_self _ _ _ (hother _ hfree), List.getElem?_concat_length]
      · have hne : coreFileName name (ofNat j) ≠
            coreFileName name (ofNat ms.length) := fun heq =>
          hlast (coreFileName_inj name (by omega) (by omega) heq)
        rw [push_of_ne _ _ hne, hcore j (by omega), List.getElem?_append_left (by omega)]
    · intro f hf
      have hne : f ≠ coreFileName name (ofNat ms.length) := fun heq =>
        hf ⟨ms.length, by omega, heq⟩
      rw [push_of_ne _ _ hne]
      exact hother f fun ⟨j, hj, heq⟩ => hf ⟨j, by omega, heq⟩

/-- Declarations are pushed to other files. -/
theorem pushDeclarations_of_ne (ts : List Declarations) {f : Text}
    (h : ∀ stem : Text, f ≠ stem ++ ".d.ts".toList) : pushDeclarations ts files f = files f := by
  unfold pushDeclarations
  induction ts generalizing files with
  | nil => rfl
  | cons d ts ih =>
    rw [foldl_cons, ih, push_of_ne _ _ (h d.stem)]

/-- What is in a file then depends on what was in that file only. -/
theorem pushDeclarations_congr (ts : List Declarations) {files files' : Files} {f : Text}
    (h : files f = files' f) : pushDeclarations ts files f = pushDeclarations ts files' f := by
  induction ts generalizing files files' with
  | nil => exact h
  | cons d ts ih =>
    apply ih
    change files.push (d.stem ++ ".d.ts".toList) d.contents f =
      files'.push (d.stem ++ ".d.ts".toList) d.contents f
    by_cases hf : f = d.stem ++ ".d.ts".toList
    · unfold Files.push
      rw [← hf, update_self, update_self, h]
    · rw [push_of_ne _ _ hf, push_of_ne _ _ hf, h]

theorem js_ne (name stem : Text) : name ++ ".js".toList ≠ stem ++ ".d.ts".toList := by
  intro heq
  have hrev := congrArg List.reverse heq
  rw [reverse_append, reverse_append] at hrev
  have htail := (List.cons.inj hrev).2
  exact absurd (List.cons.inj htail).1 (by decide)

theorem not_isCore_js (name : Text) (n : Nat) : ¬ IsCore name n (name ++ ".js".toList) := by
  rintro ⟨j, -, heq⟩
  exact coreFileName_ne name name _ _ rfl heq.symm

end

/-! ## The modules that are kept -/

theorem zip_append_singleton {α β : Type*} {as : List α} {bs : List β} {b : β}
    (h : bs[as.length]? = some b) (a : α) : (as ++ [a]).zip bs = as.zip bs ++ [(a, b)] := by
  induction as generalizing bs with
  | nil =>
    cases bs with
    | nil => cases h
    | cons b' bs =>
      cases Option.some.inj h
      rfl
  | cons a' as ih =>
    cases bs with
    | nil => cases h
    | cons b' bs => exact congrArg ((a', b') :: ·) (ih h)

theorem notInlined_append {ps : List (Text × Compile)} {ms : List Bytes} {m : Bytes}
    (h : ms[ps.length]? = some m) (p : Text × Compile) :
    notInlined (ps ++ [p]) ms = notInlined ps ms ++ if p.2.isInlined then [] else [m] := by
  unfold notInlined
  rw [zip_append_singleton h, filter_append, map_append]
  cases hp : p.2.isInlined <;> simp [hp]

theorem length_notInlined_le (ps : List (Text × Compile)) (ms : List Bytes) :
    (notInlined ps ms).length ≤ ps.length := by
  unfold notInlined
  rw [length_map]
  exact (length_filter_le _ _).trans (by rw [length_zip]; exact min_le_left _ _)

/-! ## The loop -/

section

variable {opts : Opts} {name : Text} {ms : List Bytes} {before : Files} {i : Nat} {s s' : State}
  {c : Compile} {m : Bytes}

/-- The compilation has the bytes itself, or the name of a file that has them for good. -/
def Compile.Right (name : Text) (kept : List Bytes) (m : Option Bytes) : Compile → Prop
  | .base64Compile data => Base64.decode data = m
  | .getCoreModule f | .fetchCompile f =>
    ∃ j < kept.length, f = coreFileName name (UInt32.ofNat j) ∧ kept[j]? = m

theorem Compile.Right.append {kept : List Bytes} {m : Option Bytes}
    (h : c.Right name kept m) (more : List Bytes) : c.Right name (kept ++ more) m := by
  have hfile (f : Text)
      (h : ∃ j < kept.length, f = coreFileName name (ofNat j) ∧ kept[j]? = m) :
      ∃ j < (kept ++ more).length,
        f = coreFileName name (ofNat j) ∧ (kept ++ more)[j]? = m := by
    rcases h with ⟨j, hj, hf, hm⟩
    refine ⟨j, ?_, hf, ?_⟩
    · rw [length_append]
      omega
    · rw [List.getElem?_append_left hj]
      exact hm
  cases c with
  | base64Compile data => exact h
  | getCoreModule f => exact hfile f h
  | fetchCompile f => exact hfile f h

/-- Before the pass for `i`: the first files are the modules kept, the gaps go from there to
`i`, and the others are where they were. -/
structure Inv (opts : Opts) (name : Text) (ms : List Bytes) (before : Files) (i : Nat)
    (s : State) : Prop where
  written : s.compilationPromises.length = i
  removed : s.removed = Finset.Ico (notInlined s.compilationPromises ms).length i
  all : opts.instantiationMode.isSome → (notInlined s.compilationPromises ms).length = i
  right : ∀ x < i, ∃ c, s.compilationPromises[x]? = some (localName x, c) ∧
    c.Right name (notInlined s.compilationPromises ms) ms[x]?
  kept : ∀ j < (notInlined s.compilationPromises ms).length,
    s.files (coreFileName name (UInt32.ofNat j)) = (notInlined s.compilationPromises ms)[j]?
  gaps : ∀ j < i, (notInlined s.compilationPromises ms).length ≤ j →
    s.files (coreFileName name (UInt32.ofNat j)) = none
  later : ∀ j < ms.length, i ≤ j → s.files (coreFileName name (UInt32.ofNat j)) = ms[j]?
  other : ∀ f, ¬ IsCore name ms.length f → s.files f = before f

/-- A compilation is written, and the files are as the invariant says of the modules that
are kept then. -/
theorem Inv.write (h : Inv opts name ms before i s) (hm : ms[i]? = some m) (kept : List Bytes)
    (hnew : kept = notInlined s.compilationPromises ms ++ if c.isInlined then [] else [m])
    (hwrite : s'.compilationPromises = s.compilationPromises ++ [(localName i, c)])
    (hright : c.Right name kept (some m)) (hremoved : s'.removed = Finset.Ico kept.length (i + 1))
    (hall : opts.instantiationMode.isSome → kept.length = i + 1)
    (hkept : ∀ j < kept.length, s'.files (coreFileName name (ofNat j)) = kept[j]?)
    (hgaps : ∀ j < i + 1, kept.length ≤ j →
      s'.files (coreFileName name (ofNat j)) = none)
    (hlater : ∀ j < ms.length, i + 1 ≤ j →
      s'.files (coreFileName name (ofNat j)) = ms[j]?)
    (hother : ∀ f, ¬ IsCore name ms.length f → s'.files f = s.files f) :
    Inv opts name ms before (i + 1) s' := by
  have hlast : ms[s.compilationPromises.length]? = some m := by
    rw [h.written]
    exact hm
  have hsame : notInlined s'.compilationPromises ms = kept := by
    rw [hwrite, notInlined_append hlast, hnew]
  refine ⟨?_, ?_, ?_, ?_, ?_, ?_, hlater, ?_⟩
  · rw [hwrite, length_append, h.written, length_singleton]
  · rw [hsame]
    exact hremoved
  · rw [hsame]
    exact hall
  · intro x hx
    rw [hsame, hwrite]
    by_cases hi : x = i
    · refine ⟨c, ?_, ?_⟩
      · rw [hi, ← h.written, List.getElem?_concat_length]
      · rw [hi, hm]
        exact hright
    · -- an earlier compilation keeps its file
      rcases h.right x (by omega) with ⟨d, hd, hr⟩
      refine ⟨d, ?_, ?_⟩
      · rw [List.getElem?_append_left (by rw [h.written]; omega)]
        exact hd
      · rw [hnew]
        exact hr.append _
  · rw [hsame]
    exact hkept
  · rw [hsame]
    exact hgaps
  · intro f hf
    rw [hother f hf, h.other f hf]

theorem Inv.le (h : Inv opts name ms before i s) :
    (notInlined s.compilationPromises ms).length ≤ i := by
  have hle := length_notInlined_le s.compilationPromises ms
  rw [h.written] at hle
  exact hle

theorem Inv.file (h : Inv opts name ms before i s) (hm : ms[i]? = some m) :
    s.files (coreFileName name (ofNat i)) = some m := by
  rw [h.later i (List.getElem?_eq_some_iff.1 hm).1 le_rfl, hm]

/-- No module was inlined, and the file of the next one stays where it is. -/
theorem Inv.keep (h : Inv opts name ms before i s) (hm : ms[i]? = some m)
    (hlength : (notInlined s.compilationPromises ms).length = i)
    (hc : c = .getCoreModule (coreFileName name (ofNat i)) ∨
      c = .fetchCompile (coreFileName name (ofNat i))) :
    Inv opts name ms before (i + 1)
      { s with compilationPromises := s.compilationPromises ++ [(localName i, c)] } := by
  have hinlined : c.isInlined = false := by
    rcases hc with rfl | rfl <;> rfl
  have hlast : (notInlined s.compilationPromises ms ++ [m])[i]? = some m := by
    rw [← hlength, List.getElem?_concat_length]
  have hcount : (notInlined s.compilationPromises ms ++ [m]).length = i + 1 := by
    rw [length_append, hlength, length_singleton]
  refine h.write hm (notInlined s.compilationPromises ms ++ [m]) ?_ rfl ?_ ?_ (fun _ => hcount)
    ?_ ?_ (fun j hj hij => h.later j hj (by omega)) (fun _ _ => rfl)
  · rw [hinlined]
    rfl
  · rcases hc with rfl | rfl <;> exact ⟨i, by omega, rfl, hlast⟩
  · rw [hcount, Finset.Ico_self, h.removed, hlength, Finset.Ico_self]
  · intro j hj
    by_cases hji : j = i
    · rw [hji, hlast]
      exact h.file hm
    · rw [List.getElem?_append_left (by omega)]
      exact h.kept j (by omega)
  · intro j hj hle
    omega

/-- The module is inlined, and its number is the last of the gaps. -/
theorem Inv.inline (hbound : ms.length < 2 ^ 32) (h : Inv opts name ms before i s)
    (hm : ms[i]? = some m) (hmode : opts.instantiationMode.isSome = false) :
    Inv opts name ms before (i + 1)
      ⟨(s.files.remove (coreFileName name (ofNat i))).2, insert i s.removed,
        s.compilationPromises ++ [(localName i, .base64Compile (Base64.encode m))]⟩ := by
  have hi := (List.getElem?_eq_some_iff.1 hm).1
  have hle := h.le
  have hne (j : Nat) (hj : j < ms.length) (hji : j ≠ i) :
      coreFileName name (ofNat j) ≠ coreFileName name (ofNat i) := fun heq =>
    hji (coreFileName_inj name (by omega) (by omega) heq)
  refine h.write hm (notInlined s.compilationPromises ms) (append_nil _).symm rfl ?_ ?_ ?_
    ?_ ?_ ?_ ?_
  · exact Base64.decode_encode m
  · change insert i s.removed = _
    rw [h.removed]
    ext j
    simp only [Finset.mem_insert, Finset.mem_Ico]
    omega
  · intro hsome
    rw [hmode] at hsome
    cases hsome
  · intro j hj
    refine Eq.trans (update_of_ne (hne j (by omega) (by omega)) _ _) ?_
    exact h.kept j hj
  · intro j hj hkept
    by_cases hji : j = i
    · rw [hji]
      exact update_self _ _ _
    · refine Eq.trans (update_of_ne (hne j (by omega) hji) _ _) ?_
      exact h.gaps j (by omega) hkept
  · intro j hj hij
    refine Eq.trans (update_of_ne (hne j hj (by omega)) _ _) ?_
    exact h.later j hj (by omega)
  · intro f hf
    exact update_of_ne (fun heq => hf ⟨i, hi, heq⟩) _ _

/-- The file goes into the first gap, and its number is the last of the gaps then. -/
theorem Inv.rename (hbound : ms.length < 2 ^ 32) (h : Inv opts name ms before i s)
    (hm : ms[i]? = some m) (hmode : opts.instantiationMode.isSome = false)
    (hgap : (notInlined s.compilationPromises ms).length < i) {k : Nat}
    (hk : k = (notInlined s.compilationPromises ms).length) :
    Inv opts name ms before (i + 1)
      ⟨(s.files.remove (coreFileName name (ofNat i))).2.push
          (coreFileName name (ofNat k)) m,
        insert i (s.removed.erase k), s.compilationPromises ++
          [(localName i, .fetchCompile (coreFileName name (ofNat k)))]⟩ := by
  have hi := (List.getElem?_eq_some_iff.1 hm).1
  have hne (j x : Nat) (hj : j < ms.length) (hx : x < ms.length) (hjx : j ≠ x) :
      coreFileName name (ofNat j) ≠ coreFileName name (ofNat x) := fun heq =>
    hjx (coreFileName_inj name (by omega) (by omega) heq)
  have hcount : (notInlined s.compilationPromises ms ++ [m]).length = k + 1 := by
    rw [length_append, hk, length_singleton]
  have hlast : (notInlined s.compilationPromises ms ++ [m])[k]? = some m := by
    rw [hk, List.getElem?_concat_length]
  -- the gap holds no file, so that nothing is appended to
  have hfree : (s.files.remove (coreFileName name (ofNat i))).2
      (coreFileName name (ofNat k)) = none := by
    refine Eq.trans (update_of_ne (hne k i (by omega) hi (by omega)) _ _) ?_
    exact h.gaps k (by omega) (by omega)
  -- the files but those of `i` and of the gap stay
  have hsame (f : Text) (hfi : f ≠ coreFileName name (ofNat i))
      (hfk : f ≠ coreFileName name (ofNat k)) :
      (s.files.remove (coreFileName name (ofNat i))).2.push
        (coreFileName name (ofNat k)) m f = s.files f := by
    rw [push_of_ne _ _ hfk]
    exact update_of_ne hfi _ _
  refine h.write hm (notInlined s.compilationPromises ms ++ [m]) rfl rfl ?_ ?_ ?_ ?_ ?_ ?_ ?_
  · exact ⟨k, by omega, rfl, hlast⟩
  · change insert i (s.removed.erase k) = _
    rw [h.removed, hcount]
    ext j
    simp only [Finset.mem_insert, Finset.mem_erase, Finset.mem_Ico]
    omega
  · intro hsome
    rw [hmode] at hsome
    cases hsome
  · intro j hj
    by_cases hjk : j = k
    · rw [hjk, hlast]
      exact push_self _ _ _ hfree
    · rw [List.getElem?_append_left (by omega)]
      refine Eq.trans (hsame _ (hne j i (by omega) hi (by omega)) (hne j k ?_ ?_ hjk)) ?_
      · omega
      · omega
      · exact h.kept j (by omega)
  · intro j hj hkept
    by_cases hji : j = i
    · rw [hji]
      refine Eq.trans (push_of_ne _ _ (hne i k hi (by omega) (by omega))) ?_
      exact update_self _ _ _
    · refine Eq.trans (hsame _ (hne j i (by omega) hi hji) (hne j k ?_ ?_ ?_)) ?_
      · omega
      · omega
      · omega
      · exact h.gaps j (by omega) (by omega)
  · intro j hj hij
    refine Eq.trans (hsame _ (hne j i hj hi (by omega)) (hne j k hj ?_ ?_)) ?_
    · omega
    · omega
    · exact h.later j hj (by omega)
  · intro f hf
    exact hsame f (fun heq => hf ⟨i, hi, heq⟩) fun heq => hf ⟨k, by omega, heq⟩

theorem Inv.min' (h : Inv opts name ms before i s) (hgap : s.removed.Nonempty) :
    s.removed.min' hgap = (notInlined s.compilationPromises ms).length := by
  have hmem : ∀ j ∈ s.removed, (notInlined s.compilationPromises ms).length ≤ j ∧ j < i := by
    intro j hj
    rw [h.removed, Finset.mem_Ico] at hj
    exact hj
  have hfirst := hmem _ (s.removed.min'_mem hgap)
  refine le_antisymm (Finset.min'_le _ _ ?_) hfirst.1
  rw [h.removed, Finset.mem_Ico]
  omega

/-- No pass panics. -/
theorem Inv.next (hbound : ms.length < 2 ^ 32) (h : Inv opts name ms before i s)
    (hi : i < ms.length) :
    ∃ s', setupModule opts name s i = some s' ∧ Inv opts name ms before (i + 1) s' := by
  have hm : ms[i]? = some ms[i] := List.getElem?_eq_getElem hi
  have hfile := h.file hm
  have hsize : s.files.getSize (coreFileName name (ofNat i)) = some ms[i].length := by
    unfold Files.getSize
    rw [hfile]
    rfl
  unfold setupModule
  dsimp only
  by_cases hmode : opts.instantiationMode.isSome
  · rw [if_pos hmode]
    exact ⟨_, rfl, h.keep hm (h.all hmode) (.inl rfl)⟩
  · have hnone := Bool.eq_false_of_not_eq_true hmode
    rw [if_neg hmode, hsize]
    simp only [Option.bind_eq_bind, Option.bind_some]
    by_cases hcutoff : ms[i].length < opts.base64Cutoff
    · have hnot : i ∉ s.removed := by
        rw [h.removed, Finset.mem_Ico]
        omega
      rw [if_pos hcutoff, if_neg hnot]
      change ∃ s', ((s.files _).bind _) = some s' ∧ _
      rw [hfile]
      exact ⟨_, rfl, h.inline hbound hm hnone⟩
    · rw [if_neg hcutoff]
      have hle := h.le
      -- a module before this one was inlined, so the file takes its number
      by_cases hgap : s.removed.Nonempty
      · have hlt : (notInlined s.compilationPromises ms).length < i := by
          rcases hgap with ⟨j, hj⟩
          rw [h.removed, Finset.mem_Ico] at hj
          omega
        have hfirst := h.min' hgap
        have hnot : i ∉ s.removed.erase (s.removed.min' hgap) := by
          intro hmem
          have hi' := Finset.mem_of_mem_erase hmem
          rw [h.removed, Finset.mem_Ico] at hi'
          omega
        rw [dif_pos hgap, if_neg hnot]
        change ∃ s', ((s.files _).bind _) = some s' ∧ _
        rw [hfile]
        exact ⟨_, rfl, h.rename hbound hm hnone hlt hfirst⟩
      · have hnone : (notInlined s.compilationPromises ms).length = i := by
          by_contra hne
          refine hgap ⟨i - 1, ?_⟩
          rw [h.removed, Finset.mem_Ico]
          omega
        rw [dif_neg hgap]
        exact ⟨_, rfl, h.keep hm hnone (.inr rfl)⟩

theorem Inv.init
    (hcore : ∀ j < ms.length, before (coreFileName name (ofNat j)) = ms[j]?) :
    Inv opts name ms before 0 ⟨before, ∅, []⟩ where
  written := rfl
  removed := rfl
  all _ := rfl
  right x hx := (Nat.not_lt_zero x hx).elim
  kept j hj := (Nat.not_lt_zero j hj).elim
  gaps j hj := (Nat.not_lt_zero j hj).elim
  later j hj _ := hcore j hj
  other _ _ := rfl

/-- The loop goes through. -/
theorem Inv.run (opts : Opts) (hbound : ms.length < 2 ^ 32)
    (hcore : ∀ j < ms.length, before (coreFileName name (ofNat j)) = ms[j]?) :
    ∀ n ≤ ms.length, ∃ s, (List.range n).foldlM (setupModule opts name) ⟨before, ∅, []⟩ = some s ∧
      Inv opts name ms before n s := by
  intro n hn
  induction n with
  | zero => exact ⟨_, rfl, .init hcore⟩
  | succ n ih =>
    rcases ih (by omega) with ⟨s, hs, hinv⟩
    rcases hinv.next hbound (by omega) with ⟨s', hs', hinv'⟩
    refine ⟨s', ?_, hinv'⟩
    rw [range_succ, foldlM_append, hs]
    change (setupModule opts name s n).bind some = some s'
    rw [hs']
    rfl

/-- With the files at the end, a compilation has the bytes of its module. -/
theorem Compile.Right.bytes {kept : List Bytes} {m : Option Bytes} {files : Files}
    (h : c.Right name kept m)
    (hkept : ∀ j < kept.length, files (coreFileName name (ofNat j)) = kept[j]?) :
    c.bytes files = m := by
  have hfile (f : Text)
      (h : ∃ j < kept.length, f = coreFileName name (ofNat j) ∧ kept[j]? = m) :
      files f = m := by
    rcases h with ⟨j, hj, hf, hm⟩
    rw [hf, hkept j hj, hm]
  cases c with
  | base64Compile data => exact h
  | getCoreModule f => exact hfile f h
  | fetchCompile f => exact hfile f h

end

/-! ## The files of a component -/

/-- Each local module is compiled from the bytes of its core module, the core files are the
modules that are not inlined under the first numbers, and no other file has changed. -/
theorem transpile_consistent (opts : Opts) (name : Text) (modules : CoreModules)
    (ts : List Declarations) (render : List (Text × Compile) → Bytes) :
    ∃ promises files, transpile opts name modules ts render = some (promises, files) ∧
      promises.length = modules.list.length ∧
      (∀ i < modules.list.length, ∃ c,
        promises[i]? = some (localName i, c) ∧ c.bytes files = modules.list[i]?) ∧
      (∀ j < modules.list.length,
        files (coreFileName name (UInt32.ofNat j)) = (notInlined promises modules.list)[j]?) ∧
      files (name ++ ".js".toList) = some (render promises) ∧
      ∀ f, ¬ IsCore name modules.list.length f → f ≠ name ++ ".js".toList →
        files f = pushDeclarations ts (fun _ => none) f := by
  have hcore : ∀ j < modules.list.length,
      pushDeclarations ts (pushModules name modules.list fun _ => none)
        (coreFileName name (ofNat j)) = modules.list[j]? := by
    intro j hj
    rw [pushDeclarations_of_ne _ _ fun stem => coreFileName_ne name stem _ _ rfl]
    exact (pushModules_spec name _ modules.bound).1 j hj
  rcases Inv.run opts modules.bound hcore modules.list.length le_rfl with ⟨s, hs, h⟩
  have hfinal : ∀ j < (notInlined s.compilationPromises modules.list).length,
      s.files.push (name ++ ".js".toList) (render s.compilationPromises)
        (coreFileName name (ofNat j)) =
          (notInlined s.compilationPromises modules.list)[j]? := by
    intro j hj
    rw [push_of_ne _ _ (coreFileName_ne name name _ _ rfl)]
    exact h.kept j hj
  refine ⟨s.compilationPromises, s.files.push (name ++ ".js".toList)
    (render s.compilationPromises), ?_, h.written, ?_, ?_, ?_, ?_⟩
  · unfold transpile finishComponent
    rw [hs]
    rfl
  · intro i hi
    rcases h.right i hi with ⟨c, hc, hright⟩
    exact ⟨c, hc, hright.bytes hfinal⟩
  · intro j hj
    by_cases hkept : j < (notInlined s.compilationPromises modules.list).length
    · exact hfinal j hkept
    · rw [push_of_ne _ _ (coreFileName_ne name name _ _ rfl), h.gaps j hj (by omega),
        List.getElem?_eq_none (by omega)]
  · apply push_self
    rw [h.other _ (not_isCore_js name _), pushDeclarations_of_ne _ _ (js_ne name)]
    exact (pushModules_spec name _ modules.bound).2 _ (not_isCore_js name _)
  · intro f hf hjs
    rw [push_of_ne _ _ hjs, h.other f hf]
    exact pushDeclarations_congr ts ((pushModules_spec name _ modules.bound).2 f hf)

end CoreFiles

end Jco.Bindgen

import Mathlib
import Jco.Codec.Value

/-! # Types and their layout

The interface types, with the size and the alignment that the canonical ABI gives
them in a 32 bit memory: the `size32`, `align32` and `payload_offset32` that the
generated metas carry.
-/

namespace Jco.Codec

/-! ## Alignment -/

def IsAlign (a : Nat) : Prop := a = 1 ∨ a = 2 ∨ a = 4 ∨ a = 8

/-- `const rem = p % a; if (rem !== 0) { p += a - rem; }` -/
def alignTo (p a : Nat) : Nat := if p % a = 0 then p else p + (a - p % a)

section

variable {a b p s t : Nat}

theorem alignTo_of_mod (h : p % a = 0) : alignTo p a = p := if_pos h

theorem alignTo_mod (ha : IsAlign a) (p : Nat) : alignTo p a % a = 0 := by
  unfold alignTo
  rcases ha with rfl | rfl | rfl | rfl <;> split <;> omega

theorem le_alignTo (p a : Nat) : p ≤ alignTo p a := by
  unfold alignTo
  split <;> omega

theorem alignTo_le (ha : IsAlign a) (h : s ≤ t) (ht : t % a = 0) : alignTo s a ≤ t := by
  unfold alignTo
  rcases ha with rfl | rfl | rfl | rfl <;> split <;> omega

/-- From an aligned address on, padding is that of the offset. -/
theorem alignTo_add (hp : p % a = 0) (s : Nat) : alignTo (p + s) a = p + alignTo s a := by
  unfold alignTo
  rw [Nat.add_mod, hp, Nat.zero_add, Nat.mod_mod]
  split <;> omega

theorem mod_of_le (ha : IsAlign a) (hb : IsAlign b) (h : a ≤ b) (hp : p % b = 0) : p % a = 0 := by
  rcases ha with rfl | rfl | rfl | rfl <;> rcases hb with rfl | rfl | rfl | rfl <;> omega

theorem IsAlign.max (ha : IsAlign a) (hb : IsAlign b) : IsAlign (max a b) := by
  rcases Nat.le_total a b with h | h
  · rwa [Nat.max_eq_right h]
  · rwa [Nat.max_eq_left h]

end

/-! ## Layouts -/

/-- Size and alignment of a type; elements side by side stay aligned. -/
structure Layout where
  size : Nat
  align : Nat
  isAlign : IsAlign align
  size_mod : size % align = 0

namespace Layout

/-- A type whose size is its alignment. -/
def scalar (size : Nat) (h : IsAlign size) : Layout := ⟨size, size, h, Nat.mod_self size⟩

def byte : Layout := scalar 1 (.inl rfl)

def half : Layout := scalar 2 (.inr (.inl rfl))

def word : Layout := scalar 4 (.inr (.inr (.inl rfl)))

def double : Layout := scalar 8 (.inr (.inr (.inr rfl)))

/-- Pointer and length of what lies elsewhere. -/
def pair : Layout := ⟨8, 4, .inr (.inr (.inl rfl)), rfl⟩

def maxAlign (ls : List Layout) : Nat := ls.foldr (fun l a => max l.align a) 1

def maxSize (ls : List Layout) : Nat := ls.foldr (fun l s => max l.size s) 0

/-- The offset behind fields that are laid out from offset `s` on. -/
def extent : List Layout → Nat → Nat
  | [], s => s
  | l :: ls, s => extent ls (alignTo s l.align + l.size)

theorem isAlign_maxAlign (ls : List Layout) : IsAlign (maxAlign ls) := by
  induction ls with
  | nil => exact .inl rfl
  | cons l ls ih => exact l.isAlign.max ih

theorem align_le_maxAlign {l : Layout} {ls : List Layout} (h : l ∈ ls) :
    l.align ≤ maxAlign ls := by
  induction ls with
  | nil => cases h
  | cons l' ls ih =>
    rcases List.mem_cons.1 h with rfl | h
    · exact Nat.le_max_left _ _
    · exact (ih h).trans (Nat.le_max_right _ _)

theorem size_le_maxSize {l : Layout} {ls : List Layout} (h : l ∈ ls) : l.size ≤ maxSize ls := by
  induction ls with
  | nil => cases h
  | cons l' ls ih =>
    rcases List.mem_cons.1 h with rfl | h
    · exact Nat.le_max_left _ _
    · exact (ih h).trans (Nat.le_max_right _ _)

theorem le_extent (ls : List Layout) (s : Nat) : s ≤ extent ls s := by
  induction ls generalizing s with
  | nil => exact le_rfl
  | cons l ls ih =>
    have hpad := le_alignTo s l.align
    have hrest := ih (alignTo s l.align + l.size)
    rw [extent]
    omega

/-- Records and tuples. -/
def record (ls : List Layout) : Layout where
  size := alignTo (extent ls 0) (maxAlign ls)
  align := maxAlign ls
  isAlign := isAlign_maxAlign ls
  size_mod := alignTo_mod (isAlign_maxAlign ls) _

/-- `count` elements side by side. -/
def array (l : Layout) (count : Nat) : Layout where
  size := count * l.size
  align := l.align
  isAlign := l.isAlign
  size_mod := by rw [Nat.mul_mod, l.size_mod, Nat.mul_zero, Nat.zero_mod]

/-- A single byte up to eight flags, two up to sixteen, then words of 32. -/
def flags (count : Nat) : Layout :=
  if count = 0 then ⟨0, 1, .inl rfl, rfl⟩
  else if count ≤ 8 then byte
  else if count ≤ 16 then half
  else ⟨4 * ((count + 31) / 32), 4, .inr (.inr (.inl rfl)), Nat.mul_mod_right 4 _⟩

end Layout

/-- The bytes of a discriminant that tells `count` cases apart. -/
def discriminantSize (count : Nat) : Nat :=
  if count ≤ 256 then 1 else if count ≤ 65536 then 2 else 4

theorem isAlign_discriminantSize (count : Nat) : IsAlign (discriminantSize count) := by
  unfold discriminantSize IsAlign
  split
  · exact .inl rfl
  · split
    · exact .inr (.inl rfl)
    · exact .inr (.inr (.inl rfl))

/-- The layout of variants, with the offset that all payloads share. -/
structure VariantLayout extends Layout where
  discriminant : Nat
  payloadOffset : Nat
  discriminant_le : discriminant ≤ payloadOffset
  payloadOffset_le : payloadOffset ≤ size

namespace VariantLayout

/-- The layout of cases with payloads of the given layouts. -/
def ofCases (cases : List (Option Layout)) : VariantLayout where
  discriminant := discriminantSize cases.length
  payloadOffset := alignTo (discriminantSize cases.length) (Layout.maxAlign cases.reduceOption)
  size := alignTo (alignTo (discriminantSize cases.length) (Layout.maxAlign cases.reduceOption) +
    Layout.maxSize cases.reduceOption)
    (max (discriminantSize cases.length) (Layout.maxAlign cases.reduceOption))
  align := max (discriminantSize cases.length) (Layout.maxAlign cases.reduceOption)
  isAlign := (isAlign_discriminantSize _).max (Layout.isAlign_maxAlign _)
  size_mod := alignTo_mod ((isAlign_discriminantSize _).max (Layout.isAlign_maxAlign _)) _
  discriminant_le := le_alignTo _ _
  payloadOffset_le := (Nat.le_add_right _ _).trans (le_alignTo _ _)

variable {cases : List (Option Layout)} {l : Layout}

theorem discriminant_le_align (cases : List (Option Layout)) :
    (ofCases cases).discriminant ≤ (ofCases cases).align := Nat.le_max_left _ _

theorem align_le_of_mem (h : some l ∈ cases) : l.align ≤ (ofCases cases).align :=
  (Layout.align_le_maxAlign (List.reduceOption_mem_iff.2 h)).trans (Nat.le_max_right _ _)

theorem payloadOffset_mod (h : some l ∈ cases) : (ofCases cases).payloadOffset % l.align = 0 :=
  mod_of_le l.isAlign (Layout.isAlign_maxAlign _)
    (Layout.align_le_maxAlign (List.reduceOption_mem_iff.2 h))
    (alignTo_mod (Layout.isAlign_maxAlign _) _)

theorem payload_aligned {p : Nat} (h : some l ∈ cases) (hp : p % (ofCases cases).align = 0) :
    (p + (ofCases cases).payloadOffset) % l.align = 0 := by
  rw [Nat.add_mod, mod_of_le l.isAlign (ofCases cases).isAlign (align_le_of_mem h) hp,
    payloadOffset_mod h, Nat.add_zero, Nat.zero_mod]

theorem payload_le_size (h : some l ∈ cases) :
    (ofCases cases).payloadOffset + l.size ≤ (ofCases cases).size := by
  have hsize := Layout.size_le_maxSize (List.reduceOption_mem_iff.2 h)
  exact (Nat.add_le_add_left hsize _).trans (le_alignTo _ _)

end VariantLayout

/-! ## Types -/

/-- The types whose values are indices into tables of a component. -/
inductive HandleTy where
  | own (idx : Nat)
  | borrow (idx : Nat)
  | future (idx : Nat)
  | stream (idx : Nat)
  | errorContext (idx : Nat)
deriving DecidableEq, Repr

/-- Which of the `LiftFlat*` and `LowerFlat*` functions treats a type of cases. -/
inductive CaseKind where
  | variant | enum | option | result
deriving DecidableEq, Repr

/-- `InterfaceType`. Field names are the camel case keys of the JavaScript
objects; the payload of a case is one of the types `tys`. -/
inductive Ty where
  | bool
  | int (ty : IntTy)
  | float (ty : FloatTy)
  | char
  | string
  | record {n : Nat} (names : Fin n → String) (tys : Fin n → Ty)
  | tuple {n : Nat} (tys : Fin n → Ty)
  | tagged (kind : CaseKind) {n k : Nat} (names : Fin n → String) (payload : Fin n → Option (Fin k))
      (tys : Fin k → Ty)
  | flags (names : List String)
  | list (elem : Ty)
  | fixedList (elem : Ty) (len : Nat)
  | map (key value : Ty)
  | handle (ty : HandleTy)

namespace Ty

def enum {n : Nat} (names : Fin n → String) : Ty :=
  .tagged (k := 0) .enum names (fun _ => none) (fun j => j.elim0)

/-- `canonical_abi(ty)`: size and alignment in a 32 bit memory. -/
def layout : Ty → Layout
  | .bool => .byte
  | .int .s8 | .int .u8 => .byte
  | .int .s16 | .int .u16 => .half
  | .int .s32 | .int .u32 | .float .f32 | .char => .word
  | .int .s64 | .int .u64 | .float .f64 => .double
  | .string => .pair
  | .record _ tys => .record (List.ofFn fun i => (tys i).layout)
  | .tuple tys => .record (List.ofFn fun i => (tys i).layout)
  | .tagged _ _ payload tys =>
    (VariantLayout.ofCases
      (List.ofFn fun i => (payload i).map fun j => (tys j).layout)).toLayout
  | .flags names => .flags names.length
  | .list _ => .pair
  | .fixedList elem len => elem.layout.array len
  | .map _ _ => .pair
  | .handle _ => .word

/-- `size32` -/
abbrev size (ty : Ty) : Nat := ty.layout.size

/-- `align32` -/
abbrev align (ty : Ty) : Nat := ty.layout.align

/-- The layout of a type of cases. -/
def caseLayout {n k : Nat} (payload : Fin n → Option (Fin k)) (tys : Fin k → Ty) : VariantLayout :=
  .ofCases (List.ofFn fun i => (payload i).map fun j => (tys j).layout)

/-- The entries of a map are tuples of key and value. -/
def entryLayout (key value : Ty) : Layout := .record [key.layout, value.layout]

/-- `value_offset32` -/
def valueOffset (key value : Ty) : Nat := alignTo key.size value.align

end Ty

end Jco.Codec

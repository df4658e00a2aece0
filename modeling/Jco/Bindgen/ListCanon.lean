import Mathlib
import Jco.Bindgen.View
import Jco.Codec.Value
import Jco.Lib.Ieee
import Jco.Lib.LittleEndian

/-! # Lowering lists of numbers

`Instruction::ListCanonLower`: an array is stored item by item, each after a check of its
value, and the bytes of a typed array or of an array buffer are copied. The type of a
typed array is not compared with the element type.
-/

namespace Jco.Bindgen

open Jco.Js (JsError Low low_of_nonneg toInt_of_low)
open Jco.Lib Jco.Codec LittleEndian List Nat
open Ieee (Number)

/-! ## Items -/

/-- The items of an array. -/
inductive Item where
  | number (x : Number)
  | bigint (n : Int)
  /-- `undefined` or `null` -/
  | nullish
  /-- Any other value, by the number it is coerced to, `none` where that throws. -/
  | other (x : Option Number)
deriving DecidableEq

/-- `self.sizes.size(element)`, or the `BYTES_PER_ELEMENT` of a typed array. -/
def elementSize : TypedArray → Nat
  | .ints ty => ty.bytes
  | .floats ty => ty.bytes

def format : FloatTy → Ieee.Format
  | .f32 => .binary32
  | .f64 => .binary64

/-- The least number of an integer type. -/
def least (ty : IntTy) : Int := if ty.isSigned then -(256 ^ ty.bytes / 2 : Nat) else 0

def greatest (ty : IntTy) : Int :=
  if ty.isSigned then (256 ^ ty.bytes / 2 : Nat) - 1 else (256 ^ ty.bytes : Nat) - 1

/-- What a list throws while it is lowered. -/
inductive Thrown where
  /-- ``TypeError(`invalid ${ty} value [${v}]`)`` -/
  | invalid (ty : TypedArray) (v : Item)
  | js (e : JsError)
deriving DecidableEq

/-- `_isValidNumericPrimitive`: the types of 64 bits want a `BigInt`, which the comparisons
of the others take as well. -/
def isValidNumericPrimitive (ty : TypedArray) (v : Item) : Except Thrown Bool :=
  match ty, v with
  | _, .nullish => .ok false
  | .ints ty, .bigint n => .ok (least ty ≤ n ∧ n ≤ greatest ty)
  | .ints ty, .number x => .ok (ty.bytes ≠ 8 && x.within (least ty) (greatest ty))
  | .ints ty, .other x =>
    if ty.bytes = 8 then .ok false
    else
      match x with
      | none => .error (.js .engine)
      | some x => .ok (x.within (least ty) (greatest ty))
  | .floats _, .number _ => .ok true
  | .floats _, _ => .ok false

/-- `_requireValidNumericPrimitive` -/
def requireValidNumericPrimitive (ty : TypedArray) (v : Item) : Except Thrown Unit := do
  if ← isValidNumericPrimitive ty v then return else .error (.invalid ty v)

/-- The bytes that the setter of a `DataView` puts for a value that was let through. -/
def setterBytes (ty : TypedArray) (v : Item) : Except Thrown (List UInt8) :=
  match ty, v with
  | .ints ty, .bigint n =>
    if ty.bytes = 8 then .ok (LittleEndian.bytes ty.bytes (LittleEndian.word ty.bytes n))
    else .error (.js .engine)
  | .ints ty, .number x | .ints ty, .other (some x) =>
    if ty.bytes = 8 then .error (.js .engine)
    else .ok (LittleEndian.bytes ty.bytes (LittleEndian.word ty.bytes x.truncate))
  | .floats ty, .number x => .ok (LittleEndian.bytes ty.bytes ((format ty).encode x))
  | _, _ => .error (.js .engine)

/-- The item that the bytes of an element are. -/
def itemOf (ty : TypedArray) (bs : List UInt8) : Item :=
  match ty with
  | .ints ty =>
    if ty.bytes = 8 then .bigint (ty.ofWord (LittleEndian.value bs))
    else .number (.ofInt (ty.ofWord (LittleEndian.value bs)))
  | .floats ty => .number ((format ty).decode (LittleEndian.value bs))

/-! ## The generated code -/

/-- The typed arrays: one for each element type, where the clamped bytes are read as bytes,
and `Float16Array`. -/
inductive ViewKind where
  | typed (ty : TypedArray)
  | float16
deriving DecidableEq

namespace ViewKind

def size : ViewKind → Nat
  | typed ty => elementSize ty
  | float16 => 2

def itemOf (kind : ViewKind) (bs : List UInt8) : Item :=
  match kind with
  | typed ty => Bindgen.itemOf ty bs
  | float16 => .number (Ieee.Format.decode ⟨10, 5⟩ (LittleEndian.value bs))

end ViewKind

/-- A typed array. -/
structure View where
  kind : ViewKind
  buffer : List UInt8
  byteOffset : Nat
  length : Nat
  aligned : byteOffset % kind.size = 0
  inside : byteOffset + length * kind.size ≤ buffer.length

def View.item (v : View) (i : Nat) : Item :=
  v.kind.itemOf (bytesAt v.buffer (v.byteOffset + i * v.kind.size) v.kind.size)

/-- What is passed for a list of numbers. -/
inductive NumericList where
  | array (items : List Item)
  | view (v : View)
  | buffer (bytes : List UInt8)

/-- `len`: an array buffer has no `length`. -/
def NumericList.len (val : NumericList) (element : TypedArray) : Option Nat :=
  match val with
  | .array items => some items.length
  | .view v => some (if element = .ints .u8 then v.length * v.kind.size else v.length)
  | .buffer bytes => if element = .ints .u8 then some bytes.length else none

/-- `valLenBytes`; an undefined length gives `NaN`, which a typed array takes for `0`. -/
def NumericList.lenBytes (val : NumericList) (element : TypedArray) : Nat :=
  (val.len element).getD 0 * elementSize element

/-- An exception of the engine. -/
def ofJs {α : Type} : Except JsError α → Except Thrown α
  | .ok a => .ok a
  | .error e => .error (.js e)

/-- The loop over an array. -/
def lowerItems (element : TypedArray) : Stream.Memory → (ptr : Int) → List Item →
    Except Thrown Stream.Memory
  | m, _, [] => .ok m
  | m, ptr, v :: vs => do
      requireValidNumericPrimitive element v
      let bytes ← setterBytes element v
      let m ← ofJs (writeBytes m ptr bytes)
      lowerItems element m (ptr + elementSize element) vs

/-- `out.set(valData)`, for the two views of `n` bytes. -/
def copyView (m : Stream.Memory) (ptr : Int) (source : List UInt8) (offset n : Nat) :
    Except JsError Stream.Memory := do
  let valData ← bytesView source offset n
  let _ ← bytesView m ptr n
  writeBytes m ptr valData

/-- The bytes of the list go to `ptr`. -/
def fill (element : TypedArray) (m : Stream.Memory) (ptr : Int) (val : NumericList) :
    Except Thrown Stream.Memory :=
  match val with
  | .array items => lowerItems element m ptr items
  | .view v => ofJs (copyView m ptr v.buffer v.byteOffset (val.lenBytes element))
  | .buffer bytes => ofJs (copyView m ptr bytes 0 (val.lenBytes element))

/-- `Instruction::ListCanonLower`, with the allocator of the guest: the memory, the
pointer and the length. -/
def listCanonLower (realloc : (align size : Nat) → Except Thrown (Stream.Memory × BitVec 32))
    (element : TypedArray) (val : NumericList) :
    Except Thrown (Stream.Memory × BitVec 32 × Option Nat) := do
  let (m, ptr) ← realloc (elementSize element) (val.lenBytes element)
  let m ← fill element m ptr.toInt val
  return (m, ptr, val.len element)

/-! ## Storing the items -/

/-- The value is valid, and `bs` is what its setter puts; any NaN will do for NaN. -/
def Stored (element : TypedArray) (v : Item) (bs : List UInt8) : Prop :=
  requireValidNumericPrimitive element v = .ok () ∧
    (setterBytes element v = .ok bs ∨
      ∃ ty, element = .floats ty ∧ v = .number .nan ∧ bs.length = ty.bytes ∧
        (format ty).decode (LittleEndian.value bs) = .nan)

/-- `bs` is stored at a pointer, and nothing else. -/
def Written (m : Stream.Memory) (ptr : BitVec 32) (bs : List UInt8) (m' : Stream.Memory) : Prop :=
  bs = [] ∧ m' = m ∨ m.setBytes ptr.toNat bs = some m'

/-- The items of a list; those of an array buffer are its bytes. -/
def NumericList.items : NumericList → List Item
  | .array items => items
  | .view v => (List.range v.length).map v.item
  | .buffer bytes => bytes.map fun b => itemOf (.ints .u8) [b]

/-- What is copied lies in the view. -/
def NumericList.CopyInside (val : NumericList) (element : TypedArray) : Prop :=
  match val with
  | .view v => val.lenBytes element ≤ v.length * v.kind.size
  | .array _ | .buffer _ => True

/-- The list is stored item by item, or the code throws. -/
def StoresItems (realloc : (align size : Nat) → Except Thrown (Stream.Memory × BitVec 32))
    (element : TypedArray) (val : NumericList) : Prop :=
  ∀ m' ptr len, listCanonLower realloc element val = .ok (m', ptr, len) →
    ∃ m bss, realloc (elementSize element) (val.lenBytes element) = .ok (m, ptr) ∧
      List.Forall₂ (Stored element) val.items bss ∧ len.getD 0 = bss.length ∧
      Written m ptr bss.flatten m' ∧ val.CopyInside element

/-- `n` bytes at the pointer are in the memory, and JavaScript receives it as it is meant. -/
def InMemory (m : Stream.Memory) (ptr : BitVec 32) (n : Nat) : Prop :=
  Low ptr ∧ ptr.toNat + n ≤ m.length

/-- When a list is stored item by item: an array always; a typed array where copying throws,
or where each item is stored as the bytes that are copied in its place; an array buffer as
bytes. -/
def Agrees (element : TypedArray) (val : NumericList) (m : Stream.Memory) (ptr : BitVec 32) :
    Prop :=
  match val with
  | .array _ => True
  | .view v =>
    v.buffer.length < v.byteOffset + val.lenBytes element ∨
    ¬ InMemory m ptr (val.lenBytes element) ∨
    val.len element = some v.length ∧ val.CopyInside element ∧
      ∀ i < v.length, Stored element (v.item i)
        (bytesAt v.buffer (v.byteOffset + i * elementSize element) (elementSize element))
  | .buffer bytes => element = .ints .u8 ∨ bytes = [] ∨ ¬ InMemory m ptr 0

section

variable {m m' m₁ : Stream.Memory} {a : Int} {bs cs : List UInt8} {element : TypedArray} {v : Item}
  {ptr : BitVec 32}

theorem bytes_pos (ty : IntTy) : 0 < ty.bytes := by cases ty <;> decide

theorem elementSize_pos (element : TypedArray) : 0 < elementSize element := by
  cases element with
  | ints ty => exact bytes_pos ty
  | floats ty => cases ty <;> decide

theorem length_setterBytes (h : setterBytes element v = .ok bs) :
    bs.length = elementSize element := by
  unfold setterBytes at h
  split at h
  case h_1 | h_2 | h_3 =>
    split at h
    all_goals cases h
    exact length_bytes _ _
  case h_4 =>
    cases h
    exact length_bytes _ _
  case h_5 => cases h

theorem Stored.length_eq (h : Stored element v bs) : bs.length = elementSize element := by
  rcases h.2 with hset | ⟨ty, rfl, -, hlen, -⟩
  · exact length_setterBytes hset
  · exact hlen

theorem length_flatten {vs : List Item} {bss : List (List UInt8)}
    (h : List.Forall₂ (Stored element) vs bss) :
    bss.flatten.length = bss.length * elementSize element := by
  induction h with
  | nil => rw [flatten_nil, length_nil, length_nil, zero_mul]
  | cons hv _ ih =>
    rw [flatten_cons, length_append, ih, hv.length_eq, length_cons, succ_mul,
      add_comm]

/-! ## Arrays -/

theorem setBytes_nonneg (h : m.setBytes a bs = some m') : 0 ≤ a := by
  rcases Option.ite_none_right_eq_some.1 h with ⟨hin, h⟩
  exact hin.1

/-- A pointer at which bytes are stored is not negative, and they are in the memory. -/
theorem received_of_setBytes {ptr : BitVec 32} (h : m.setBytes ptr.toInt bs = some m') :
    Low ptr ∧ ptr.toNat + bs.length ≤ m.length := by
  have hlow := low_of_nonneg (Int.not_lt.2 (setBytes_nonneg h))
  rw [toInt_of_low hlow, setBytes_natCast] at h
  rcases Option.ite_none_right_eq_some.1 h with ⟨hin, h⟩
  exact ⟨hlow, hin⟩

theorem setBytes_append (hfirst : m.setBytes a bs = some m₁)
    (hrest : m₁.setBytes (a + bs.length) cs = some m') : m.setBytes a (bs ++ cs) = some m' := by
  obtain ⟨p, rfl⟩ := Int.eq_ofNat_of_zero_le (setBytes_nonneg hfirst)
  rw [← cast_add] at hrest
  have hlen₁ := length_setBytes hfirst
  have hlen := length_setBytes hrest
  have hin := hrest
  rw [setBytes_natCast] at hin
  rcases Option.ite_none_right_eq_some.1 hin with ⟨hin, hin⟩
  have hboth : p + (bs ++ cs).length ≤ m.length := by
    rw [length_append]
    omega
  obtain ⟨m'', hset⟩ := setBytes_isSome hboth
  refine hset.trans (congrArg some (ext_getElem? fun i => ?_))
  rw [getElem?_setBytes hset, getElem?_setBytes hrest, getElem?_setBytes hfirst,
    length_append]
  by_cases hlow : p ≤ i
  · rcases lt_or_ge i (p + bs.length) with hmid | hmid
    · rw [if_pos (by omega), if_neg (by omega), if_pos (by omega),
        List.getElem?_append_left (by omega)]
    · rw [List.getElem?_append_right (by omega)]
      split
      · rw [if_pos (by omega)]
        exact congrArg _ (by omega)
      · rw [if_neg (by omega), if_neg (by omega)]
  · rw [if_neg (by omega), if_neg (by omega), if_neg (by omega)]

theorem setBytes_injective {p : Nat} (hlen : bs.length = cs.length)
    (h : m.setBytes p bs = some m') (h' : m.setBytes p cs = some m') : bs = cs := by
  refine ext_getElem? fun i => ?_
  rcases lt_or_ge i bs.length with hlt | hge
  · rw [← hasBytes_setBytes h i hlt, ← hasBytes_setBytes h' i (by omega)]
  · rw [List.getElem?_eq_none hge, List.getElem?_eq_none (by omega)]

theorem ofJs_ok {α : Type} {x : Except JsError α} {b : α} (h : ofJs x = .ok b) : x = .ok b := by
  cases x with
  | ok c => rw [Except.ok.inj h]
  | error e => cases h

theorem writeBytes_eq (h : writeBytes m a bs = .ok m') : m.setBytes a bs = some m' := by
  unfold writeBytes at h
  split at h
  case h_1 => cases h
  case h_2 m₁ hset => rwa [Except.ok.inj h] at hset

/-- The loop stores its items one behind the other. -/
theorem lowerItems_stored {vs : List Item} (h : lowerItems element m a vs = .ok m') :
    ∃ bss, List.Forall₂ (Stored element) vs bss ∧
      (bss.flatten = [] ∧ m' = m ∨ m.setBytes a bss.flatten = some m') := by
  induction vs generalizing m a with
  | nil => exact ⟨[], .nil, .inl ⟨rfl, (Except.ok.inj h).symm⟩⟩
  | cons v vs ih =>
    obtain ⟨⟨⟩, hvalid, h⟩ := Js.bind_ok h
    obtain ⟨bs, hbytes, h⟩ := Js.bind_ok h
    obtain ⟨m₁, hwrite, h⟩ := Js.bind_ok h
    have hset := writeBytes_eq (ofJs_ok hwrite)
    obtain ⟨bss, hall, hrest⟩ := ih h
    refine ⟨bs :: bss, .cons ⟨hvalid, .inl hbytes⟩ hall, .inr ?_⟩
    rw [flatten_cons]
    rw [← length_setterBytes hbytes] at hrest
    rcases hrest with ⟨hnil, rfl⟩ | hrest
    · rwa [hnil, append_nil]
    · exact setBytes_append hset hrest

/-! ## Typed arrays and array buffers -/

theorem copyView_ok_iff {source : List UInt8} {offset n : Nat} :
    copyView m ptr.toInt source offset n = .ok m' ↔
      offset + n ≤ source.length ∧ InMemory m ptr n ∧
        m.setBytes ptr.toNat (bytesAt source offset n) = some m' := by
  unfold copyView
  rw [bytesView_natCast, getBytes, view_natCast]
  by_cases hsource : offset + n ≤ source.length
  case neg =>
    rw [if_neg hsource]
    exact iff_of_false (fun h => by cases h) fun h => hsource h.1
  rw [if_pos hsource, ok_bind]
  by_cases hlow : Low ptr
  case neg =>
    rw [bytesView_high (.inl (Js.toInt_neg_of_high hlow))]
    exact iff_of_false (fun h => by cases h) fun h => hlow h.2.1.1
  by_cases hin : ptr.toNat + n ≤ m.length
  case neg =>
    rw [toInt_of_low hlow, bytesView_natCast, getBytes, view_natCast, if_neg hin]
    exact iff_of_false (fun h => by cases h) fun h => hin h.2.1.2
  rw [bytesView_low hlow hin, ok_bind, toInt_of_low hlow]
  constructor
  · intro h
    exact ⟨hsource, ⟨hlow, hin⟩, writeBytes_eq h⟩
  · rintro ⟨-, -, hset⟩
    unfold bytesAt at hset
    unfold writeBytes
    rw [hset]

/-- `n` pieces of `k` bytes. -/
theorem flatten_pieces (source : List UInt8) (offset k n : Nat) :
    ((List.range n).map fun i => bytesAt source (offset + i * k) k).flatten =
      bytesAt source offset (n * k) := by
  induction n with
  | zero => rw [zero_mul, bytesAt, take_zero]; rfl
  | succ n ih =>
    rw [range_succ, map_append, flatten_append, ih, succ_mul, bytesAt, bytesAt,
      take_add, drop_drop]
    simp [bytesAt]

/-- Bytes that lie one behind the other are known in pieces. -/
theorem eq_pieces {source : List UInt8} {offset : Nat} {vs : List Item} {bss : List (List UInt8)}
    (hall : List.Forall₂ (Stored element) vs bss)
    (hin : offset + vs.length * elementSize element ≤ source.length)
    (h : bss.flatten = bytesAt source offset (vs.length * elementSize element)) :
    bss = (List.range vs.length).map fun i =>
      bytesAt source (offset + i * elementSize element) (elementSize element) := by
  refine eq_iff_flatten_eq.2 ⟨h.trans (flatten_pieces _ _ _ _).symm, ?_⟩
  refine ext_getElem (by simp [hall.length_eq]) fun i hi hi' => ?_
  rw [getElem_map, getElem_map, getElem_map, getElem_range]
  rw [length_map] at hi
  have hvs : i < vs.length := by rwa [hall.length_eq]
  have hstored := hall.get hvs hi
  have hle : (i + 1) * elementSize element ≤ vs.length * elementSize element :=
    mul_le_mul_right _ hvs
  rw [succ_mul] at hle
  rw [length_bytesAt (by omega)]
  exact hstored.length_eq

theorem require_of_valid (h : isValidNumericPrimitive element v = .ok true) :
    requireValidNumericPrimitive element v = .ok () := by
  unfold requireValidNumericPrimitive
  rw [h]
  rfl

theorem word_ofWord {ty : IntTy} {n : Nat} (h : n < 256 ^ ty.bytes) :
    word ty.bytes (ty.ofWord n) = n := by
  unfold IntTy.ofWord
  split
  case isTrue => exact word_signed h
  case isFalse => exact word_of_lt h

theorem ofWord_range {ty : IntTy} {n : Nat} (h : n < 256 ^ ty.bytes) :
    least ty ≤ ty.ofWord n ∧ ty.ofWord n ≤ greatest ty := by
  have heven : 256 ^ ty.bytes % 2 = 0 := by cases ty <;> decide
  unfold least greatest IntTy.ofWord signed
  generalize 256 ^ ty.bytes = size at *
  split
  case isTrue => split <;> omega
  case isFalse => omega

/-- An element is stored as the bytes that it has. -/
theorem stored_own (h : bs.length = elementSize element) :
    Stored element (itemOf element bs) bs := by
  have hlt := value_lt bs
  have hbytes := bytes_value bs
  rw [h] at hlt hbytes
  cases element with
  | ints ty =>
    change value bs < 256 ^ ty.bytes at hlt
    obtain ⟨hlow, hup⟩ := ofWord_range hlt
    have hword := word_ofWord hlt
    rw [elementSize] at hbytes
    rw [itemOf]
    -- A 64 bit integer is a bigint, the others are numbers.
    by_cases hbig : ty.bytes = 8
    · rw [if_pos hbig]
      refine ⟨require_of_valid (congrArg Except.ok (decide_eq_true ⟨hlow, hup⟩)), .inl ?_⟩
      rw [setterBytes, if_pos hbig, hword, hbytes]
    · rw [if_neg hbig]
      refine ⟨?_, .inl ?_⟩
      · have hwithin : (Number.ofInt (ty.ofWord (value bs))).within (least ty)
            (greatest ty) = true := (Number.within_ofInt _ _ _).2 ⟨hlow, hup⟩
        refine require_of_valid ?_
        rw [isValidNumericPrimitive, hwithin, decide_eq_true hbig]
        rfl
      · rw [setterBytes, if_neg hbig, Number.truncate_ofInt, hword, hbytes]
  | floats ty =>
    refine ⟨rfl, ?_⟩
    by_cases hnan : (format ty).decode (value bs) = .nan
    · exact .inr ⟨ty, rfl, congrArg Item.number hnan, h, hnan⟩
    · have hbits : value bs < 2 ^ ((format ty).fraction + (format ty).width + 1) := by
        cases ty <;> exact hlt
      rw [itemOf, setterBytes, Ieee.Format.encode_decode hbits hnan]
      exact .inl (congrArg Except.ok hbytes)

end

/-! ## Agreement -/

section

variable {element : TypedArray} {m m' : Stream.Memory} {ptr : BitVec 32}

/-- What the bytes stored for a list are to be. -/
def FillsItems (element : TypedArray) (val : NumericList) (m : Stream.Memory) (ptr : BitVec 32) :
    Prop :=
  ∀ m', fill element m ptr.toInt val = .ok m' →
    ∃ bss, List.Forall₂ (Stored element) val.items bss ∧
      (val.len element).getD 0 = bss.length ∧ Written m ptr bss.flatten m' ∧ val.CopyInside element

theorem storesItems_iff
    {realloc : (align size : Nat) → Except Thrown (Stream.Memory × BitVec 32)}
    (val : NumericList) :
    StoresItems realloc element val ↔ ∀ m ptr,
      realloc (elementSize element) (val.lenBytes element) = .ok (m, ptr) →
        FillsItems element val m ptr := by
  constructor
  · intro h m ptr halloc m' hfill
    have hrun : listCanonLower realloc element val = .ok (m', ptr, val.len element) := by
      unfold listCanonLower
      rw [halloc]
      change (fill element m ptr.toInt val >>= _) = _
      rw [hfill]
      rfl
    obtain ⟨m₁, bss, halloc₁, hrest⟩ := h m' ptr _ hrun
    cases halloc₁.symm.trans halloc
    exact ⟨bss, hrest⟩
  · intro h m' ptr len hrun
    obtain ⟨⟨m, ptr₁⟩, halloc, hrun⟩ := Js.bind_ok hrun
    obtain ⟨m₁, hfill, hrun⟩ := Js.bind_ok hrun
    obtain ⟨rfl, hpair⟩ := Prod.mk.inj (Except.ok.inj hrun)
    obtain ⟨rfl, rfl⟩ := Prod.mk.inj hpair
    obtain ⟨bss, hrest⟩ := h m ptr₁ halloc m₁ hfill
    exact ⟨m, bss, halloc, hrest⟩

theorem array_fills (items : List Item) : FillsItems element (.array items) m ptr := by
  intro m' hfill
  obtain ⟨bss, hall, hwritten⟩ := lowerItems_stored hfill
  refine ⟨bss, hall, hall.length_eq, ?_, trivial⟩
  rcases hwritten with hnil | hset
  · exact .inl hnil
  · rw [toInt_of_low (received_of_setBytes hset).1] at hset
    exact .inr hset

/-- What was copied is what is stored for the items. -/
theorem Written.eq_copied {bs copied : List UInt8} (h : Written m ptr bs m')
    (hcopied : m.setBytes ptr.toNat copied = some m') (hlen : bs.length = copied.length) :
    bs = copied := by
  rcases h with ⟨rfl, -⟩ | hset
  · exact (eq_nil_of_length_eq_zero hlen.symm).symm
  · exact setBytes_injective hlen hset hcopied

theorem view_fills_iff (v : View) :
    FillsItems element (.view v) m ptr ↔ Agrees element (.view v) m ptr := by
  unfold FillsItems Agrees
  dsimp only [fill]
  -- Where the copy throws, nothing is claimed.
  by_cases hsource : v.byteOffset + (NumericList.view v).lenBytes element ≤ v.buffer.length
  case neg =>
    refine iff_of_true (fun m' hfill => ?_) (.inl (not_le.1 hsource))
    exact absurd (copyView_ok_iff.1 (ofJs_ok hfill)).1 hsource
  by_cases hmemory : InMemory m ptr ((NumericList.view v).lenBytes element)
  case neg =>
    refine iff_of_true (fun m' hfill => ?_) (.inr (.inl hmemory))
    exact absurd (copyView_ok_iff.1 (ofJs_ok hfill)).2.1 hmemory
  have hlen := length_bytesAt hsource
  have hblock : ptr.toNat + (bytesAt v.buffer v.byteOffset
      ((NumericList.view v).lenBytes element)).length ≤ m.length := by
    rw [hlen]
    exact hmemory.2
  obtain ⟨m', hset⟩ := setBytes_isSome hblock
  have hitems : (NumericList.view v).items.length = v.length := by simp [NumericList.items]
  constructor
  · intro h
    obtain ⟨bss, hall, hcount, hwritten, hinside⟩ := h m'
      (by rw [copyView_ok_iff.2 ⟨hsource, hmemory, hset⟩]; rfl)
    rw [← hall.length_eq, hitems] at hcount
    -- As many bytes are copied as the items take, so each item has its piece of them.
    have hbytes : (NumericList.view v).lenBytes element =
        (NumericList.view v).items.length * elementSize element := by
      rw [NumericList.lenBytes, hcount, hitems]
    have hflat := hwritten.eq_copied hset
      (by rw [length_flatten hall, hlen, hbytes, hall.length_eq])
    rw [hbytes] at hsource hflat
    have hpieces := eq_pieces hall hsource hflat
    refine .inr (.inr ⟨congrArg some hcount, hinside, fun i hi => ?_⟩)
    rw [hpieces, hitems] at hall
    unfold NumericList.items at hall
    rw [forall₂_map_left_iff, forall₂_map_right_iff, forall₂_same] at hall
    exact hall i (mem_range.2 hi)
  · rintro (hno | hno | ⟨hcount, hinside, hstored⟩)
    · omega
    · exact absurd hmemory hno
    intro m₁ hfill
    obtain ⟨-, -, hset₁⟩ := copyView_ok_iff.1 (ofJs_ok hfill)
    -- The bytes of the items are the pieces of what was copied.
    refine ⟨(List.range v.length).map fun i =>
      bytesAt v.buffer (v.byteOffset + i * elementSize element) (elementSize element), ?_, ?_, ?_,
      hinside⟩
    · unfold NumericList.items
      rw [forall₂_map_left_iff, forall₂_map_right_iff, forall₂_same]
      exact fun i hi => hstored i (mem_range.1 hi)
    · rw [hcount, length_map, length_range]
      rfl
    · rw [flatten_pieces]
      rw [NumericList.lenBytes, hcount] at hset₁
      exact .inr hset₁

theorem bytes_stored (bytes : List UInt8) :
    List.Forall₂ (Stored (.ints .u8)) (NumericList.buffer bytes).items (bytes.map fun b => [b]) := by
  unfold NumericList.items
  rw [forall₂_map_left_iff, forall₂_map_right_iff, forall₂_same]
  exact fun b _ => stored_own rfl

theorem flatten_bytes (bytes : List UInt8) : (bytes.map fun b => [b]).flatten = bytes := by
  induction bytes with
  | nil => rfl
  | cons b bs ih => rw [map_cons, flatten_cons, ih]; rfl

theorem buffer_fills_iff (bytes : List UInt8) :
    FillsItems element (.buffer bytes) m ptr ↔ Agrees element (.buffer bytes) m ptr := by
  unfold FillsItems Agrees
  dsimp only [fill]
  by_cases hu8 : element = .ints .u8
  · subst hu8
    refine iff_of_true (fun m' hfill => ?_) (.inl rfl)
    obtain ⟨-, -, hset⟩ := copyView_ok_iff.1 (ofJs_ok hfill)
    have hall : bytesAt bytes 0 ((NumericList.buffer bytes).lenBytes (.ints .u8)) = bytes := by
      change (bytes.drop 0).take (bytes.length * 1) = bytes
      rw [mul_one, drop_zero, take_length]
    rw [hall] at hset
    refine ⟨_, bytes_stored bytes, (length_map _).symm, ?_, trivial⟩
    rw [flatten_bytes]
    exact .inr hset
  -- No length is read, and no byte is copied.
  have hlen : (NumericList.buffer bytes).len element = none := if_neg hu8
  have hnone : (NumericList.buffer bytes).lenBytes element = 0 := by
    rw [NumericList.lenBytes, hlen]
    exact zero_mul _
  by_cases hmemory : InMemory m ptr 0
  case neg =>
    refine iff_of_true (fun m' hfill => ?_) (.inr (.inr hmemory))
    rw [hnone] at hfill
    exact absurd (copyView_ok_iff.1 (ofJs_ok hfill)).2.1 hmemory
  have hblock : ptr.toNat + ([] : List UInt8).length ≤ m.length := hmemory.2
  obtain ⟨m', hset⟩ := setBytes_isSome hblock
  constructor
  · intro h
    obtain ⟨bss, hall, hcount, -⟩ := h m' (by
      rw [hnone, copyView_ok_iff.2 ⟨zero_le _, hmemory, hset⟩]
      rfl)
    rw [hlen, ← hall.length_eq] at hcount
    refine .inr (.inl (eq_nil_of_length_eq_zero ?_))
    rw [NumericList.items, length_map] at hcount
    exact hcount.symm
  · rintro (hyes | rfl | hno) m₁ hfill
    · exact absurd hyes hu8
    · -- Of an empty buffer nothing is missing.
      rw [hnone] at hfill
      obtain ⟨-, -, hset₁⟩ := copyView_ok_iff.1 (ofJs_ok hfill)
      refine ⟨[], .nil, ?_, .inr hset₁, trivial⟩
      rw [hlen]
      rfl
    · exact absurd hmemory hno

theorem fills_iff (val : NumericList) : FillsItems element val m ptr ↔ Agrees element val m ptr := by
  cases val with
  | array items => exact iff_of_true (array_fills items) trivial
  | view v => exact view_fills_iff v
  | buffer bytes => exact buffer_fills_iff bytes

end

/-- A list is stored item by item in exactly these cases. -/
theorem list_canon_lower_iff
    (realloc : (align size : Nat) → Except Thrown (Stream.Memory × BitVec 32))
    (element : TypedArray) (val : NumericList) :
    StoresItems realloc element val ↔ ∀ m ptr,
      realloc (elementSize element) (val.lenBytes element) = .ok (m, ptr) →
        Agrees element val m ptr := by
  rw [storesItems_iff]
  exact ⟨fun h m ptr halloc => (fills_iff val).1 (h m ptr halloc),
    fun h m ptr halloc => (fills_iff val).2 (h m ptr halloc)⟩

/-- The number `-1` of an `Int32Array`, which no `u32` is. -/
def minusOne : View where
  kind := .typed (.ints .s32)
  buffer := [0xFF, 0xFF, 0xFF, 0xFF]
  byteOffset := 0
  length := 1
  aligned := rfl
  inside := by decide

theorem minus_one_stored :
    ¬ StoresItems (fun _ _ => .ok (List.replicate 8 0, 0)) (.ints .u32) (.view minusOne) := by
  intro h
  obtain ⟨m, bss, -, hall, -⟩ := h [0xFF, 0xFF, 0xFF, 0xFF, 0, 0, 0, 0] 0 (some 1) (by decide)
  cases hall with
  | cons hstored _ => exact absurd hstored.1 (by decide)

end Jco.Bindgen

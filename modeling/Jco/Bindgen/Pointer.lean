import Mathlib
import Jco.Bindgen.ListCanon
import Jco.Js.Bytes
import Jco.Lib.Utf16

/-! # Pointers of strings and lists

Generated code reads and writes strings and lists at pointers that it has from core code,
or from the allocator of the guest. The memory here is the one after the allocation. A
typed array of units has the byte order of the host, which is taken to be little-endian.
-/

namespace Jco.Bindgen

open Jco.Js (JsError Low clampIndex toInt_of_low toInt_neg_of_high low_of_nonneg)
open Jco.Lib Jco.Codec List Int


/-! ## Strings -/

/-- `_utf8AllocateAndEncode`. An empty string has the pointer `1` and is not stored. -/
def utf8Encode (m : Stream.Memory) (ptr : Int) (s : Utf8.Text) : Except JsError Stream.Memory :=
  if s = [] then .ok m else writeBytes m ptr (Utf8.encode s)

/-- `_utf16AllocateAndEncode` -/
def utf16Encode (m : Stream.Memory) (ptr : Int) (str : Utf16.Units) :
    Except JsError Stream.Memory :=
  if ptr % 2 ≠ 0 then .error .engine else writeBytes m ptr (Utf16.toBytes str)

/-- `Instruction::StringLift`, for `StringEncoding::UTF8` -/
def stringLiftUtf8 (m : Stream.Memory) (ptr len : Int) : Except JsError Utf8.Text := do
  let bytes ← bytesView m ptr len
  return Utf8.decode bytes

/-- `Instruction::StringLift`, for `StringEncoding::UTF16` -/
def stringLiftUtf16 (m : Stream.Memory) (ptr len : Int) : Except JsError Utf8.Text :=
  if ptr % 2 ≠ 0 then .error .engine
  else do
    let bytes ← bytesView m ptr (2 * len)
    return Utf16.decode bytes

/-! ## Lists of numbers -/

/-- The position and the number of the bytes of `buffer.slice(first, last)`. -/
def slice (length : Nat) (first last : Int) : Nat × Nat :=
  (clampIndex length first, clampIndex length last - clampIndex length first)

/-- `Instruction::ListCanonLift`: the bytes of the typed array, which throws where they are
not a multiple of its element. -/
def listCanonLift (element : TypedArray) (m : Stream.Memory) (ptr len : Int) :
    Except JsError (List UInt8) :=
  let (first, count) := slice m.length ptr (ptr + len * elementSize element)
  if count % elementSize element ≠ 0 then .error .engine else .ok (bytesAt m first count)

/-! ## Lists of other elements -/

/-- The stores that the body of a list makes for an element: bytes at an offset from `base`.
One of them is at `base`. -/
structure ElementStores (size : Nat) where
  stores : List (Nat × List UInt8)
  inside : ∀ s ∈ stores, s.1 + s.2.length ≤ size
  atBase : ∃ s ∈ stores, s.1 = 0 ∧ s.2 ≠ []

/-- Setters of a `DataView`, one after the other. -/
def storeAll : Stream.Memory → (base : Int) → List (Nat × List UInt8) → Except JsError Stream.Memory
  | m, _, [] => .ok m
  | m, base, s :: ss => do
      let m ← writeBytes m (base + s.1) s.2
      storeAll m base ss

/-- `Instruction::ListLower` -/
def listLower {size : Nat} : Stream.Memory → (base : Int) → List (ElementStores size) →
    Except JsError Stream.Memory
  | m, _, [] => .ok m
  | m, base, e :: es => do
      let m ← storeAll m base e.stores
      listLower m (base + size) es

/-- What the body of a list reads for an element: which bytes are next may depend on those
before. -/
inductive Reads (α : Type) where
  | done (a : α)
  | load (offset width : Nat) (next : List UInt8 → Reads α)

namespace Reads

variable {α : Type}

/-- Getters of a `DataView`. -/
def run (m : Stream.Memory) (base : Int) : Reads α → Except JsError α
  | done a => .ok a
  | load offset width next => do
      let bytes ← bytesView m (base + offset) width
      (next bytes).run m base

/-- Only bytes of an element of that size are read. -/
def Within (size : Nat) : Reads α → Prop
  | done _ => True
  | load offset width next => offset + width ≤ size ∧ ∀ bytes, (next bytes).Within size

/-- The element at an address. -/
def element (m : Stream.Memory) (base : Nat) : Reads α → α
  | done a => a
  | load offset width next => (next (bytesAt m (base + offset) width)).element m base

/-- All that is read lies in the memory. -/
def Stays (m : Stream.Memory) (base : Nat) : Reads α → Prop
  | done _ => True
  | load offset width next =>
    base + offset + width ≤ m.length ∧ (next (bytesAt m (base + offset) width)).Stays m base

end Reads

/-- The reads of an element. The first one is at `base`. -/
structure ElementReads (α : Type) (size : Nat) where
  width : Nat
  next : List UInt8 → Reads α
  pos : 0 < width
  within : (Reads.load 0 width next).Within size

def ElementReads.reads {α : Type} {size : Nat} (e : ElementReads α size) : Reads α :=
  .load 0 e.width e.next

/-- `count` turns of the loop of a list. -/
def liftElements {α : Type} {size : Nat} (e : ElementReads α size) (m : Stream.Memory) :
    (base : Int) → (count : Nat) → Except JsError (List α)
  | _, 0 => .ok []
  | base, count + 1 => do
      let a ← e.reads.run m base
      let as ← liftElements e m (base + size) count
      return a :: as

/-- `Instruction::ListLift`: no turn for a negative length. -/
def listLift {α : Type} {size : Nat} (e : ElementReads α size) (m : Stream.Memory)
    (base len : Int) : Except JsError (List α) :=
  liftElements e m base len.toNat

/-! ## Exact accesses -/

/-- The pieces of generated code that work at a pointer. -/
inductive Access (α : Type) where
  /-- Of an array, whose items are valid. -/
  | canonLower (element : TypedArray) (items : List Item)
      (valid : ∀ v ∈ items, requireValidNumericPrimitive element v = .ok () ∧
        ∃ bs, setterBytes element v = .ok bs)
  /-- Of `n` bytes of a typed array. -/
  | canonLowerView (source : List UInt8) (offset n : Nat) (inside : offset + n ≤ source.length)
  | canonLift (element : TypedArray)
  | utf8Lower (s : Utf8.Text)
  | utf16Lower (str : Utf16.Units)
  | utf8Lift
  | utf16Lift
  | lower (size : Nat) (elems : List (ElementStores size))
  | lift (size : Nat) (elem : ElementReads α size)

/-- The code acts as `act` says, or throws where the bytes are out of bounds. -/
def ActsOrThrows {ε β : Type} (inBounds : Prop) (result : Except ε β) (act : β → Prop) : Prop :=
  (∃ b, result = .ok b ∧ act b) ∨ ¬ inBounds ∧ ∃ e, result = .error e

namespace Access

variable {α : Type}

/-- The number of the bytes that are meant; the length is that of a list or a string that is
lifted. -/
def byteLength (len : BitVec 32) : Access α → Nat
  | canonLower element items _ => items.length * elementSize element
  | canonLowerView _ _ n _ => n
  | canonLift element => len.toNat * elementSize element
  | utf8Lower s => (Utf8.encode s).length
  | utf16Lower str => 2 * str.length
  | utf8Lift => len.toNat
  | utf16Lift => 2 * len.toNat
  | lower size elems => elems.length * size
  | lift size _ => len.toNat * size

variable (m : Stream.Memory) (ptr len : BitVec 32) (access : Access α)

def InBounds : Prop := ptr.toNat + access.byteLength len ≤ m.length

/-- The bytes from the unsigned pointer on are read or written, and no others; the code may
throw where they are out of bounds. -/
def Exact : Prop :=
  match access with
  | canonLower element items _ =>
    ActsOrThrows (access.InBounds m ptr len) (lowerItems element m ptr.toInt items) fun m' =>
      ∃ bss, List.Forall₂ (Stored element) items bss ∧ Written m ptr bss.flatten m'
  | canonLowerView source offset n _ =>
    ActsOrThrows (access.InBounds m ptr len) (copyView m ptr.toInt source offset n)
      (Written m ptr (bytesAt source offset n))
  | canonLift element =>
    ActsOrThrows (access.InBounds m ptr len) (listCanonLift element m ptr.toInt len.toInt)
      fun bytes => bytes = bytesAt m ptr.toNat (access.byteLength len) ∧
        (access.byteLength len = 0 ∨ access.InBounds m ptr len ∧
          slice m.length ptr.toInt (ptr.toInt + len.toInt * elementSize element) =
            (ptr.toNat, access.byteLength len))
  | utf8Lower s =>
    ActsOrThrows (access.InBounds m ptr len) (Bindgen.utf8Encode m ptr.toInt s)
      (Written m ptr (Utf8.encode s))
  | utf16Lower str =>
    ActsOrThrows (access.InBounds m ptr len) (Bindgen.utf16Encode m ptr.toInt str)
      (Written m ptr (Utf16.toBytes str))
  | utf8Lift =>
    ActsOrThrows (access.InBounds m ptr len) (stringLiftUtf8 m ptr.toInt len.toInt)
      fun t => t = Utf8.decode (bytesAt m ptr.toNat (access.byteLength len)) ∧
        access.InBounds m ptr len
  | utf16Lift =>
    ActsOrThrows (access.InBounds m ptr len) (stringLiftUtf16 m ptr.toInt len.toInt)
      fun t => t = Utf16.decode (bytesAt m ptr.toNat (access.byteLength len)) ∧
        access.InBounds m ptr len
  | lower size elems =>
    ActsOrThrows (access.InBounds m ptr len) (listLower m ptr.toInt elems) fun m' =>
      listLower m ptr.toNat elems = .ok m' ∧ (elems = [] ∨ access.InBounds m ptr len) ∧
        ∀ a, ¬ (ptr.toNat ≤ a ∧ a < ptr.toNat + elems.length * size) → m'[a]? = m[a]?
  | lift size elem =>
    ActsOrThrows (access.InBounds m ptr len) (listLift elem m ptr.toInt len.toInt) fun as =>
      as = (List.range len.toNat).map (fun i => elem.reads.element m (ptr.toNat + i * size)) ∧
        (as = [] ∨ access.InBounds m ptr len)

/-- When an access is exact: the pointer and the length are received as they are meant where
the bytes are in bounds, and an access out of bounds throws. -/
def Fits : Prop :=
  match access with
  | canonLower _ items _ => items = [] ∨ (access.InBounds m ptr len → Low ptr)
  | canonLowerView _ _ _ _ => access.InBounds m ptr len → Low ptr
  | canonLift element =>
    let n := access.byteLength len
    n = 0 ∨
    access.InBounds m ptr len ∧
      (Low ptr ∧ Low len ∨ m.length = 2 ^ 32 ∧ ptr.toNat + n < m.length) ∨
    ¬ access.InBounds m ptr len ∧
      (slice m.length ptr.toInt (ptr.toInt + len.toInt * elementSize element)).2 %
        elementSize element ≠ 0
  | utf8Lower s => s = [] ∨ (access.InBounds m ptr len → Low ptr)
  | utf16Lower _ => access.InBounds m ptr len → Low ptr ∧ ptr.toNat % 2 = 0
  | utf8Lift => access.InBounds m ptr len → Low ptr ∧ Low len
  | utf16Lift => access.InBounds m ptr len → Low ptr ∧ Low len ∧ ptr.toNat % 2 = 0
  | lower size elems =>
    elems = [] ∨
    (access.InBounds m ptr len → Low ptr) ∧
      (¬ access.InBounds m ptr len → Low ptr → ∃ i e, elems[i]? = some e ∧
        ∃ s ∈ e.stores, m.length < ptr.toNat + i * size + s.1 + s.2.length)
  | lift size elem =>
    Low len ∧
    (len.toNat = 0 ∨
      (access.InBounds m ptr len → Low ptr) ∧
        (¬ access.InBounds m ptr len → Low ptr →
          ∃ i < len.toNat, ¬ elem.reads.Stays m (ptr.toNat + i * size)))

end Access

section

variable {ε β : Type} {inBounds : Prop} {result : Except ε β} {act : β → Prop}

theorem acts_of_ok {b : β} (h : result = .ok b) : ActsOrThrows inBounds result act ↔ act b := by
  constructor
  · rintro (⟨b', hok, hact⟩ | ⟨-, e, he⟩)
    · rwa [Except.ok.inj (h.symm.trans hok)]
    · cases h.symm.trans he
  · exact fun hact => .inl ⟨b, h, hact⟩

theorem acts_of_error {e : ε} (h : result = .error e) :
    ActsOrThrows inBounds result act ↔ ¬ inBounds := by
  constructor
  · rintro (⟨b, hok, -⟩ | ⟨hout, -⟩)
    · cases h.symm.trans hok
    · exact hout
  · exact fun hout => .inr ⟨hout, e, h⟩

/-- Code that works where the bytes are in bounds and received, and throws elsewhere. -/
theorem acts_iff_received {received : Prop}
    (hok : inBounds → received → ∃ b, result = .ok b ∧ act b)
    (herror : ¬ (inBounds ∧ received) → ∃ e, result = .error e) :
    ActsOrThrows inBounds result act ↔ (inBounds → received) := by
  by_cases hin : inBounds
  · by_cases hrec : received
    · obtain ⟨b, hb, hact⟩ := hok hin hrec
      exact iff_of_true ((acts_of_ok hb).2 hact) fun _ => hrec
    · obtain ⟨e, he⟩ := herror fun h => hrec h.2
      exact iff_of_false (fun h => (acts_of_error he).1 h hin) fun h => hrec (h hin)
  · obtain ⟨e, he⟩ := herror fun h => hin h.1
    exact iff_of_true ((acts_of_error he).2 hin) fun h => absurd h hin

theorem error_of_not_ok (h : ∀ b, result ≠ .ok b) : ∃ e, result = .error e := by
  cases result with
  | ok b => exact absurd rfl (h b)
  | error e => exact ⟨e, rfl⟩

end

section

variable {m m' : Stream.Memory} {ptr len : BitVec 32} {α : Type}

/-! ## Bytes at a pointer -/

theorem writeBytes_acts (bs : List UInt8) :
    ActsOrThrows (ptr.toNat + bs.length ≤ m.length) (writeBytes m ptr.toInt bs)
      (Written m ptr bs) ↔ (ptr.toNat + bs.length ≤ m.length → Low ptr) := by
  refine acts_iff_received (fun hin hlow => ?_) fun hno => error_of_not_ok fun m' hok => ?_
  · obtain ⟨m', hwrite, hset⟩ := writeBytes_low hlow hin
    exact ⟨m', hwrite, .inr hset⟩
  · obtain ⟨hlow, hin⟩ := received_of_setBytes (writeBytes_eq hok)
    exact hno ⟨hin, hlow⟩

theorem canonLowerView_iff {source : List UInt8} {offset n : Nat}
    (inside : offset + n ≤ source.length) :
    (Access.canonLowerView source offset n inside : Access α).Exact m ptr len ↔
      (Access.canonLowerView source offset n inside : Access α).Fits m ptr len := by
  refine acts_iff_received (fun hin hlow => ?_) fun hno => error_of_not_ok fun m' hok => ?_
  · have hblock : ptr.toNat + (bytesAt source offset n).length ≤ m.length := by
      rw [length_bytesAt inside]
      exact hin
    obtain ⟨m', hset⟩ := setBytes_isSome hblock
    exact ⟨m', copyView_ok_iff.2 ⟨inside, ⟨hlow, hin⟩, hset⟩, .inr hset⟩
  · obtain ⟨-, ⟨hlow, hin⟩, -⟩ := copyView_ok_iff.1 hok
    exact hno ⟨hin, hlow⟩

theorem utf8Lower_iff (s : Utf8.Text) :
    (Access.utf8Lower s : Access α).Exact m ptr len ↔
      (Access.utf8Lower s : Access α).Fits m ptr len := by
  by_cases hempty : s = []
  · refine iff_of_true ((acts_of_ok (b := m) (if_pos hempty)).2 ?_) (.inl hempty)
    subst hempty
    exact .inl ⟨rfl, rfl⟩
  · have hencode : Bindgen.utf8Encode m ptr.toInt s = writeBytes m ptr.toInt (Utf8.encode s) :=
      if_neg hempty
    unfold Access.Exact Access.Fits
    dsimp only
    rw [hencode, or_iff_right hempty]
    exact writeBytes_acts _

theorem even_toInt (hlow : Low ptr) : ¬ ptr.toInt % 2 ≠ 0 ↔ ptr.toNat % 2 = 0 := by
  rw [toInt_of_low hlow]
  omega

theorem utf16Lower_iff (str : Utf16.Units) :
    (Access.utf16Lower str : Access α).Exact m ptr len ↔
      (Access.utf16Lower str : Access α).Fits m ptr len := by
  have hlen := Utf16.length_toBytes str
  refine acts_iff_received (fun hin hrec => ?_) fun hno => error_of_not_ok fun m' hok => ?_
  · have hblock : ptr.toNat + (Utf16.toBytes str).length ≤ m.length := by
      rw [hlen]
      exact hin
    obtain ⟨m', hwrite, hset⟩ := writeBytes_low hrec.1 hblock
    refine ⟨m', ?_, .inr hset⟩
    rw [utf16Encode, if_neg ((even_toInt hrec.1).2 hrec.2)]
    exact hwrite
  · unfold utf16Encode at hok
    split at hok
    case isTrue => cases hok
    case isFalse heven =>
      have hset := writeBytes_eq hok
      have hlow := low_of_nonneg (not_lt.2 (setBytes_nonneg hset))
      rw [toInt_of_low hlow, setBytes_natCast] at hset
      split at hset
      case isTrue hin =>
        rw [hlen] at hin
        exact hno ⟨hin, hlow, (even_toInt hlow).1 heven⟩
      case isFalse => cases hset

/-- A view at a pointer, with `k` bytes for each unit of its length. -/
theorem bytesView_ok_iff {k : Nat} (hk : 0 < k) (bytes : List UInt8) :
    bytesView m ptr.toInt (k * len.toInt) = .ok bytes ↔
      Low ptr ∧ Low len ∧ ptr.toNat + k * len.toNat ≤ m.length ∧
        bytes = bytesAt m ptr.toNat (k * len.toNat) := by
  by_cases hrec : Low ptr ∧ Low len
  · obtain ⟨hlow, hlen⟩ := hrec
    rw [toInt_of_low hlen, ← Nat.cast_mul]
    by_cases hin : ptr.toNat + k * len.toNat ≤ m.length
    · rw [bytesView_low hlow hin]
      exact ⟨fun h => ⟨hlow, hlen, hin, (Except.ok.inj h).symm⟩, fun h => by rw [h.2.2.2]⟩
    · rw [toInt_of_low hlow, bytesView_natCast, getBytes, view_natCast, if_neg hin]
      exact iff_of_false (fun h => by cases h) fun h => hin h.2.2.1
  · have hneg : ptr.toInt < 0 ∨ k * len.toInt < 0 := by
      by_cases hlow : Low ptr
      · have hlen := toInt_neg_of_high fun hlen => hrec ⟨hlow, hlen⟩
        exact .inr (mul_neg_of_pos_of_neg (by omega) hlen)
      · exact .inl (toInt_neg_of_high hlow)
    rw [bytesView_high hneg]
    exact iff_of_false (fun h => by cases h) fun h => hrec ⟨h.1, h.2.1⟩

theorem utf8Lift_iff :
    (Access.utf8Lift : Access α).Exact m ptr len ↔ (Access.utf8Lift : Access α).Fits m ptr len := by
  have hview : ∀ bytes, bytesView m ptr.toInt ((1 : Nat) * len.toInt) = .ok bytes ↔ _ :=
    bytesView_ok_iff Nat.one_pos
  rw [Nat.one_mul, Nat.cast_one, one_mul] at hview
  refine acts_iff_received (fun hin hrec => ?_) fun hno => error_of_not_ok fun t hok => ?_
  · refine ⟨_, ?_, rfl, hin⟩
    rw [stringLiftUtf8, (hview _).2 ⟨hrec.1, hrec.2, hin, rfl⟩]
    rfl
  · obtain ⟨bytes, hbytes, -⟩ := Js.bind_ok hok
    obtain ⟨hlow, hlen, hin, -⟩ := (hview _).1 hbytes
    exact hno ⟨hin, hlow, hlen⟩

theorem utf16Lift_iff :
    (Access.utf16Lift : Access α).Exact m ptr len ↔
      (Access.utf16Lift : Access α).Fits m ptr len := by
  have hview : ∀ bytes, bytesView m ptr.toInt ((2 : Nat) * len.toInt) = .ok bytes ↔ _ :=
    bytesView_ok_iff Nat.two_pos
  rw [Nat.cast_two] at hview
  refine acts_iff_received (fun hin hrec => ?_) fun hno => error_of_not_ok fun t hok => ?_
  · refine ⟨_, ?_, rfl, hin⟩
    rw [stringLiftUtf16, if_neg ((even_toInt hrec.1).2 hrec.2.2),
      (hview _).2 ⟨hrec.1, hrec.2.1, hin, rfl⟩]
    rfl
  · unfold stringLiftUtf16 at hok
    split at hok
    case isTrue => cases hok
    case isFalse heven =>
      obtain ⟨bytes, hbytes, -⟩ := Js.bind_ok hok
      obtain ⟨hlow, hlen, hin, -⟩ := (hview _).1 hbytes
      exact hno ⟨hin, hlow, hlen, (even_toInt hlow).1 heven⟩

/-! ## Items of an array -/

theorem writeBytes_nat {p : Nat} {bs : List UInt8} (h : p + bs.length ≤ m.length) :
    ∃ m', writeBytes m p bs = .ok m' ∧ m'.length = m.length := by
  obtain ⟨m', hset⟩ := setBytes_isSome h
  refine ⟨m', ?_, length_setBytes hset⟩
  unfold writeBytes
  rw [hset]

theorem lowerItems_ok {element : TypedArray} {vs : List Item} {p : Nat}
    (valid : ∀ v ∈ vs, requireValidNumericPrimitive element v = .ok () ∧
      ∃ bs, setterBytes element v = .ok bs)
    (hin : p + vs.length * elementSize element ≤ m.length) :
    ∃ m', lowerItems element m p vs = .ok m' := by
  induction vs generalizing m p with
  | nil => exact ⟨m, rfl⟩
  | cons v vs ih =>
    obtain ⟨hvalid, bs, hbytes⟩ := valid v mem_cons_self
    have hlen := length_setterBytes hbytes
    rw [length_cons, Nat.succ_mul] at hin
    have hfirst : p + bs.length ≤ m.length := by omega
    obtain ⟨m₁, hwrite, hsame⟩ := writeBytes_nat hfirst
    obtain ⟨m', hrest⟩ := ih (m := m₁) (p := p + elementSize element)
      (fun w hw => valid w (mem_cons_of_mem v hw)) (by omega)
    refine ⟨m', ?_⟩
    rw [lowerItems, hvalid, hbytes]
    change (ofJs (writeBytes m p bs) >>= _) = _
    rw [hwrite, ← hrest, Nat.cast_add]
    rfl

theorem canonLower_iff {element : TypedArray} {items : List Item}
    (valid : ∀ v ∈ items, requireValidNumericPrimitive element v = .ok () ∧
      ∃ bs, setterBytes element v = .ok bs) :
    (Access.canonLower element items valid : Access α).Exact m ptr len ↔
      (Access.canonLower element items valid : Access α).Fits m ptr len := by
  unfold Access.Exact Access.Fits
  dsimp only
  by_cases hempty : items = []
  · subst hempty
    exact iff_of_true ((acts_of_ok rfl).2 ⟨[], .nil, .inl ⟨rfl, rfl⟩⟩) (.inl rfl)
  rw [or_iff_right hempty]
  refine acts_iff_received (fun hin hlow => ?_) fun hno => error_of_not_ok fun m' hok => ?_
  · rw [toInt_of_low hlow]
    obtain ⟨m', hok⟩ := lowerItems_ok valid hin
    obtain ⟨bss, hall, hwritten⟩ := lowerItems_stored hok
    exact ⟨m', hok, bss, hall, hwritten⟩
  · obtain ⟨bss, hall, hwritten⟩ := lowerItems_stored hok
    have hlen := length_flatten hall
    rw [← hall.length_eq] at hlen
    rcases hwritten with ⟨hnil, -⟩ | hset
    · -- An item has bytes.
      rw [hnil, length_nil] at hlen
      have hsize := elementSize_pos element
      have hcount := length_pos_iff.2 hempty
      exact absurd hlen (Nat.mul_pos hcount hsize).ne
    · obtain ⟨hlow, hin⟩ := received_of_setBytes hset
      rw [hlen] at hin
      exact hno ⟨hin, hlow⟩

/-! ## Stores of elements -/

variable {base : Int}

theorem storeAll_ok_iff {ss : List (Nat × List UInt8)} :
    (∃ m', storeAll m base ss = .ok m') ↔
      ∀ s ∈ ss, 0 ≤ base + s.1 ∧ base + s.1 + s.2.length ≤ m.length := by
  induction ss generalizing m with
  | nil => exact iff_of_true ⟨m, rfl⟩ fun s hs => by cases hs
  | cons s ss ih =>
    rw [forall_mem_cons]
    by_cases hfirst : 0 ≤ base + s.1 ∧ base + s.1 + s.2.length ≤ m.length
    · obtain ⟨p, hp⟩ := eq_ofNat_of_zero_le hfirst.1
      have hin : p + s.2.length ≤ m.length := by omega
      obtain ⟨m₁, hwrite, hlen⟩ := writeBytes_nat hin
      rw [and_iff_right hfirst, ← hlen, ← ih, storeAll, hp, hwrite]
      rfl
    · refine iff_of_false (fun ⟨m', hok⟩ => hfirst ?_) fun h => hfirst h.1
      obtain ⟨m₁, hwrite, -⟩ := Js.bind_ok hok
      have hset := writeBytes_eq hwrite
      have hnonneg := setBytes_nonneg hset
      obtain ⟨p, hp⟩ := eq_ofNat_of_zero_le hnonneg
      rw [hp, setBytes_natCast] at hset
      rcases Option.ite_none_right_eq_some.1 hset with ⟨hin, hset⟩
      omega

/-- Bytes that no store covers stay. -/
theorem storeAll_frame {ss : List (Nat × List UInt8)}
    (h : storeAll m base ss = .ok m') : m'.length = m.length ∧
      ∀ a : Nat, (∀ s ∈ ss, ¬ (base + s.1 ≤ a ∧ a < base + s.1 + s.2.length)) → m'[a]? = m[a]? := by
  induction ss generalizing m with
  | nil =>
    cases h
    exact ⟨rfl, fun _ _ => rfl⟩
  | cons s ss ih =>
    obtain ⟨m₁, hwrite, hrest⟩ := Js.bind_ok h
    obtain ⟨hlen, hframe⟩ := ih hrest
    have hset := writeBytes_eq hwrite
    obtain ⟨p, hp⟩ := eq_ofNat_of_zero_le (setBytes_nonneg hset)
    rw [hp] at hset
    refine ⟨hlen.trans (length_setBytes hset), fun a ha => ?_⟩
    rw [forall_mem_cons] at ha
    rw [hframe a ha.2]
    exact setBytes_frame hset (by omega)

variable {size : Nat}

theorem listLower_ok_iff {es : List (ElementStores size)} :
    (∃ m', listLower m base es = .ok m') ↔ ∀ (i : Nat) e, es[i]? = some e → ∀ s ∈ e.stores,
      0 ≤ base + i * size + s.1 ∧ base + i * size + s.1 + s.2.length ≤ m.length := by
  induction es generalizing m base with
  | nil => exact iff_of_true ⟨m, rfl⟩ fun i e he => by cases he
  | cons e es ih =>
    constructor
    · rintro ⟨m', hok⟩ i e' he' s hs
      obtain ⟨m₁, hfirst, hrest⟩ := Js.bind_ok hok
      have hlen := (storeAll_frame hfirst).1
      cases i with
      | zero =>
        cases he'
        have := storeAll_ok_iff.1 ⟨m₁, hfirst⟩ s hs
        push_cast
        omega
      | succ i =>
        have := ih.1 ⟨m', hrest⟩ i e' he' s hs
        push_cast
        rw [add_mul, one_mul]
        omega
    · intro h
      have hinside : ∀ s ∈ e.stores, 0 ≤ base + s.1 ∧ base + s.1 + s.2.length ≤ m.length := by
        intro s hs
        have := h 0 e rfl s hs
        push_cast at this
        omega
      obtain ⟨m₁, hfirst⟩ := storeAll_ok_iff.2 hinside
      have hlen := (storeAll_frame hfirst).1
      obtain ⟨m', hrest⟩ : ∃ m', listLower m₁ (base + size) es = .ok m' := ih.2 fun i e' he' s hs => by
        have := h (i + 1) e' he' s hs
        push_cast at this
        rw [add_mul, one_mul] at this
        omega
      refine ⟨m', ?_⟩
      rw [listLower, hfirst]
      exact hrest

theorem listLower_frame {es : List (ElementStores size)}
    (h : listLower m base es = .ok m') (a : Nat)
    (ha : ¬ (base ≤ a ∧ a < base + es.length * size)) : m'[a]? = m[a]? := by
  induction es generalizing m base with
  | nil => rw [Except.ok.inj h]
  | cons e es ih =>
    obtain ⟨m₁, hfirst, hrest⟩ := Js.bind_ok h
    rw [length_cons] at ha
    push_cast at ha
    rw [add_mul, one_mul] at ha
    have hnonneg : 0 ≤ (es.length : Int) * size := by positivity
    rw [ih hrest (by omega)]
    refine (storeAll_frame hfirst).2 a fun s hs hin => ?_
    have := e.inside s hs
    omega

theorem lower_iff (elems : List (ElementStores size)) :
    (Access.lower size elems : Access α).Exact m ptr len ↔
      (Access.lower size elems : Access α).Fits m ptr len := by
  unfold Access.Exact Access.Fits
  dsimp only
  by_cases hempty : elems = []
  · subst hempty
    exact iff_of_true ((acts_of_ok rfl).2 ⟨rfl, .inl rfl, fun _ _ => rfl⟩) (.inl rfl)
  refine Iff.trans ?_ (or_iff_right hempty).symm
  by_cases hlow : Low ptr
  · rw [toInt_of_low hlow]
    by_cases hok : ∃ m', listLower m ptr.toNat elems = .ok m'
    · have hstores := listLower_ok_iff.1 hok
      obtain ⟨m', hok⟩ := hok
      rw [acts_of_ok hok]
      constructor
      · rintro ⟨-, hin, -⟩
        exact ⟨fun _ => hlow, fun hout => absurd (hin.resolve_left hempty) hout⟩
      · rintro ⟨-, hout⟩
        refine ⟨hok, .inr (by_contra fun hno => ?_), fun a ha => ?_⟩
        · obtain ⟨i, e, he, s, hs, hbeyond⟩ := hout hno hlow
          have := hstores i e he s hs
          omega
        · exact listLower_frame hok a (by omega)
    · -- Some store lies outside, so the range of the list does as well.
      obtain ⟨e, he⟩ := error_of_not_ok fun m' h => hok ⟨m', h⟩
      have hsome : ∃ i e, elems[i]? = some e ∧
          ∃ s ∈ e.stores, m.length < ptr.toNat + i * size + s.1 + s.2.length := by
        by_contra hno
        push Not at hno
        refine hok (listLower_ok_iff.2 fun i e he s hs => ?_)
        have := hno i e he s hs
        omega
      rw [acts_of_error he]
      refine iff_of_true (fun hin => ?_) ⟨fun _ => hlow, fun _ _ => hsome⟩
      obtain ⟨i, e, he, s, hs, hbeyond⟩ := hsome
      have hi := (List.getElem?_eq_some_iff.1 he).1
      have hinside := e.inside s hs
      have hle : (i + 1) * size ≤ elems.length * size := Nat.mul_le_mul_right _ hi
      rw [Nat.succ_mul] at hle
      change ptr.toNat + elems.length * size ≤ m.length at hin
      omega
  · -- The store at the base of the first element throws.
    have hneg := toInt_neg_of_high hlow
    have hno : ¬ ∃ m', listLower m ptr.toInt elems = .ok m' := by
      intro hok
      obtain ⟨e, es, rfl⟩ := exists_cons_of_ne_nil hempty
      obtain ⟨s, hs, hbase, -⟩ := e.atBase
      have := (listLower_ok_iff.1 hok 0 e rfl s hs).1
      push_cast at this
      omega
    obtain ⟨e, he⟩ := error_of_not_ok fun m' h => hno ⟨m', h⟩
    rw [acts_of_error he]
    exact ⟨fun hout => ⟨fun hin => absurd hin hout, fun _ h => absurd h hlow⟩,
      fun h hin => hlow (h.1 hin)⟩

/-! ## Reads of elements -/

theorem run_of_stays {base : Nat} {r : Reads α} (h : r.Stays m base) :
    r.run m base = .ok (r.element m base) := by
  induction r with
  | done a => rfl
  | load offset width next ih =>
    have hview : bytesView m ((base : Int) + offset) width =
        .ok (bytesAt m (base + offset) width) := by
      rw [← Nat.cast_add, bytesView_natCast, getBytes, view_natCast, if_pos h.1]
      rfl
    rw [Reads.run, hview]
    exact ih _ h.2

theorem run_of_not_stays {base : Nat} {r : Reads α} (h : ¬ r.Stays m base) :
    ∃ e, r.run m base = .error e := by
  induction r with
  | done a => exact absurd trivial h
  | load offset width next ih =>
    rw [Reads.run, ← Nat.cast_add, bytesView_natCast, getBytes, view_natCast]
    by_cases hin : base + offset + width ≤ m.length
    · rw [if_pos hin]
      exact ih _ fun hrest => h ⟨hin, hrest⟩
    · rw [if_neg hin]
      exact ⟨_, rfl⟩

theorem Reads.Within.stays {size base : Nat} {r : Reads α} (h : r.Within size)
    (hin : base + size ≤ m.length) : r.Stays m base := by
  induction r with
  | done a => trivial
  | load offset width next ih => exact ⟨by have := h.1; omega, ih _ (h.2 _)⟩

/-- The first read of an element throws below zero. -/
theorem run_high (e : ElementReads α size) (h : base < 0) :
    ∃ err, e.reads.run m base = .error err := by
  unfold ElementReads.reads
  rw [Reads.run, bytesView_high (.inl (by push_cast; omega))]
  exact ⟨_, rfl⟩

theorem liftElements_of_stays {size base count : Nat} (e : ElementReads α size)
    (h : ∀ i < count, e.reads.Stays m (base + i * size)) :
    liftElements e m base count =
      .ok ((List.range count).map fun i => e.reads.element m (base + i * size)) := by
  induction count generalizing base with
  | zero => rfl
  | succ count ih =>
    have hfirst := h 0 (Nat.succ_pos count)
    rw [Nat.zero_mul, Nat.add_zero] at hfirst
    have hshift : ∀ i, base + size + i * size = base + (i + 1) * size := fun i => by
      rw [Nat.succ_mul]
      omega
    have htail : ∀ i < count, e.reads.Stays m (base + size + i * size) := fun i hi => by
      rw [hshift]
      exact h (i + 1) (Nat.succ_lt_succ hi)
    have hrest := ih htail
    rw [liftElements, run_of_stays hfirst, ← Nat.cast_add, hrest, range_succ_eq_map,
      map_cons, map_map, Nat.zero_mul, Nat.add_zero]
    simp only [hshift]
    rfl

theorem liftElements_of_not_stays {size base count : Nat} (e : ElementReads α size)
    (h : ∃ i < count, ¬ e.reads.Stays m (base + i * size)) :
    ∃ err, liftElements e m base count = .error err := by
  induction count generalizing base with
  | zero =>
    obtain ⟨i, hi, -⟩ := h
    exact absurd hi (Nat.not_lt_zero i)
  | succ count ih =>
    by_cases hfirst : e.reads.Stays m base
    · obtain ⟨i, hi, hno⟩ := h
      cases i with
      | zero =>
        rw [Nat.zero_mul, Nat.add_zero] at hno
        exact absurd hfirst hno
      | succ i =>
        rw [Nat.succ_mul, Nat.add_comm (i * size), ← Nat.add_assoc] at hno
        obtain ⟨err, herr⟩ := ih ⟨i, Nat.lt_of_succ_lt_succ hi, hno⟩
        rw [liftElements, run_of_stays hfirst, ← Nat.cast_add, herr]
        exact ⟨err, rfl⟩
    · obtain ⟨err, herr⟩ := run_of_not_stays hfirst
      rw [liftElements, herr]
      exact ⟨err, rfl⟩

theorem lift_iff (elem : ElementReads α size) :
    (Access.lift size elem).Exact m ptr len ↔ (Access.lift size elem).Fits m ptr len := by
  unfold Access.Exact Access.Fits listLift
  dsimp only
  by_cases hlen : Low len
  case neg =>
    -- No element is read.
    have hneg := toInt_neg_of_high hlen
    have hnone : len.toInt.toNat = 0 := by omega
    have hmany : len.toNat ≠ 0 := fun h0 => hlen (by unfold Low; omega)
    refine iff_of_false (fun hexact => ?_) fun h => hlen h.1
    rw [hnone] at hexact
    have hcount := congrArg List.length ((acts_of_ok (b := []) rfl).1 hexact).1
    rw [length_map, length_range] at hcount
    exact hmany hcount.symm
  rw [and_iff_right hlen, toInt_of_low hlen, toNat_natCast]
  by_cases hzero : len.toNat = 0
  · rw [hzero]
    exact iff_of_true ((acts_of_ok rfl).2 ⟨rfl, .inl rfl⟩) (.inl rfl)
  refine Iff.trans ?_ (or_iff_right hzero).symm
  by_cases hlow : Low ptr
  case neg =>
    -- The first read of the first element throws.
    have herror : ∃ err, liftElements elem m ptr.toInt len.toNat = .error err := by
      obtain ⟨count, hcount⟩ := Nat.exists_eq_succ_of_ne_zero hzero
      obtain ⟨err, herr⟩ := run_high (m := m) elem (toInt_neg_of_high hlow)
      rw [hcount, liftElements, herr]
      exact ⟨err, rfl⟩
    obtain ⟨err, herr⟩ := herror
    rw [acts_of_error herr]
    exact ⟨fun hout => ⟨fun hin => absurd hin hout, fun _ h => absurd h hlow⟩,
      fun h hin => hlow (h.1 hin)⟩
  rw [toInt_of_low hlow]
  by_cases hstays : ∀ i < len.toNat, elem.reads.Stays m (ptr.toNat + i * size)
  · have hok := liftElements_of_stays elem hstays
    rw [acts_of_ok hok]
    constructor
    · rintro ⟨-, hin⟩
      refine ⟨fun _ => hlow, fun hout => absurd (hin.resolve_left fun hnil => ?_) hout⟩
      rw [map_eq_nil_iff, range_eq_nil] at hnil
      exact hzero hnil
    · rintro ⟨-, hout⟩
      refine ⟨rfl, .inr (by_contra fun hno => ?_)⟩
      obtain ⟨i, hi, hnot⟩ := hout hno hlow
      exact hnot (hstays i hi)
  · push Not at hstays
    obtain ⟨err, herr⟩ := liftElements_of_not_stays elem hstays
    rw [acts_of_error herr]
    refine iff_of_true (fun hin => ?_) ⟨fun _ => hlow, fun _ _ => hstays⟩
    obtain ⟨i, hi, hnot⟩ := hstays
    have hle : (i + 1) * size ≤ len.toNat * size := Nat.mul_le_mul_right _ hi
    rw [Nat.succ_mul] at hle
    change ptr.toNat + len.toNat * size ≤ m.length at hin
    exact hnot (elem.within.stays (by omega))

/-! ## Slices -/

/-- Positions that count from the end of a memory of `2 ^ 32` bytes are the unsigned ones. -/
theorem slice_eq_iff {length size : Nat} (hlength : length ≤ 2 ^ 32) (hn : 0 < len.toNat * size)
    (hin : ptr.toNat + len.toNat * size ≤ length) :
    slice length ptr.toInt (ptr.toInt + len.toInt * size) = (ptr.toNat, len.toNat * size) ↔
      Low ptr ∧ Low len ∨ length = 2 ^ 32 ∧ ptr.toNat + len.toNat * size < length := by
  have hsize : 0 < size := Nat.pos_of_mul_pos_left hn
  unfold slice clampIndex Low
  rw [Js.toInt_eq_ite ptr, Prod.mk.injEq]
  rcases Nat.lt_or_ge len.toNat (2 ^ 31) with hlow | hhigh
  · have hsigned : len.toInt * size = (len.toNat * size : Nat) := by
      rw [toInt_of_low hlow]
      push_cast
      rfl
    rw [hsigned]
    -- The product is one unknown: the positions and the clamps are linear in it.
    generalize len.toNat * size = n at *
    split_ifs <;> omega
  · have hsigned : len.toInt * size = (len.toNat * size : Nat) - (2 ^ 32 * size : Nat) := by
      rw [Js.toInt_eq_ite, if_neg (by omega)]
      push_cast
      ring
    have hhalf : 2 ^ 31 * size ≤ len.toNat * size := Nat.mul_le_mul_right _ hhigh
    rw [hsigned]
    generalize len.toNat * size = n at *
    split_ifs <;> omega

theorem canonLift_iff (element : TypedArray) (hm : m.length ≤ 2 ^ 32) :
    (Access.canonLift element : Access α).Exact m ptr len ↔
      (Access.canonLift element : Access α).Fits m ptr len := by
  unfold Access.Exact Access.Fits Access.InBounds Access.byteLength listCanonLift
  dsimp only
  by_cases hzero : len.toNat * elementSize element = 0
  · have hlen : len = 0 := BitVec.eq_of_toNat_eq
      ((Nat.mul_eq_zero.1 hzero).resolve_right (elementSize_pos element).ne')
    subst hlen
    have hcount : (slice m.length ptr.toInt
        (ptr.toInt + (0 : BitVec 32).toInt * elementSize element)).2 = 0 := by
      simp [slice]
    generalize slice m.length ptr.toInt _ = s at *
    obtain ⟨first, count⟩ := s
    obtain rfl : count = 0 := hcount
    rw [if_neg (by simp)]
    exact iff_of_true ((acts_of_ok rfl).2 ⟨by simp [bytesAt], .inl hzero⟩) (.inl hzero)
  have hpos := Nat.pos_of_ne_zero hzero
  refine Iff.trans ?_ (or_iff_right hzero).symm
  have hslice : ptr.toNat + len.toNat * elementSize element ≤ m.length →
      (slice m.length ptr.toInt (ptr.toInt + len.toInt * elementSize element) =
        (ptr.toNat, len.toNat * elementSize element) ↔ _) := slice_eq_iff hm hpos
  generalize slice m.length ptr.toInt _ = s at *
  obtain ⟨first, count⟩ := s
  by_cases hin : ptr.toNat + len.toNat * elementSize element ≤ m.length
  · refine Iff.trans ?_ (or_iff_left fun h => h.1 hin).symm
    refine Iff.trans ?_ ((hslice hin).trans (and_iff_right hin).symm)
    constructor
    · rintro (⟨bytes, -, -, hn | ⟨-, hexact⟩⟩ | ⟨hout, -⟩)
      · exact absurd hn hzero
      · exact hexact
      · exact absurd hin hout
    · intro hexact
      cases hexact
      refine .inl ⟨_, if_neg (not_not.2 (Nat.mul_mod_left _ _)), rfl, .inr ⟨hin, rfl⟩⟩
  · -- Only the constructor of the typed array can throw, on a number of bytes it cannot split.
    refine Iff.trans ?_ (or_iff_right fun h => hin h.1).symm
    constructor
    · rintro (⟨bytes, -, -, hn | ⟨hyes, -⟩⟩ | ⟨-, e, he⟩)
      · exact absurd hn hzero
      · exact absurd hyes hin
      · refine ⟨hin, fun hmultiple => ?_⟩
        rw [if_neg (not_not.2 hmultiple)] at he
        cases he
    · exact fun h => .inr ⟨hin, _, if_pos h.2⟩

end

/-- An access is exact in exactly these cases. -/
theorem pointers_exact_iff {α : Type} (m : Stream.Memory) (hm : m.length ≤ 2 ^ 32)
    (ptr len : BitVec 32) (access : Access α) :
    access.Exact m ptr len ↔ access.Fits m ptr len := by
  cases access with
  | canonLower element items valid => exact canonLower_iff valid
  | canonLowerView source offset n inside => exact canonLowerView_iff inside
  | canonLift element => exact canonLift_iff element hm
  | utf8Lower s => exact utf8Lower_iff s
  | utf16Lower str => exact utf16Lower_iff str
  | utf8Lift => exact utf8Lift_iff
  | utf16Lift => exact utf16Lift_iff
  | lower size elems => exact lower_iff elems
  | lift size elem => exact lift_iff elem

/-- A string of two bytes is lifted. -/
theorem pointers_exact_iff_string :
    (Access.utf8Lift : Access Nat).Exact [0x61, 0x62] 0 2 :=
  (pointers_exact_iff [0x61, 0x62] (by decide) 0 2 .utf8Lift).2
    fun _ => ⟨by decide, by decide⟩

/-- A list at the pointer `2 ^ 32 - 2` is read at the address `0`. -/
theorem list_read_elsewhere :
    listCanonLift (.ints .u8) [7, 8] (0xFFFFFFFE : BitVec 32).toInt (1 : BitVec 32).toInt =
        .ok [7] ∧
      ¬ (Access.canonLift (.ints .u8) : Access Nat).Exact [7, 8] 0xFFFFFFFE 1 := by
  refine ⟨by decide, ?_⟩
  rintro (⟨bytes, hok, hbytes, hn | ⟨hin, -⟩⟩ | ⟨-, e, he⟩)
  · exact absurd hn (by decide)
  · exact absurd hin (by unfold Access.InBounds; decide)
  · have hseven : listCanonLift (.ints .u8) [7, 8] (0xFFFFFFFE : BitVec 32).toInt
        (1 : BitVec 32).toInt = .ok [7] := by decide
    cases hseven.symm.trans he

end Jco.Bindgen

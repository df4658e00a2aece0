import Mathlib
import Jco.Codec.Image

/-! # Lifting an image

What the parts of `LiftFlat*` read at an aligned pointer where the canonical image of
a value lies: bytes and words, strings, discriminants, and the places of fields,
elements and entries.
-/

namespace Jco.Codec

open Jco.Js (JsError)
open Jco.Stream Jco.Lib Nat Ty Layout LittleEndian

variable {m : Memory} {p : Nat} {env : Env}

/-! ## Lifts -/

/-- The storage has `count` bytes left. -/
def Room (len : Option Int) (count : Nat) : Prop := ∀ l ∈ len, (count : Int) ≤ l

theorem Room.mono {len : Option Int} {a b : Nat} (h : Room len b) (hab : a ≤ b) : Room len a := by
  intro l hl
  have := h l hl
  omega

theorem Room.none (count : Nat) : Room none count := by
  intro l hl
  cases hl

/-- With room for `size` bytes the function answers `v` and moves on by `r`, and
takes at most `size` bytes of the room. -/
def Lifts (f : Lifter) (m : Memory) (p size r : Nat) (v : Val) : Prop :=
  ∀ len, Room len size → ∃ len', f m ⟨p, len⟩ = .ok (v, ⟨p + r, len'⟩) ∧
    ∀ k, Room len (size + k) → Room len' k

section

variable {bs : List UInt8} {count : Nat} {len : Option Int}

theorem liftBytes_ok (what : String) (h : HasBytes m p bs) (hlen : bs.length = count)
    (hpos : 0 < count) (hroom : Room len count) :
    ∃ len', liftBytes what count m ⟨p, len⟩ = .ok (bs, ⟨p + count, len'⟩) ∧
      ∀ k, Room len (count + k) → Room len' k := by
  unfold liftBytes
  cases len with
  | none =>
    rw [h.get hlen hpos]
    exact ⟨none, rfl, fun k _ => Room.none k⟩
  | some l =>
    have hl := hroom l rfl
    dsimp only
    rw [if_neg (by omega), h.get hlen hpos]
    refine ⟨some (l - count), rfl, fun k hk l' hl' => ?_⟩
    have := hk l rfl
    cases hl'
    push_cast at this
    omega

theorem liftU8_ok {n : Nat} (hn : n < 256) (h : HasBytes m p (bytes 1 n))
    (hroom : Room len 1) : ∃ len', liftU8 m ⟨p, len⟩ = .ok (n, ⟨p + 1, len'⟩) ∧
      ∀ k, Room len (1 + k) → Room len' k := by
  obtain ⟨len', heq, hk⟩ := liftBytes_ok "u8 requires 1 byte" h (by simp) one_pos hroom
  refine ⟨len', ?_, hk⟩
  unfold liftU8
  rw [heq, ok_bind]
  dsimp only
  rw [value_bytes_of_lt (by omega)]
  rfl

/-- The pointer is aligned behind the number, which keeps aligned ones. -/
theorem liftU16_ok {n : Nat} (hn : n < 65536) (h : HasBytes m p (bytes 2 n))
    (hp : p % 2 = 0) (hroom : Room len 2) :
    ∃ len', liftU16 m ⟨p, len⟩ = .ok (n, ⟨p + 2, len'⟩) ∧
      ∀ k, Room len (2 + k) → Room len' k := by
  obtain ⟨len', heq, hk⟩ := liftBytes_ok "u16 requires 2 bytes" h (by simp) two_pos hroom
  refine ⟨len', ?_, hk⟩
  unfold liftU16
  rw [heq, ok_bind]
  dsimp only
  rw [value_bytes_of_lt (by omega), alignTo_of_mod (by omega)]
  rfl

theorem liftU32_ok {n : Nat} (h : HasWord m p n) (hroom : Room len 4) :
    ∃ len', liftU32 m ⟨p, len⟩ = .ok (n, ⟨p + 4, len'⟩) ∧
      ∀ k, Room len (4 + k) → Room len' k := by
  obtain ⟨len', heq, hk⟩ := liftBytes_ok "u32 requires 4 bytes" h.2 (by simp) (by omega) hroom
  refine ⟨len', ?_, hk⟩
  unfold liftU32
  have := h.1
  rw [heq, ok_bind]
  dsimp only
  rw [value_bytes_of_lt (by omega)]
  rfl

theorem getUint32_ok {n : Nat} (h : HasWord m p n) : getUint32 m p = .ok n := by
  unfold getUint32
  have hlt := h.1
  have hlen : (bytes 4 n).length = 4 := length_bytes 4 n
  rw [h.2.get hlen (by omega), ok_bind, value_bytes_of_lt (by omega)]
  rfl

end

/-! ## Primitives -/

theorem liftFlatStringUtf8_ok {t : Utf8.Text} {q len : Nat} (hp : p % 4 = 0) (hq : HasWord m p q)
    (hlen : HasWord m (p + 4) len) (ht : TextAt .utf8 t m q len) :
    Lifts liftFlatStringUtf8 m p 8 8 (.str (.ofList (Utf8.stripMark t))) := by
  intro l hroom
  refine ⟨l, ?_, fun k hk => hk.mono (by omega)⟩
  obtain ⟨bs, hbs, hin, hbytes⟩ := ht
  cases hbs
  unfold liftFlatStringUtf8
  dsimp only
  rw [alignTo_of_mod hp, getUint32_ok hq, ok_bind, getUint32_ok hlen, ok_bind,
    getBytes_of_hasBytes hbytes hin, ok_bind, Utf8.decode, Utf8.decodeFrom_encode]
  rfl

/-! ## Fields -/

/-- The layout of fields, seen from an address that is aligned for all of them. -/
theorem record_facts {n : Nat} (ls : Fin n → Layout)
    (hp : p % (record (List.ofFn ls)).align = 0) :
    (∀ i, p % (ls i).align = 0) ∧
      extent (List.ofFn ls) 0 ≤ (record (List.ofFn ls)).size ∧
      ∀ c : Cursor, c.storagePtr = p + extent (List.ofFn ls) 0 →
        endOfFields p (record (List.ofFn ls)).size (record (List.ofFn ls)).align c =
          ⟨p + (record (List.ofFn ls)).size, c.storageLen⟩ := by
  have hle : extent (List.ofFn ls) 0 ≤ (record (List.ofFn ls)).size := le_alignTo _ _
  refine ⟨fun i => ?_, hle, fun c hc => ?_⟩
  · exact mod_of_le (ls i).isAlign (isAlign_maxAlign _)
      (align_le_maxAlign (List.mem_ofFn.2 ⟨i, rfl⟩)) hp
  · have hend : (p + (record (List.ofFn ls)).size) %
        (record (List.ofFn ls)).align = 0 := by
      rw [add_mod, hp, (Layout.record _).size_mod, zero_add, zero_mod]
    unfold endOfFields
    rw [hc, max_eq_right (by omega), alignTo_of_mod hend]

/-! ## Cases -/

/-- The codec chooses the width that the canonical ABI does. -/
theorem DiscriminantFits.cases {n : Nat} (h : DiscriminantFits n) :
    n < 256 ∧ discriminantSize n = 1 ∨ (256 ≤ n ∧ n < 65536) ∧ discriminantSize n = 2 ∨
      (65536 ≤ n ∧ n < 4294967296) ∧ discriminantSize n = 4 := by
  obtain ⟨h256, h65536, hlt⟩ := h
  unfold discriminantSize
  rcases lt_or_ge n 256 with h1 | h1
  · exact .inl ⟨h1, if_pos (by omega)⟩
  · rw [if_neg (by omega)]
    rcases lt_or_ge n 65536 with h2 | h2
    · exact .inr (.inl ⟨⟨h1, h2⟩, if_pos (by omega)⟩)
    · exact .inr (.inr ⟨⟨h2, by omega⟩, if_neg (by omega)⟩)

theorem liftDiscriminant_ok {n idx : Nat} (hfit : DiscriminantFits n) (hidx : idx < n)
    (hp : p % discriminantSize n = 0)
    (h : HasBytes m p (bytes (discriminantSize n) idx)) {len : Option Int}
    (hroom : Room len (discriminantSize n)) :
    ∃ ptr len', liftDiscriminant n m ⟨p, len⟩ = .ok (idx, ⟨ptr, len'⟩) ∧
      ∀ k, Room len (discriminantSize n + k) → Room len' k := by
  unfold liftDiscriminant
  rcases hfit.cases with ⟨hn, hsize⟩ | ⟨hn, hsize⟩ | ⟨hn, hsize⟩
  · rw [hsize] at h hroom ⊢
    obtain ⟨len', heq, hk⟩ := liftU8_ok (by omega) h hroom
    rw [if_pos hn]
    exact ⟨_, len', heq, hk⟩
  · rw [hsize] at h hp hroom ⊢
    obtain ⟨len', heq, hk⟩ := liftU16_ok (by omega) h hp hroom
    rw [if_neg (by omega), if_pos hn.2]
    exact ⟨_, len', heq, hk⟩
  · rw [hsize] at h hroom ⊢
    obtain ⟨len', heq, hk⟩ := liftU32_ok ⟨by omega, h⟩ hroom
    rw [if_neg (by omega), if_neg (by omega), if_pos hn.2]
    exact ⟨_, len', heq, hk⟩

/-! ## Lists and maps -/

/-- The two words of what lies elsewhere. -/
theorem liftPair_ok {q n : Nat} (hq : HasWord m p q) (hn : HasWord m (p + 4) n) :
    ∃ len₁ len₂, liftU32 m ⟨p, some 8⟩ = .ok (q, ⟨p + 4, len₁⟩) ∧
      liftU32 m ⟨p + 4, len₁⟩ = .ok (n, ⟨p + 8, len₂⟩) := by
  have hroom : Room (some 8) (4 + 4) := by
    intro l hl
    cases hl
    exact le_rfl
  obtain ⟨len₁, h₁, hk⟩ := liftU32_ok hq (hroom.mono (by omega))
  obtain ⟨len₂, h₂, -⟩ := liftU32_ok hn (hk 4 hroom)
  exact ⟨len₁, len₂, h₁, h₂⟩

/-! ## Types -/

theorem size_int (ty : IntTy) : (int ty).size = ty.bytes ∧ (int ty).align = ty.bytes := by
  cases ty <;> exact ⟨rfl, rfl⟩

theorem size_float (ty : FloatTy) :
    (float ty).size = ty.bytes ∧ (float ty).align = ty.bytes := by
  cases ty <;> exact ⟨rfl, rfl⟩

theorem elem_mod (elem : Ty) {q : Nat} (hq : q % elem.align = 0) (i : Nat) :
    (q + i * elem.size) % elem.align = 0 := by
  rw [add_mod, hq, mul_mod, elem.layout.size_mod]
  simp

/-- The places of the entries of a map. -/
theorem entry_facts (key value : Ty) {q : Nat} (hq : q % (entryLayout key value).align = 0)
    (i : Nat) :
    (q + i * (entryLayout key value).size) % key.align = 0 ∧
      (q + i * (entryLayout key value).size + valueOffset key value) % value.align = 0 ∧
      valueOffset key value + value.size ≤ (entryLayout key value).size := by
  have hentry : (q + i * (entryLayout key value).size) % (entryLayout key value).align = 0 := by
    rw [add_mod, hq, mul_mod, (entryLayout key value).size_mod]
    simp
  have hkey : key.align ≤ (entryLayout key value).align :=
    align_le_maxAlign (List.mem_cons_self ..)
  have hvalue : value.align ≤ (entryLayout key value).align :=
    align_le_maxAlign (List.mem_cons_of_mem _ (List.mem_cons_self ..))
  have hvalueAl := mod_of_le value.layout.isAlign (entryLayout key value).isAlign hvalue hentry
  refine ⟨mod_of_le key.layout.isAlign (entryLayout key value).isAlign hkey hentry, ?_, ?_⟩
  · rw [add_mod, hvalueAl, valueOffset, alignTo_mod value.layout.isAlign, zero_add,
      zero_mod]
  · refine le_trans (le_of_eq ?_) (le_alignTo _ _)
    simp only [extent, valueOffset, alignTo_of_mod (zero_mod key.align), zero_add]

theorem caseLayout_discriminant {n k : Nat} (payload : Fin n → Option (Fin k)) (tys : Fin k → Ty) :
    (caseLayout payload tys).discriminant = discriminantSize n :=
  congrArg discriminantSize (List.length_ofFn ..)

end Jco.Codec

import Mathlib
import Jco.Codec.LiftImage
import Jco.Lib.Utf16

/-! # Strings there and back

A string is lowered with the guest's allocator to a pointer and a length, and lifted
from the two words in memory or from two direct parameters.
-/

namespace Jco.Codec

open Jco.Js (JsError)
open Jco.Stream Jco.Lib LowerM LittleEndian Utf8

/-! ## Direct parameters -/

/-- `ctx.useDirectParams`: the common part of the two functions. -/
def liftFlatStringDirect (decode : List UInt8 → Utf8.Text) (m : Memory) :
    List Int → Except JsError (Val × List Int)
  | offset :: len :: params => do
      let bs ← bytesView m offset len
      return (.str (.ofList (decode bs)), params)
  | _ => .error (.error "expected at least two u32 arguments")

/-- The view has `len` bytes in both encodings. -/
def liftFlatStringAnyDirect (env : Env) : Memory → List Int → Except JsError (Val × List Int) :=
  match env.stringEncoding with
  | .utf8 => liftFlatStringDirect Utf8.decode
  | .utf16 => liftFlatStringDirect Utf16.decode
  | enc => fun _ _ =>
    .error (.error s!"missing/unrecognized/unsupported string encoding [{enc.literal}]")

/-! ## Round trips -/

/-- The i32 that core code reads at an address. -/
def loadI32 (m : Memory) (p : Nat) : Except JsError Int :=
  (getUint32 m p).map (LittleEndian.signed 4)

/-- How a string comes back. -/
inductive Way where
  | memory
  | direct
deriving DecidableEq, Repr

variable {env : Env} {t : Utf8.Text} {m m' m₁ : Memory} {p q size align : Nat}

/-- The string at `p` is lifted as `t`, from memory with the pointer moved by the size of
a string. -/
def LiftedAs (env : Env) (way : Way) (t : Utf8.Text) (m : Memory) (p : Nat) : Prop :=
  match way with
  | .memory => ∀ len, Room len 8 → ∃ len',
      liftFlatStringAny env m ⟨p, len⟩ = .ok (.str (.ofList t), ⟨p + 8, len'⟩)
  | .direct => ∃ ptr len, loadI32 m p = .ok ptr ∧ loadI32 m (p + 4) = .ok len ∧
      liftFlatStringAnyDirect env m [ptr, len] = .ok (.str (.ofList t), [])

/-- Lowering moves the pointer by the size of a string, and lifting answers the string
again. -/
def RoundTrips (env : Env) (way : Way) (t : Utf8.Text) (m : Memory) (p : Nat) : Prop :=
  ∃ m', lowerFlatStringAny env (.str (.ofList t)) p m = (.ok (p + 8), m') ∧
    LiftedAs env way t m' p

/-- What the guest's allocator answers when it is asked for `size` bytes while the string
is to be stored at `p`: a block of the memory, apart from `p`, as an i32. -/
structure Block (env : Env) (align size : Nat) (m : Memory) (p q : Nat) (m₁ : Memory) : Prop where
  answer : ∃ f, env.realloc = some f ∧
    f m align (size % 2 ^ 32) = (m₁, some (LittleEndian.signed 4 q))
  pointer : q < 2 ^ 32
  aligned : q % align = 0
  small : size < 2 ^ 32
  inside : q + size ≤ m₁.length
  apart : ∀ a, q ≤ a → a < q + size → ¬ (p ≤ a ∧ a < p + 8)
  grows : m.length ≤ m₁.length
  addressable : m₁.length ≤ 2 ^ 32

/-- The alignment and the size of the block for a string. -/
def blockOf (enc : StringEncoding) (t : Utf8.Text) : Nat × Nat :=
  match enc with
  | .utf8 => (1, (Utf8.encode t).length)
  | _ => (2, (codeUnits t).length * 2)

/-- When a string comes back. -/
def ComesBack (enc : StringEncoding) (way : Way) (t : Utf8.Text) (q : Nat) : Prop :=
  match enc, way with
  | .utf8, .memory => (t = [] ∨ q < 2 ^ 31) ∧ t.head? ≠ some Utf8.byteOrderMark
  | .utf8, .direct => (t = [] ∨ q < 2 ^ 31) ∧ t.head? ≠ some Utf8.byteOrderMark ∧
      (Utf8.encode t).length < 2 ^ 31
  | .utf16, .direct => (t = [] ∨ t = [Utf8.replacement]) ∧ q < 2 ^ 31
  | _, _ => False

/-! ## Stores -/

theorem store_run {bs : List UInt8} (h : p + bs.length ≤ m.length) :
    ∃ m', store p bs m = (.ok (), m') ∧ HasBytes m' p bs ∧ m'.length = m.length ∧
      ∀ a, ¬ (p ≤ a ∧ a < p + bs.length) → m'[a]? = m[a]? := by
  obtain ⟨m', hset⟩ := setBytes_isSome h
  exact ⟨m', store_ok hset, hasBytes_setBytes hset, length_setBytes hset,
    fun a ha => setBytes_frame hset ha⟩

theorem lowerPair_run (h : p + 8 ≤ m.length) (ptr : Int) (len : Nat) :
    ∃ m', lowerPair p ptr len m = (.ok (p + 8), m') ∧
      HasWord m' p (word 4 ptr) ∧ HasWord m' (p + 4) (word 4 len) ∧
      m'.length = m.length ∧ ∀ a, ¬ (p ≤ a ∧ a < p + 8) → m'[a]? = m[a]? := by
  have hin₁ : p + (bytes 4 (word 4 ptr)).length ≤ m.length := by
    rw [length_bytes]
    omega
  obtain ⟨m₁, hrun₁, hbytes₁, hlen₁, hframe₁⟩ := store_run hin₁
  have hin₂ : p + 4 + (bytes 4 (word 4 len)).length ≤ m₁.length := by
    rw [length_bytes]
    omega
  obtain ⟨m₂, hrun₂, hbytes₂, hlen₂, hframe₂⟩ := store_run hin₂
  rw [length_bytes] at hframe₁ hframe₂
  refine ⟨m₂, ?_, ⟨word_lt 4 ptr, ?_⟩, ⟨word_lt 4 len, hbytes₂⟩,
    hlen₂.trans hlen₁, ?_⟩
  · unfold lowerPair
    rw [run_ok hrun₁, run_ok hrun₂]
    rfl
  · refine hbytes₁.congr fun a hlow hup => hframe₂ a ?_
    rw [length_bytes] at hup
    omega
  · intro a ha
    rw [hframe₂ a (by omega), hframe₁ a (by omega)]

/-! ## Lowering -/

theorem Block.realloc_run (h : Block env align size m p q m₁) (missing : String) :
    realloc env missing align size m = (.ok (signed 4 q), m₁) := by
  obtain ⟨f, hf, hanswer⟩ := h.answer
  unfold realloc
  rw [hf]
  dsimp only
  rw [hanswer]

/-- Bytes go to the block and the pair to `p`. -/
theorem Block.store_run {bs : List UInt8} (h : Block env align bs.length m p q m₁)
    (hp : p + 8 ≤ m.length) (hq : q < 2 ^ 31) (len : Nat) :
    ∃ m', (storeAt (signed 4 q) bs >>= fun _ =>
        lowerPair p (signed 4 q) len) m₁ = (.ok (p + 8), m') ∧
      HasWord m' p q ∧ HasWord m' (p + 4) (word 4 len) ∧ HasBytes m' q bs ∧
      q + bs.length ≤ m'.length := by
  have hgrows := h.grows
  have hinside := h.inside
  rw [signed_low (by omega)]
  obtain ⟨m₂, hrun, hbytes, hlen₂, -⟩ := Codec.store_run h.inside
  obtain ⟨m₃, hpair, hptr, hcount, hlen₃, hframe⟩ :=
    lowerPair_run (m := m₂) (p := p) (by omega) (q : Int) len
  have hstore : storeAt (q : Int) bs m₁ = (.ok (), m₂) := by
    unfold storeAt
    rw [if_neg (by omega), Int.toNat_natCast]
    exact hrun
  rw [word_of_lt (by omega)] at hptr
  refine ⟨m₃, ?_, hptr, hcount, ?_, by omega⟩
  · rw [run_ok hstore]
    exact hpair
  · exact hbytes.congr fun a hlow hup => hframe a (h.apart a hlow hup)

/-- A pointer of the upper half is negative. -/
theorem storeAt_high (hq : 2 ^ 31 ≤ q) (hlt : q < 2 ^ 32) (bs : List UInt8) (m : Memory) :
    storeAt (signed 4 q) bs m = (.error (.throws .engine), m) := by
  unfold storeAt
  rw [if_pos (signed_neg (by omega) (by omega))]
  rfl

theorem lowerFlatStringUtf8_eq {f : Memory → Nat → Nat → Memory × Option Int}
    (hf : env.realloc = some f) (v : Val) (p : Nat) :
    lowerFlatStringUtf8 env v p = utf8Encode env v >>= fun r => lowerPair p r.1 r.2 := by
  unfold lowerFlatStringUtf8
  rw [hf]
  rfl

theorem lowerFlatStringUtf16_eq {f : Memory → Nat → Nat → Memory × Option Int}
    (hf : env.realloc = some f) (v : Val) (p : Nat) :
    lowerFlatStringUtf16 env v p = utf16Encode env v >>= fun r => lowerPair p r.1 r.2 := by
  unfold lowerFlatStringUtf16
  rw [hf]
  rfl

theorem textOf_str (t : Utf8.Text) : textOf (.str (.ofList t)) = some t :=
  congrArg some String.toList_ofList

theorem unitsOf_str (t : Utf8.Text) : unitsOf (.str (.ofList t)) = some (codeUnits t) :=
  congrArg (some ∘ codeUnits) String.toList_ofList

theorem utf8Encode_nil (env : Env) :
    utf8Encode env (.str (.ofList [])) = (pure (1, 0) : LowerM (Int × Nat)) := by
  unfold utf8Encode
  rw [textOf_str]

theorem utf8Encode_cons (env : Env) (ht : t ≠ []) :
    utf8Encode env (.str (.ofList t)) =
      realloc env missingRealloc 1 (encode t).length >>= fun ptr =>
        storeAt ptr (encode t) >>= fun _ => pure (ptr, (encode t).length) := by
  unfold utf8Encode
  rw [textOf_str]
  cases t with
  | nil => exact absurd rfl ht
  | cons c t => rfl

theorem utf16Encode_eq (env : Env) (t : Utf8.Text) :
    utf16Encode env (.str (.ofList t)) =
      realloc env missingRealloc 2 ((codeUnits t).length * 2) >>= fun ptr =>
        if ptr % 2 ≠ 0 then throws .engine
        else storeAt ptr ((codeUnits t).flatMap (bytes 2)) >>= fun _ =>
          pure (ptr, (codeUnits t).length) := by
  unfold utf16Encode
  rw [unitsOf_str]
  refine congrArg (realloc env missingRealloc 2 ((codeUnits t).length * 2) >>= ·)
    (funext fun ptr => ?_)
  by_cases hodd : ptr % 2 ≠ 0
  · rw [if_pos hodd, if_pos hodd]
    rfl
  · rw [if_neg hodd, if_neg hodd]

/-- The string is stored: its bytes at `q`, and the pair at `p`. -/
structure Stored (bs : List UInt8) (m : Memory) (p q count : Nat) : Prop where
  pointer : q < 2 ^ 31
  ptr : HasWord m p q
  len : HasWord m (p + 4) count
  bytes : HasBytes m q bs
  inside : q + bs.length ≤ m.length

theorem Block.store_pair {bs : List UInt8} (h : Block env align bs.length m p q m₁)
    (hp : p + 8 ≤ m.length) (hq : q < 2 ^ 31) {count : Nat} (hcount : count < 2 ^ 32) :
    ∃ m', ((storeAt (signed 4 q) bs >>= fun _ =>
        (pure (signed 4 q, count) : LowerM (Int × Nat))) >>= fun r =>
          lowerPair p r.1 r.2) m₁ = (.ok (p + 8), m') ∧ Stored bs m' p q count := by
  obtain ⟨m', hrun, hptr, hlen, hbytes, hinside⟩ := h.store_run hp hq count
  rw [word_of_lt (by omega)] at hlen
  refine ⟨m', ?_, hq, hptr, hlen, hbytes, hinside⟩
  have hassoc : ∀ x : LowerM Unit, ((x >>= fun _ =>
      (pure (signed 4 q, count) : LowerM (Int × Nat))) >>= fun r =>
        lowerPair p r.1 r.2) m₁ = (x >>= fun _ => lowerPair p (signed 4 q) count) m₁ := by
    intro x
    rw [bind_def, bind_def, bind_def]
    rcases x m₁ with ⟨e | a, m₂⟩ <;> rfl
  rw [hassoc]
  exact hrun

theorem lowerUtf8_stored (h : Block env 1 (encode t).length m p q m₁)
    (hp : p + 8 ≤ m.length) (hok : t = [] ∨ q < 2 ^ 31) :
    ∃ m' q', lowerFlatStringUtf8 env (.str (.ofList t)) p m = (.ok (p + 8), m') ∧
      Stored (encode t) m' p q' (encode t).length := by
  obtain ⟨f, hf, -⟩ := h.answer
  rw [lowerFlatStringUtf8_eq hf]
  by_cases ht : t = []
  · subst ht
    obtain ⟨m', hpair, hptr, hlen, hlength, -⟩ := lowerPair_run hp 1 0
    refine ⟨m', 1, ?_, by decide, hptr, hlen, fun i hi => absurd hi (Nat.not_lt_zero i), ?_⟩
    · rw [utf8Encode_nil]
      exact hpair
    · show 1 + 0 ≤ m'.length
      omega
  · obtain ⟨m', hrun, hstored⟩ := h.store_pair hp (hok.resolve_left ht) h.small
    refine ⟨m', q, ?_, hstored⟩
    rw [utf8Encode_cons env ht, bind_def, run_ok (h.realloc_run missingRealloc)]
    exact hrun

theorem lowerUtf8_high (h : Block env 1 (encode t).length m p q m₁) (ht : t ≠ [])
    (hq : 2 ^ 31 ≤ q) :
    lowerFlatStringUtf8 env (.str (.ofList t)) p m = (.error (.throws .engine), m₁) := by
  obtain ⟨f, hf, -⟩ := h.answer
  rw [lowerFlatStringUtf8_eq hf, utf8Encode_cons env ht]
  refine run_error ?_
  rw [run_ok (h.realloc_run missingRealloc)]
  exact run_error (storeAt_high hq h.pointer _ m₁)

theorem length_units (t : Utf8.Text) :
    ((codeUnits t).flatMap (bytes 2)).length = (codeUnits t).length * 2 := by
  simp [List.length_flatMap]

theorem signed_even (heven : q % 2 = 0) : signed 4 q % 2 = 0 := by
  unfold signed
  split <;> omega

theorem lowerUtf16_stored (h : Block env 2 ((codeUnits t).length * 2) m p q m₁)
    (hp : p + 8 ≤ m.length) (hq : q < 2 ^ 31) :
    ∃ m', lowerFlatStringUtf16 env (.str (.ofList t)) p m = (.ok (p + 8), m') ∧
      Stored ((codeUnits t).flatMap (bytes 2)) m' p q (codeUnits t).length := by
  obtain ⟨f, hf, -⟩ := h.answer
  have hrealloc := h.realloc_run missingRealloc
  have hsmall := h.small
  have haligned := signed_even h.aligned
  have hcount : (codeUnits t).length < 2 ^ 32 := by omega
  rw [← length_units] at h
  obtain ⟨m', hrun, hstored⟩ := h.store_pair hp hq hcount
  refine ⟨m', ?_, hstored⟩
  rw [lowerFlatStringUtf16_eq hf, utf16Encode_eq, bind_def, run_ok hrealloc,
    if_neg (not_not.2 haligned)]
  exact hrun

theorem lowerUtf16_high (h : Block env 2 ((codeUnits t).length * 2) m p q m₁) (hq : 2 ^ 31 ≤ q) :
    lowerFlatStringUtf16 env (.str (.ofList t)) p m = (.error (.throws .engine), m₁) := by
  obtain ⟨f, hf, -⟩ := h.answer
  have haligned := signed_even h.aligned
  rw [lowerFlatStringUtf16_eq hf, utf16Encode_eq]
  refine run_error ?_
  rw [run_ok (h.realloc_run missingRealloc), if_neg (not_not.2 haligned)]
  exact run_error (storeAt_high hq h.pointer _ m₁)

/-! ## Lifting -/

theorem str_ofList_inj {a b : Utf8.Text} : Val.str (.ofList a) = Val.str (.ofList b) ↔ a = b := by
  refine ⟨fun hab => ?_, fun hab => congrArg (fun t => Val.str (.ofList t)) hab⟩
  have hlists := congrArg String.toList (Atom.str.inj (Val.atom.inj hab))
  rwa [String.toList_ofList, String.toList_ofList] at hlists

theorem loadI32_ok {w : Nat} (h : HasWord m p w) : loadI32 m p = .ok (signed 4 w) := by
  unfold loadI32
  rw [getUint32_ok h]
  rfl

section

variable {bs : List UInt8} {count : Nat}

/-- The direct parameters are what is stored, with a length of the upper half negative. -/
theorem Stored.direct_iff (h : Stored bs m p q count) (hcount : count < 2 ^ 32)
    (hle : count ≤ bs.length) {decode : List UInt8 → Utf8.Text}
    (henv : liftFlatStringAnyDirect env = liftFlatStringDirect decode) (t : Utf8.Text) :
    LiftedAs env .direct t m p ↔ decode (bs.take count) = t ∧ count < 2 ^ 31 := by
  have hptr := loadI32_ok h.ptr
  have hpointer := h.pointer
  rw [signed_low (by omega)] at hptr
  have hlen := loadI32_ok h.len
  constructor
  · rintro ⟨ptr, len, hptr', hlen', hlift⟩
    cases hptr.symm.trans hptr'
    cases hlen.symm.trans hlen'
    rw [henv] at hlift
    by_cases hlow : count < 2 ^ 31
    · rw [signed_low (by omega)] at hlift
      unfold liftFlatStringDirect at hlift
      dsimp only at hlift
      rw [bytesView_ok h.bytes h.inside hle, ok_bind] at hlift
      exact ⟨str_ofList_inj.1 (Prod.mk.inj (Except.ok.inj hlift)).1, hlow⟩
    · -- A view of negative length throws.
      have hneg : signed 4 count < 0 := signed_neg (by omega) (by omega)
      unfold liftFlatStringDirect bytesView at hlift
      dsimp only at hlift
      rw [if_pos hneg] at hlift
      cases hlift
  · rintro ⟨rfl, hlow⟩
    rw [signed_low (by omega)] at hlen
    refine ⟨q, count, hptr, hlen, ?_⟩
    rw [henv]
    unfold liftFlatStringDirect
    dsimp only
    rw [bytesView_ok h.bytes h.inside hle]
    rfl

end

theorem lifted_utf8_memory {t' : Utf8.Text} (henc : env.stringEncoding = .utf8)
    (h : Stored (encode t) m p q (encode t).length) (hp : p % 4 = 0) :
    LiftedAs env .memory t' m p ↔ stripMark t = t' := by
  have hany : liftFlatStringAny env = liftFlatStringUtf8 := by
    funext m c
    unfold liftFlatStringAny
    rw [henc]
  have hlift := liftFlatStringUtf8_ok hp h.ptr h.len ⟨encode t, rfl, h.inside, h.bytes⟩
  unfold LiftedAs
  rw [hany]
  constructor
  · intro hall
    obtain ⟨len', heq⟩ := hall none (Room.none 8)
    obtain ⟨len'', heq', -⟩ := hlift none (Room.none 8)
    exact str_ofList_inj.1 (Prod.mk.inj (Except.ok.inj (heq'.symm.trans heq))).1
  · rintro rfl len hroom
    obtain ⟨len', heq, -⟩ := hlift len hroom
    exact ⟨len', heq⟩

theorem lifted_utf16_memory (henc : env.stringEncoding = .utf16) :
    ¬ LiftedAs env .memory t m p := by
  intro hall
  obtain ⟨len', heq⟩ := hall none (Room.none 8)
  unfold liftFlatStringAny at heq
  rw [henc] at heq
  cases heq

theorem codeUnits_eq (t : Utf8.Text) : codeUnits t = (Utf16.encode t).map UInt16.toNat := by
  induction t with
  | nil => rfl
  | cons c t ih =>
    have hrange := point_range c
    unfold codeUnits at ih ⊢
    rw [List.flatMap_cons, ih, Utf16.encode_cons, List.map_append]
    refine congrArg (· ++ _) ?_
    unfold Utf16.encodeChar
    split
    case isTrue h => rw [List.map_singleton, Utf16.toNat_ofNat_unit h]
    case isFalse h =>
      rw [List.map_cons, List.map_singleton, Utf16.toNat_ofNat_unit (by omega),
        Utf16.toNat_ofNat_unit (by omega)]

/-- The view of a UTF-16 string has half of its bytes: too few for any text but the
replacement character, for which half a unit is read. -/
theorem decode_half_iff (t : Utf8.Text) :
    Utf16.decode (((codeUnits t).flatMap (bytes 2)).take (codeUnits t).length) = t ↔
      t = [] ∨ t = [replacement] := by
  have hcount : (codeUnits t).length = (Utf16.encode t).length := by
    rw [codeUnits_eq, List.length_map]
  constructor
  · intro h
    have hle := Utf16.length_encode_decode_le
      (((codeUnits t).flatMap (bytes 2)).take (codeUnits t).length)
    rw [h, List.length_take, length_units, ← hcount] at hle
    -- So many bytes make no more than half as many units: one or none.
    rcases hunits : codeUnits t with _ | ⟨u, _ | ⟨v, us⟩⟩
    · rw [hunits] at h
      exact .inl h.symm
    · rw [hunits] at h
      exact .inr h.symm
    · rw [hunits] at hle
      simp only [List.length_cons] at hle
      omega
  · rintro (rfl | rfl) <;> decide

/-! ## There and back -/

theorem roundTrips_of_run {way : Way}
    (hrun : lowerFlatStringAny env (.str (.ofList t)) p m = (.ok (p + 8), m')) :
    RoundTrips env way t m p ↔ LiftedAs env way t m' p := by
  constructor
  · rintro ⟨m'', hrun', hlift⟩
    obtain rfl := (Prod.mk.inj (hrun.symm.trans hrun')).2
    exact hlift
  · intro hlift
    exact ⟨m', hrun, hlift⟩

theorem not_roundTrips_of_error {way : Way} {e : Stop}
    (hrun : lowerFlatStringAny env (.str (.ofList t)) p m = (.error e, m')) :
    ¬ RoundTrips env way t m p := by
  rintro ⟨m'', hrun', -⟩
  cases (Prod.mk.inj (hrun.symm.trans hrun')).1

theorem utf8_trip_iff (henc : env.stringEncoding = .utf8)
    (hblock : Block env 1 (encode t).length m p q m₁) (hp : p % 4 = 0)
    (hstorage : p + 8 ≤ m.length) (way : Way) :
    RoundTrips env way t m p ↔ ComesBack .utf8 way t q := by
  have hlower : lowerFlatStringAny env = lowerFlatStringUtf8 env := by
    funext v p
    unfold lowerFlatStringAny
    rw [henc]
  have hdirect : liftFlatStringAnyDirect env = liftFlatStringDirect decode := by
    unfold liftFlatStringAnyDirect
    rw [henc]
  by_cases hok : t = [] ∨ q < 2 ^ 31
  · obtain ⟨m', q', hrun, hstored⟩ := lowerUtf8_stored hblock hstorage hok
    rw [← hlower] at hrun
    rw [roundTrips_of_run hrun]
    cases way with
    | memory =>
      rw [lifted_utf8_memory henc hstored hp, stripMark_eq_iff]
      exact (and_iff_right hok).symm
    | direct =>
      rw [hstored.direct_iff hblock.small le_rfl hdirect, List.take_length, decode,
        decodeFrom_encode, stripMark_eq_iff]
      exact (and_iff_right hok).symm
  · -- The view of the block throws before anything is stored.
    have hhigh := lowerUtf8_high hblock (not_or.1 hok).1 (not_lt.1 (not_or.1 hok).2)
    rw [← hlower] at hhigh
    refine iff_of_false (not_roundTrips_of_error hhigh) fun h => hok ?_
    cases way with
    | memory => exact h.1
    | direct => exact h.1

theorem utf16_trip_iff (henc : env.stringEncoding = .utf16)
    (hblock : Block env 2 ((codeUnits t).length * 2) m p q m₁) (hstorage : p + 8 ≤ m.length)
    (way : Way) : RoundTrips env way t m p ↔ ComesBack .utf16 way t q := by
  have hlower : lowerFlatStringAny env = lowerFlatStringUtf16 env := by
    funext v p
    unfold lowerFlatStringAny
    rw [henc]
  have hdirect : liftFlatStringAnyDirect env = liftFlatStringDirect Utf16.decode := by
    unfold liftFlatStringAnyDirect
    rw [henc]
  have hsmall := hblock.small
  by_cases hq : q < 2 ^ 31
  · obtain ⟨m', hrun, hstored⟩ := lowerUtf16_stored hblock hstorage hq
    rw [← hlower] at hrun
    rw [roundTrips_of_run hrun]
    cases way with
    -- From memory the lift reads a variable that is not there.
    | memory => exact iff_false_intro (lifted_utf16_memory henc)
    | direct =>
      rw [hstored.direct_iff (by omega) (by rw [length_units]; omega) hdirect, decode_half_iff]
      exact and_congr_right fun _ => iff_of_true (by omega) hq
  · have hhigh := lowerUtf16_high hblock (not_lt.1 hq)
    rw [← hlower] at hhigh
    refine iff_of_false (not_roundTrips_of_error hhigh) fun h => hq ?_
    cases way with
    | memory => exact h.elim
    | direct => exact h.2

/-- A string comes back in exactly these cases, wherever the storage and the block are. -/
theorem round_trip_iff {enc : StringEncoding} (henc : env.stringEncoding = enc)
    (hblock : Block env (blockOf enc t).1 (blockOf enc t).2 m p q m₁) (hp : p % 4 = 0)
    (hstorage : p + 8 ≤ m.length) (way : Way) :
    RoundTrips env way t m p ↔ ComesBack enc way t q := by
  cases enc with
  | utf8 => exact utf8_trip_iff henc hblock hp hstorage way
  | utf16 => exact utf16_trip_iff henc hblock hstorage way
  | compactUtf16 =>
    -- The encoding is refused.
    have hrun : lowerFlatStringAny env (.str (.ofList t)) p m =
        (.error (.throws (.error
          "missing/unrecognized/unsupported string encoding [compact-utf16]")), m) := by
      unfold lowerFlatStringAny
      rw [henc]
      rfl
    refine iff_of_false (not_roundTrips_of_error hrun) fun h => ?_
    cases way <;> exact h

/-- An allocator with one block, at `16` in a memory of `32` bytes. -/
def blockEnv (enc : StringEncoding) : Env where
  stringEncoding := enc
  realloc := some fun m _ _ => (m, some 16)
  liftHandle _ _ := .error .engine
  lowerHandle _ _ := .error .engine

theorem blockEnv_block (enc : StringEncoding) (t : Utf8.Text) (h : (blockOf enc t).2 ≤ 16) :
    Block (blockEnv enc) (blockOf enc t).1 (blockOf enc t).2 (List.replicate 32 0) 0 16
      (List.replicate 32 0) := by
  have halign : (blockOf enc t).1 = 1 ∨ (blockOf enc t).1 = 2 := by
    cases enc
    · exact .inl rfl
    · exact .inr rfl
    · exact .inr rfl
  have hlen : (List.replicate 32 (0 : UInt8)).length = 32 := List.length_replicate
  constructor
  case answer => exact ⟨_, rfl, by decide⟩
  case pointer => decide
  case aligned => rcases halign with h | h <;> rw [h]
  case small => omega
  case inside => omega
  case apart => omega
  case grows => exact le_rfl
  case addressable => omega

/-- Characters of one, two, three and four bytes: Latin, Cyrillic and Chinese letters and a
sign beyond the basic plane, with a byte order mark that does not come first. -/
def scripts : Utf8.Text := ['a', 'д', '漢', '𝄞', byteOrderMark, 'z']

/-- From UTF-8 they come back, and from UTF-16 they do not. -/
theorem round_trip_iff_scripts :
    RoundTrips (blockEnv .utf8) .memory scripts (List.replicate 32 0) 0 ∧
      RoundTrips (blockEnv .utf8) .direct scripts (List.replicate 32 0) 0 ∧
      ¬ RoundTrips (blockEnv .utf16) .memory scripts (List.replicate 32 0) 0 := by
  have hblock := blockEnv_block .utf8 scripts (by decide)
  have hhead : scripts.head? ≠ some byteOrderMark := by decide
  refine ⟨?_, ?_, ?_⟩
  · exact (round_trip_iff rfl hblock rfl (by decide) .memory).2 ⟨.inr (by decide), hhead⟩
  · exact (round_trip_iff rfl hblock rfl (by decide) .direct).2
      ⟨.inr (by decide), hhead, by decide⟩
  · exact (round_trip_iff rfl (blockEnv_block .utf16 scripts (by decide)) rfl (by decide)
      .memory).1

/-- A string of a byte order mark and a letter comes back without the mark. -/
theorem mark_does_not_come_back :
    ¬ ∀ (env : Env) (t : Utf8.Text) (m m₁ : Memory) (p q : Nat) (enc : StringEncoding) (way : Way),
      env.stringEncoding = enc → enc = .utf8 ∨ enc = .utf16 →
      Block env (blockOf enc t).1 (blockOf enc t).2 m p q m₁ → p % 4 = 0 → p + 8 ≤ m.length →
      RoundTrips env way t m p := by
  intro hall
  have hblock := blockEnv_block .utf8 [byteOrderMark, 'a'] (by decide)
  have htrip := hall _ _ _ _ _ _ .utf8 .memory rfl (.inl rfl) hblock rfl (by decide)
  exact ((utf8_trip_iff rfl hblock rfl (by decide) .memory).1 htrip).2 rfl

end Jco.Codec

import Mathlib
import Jco.Bindgen.View
import Jco.Lib.Run
import Jco.Lib.Utf16

/-! # Transcoders

The trampolines between the string encodings of two components. The adapter of the
components calls them with pointers it has checked, for which JavaScript receives
i32 values. A typed array of units has the byte order of the host, which is taken
to be little-endian.
-/

namespace Jco.Bindgen

open Jco.Js (JsError Low low_of_nonneg toInt_of_low toInt_neg_of_high)

open Jco.Lib Jco.Codec Utf16 List

/-! ## The trampolines -/

/-- `Transcode::Copy(FixedEncoding::Utf8)` -/
def copyUtf8 (source target : Stream.Memory) (fromPtr len toPtr : Int) :
    Except JsError Stream.Memory := do
  let _ ← bytesView target toPtr len
  let bytes ← bytesView source fromPtr len
  writeBytes target toPtr bytes

/-- `Transcode::Utf8ToUtf16` -/
def utf8ToUtf16 (source target : Stream.Memory) (fromPtr len toPtr : Int) :
    Except JsError (Nat × Stream.Memory) := do
  let bytes ← bytesView source fromPtr len
  let content := Utf16.encode (Utf8.decode bytes)
  if toPtr % 2 ≠ 0 then .error .engine
  else do
    let target ← writeBytes target toPtr (Utf16.toBytes content)
    return (content.length, target)

/-- `encoder.encodeInto(s, buffer)` for a buffer of `room` bytes: the units read and the
bytes written. A character that does not fit ends it. -/
def encodeInto : Utf8.Text → (room : Nat) → Nat × List UInt8
  | [], _ => (0, [])
  | c :: t, room =>
    if (Utf8.encodeChar c).length ≤ room then
      let (read, bytes) := encodeInto t (room - (Utf8.encodeChar c).length)
      ((Utf16.encodeChar c).length + read, Utf8.encodeChar c ++ bytes)
    else (0, [])

/-- `Transcode::Utf16ToUtf8`, on an engine that takes `maxArgs` arguments in a call. -/
def utf16ToUtf8 (maxArgs : Nat) (source target : Stream.Memory) (src srcLen dst dstLen : Int) :
    Except JsError ((Nat × Nat) × Stream.Memory) := do
  if src % 2 ≠ 0 then .error .engine
  else do
    let bytes ← bytesView source src (2 * srcLen)
    let units := (Utf16.unitsOfBytes bytes).1
    -- `String.fromCharCode.apply(null, units)`
    if maxArgs < units.length then .error .engine
    else do
      let _ ← bytesView target dst dstLen
      let (read, written) := encodeInto (Utf16.toText units) dstLen.toNat
      let target ← writeBytes target dst written
      return ((read, written.length), target)

/-! ## Encoding into a buffer -/

/-- What is written is the longest beginning of the text that fits. -/
theorem encodeInto_spec (t : Utf8.Text) (room : Nat) : ∃ t₁ t₂, t = t₁ ++ t₂ ∧
    encodeInto t room = ((encode t₁).length, Utf8.encode t₁) ∧
    (Utf8.encode t₁).length ≤ room ∧
    ∀ c t₃, t₂ = c :: t₃ → room < (Utf8.encode t₁).length + (Utf8.encodeChar c).length := by
  induction t generalizing room with
  | nil => exact ⟨[], [], rfl, rfl, Nat.zero_le room, fun c t₃ h => by cases h⟩
  | cons c t ih =>
    by_cases hfits : (Utf8.encodeChar c).length ≤ room
    · obtain ⟨t₁, t₂, rfl, hread, hroom, hnext⟩ := ih (room - (Utf8.encodeChar c).length)
      have hbytes : Utf8.encode (c :: t₁) = Utf8.encodeChar c ++ Utf8.encode t₁ :=
        flatMap_cons
      refine ⟨c :: t₁, t₂, rfl, ?_, ?_, ?_⟩
      · rw [encodeInto, if_pos hfits, hread, hbytes, encode_cons, length_append]
      · rw [hbytes, length_append]
        omega
      · intro d t₃ hd
        have := hnext d t₃ hd
        rw [hbytes, length_append]
        omega
    · refine ⟨[], c :: t, rfl, ?_, Nat.zero_le room, ?_⟩
      · rw [encodeInto, if_neg hfits]
        rfl
      · intro d t₃ hd
        cases hd
        omega

/-! ## Calls -/

/-- The bytes are UTF-8. -/
def IsUtf8 (bytes : List UInt8) : Prop := ∃ t, bytes = Utf8.encode t

/-- A call of a trampoline, with the i32 values that core code passes. -/
inductive Transcode where
  | copy (source target : Stream.Memory) (fromPtr len toPtr : BitVec 32)
  | utf8ToUtf16 (source target : Stream.Memory) (fromPtr len toPtr : BitVec 32)
  | utf16ToUtf8 (source target : Stream.Memory) (src srcLen dst dstLen : BitVec 32)

/-- The units of a string in memory. -/
def unitsAt (m : Stream.Memory) (p n : Nat) : Utf16.Units :=
  (Utf16.unitsOfBytes (bytesAt m p (2 * n))).1

namespace Transcode

/-- The ranges that the adapter passes lie in the memories and are aligned. Units are
given room for two bytes for each byte of their source. -/
def InBounds : Transcode → Prop
  | copy source target fromPtr len toPtr =>
    fromPtr.toNat + len.toNat ≤ source.length ∧ toPtr.toNat + len.toNat ≤ target.length
  | utf8ToUtf16 source target fromPtr len toPtr =>
    fromPtr.toNat + len.toNat ≤ source.length ∧ toPtr.toNat % 2 = 0 ∧
      toPtr.toNat + 2 * len.toNat ≤ target.length
  | utf16ToUtf8 source target src srcLen dst dstLen =>
    src.toNat % 2 = 0 ∧ src.toNat + 2 * srcLen.toNat ≤ source.length ∧
      dst.toNat + dstLen.toNat ≤ target.length

/-- The text of the source is stored at the destination, with the counts that belong to
it; a call on what is no text throws. With too little room a call from UTF-16 stores a
beginning of the text, that the next character does not fit behind. -/
def Right (maxArgs : Nat) : Transcode → Prop
  | copy source target fromPtr len toPtr =>
    let bytes := bytesAt source fromPtr.toNat len.toNat
    let result := Bindgen.copyUtf8 source target fromPtr.toInt len.toInt toPtr.toInt
    (IsUtf8 bytes → ∃ target', result = .ok target' ∧
      target.setBytes toPtr.toNat bytes = some target') ∧
    (¬ IsUtf8 bytes → ∃ e, result = .error e)
  | utf8ToUtf16 source target fromPtr len toPtr =>
    let bytes := bytesAt source fromPtr.toNat len.toNat
    let result := Bindgen.utf8ToUtf16 source target fromPtr.toInt len.toInt toPtr.toInt
    (∀ t, bytes = Utf8.encode t → ∃ target',
      result = .ok ((Utf16.encode t).length, target') ∧
      target.setBytes toPtr.toNat (Utf16.toBytes (Utf16.encode t)) = some target') ∧
    (¬ IsUtf8 bytes → ∃ e, result = .error e)
  | utf16ToUtf8 source target src srcLen dst dstLen =>
    let units := unitsAt source src.toNat srcLen.toNat
    let result :=
      Bindgen.utf16ToUtf8 maxArgs source target src.toInt srcLen.toInt dst.toInt dstLen.toInt
    (∃ t rest target', units = Utf16.encode t ++ rest ∧
      result = .ok (((Utf16.encode t).length, (Utf8.encode t).length), target') ∧
      target.setBytes dst.toNat (Utf8.encode t) = some target' ∧
      ∀ c rest', rest = Utf16.encodeChar c ++ rest' →
        dstLen.toNat < (Utf8.encode t).length + (Utf8.encodeChar c).length) ∨
    ¬ Utf16.WellFormed units ∧ ∃ e, result = .error e

/-- JavaScript receives the pointers and the lengths as they are meant, and the engine
takes the units as arguments. -/
def Received (maxArgs : Nat) : Transcode → Prop
  | copy _ _ fromPtr len toPtr => Low fromPtr ∧ Low len ∧ Low toPtr
  | utf8ToUtf16 _ _ fromPtr len toPtr => Low fromPtr ∧ Low len ∧ Low toPtr
  | utf16ToUtf8 _ _ src srcLen dst dstLen =>
    Low src ∧ Low srcLen ∧ Low dst ∧ Low dstLen ∧ srcLen.toNat ≤ maxArgs

/-- When a call is right: on text that is received, without a byte order mark in front,
and on what is no text where it throws for another reason, or stops before. -/
def Fits (maxArgs : Nat) (call : Transcode) : Prop :=
  match call with
  | copy source _ fromPtr len _ =>
    IsUtf8 (bytesAt source fromPtr.toNat len.toNat) ↔ call.Received maxArgs
  | utf8ToUtf16 source _ fromPtr len _ =>
    let bytes := bytesAt source fromPtr.toNat len.toNat
    call.Received maxArgs ∧
        (∃ t : Utf8.Text, bytes = Utf8.encode t ∧ t.head? ≠ some Utf8.byteOrderMark) ∨
      ¬ call.Received maxArgs ∧ ¬ IsUtf8 bytes
  | utf16ToUtf8 source _ src srcLen _ dstLen =>
    let units := unitsAt source src.toNat srcLen.toNat
    call.Received maxArgs ∧ (Utf16.WellFormed units ∨
        dstLen.toNat < (Utf8.encode (Utf16.wellPart units).1).length + 3) ∨
      ¬ call.Received maxArgs ∧ ¬ Utf16.WellFormed units

end Transcode

section

variable {source target : Stream.Memory} {fromPtr len toPtr src srcLen dst dstLen : BitVec 32}
  {maxArgs : Nat}

/-! ### Copying -/

theorem copy_received (hin : (Transcode.copy source target fromPtr len toPtr).InBounds)
    (hrec : (Transcode.copy source target fromPtr len toPtr).Received maxArgs) :
    ∃ target', copyUtf8 source target fromPtr.toInt len.toInt toPtr.toInt = .ok target' ∧
      target.setBytes toPtr.toNat (bytesAt source fromPtr.toNat len.toNat) = some target' := by
  obtain ⟨hfrom, hlen, hto⟩ := hrec
  obtain ⟨hsource, htarget⟩ := hin
  have hroom : toPtr.toNat + (bytesAt source fromPtr.toNat len.toNat).length ≤ target.length := by
    rwa [length_bytesAt hsource]
  obtain ⟨target', hwrite, hset⟩ := writeBytes_low hto hroom
  refine ⟨target', ?_, hset⟩
  unfold copyUtf8
  rw [toInt_of_low hlen, bytesView_low hto htarget, bytesView_low hfrom hsource]
  exact hwrite

theorem copy_not_received
    (hrec : ¬ (Transcode.copy source target fromPtr len toPtr).Received maxArgs) :
    ∃ e, copyUtf8 source target fromPtr.toInt len.toInt toPtr.toInt = .error e := by
  unfold copyUtf8
  by_cases hview : toPtr.toInt < 0 ∨ len.toInt < 0
  · rw [bytesView_high hview]
    exact ⟨_, rfl⟩
  rw [not_or] at hview
  -- The one range that is left is that of the source.
  have hfrom : ¬ Low fromPtr := fun hfrom =>
    hrec ⟨hfrom, low_of_nonneg hview.2, low_of_nonneg hview.1⟩
  rw [bytesView_high (.inl (toInt_neg_of_high hfrom))]
  rcases bytesView target toPtr.toInt len.toInt with e | bytes
  · exact ⟨_, rfl⟩
  · exact ⟨_, rfl⟩

theorem copy_right_iff (hin : (Transcode.copy source target fromPtr len toPtr).InBounds) :
    (Transcode.copy source target fromPtr len toPtr).Right maxArgs ↔
      (Transcode.copy source target fromPtr len toPtr).Fits maxArgs := by
  by_cases hrec : (Transcode.copy source target fromPtr len toPtr).Received maxArgs
  · obtain ⟨target', hok, hset⟩ := copy_received hin hrec
    constructor
    · intro hright
      refine iff_of_true (by_contra fun hno => ?_) hrec
      -- The bytes are not looked at.
      obtain ⟨e, he⟩ := hright.2 hno
      cases he.symm.trans hok
    · intro hfits
      exact ⟨fun _ => ⟨target', hok, hset⟩, fun hno => absurd (hfits.2 hrec) hno⟩
  · obtain ⟨e, he⟩ := copy_not_received hrec
    constructor
    · intro hright
      refine iff_of_false (fun htext => ?_) hrec
      obtain ⟨target', hok, -⟩ := hright.1 htext
      cases he.symm.trans hok
    · intro hfits
      exact ⟨fun htext => absurd (hfits.1 htext) hrec, fun _ => ⟨e, he⟩⟩

/-! ### UTF-8 to UTF-16 -/

theorem utf8ToUtf16_received
    (hin : (Transcode.utf8ToUtf16 source target fromPtr len toPtr).InBounds)
    (hrec : (Transcode.utf8ToUtf16 source target fromPtr len toPtr).Received maxArgs) :
    ∃ target', utf8ToUtf16 source target fromPtr.toInt len.toInt toPtr.toInt =
        .ok ((encode (Utf8.decode (bytesAt source fromPtr.toNat len.toNat))).length, target') ∧
      target.setBytes toPtr.toNat
        (toBytes (encode (Utf8.decode (bytesAt source fromPtr.toNat len.toNat)))) =
          some target' := by
  obtain ⟨hfrom, hlen, hto⟩ := hrec
  obtain ⟨hsource, heven, htarget⟩ := hin
  -- The adapter has made room for two bytes for each byte of the source.
  have hshort := length_encode_utf8_le (bytesAt source fromPtr.toNat len.toNat)
  rw [length_bytesAt hsource] at hshort
  have hroom : toPtr.toNat + (toBytes
      (encode (Utf8.decode (bytesAt source fromPtr.toNat len.toNat)))).length ≤
        target.length := by
    rw [length_toBytes]
    omega
  obtain ⟨target', hwrite, hset⟩ := writeBytes_low hto hroom
  refine ⟨target', ?_, hset⟩
  have haligned : ¬ toPtr.toInt % 2 ≠ 0 := by
    rw [toInt_of_low hto]
    omega
  unfold utf8ToUtf16
  rw [toInt_of_low hlen, bytesView_low hfrom hsource]
  show (if toPtr.toInt % 2 ≠ 0 then _ else _) = _
  rw [if_neg haligned, hwrite]
  rfl

theorem utf8ToUtf16_not_received
    (hrec : ¬ (Transcode.utf8ToUtf16 source target fromPtr len toPtr).Received maxArgs) :
    ∃ e, utf8ToUtf16 source target fromPtr.toInt len.toInt toPtr.toInt = .error e := by
  unfold utf8ToUtf16
  by_cases hview : fromPtr.toInt < 0 ∨ len.toInt < 0
  · rw [bytesView_high hview]
    exact ⟨_, rfl⟩
  rw [not_or] at hview
  have hto : ¬ Low toPtr := fun hto =>
    hrec ⟨low_of_nonneg hview.1, low_of_nonneg hview.2, hto⟩
  rcases bytesView source fromPtr.toInt len.toInt with e | bytes
  · exact ⟨_, rfl⟩
  · show ∃ e, (if toPtr.toInt % 2 ≠ 0 then _ else _) = Except.error e
    split
    · exact ⟨_, rfl⟩
    · rw [writeBytes_high hto]
      exact ⟨_, rfl⟩

theorem length_encode_stripMark {t : Utf8.Text} (h : t.head? = some Utf8.byteOrderMark) :
    (encode (Utf8.stripMark t)).length < (encode t).length := by
  cases t with
  | nil => cases h
  | cons c t =>
    cases h
    have hpos := length_encodeChar_pos Utf8.byteOrderMark
    rw [Utf8.stripMark, if_pos rfl, encode_cons, length_append]
    omega

theorem utf8ToUtf16_right_iff
    (hin : (Transcode.utf8ToUtf16 source target fromPtr len toPtr).InBounds) :
    (Transcode.utf8ToUtf16 source target fromPtr len toPtr).Right maxArgs ↔
      (Transcode.utf8ToUtf16 source target fromPtr len toPtr).Fits maxArgs := by
  by_cases hrec : (Transcode.utf8ToUtf16 source target fromPtr len toPtr).Received maxArgs
  · obtain ⟨target', hok, hset⟩ := utf8ToUtf16_received hin hrec
    constructor
    · intro hright
      have htext : IsUtf8 (bytesAt source fromPtr.toNat len.toNat) := by
        by_contra hno
        obtain ⟨e, he⟩ := hright.2 hno
        cases he.symm.trans hok
      obtain ⟨t, ht⟩ := htext
      refine .inl ⟨hrec, t, ht, fun hhead => ?_⟩
      -- The mark is missing in the count.
      obtain ⟨target'', hok', -⟩ := hright.1 t ht
      have hcount := (Prod.mk.inj (Except.ok.inj (hok.symm.trans hok'))).1
      rw [ht, Utf8.decode, Utf8.decodeFrom_encode] at hcount
      exact absurd hcount (length_encode_stripMark hhead).ne
    · rintro (⟨-, t, ht, hhead⟩ | ⟨hno, -⟩)
      · rw [ht, Utf8.decode_encode hhead] at hok hset
        constructor
        · intro t' ht'
          obtain rfl : t = t' := by
            have heq := congrArg (Utf8.decodeFrom none) (ht.symm.trans ht')
            rwa [Utf8.decodeFrom_encode, Utf8.decodeFrom_encode] at heq
          exact ⟨target', hok, hset⟩
        · exact fun hno => absurd ⟨t, ht⟩ hno
      · exact absurd hrec hno
  · obtain ⟨e, he⟩ := utf8ToUtf16_not_received hrec
    constructor
    · intro hright
      refine .inr ⟨hrec, ?_⟩
      rintro ⟨t, ht⟩
      obtain ⟨target', hok, -⟩ := hright.1 t ht
      cases he.symm.trans hok
    · rintro (⟨hyes, -⟩ | ⟨-, hno⟩)
      · exact absurd hyes hrec
      · exact ⟨fun t ht => absurd ⟨t, ht⟩ hno, fun _ => ⟨e, he⟩⟩

/-! ### UTF-16 to UTF-8 -/

theorem length_unitsAt {m : Stream.Memory} {p n : Nat} (h : p + 2 * n ≤ m.length) :
    (unitsAt m p n).length = n := by
  have hlen := length_unitsOfBytes (bytesAt m p (2 * n))
  rw [length_bytesAt h] at hlen
  unfold unitsAt
  split at hlen <;> omega

theorem twice_of_low {n : BitVec 32} (h : Low n) : 2 * n.toInt = (2 * n.toNat : Nat) := by
  rw [toInt_of_low h]
  push_cast
  rfl

theorem utf16ToUtf8_received
    (hin : (Transcode.utf16ToUtf8 source target src srcLen dst dstLen).InBounds)
    (hrec : (Transcode.utf16ToUtf8 source target src srcLen dst dstLen).Received maxArgs) :
    ∃ t₁ t₂ target', toText (unitsAt source src.toNat srcLen.toNat) = t₁ ++ t₂ ∧
      utf16ToUtf8 maxArgs source target src.toInt srcLen.toInt dst.toInt dstLen.toInt =
        .ok (((encode t₁).length, (Utf8.encode t₁).length), target') ∧
      target.setBytes dst.toNat (Utf8.encode t₁) = some target' ∧
      (Utf8.encode t₁).length ≤ dstLen.toNat ∧
      ∀ c t₃, t₂ = c :: t₃ →
        dstLen.toNat < (Utf8.encode t₁).length + (Utf8.encodeChar c).length := by
  obtain ⟨hsrc, hsrcLen, hdst, hdstLen, hargs⟩ := hrec
  obtain ⟨heven, hsource, htarget⟩ := hin
  obtain ⟨t₁, t₂, htext, hinto, hroom, hnext⟩ :=
    encodeInto_spec (toText (unitsAt source src.toNat srcLen.toNat)) dstLen.toNat
  have hfits : dst.toNat + (Utf8.encode t₁).length ≤ target.length := by omega
  obtain ⟨target', hwrite, hset⟩ := writeBytes_low hdst hfits
  refine ⟨t₁, t₂, target', htext, ?_, hset, hroom, hnext⟩
  have haligned : ¬ src.toInt % 2 ≠ 0 := by
    rw [toInt_of_low hsrc]
    omega
  have htwice := twice_of_low hsrcLen
  have hlimit := length_unitsAt hsource
  unfold unitsAt at hlimit hinto
  unfold utf16ToUtf8
  rw [if_neg haligned, htwice, bytesView_low hsrc hsource, ok_bind]
  dsimp only
  rw [if_neg (by omega), toInt_of_low hdstLen, bytesView_low hdst htarget, ok_bind,
    Int.toNat_natCast, hinto]
  rw [hwrite]
  rfl

theorem utf16ToUtf8_not_received
    (hin : (Transcode.utf16ToUtf8 source target src srcLen dst dstLen).InBounds)
    (hrec : ¬ (Transcode.utf16ToUtf8 source target src srcLen dst dstLen).Received maxArgs) :
    ∃ e, utf16ToUtf8 maxArgs source target src.toInt srcLen.toInt dst.toInt dstLen.toInt =
      .error e := by
  obtain ⟨-, hsource, -⟩ := hin
  unfold utf16ToUtf8
  -- In the order of the source: alignment, units, arguments, destination.
  split
  · exact ⟨_, rfl⟩
  by_cases hview : src.toInt < 0 ∨ 2 * srcLen.toInt < 0
  · rw [bytesView_high hview]
    exact ⟨_, rfl⟩
  rw [not_or] at hview
  have hsrc := low_of_nonneg hview.1
  have hsrcLen : Low srcLen := low_of_nonneg (by omega)
  have htwice := twice_of_low hsrcLen
  have hlimit := length_unitsAt hsource
  unfold unitsAt at hlimit
  rw [htwice, bytesView_low hsrc hsource, ok_bind]
  dsimp only
  by_cases hargs : maxArgs < srcLen.toNat
  · rw [if_pos (by omega)]
    exact ⟨_, rfl⟩
  rw [if_neg (by omega)]
  have hview' : dst.toInt < 0 ∨ dstLen.toInt < 0 := by
    by_contra hno
    rw [not_or] at hno
    exact hrec ⟨hsrc, hsrcLen, low_of_nonneg hno.1, low_of_nonneg hno.2, by omega⟩
  rw [bytesView_high hview']
  exact ⟨_, rfl⟩

end

theorem encode_append (t₁ t₂ : Utf8.Text) :
    Utf8.encode (t₁ ++ t₂) = Utf8.encode t₁ ++ Utf8.encode t₂ := flatMap_append

theorem units_append (t₁ t₂ : Utf8.Text) :
    encode (t₁ ++ t₂) = encode t₁ ++ encode t₂ := flatMap_append

section

variable {us : Utf16.Units} {t₁ t₂ : Utf8.Text} {room : Nat}

/-- A replacement takes three bytes, so without them nothing is read behind the
well-formed part. -/
theorem within_wellPart (htext : toText us = t₁ ++ t₂)
    (hroom : (Utf8.encode t₁).length ≤ room)
    (hok : Utf16.WellFormed us ∨ room < (Utf8.encode (wellPart us).1).length + 3) :
    ∃ w, (wellPart us).1 = t₁ ++ w ∧ t₂ = w ++ toText (wellPart us).2 := by
  rw [toText_wellPart] at htext
  rcases append_eq_append_iff.1 htext with ⟨w, ht₁, hrest⟩ | ⟨w, hpart, ht₂⟩
  · rcases w with _ | ⟨c, w⟩
    · rw [append_nil] at ht₁
      exact ⟨[], by rw [ht₁, append_nil], hrest.symm⟩
    · -- What was read goes on with a replacement, for which there is no room.
      exfalso
      by_cases hnil : (wellPart us).2 = []
      · rw [hnil] at hrest
        cases hrest
      · obtain ⟨s, hs⟩ := toText_wellPart_rest hnil
        rw [hs] at hrest
        cases hrest
        have hill : ¬ Utf16.WellFormed us := fun h => hnil ((wellFormed_iff_wellPart us).1 h)
        have hthree : (Utf8.encode (Utf8.replacement :: w)).length =
            3 + (Utf8.encode w).length := by
          show (Utf8.encodeChar Utf8.replacement ++ Utf8.encode w).length = _
          rw [length_append]
          rfl
        have hlt := hok.resolve_left hill
        rw [ht₁, encode_append, length_append, hthree] at hroom
        omega
  · exact ⟨w, hpart, ht₂⟩

/-- With them the replacement is read. -/
theorem beyond_wellPart (htext : toText us = t₁ ++ t₂)
    (hnext : ∀ c t₃, t₂ = c :: t₃ →
      room < (Utf8.encode t₁).length + (Utf8.encodeChar c).length)
    (hill : ¬ Utf16.WellFormed us)
    (hroom : (Utf8.encode (wellPart us).1).length + 3 ≤ room) :
    ∃ c w, t₁ = (wellPart us).1 ++ c :: w := by
  have hne : (wellPart us).2 ≠ [] := fun h => hill ((wellFormed_iff_wellPart us).2 h)
  obtain ⟨s, hs⟩ := toText_wellPart_rest hne
  rw [toText_wellPart, hs] at htext
  have hthree : (Utf8.encodeChar Utf8.replacement).length = 3 := by decide
  rcases append_eq_append_iff.1 htext with ⟨w, ht₁, hrest⟩ | ⟨w, hpart, ht₂⟩
  · rcases w with _ | ⟨c, w⟩
    · rw [append_nil] at ht₁
      have := hnext Utf8.replacement s hrest.symm
      rw [ht₁] at this
      omega
    · exact ⟨c, w, ht₁⟩
  · -- It would have stopped before a character that fits.
    rcases w with _ | ⟨c, w⟩
    · rw [append_nil] at hpart
      have := hnext Utf8.replacement s ht₂
      rw [← hpart] at this
      omega
    · have hlt := hnext c (w ++ Utf8.replacement :: s) ht₂
      have hcons : (Utf8.encode (c :: w)).length =
          (Utf8.encodeChar c).length + (Utf8.encode w).length := by
        show (Utf8.encodeChar c ++ Utf8.encode w).length = _
        rw [length_append]
      rw [hpart, encode_append, length_append, hcons] at hroom
      omega

/-- No text that the units begin with is longer than the well-formed part. -/
theorem wellPart_longest {t : Utf8.Text} {rest : Utf16.Units} (h : us = encode t ++ rest) :
    (encode t).length ≤ (encode (wellPart us).1).length := by
  have happend := wellPart_append us
  have htext : t ++ toText rest =
      (wellPart us).1 ++ toText (wellPart us).2 := by
    rw [← toText_wellPart, h]
    exact (decodeUnits_encode false t rest).symm
  rcases append_eq_append_iff.1 htext with ⟨w, hpart, -⟩ | ⟨w, ht, -⟩
  · rw [hpart, units_append, length_append]
    omega
  · rcases w with _ | ⟨c, w⟩
    · rw [ht, append_nil]
    · -- The rest would begin with a character.
      exfalso
      rw [ht, units_append, append_assoc, encode_cons, append_assoc] at h
      exact wellPart_rest us c _ (append_cancel_left (happend.trans h))

end

theorem utf16ToUtf8_right_iff {source target : Stream.Memory} {src srcLen dst dstLen : BitVec 32}
    {maxArgs : Nat} (hin : (Transcode.utf16ToUtf8 source target src srcLen dst dstLen).InBounds) :
    (Transcode.utf16ToUtf8 source target src srcLen dst dstLen).Right maxArgs ↔
      (Transcode.utf16ToUtf8 source target src srcLen dst dstLen).Fits maxArgs := by
  by_cases hrec : (Transcode.utf16ToUtf8 source target src srcLen dst dstLen).Received maxArgs
  · obtain ⟨t₁, t₂, target', htext, hok, hset, hroom, hnext⟩ := utf16ToUtf8_received hin hrec
    constructor
    · rintro (⟨t, rest, target'', hunits, hok', -, -⟩ | ⟨-, e, he⟩)
      · refine .inl ⟨hrec, ?_⟩
        by_contra hno
        rw [not_or, not_lt] at hno
        obtain ⟨c, w, ht₁⟩ := beyond_wellPart htext hnext hno.1 hno.2
        -- More units were read than a text has.
        have hcount := (Prod.mk.inj (Prod.mk.inj (Except.ok.inj (hok.symm.trans hok'))).1).1
        have hlongest := wellPart_longest hunits
        have hpos := length_encodeChar_pos c
        rw [ht₁, units_append, length_append, encode_cons, length_append] at hcount
        omega
      · cases he.symm.trans hok
    · rintro (⟨-, hfit⟩ | ⟨hno, -⟩)
      · obtain ⟨w, hpart, ht₂⟩ := within_wellPart htext hroom hfit
        have happend := wellPart_append (unitsAt source src.toNat srcLen.toNat)
        rw [hpart, units_append, append_assoc] at happend
        refine .inl ⟨t₁, _, target', happend.symm, hok, hset, ?_⟩
        intro c rest' hrest
        rcases w with _ | ⟨d, w⟩
        · exact absurd hrest (wellPart_rest _ c rest')
        · -- The next character of the units is the next of the text.
          have hhead := congrArg toText hrest
          rw [encode_cons, append_assoc] at hhead
          unfold toText at hhead
          rw [decodeUnits_encodeChar, decodeUnits_encodeChar] at hhead
          obtain ⟨rfl, -⟩ := List.cons.inj hhead
          exact hnext d _ ht₂
      · exact absurd hrec hno
  · obtain ⟨e, he⟩ := utf16ToUtf8_not_received hin hrec
    constructor
    · rintro (⟨t, rest, target', -, hok, -, -⟩ | ⟨hill, -⟩)
      · cases he.symm.trans hok
      · exact .inr ⟨hrec, hill⟩
    · rintro (⟨hyes, -⟩ | ⟨-, hill⟩)
      · exact absurd hyes hrec
      · exact .inr ⟨hill, e, he⟩

theorem right_iff_fits (maxArgs : Nat) {call : Transcode} (hin : call.InBounds) :
    call.Right maxArgs ↔ call.Fits maxArgs := by
  cases call with
  | copy source target fromPtr len toPtr => exact copy_right_iff hin
  | utf8ToUtf16 source target fromPtr len toPtr => exact utf8ToUtf16_right_iff hin
  | utf16ToUtf8 source target src srcLen dst dstLen => exact utf16ToUtf8_right_iff hin

/-! ## Growing buffers -/

/-- What an adapter has transcoded: units of the source and bytes at the base of its
buffer. -/
structure Progress where
  memory : Stream.Memory
  base : Nat
  read : Nat
  written : Nat

/-- It calls the trampoline on what is left, or grows the buffer, which the allocator of
the guest may move. -/
inductive AdapterOp where
  | call (room : Nat)
  | grow (base : Nat)

variable (maxArgs : Nat) (source : Stream.Memory) (src len : Nat)

/-- An address or a length as the i32 that JavaScript receives. -/
def i32 (n : Nat) : Int := (BitVec.ofNat 32 n).toInt

def adapterNext : Action AdapterOp Progress := fun op s s' =>
  match op with
  | .call room => ∃ read written,
      utf16ToUtf8 maxArgs source s.memory (i32 (src + 2 * s.read)) (i32 (len - s.read))
        (i32 (s.base + s.written)) (i32 room) = .ok ((read, written), s'.memory) ∧
      s'.base = s.base ∧ s'.read = s.read + read ∧ s'.written = s.written + written
  | .grow base => s'.base = base ∧ s'.read = s.read ∧ s'.written = s.written ∧
      ∀ i < s.written, s'.memory[base + i]? = s.memory[s.base + i]?

/-- The ranges of a call are below `2 ^ 31`, its buffer is in the memory, and the engine
takes the units. -/
def CallInRange (op : AdapterOp) (s : Progress) : Prop :=
  match op with
  | .call room => src + 2 * s.read < 2 ^ 31 ∧ len < 2 ^ 31 ∧ s.base + s.written < 2 ^ 31 ∧
      room < 2 ^ 31 ∧ s.base + s.written + room ≤ s.memory.length ∧ len ≤ maxArgs
  | .grow _ => True

/-- The beginning of the text that was read is what is stored. -/
def Sofar (t : Utf8.Text) (s : Progress) : Prop :=
  ∃ t₁ t₂, t = t₁ ++ t₂ ∧ s.read = (Utf16.encode t₁).length ∧
    s.written = (Utf8.encode t₁).length ∧ HasBytes s.memory s.base (Utf8.encode t₁)

section

variable {maxArgs source src len} {t : Utf8.Text}

theorem unitsAt_drop (m : Stream.Memory) (p n k : Nat) :
    unitsAt m (p + 2 * k) (n - k) = (unitsAt m p n).drop k := by
  unfold unitsAt
  rw [← unitsOfBytes_drop, ← bytesAt_drop, Nat.mul_sub]

theorem toNat_low {n : Nat} (h : n < 2 ^ 31) :
    (BitVec.ofNat 32 n).toNat = n ∧ Low (BitVec.ofNat 32 n) := by
  have hnat : (BitVec.ofNat 32 n).toNat = n := by
    rw [BitVec.toNat_ofNat, Nat.mod_eq_of_lt (by omega)]
  refine ⟨hnat, ?_⟩
  unfold Low
  rwa [hnat]

/-- The step lemma. -/
theorem adapterNext_sofar (hunits : unitsAt source src len = encode t)
    (heven : src % 2 = 0) (hin : src + 2 * len ≤ source.length) (op : AdapterOp) (s s' : Progress)
    (hnext : guarded (CallInRange maxArgs src len) (adapterNext maxArgs source src len) op s s')
    (h : Sofar t s) : Sofar t s' := by
  obtain ⟨t₁, t₂, rfl, hread, hwritten, hbytes⟩ := h
  have hlen := length_unitsAt hin
  rw [hunits, units_append, length_append] at hlen
  obtain ⟨hrange, hstep⟩ := hnext
  cases op with
  | grow base =>
    obtain ⟨hbase, hread', hwritten', hkeep⟩ := hstep
    refine ⟨t₁, t₂, rfl, by omega, by omega, fun i hi => ?_⟩
    rw [hbase, hkeep i (by omega)]
    exact hbytes i hi
  | call room =>
    obtain ⟨hsrc, hcount, hdst, hroom, hbuffer, hargs⟩ := hrange
    obtain ⟨read, written, hcall, hbase, hread', hwritten'⟩ := hstep
    obtain ⟨hsrcNat, hsrcLow⟩ := toNat_low hsrc
    obtain ⟨hlenNat, hlenLow⟩ := toNat_low (n := len - s.read) (by omega)
    obtain ⟨hdstNat, hdstLow⟩ := toNat_low hdst
    obtain ⟨hroomNat, hroomLow⟩ := toNat_low hroom
    have hbounds : (Transcode.utf16ToUtf8 source s.memory (.ofNat 32 (src + 2 * s.read))
        (.ofNat 32 (len - s.read)) (.ofNat 32 (s.base + s.written)) (.ofNat 32 room)).InBounds := by
      change _ % 2 = 0 ∧ _ + 2 * _ ≤ _ ∧ _ + _ ≤ _
      rw [hsrcNat, hlenNat, hdstNat, hroomNat]
      omega
    have hargs' : (BitVec.ofNat 32 (len - s.read)).toNat ≤ maxArgs := by omega
    obtain ⟨a, b, target', htext, hok, hset, -, -⟩ :=
      utf16ToUtf8_received hbounds ⟨hsrcLow, hlenLow, hdstLow, hroomLow, hargs'⟩
    obtain ⟨hcounts, hmemory⟩ := Prod.mk.inj (Except.ok.inj (hok.symm.trans hcall))
    cases hcounts
    -- What is left of the units is what is left of the text.
    rw [hsrcNat, hlenNat, unitsAt_drop, hunits, units_append, hread,
      drop_left, toText_encode] at htext
    rw [hdstNat] at hset
    subst htext
    have happend := encode_append t₁ a
    refine ⟨t₁ ++ a, b, (append_assoc t₁ a b).symm, ?_, ?_, ?_⟩
    · rw [units_append, length_append]
      omega
    · rw [happend, length_append]
      omega
    · rw [happend, hbase, ← hmemory]
      have hfirst : HasBytes _ s.base (Utf8.encode t₁) :=
        hbytes.congr fun a hlow hup => setBytes_frame hset (by omega)
      have hsecond := hasBytes_setBytes hset
      intro i hi
      rw [length_append] at hi
      rcases Nat.lt_or_ge i (Utf8.encode t₁).length with hlt | hge
      · rw [hfirst i hlt, List.getElem?_append_left hlt]
      · have hlast := hsecond (i - (Utf8.encode t₁).length) (by omega)
        rw [List.getElem?_append_right hge, ← hlast]
        exact congrArg _ (by omega)

end

/-- Each call of a transcoder is right exactly when it fits, and an adapter that calls
with growing buffers stores the beginning of the text that it has read: all of it, when
all is read. -/
theorem transcoders_right :
    (∀ call : Transcode, call.InBounds → (call.Right maxArgs ↔ call.Fits maxArgs)) ∧
    ∀ (t : Utf8.Text) (s₀ s : Progress) (ops : List AdapterOp),
      unitsAt source src len = Utf16.encode t → src % 2 = 0 → src + 2 * len ≤ source.length →
      s₀.read = 0 → s₀.written = 0 →
      Run (guarded (CallInRange maxArgs src len) (adapterNext maxArgs source src len)) s₀ ops s →
      Sofar t s ∧ (s.read = len →
        s.written = (Utf8.encode t).length ∧ HasBytes s.memory s.base (Utf8.encode t)) := by
  refine ⟨fun call hin => right_iff_fits maxArgs hin, ?_⟩
  intro t s₀ s ops hunits heven hin hread hwritten hrun
  have hstart : Sofar t s₀ := ⟨[], t, rfl, hread, hwritten, fun i hi => absurd hi (Nat.not_lt_zero i)⟩
  have hsofar := hrun.invariant (adapterNext_sofar hunits heven hin) hstart
  refine ⟨hsofar, fun hall => ?_⟩
  obtain ⟨t₁, t₂, rfl, hread', hwritten', hbytes⟩ := hsofar
  have hlen := length_unitsAt hin
  rw [hunits, units_append, length_append] at hlen
  obtain rfl : t₂ = [] := by
    rcases t₂ with _ | ⟨c, t₂⟩
    · rfl
    · have hpos := length_encodeChar_pos c
      rw [encode_cons, length_append] at hlen
      omega
  rw [append_nil]
  exact ⟨hwritten', hbytes⟩

theorem transcoders_right_grown :
    (Transcode.copy [0x61] [0] 0 1 0).Right 1 ∧
    HasBytes ([0, 0xC3, 0xA9] : Stream.Memory) 1 (Utf8.encode ['é']) := by
  have hright := transcoders_right 1 [0xE9, 0] 0 1
  refine ⟨(hright.1 (.copy [0x61] [0] 0 1 0) ⟨by decide, by decide⟩).2
    ⟨fun _ => ?_, fun _ => ?_⟩, ?_⟩
  · exact ⟨by decide, by decide, by decide⟩
  · exact ⟨['a'], rfl⟩
  refine ((hright.2 ['é'] ⟨[0], 0, 0, 0⟩ ⟨[0, 0xC3, 0xA9], 1, 1, 2⟩
    [.call 1, .grow 1, .call 2] rfl rfl (by decide) rfl rfl ?_).2 rfl).2
  have hfirst : guarded (CallInRange 1 0 1) (adapterNext 1 [0xE9, 0] 0 1) (.call 1)
      ⟨[0], 0, 0, 0⟩ ⟨[0], 0, 0, 0⟩ :=
    ⟨⟨by decide, by decide, by decide, by decide, by decide, by decide⟩,
      0, 0, rfl, rfl, rfl, rfl⟩
  have hgrow : guarded (CallInRange 1 0 1) (adapterNext 1 [0xE9, 0] 0 1) (.grow 1)
      ⟨[0], 0, 0, 0⟩ ⟨[0, 0, 0], 1, 0, 0⟩ :=
    ⟨trivial, rfl, rfl, rfl, fun i hi => absurd hi (Nat.not_lt_zero i)⟩
  have hsecond : guarded (CallInRange 1 0 1) (adapterNext 1 [0xE9, 0] 0 1) (.call 2)
      ⟨[0, 0, 0], 1, 0, 0⟩ ⟨[0, 0xC3, 0xA9], 1, 1, 2⟩ :=
    ⟨⟨by decide, by decide, by decide, by decide, by decide, by decide⟩,
      1, 2, rfl, rfl, rfl, rfl⟩
  exact .cons hfirst (.cons hgrow (.cons hsecond (.nil _)))

/-- A byte order mark does not reach the destination. -/
theorem mark_not_transcoded :
    (Transcode.utf8ToUtf16 [0xEF, 0xBB, 0xBF, 0x61] (List.replicate 8 0) 0 4 0).InBounds ∧
    ¬ (Transcode.utf8ToUtf16 [0xEF, 0xBB, 0xBF, 0x61] (List.replicate 8 0) 0 4 0).Right 1 := by
  refine ⟨⟨by decide, by decide, by decide⟩, fun hright => ?_⟩
  obtain ⟨target', hok, -⟩ := hright.1 [Utf8.byteOrderMark, 'a'] (by decide)
  have hone : utf8ToUtf16 [0xEF, 0xBB, 0xBF, 0x61] (List.replicate 8 0) 0 4 0 =
      .ok (1, [0x61, 0, 0, 0, 0, 0, 0, 0]) := by decide
  cases hone.symm.trans hok

end Jco.Bindgen

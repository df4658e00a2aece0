import Mathlib

/-! # LEB128

Unsigned LEB128 numbers: seven bits in each byte, the lowest first, the high
bit set in every byte but the last. A number has one shortest encoding and
longer ones padded with zero digits. An encoding tells where it ends
(`Token.append_inj`), so two byte strings that start with encodings and are
equal start with the same one.
-/

namespace Jco.Leb128

open List

/-- The shortest encoding. -/
def encode (n : Nat) : List UInt8 :=
  if n < 0x80 then [.ofNat n] else .ofNat (n % 0x80 + 0x80) :: encode (n / 0x80)
termination_by n

/-- `bs` encodes `n`, shortest or padded. -/
inductive Encodes : List UInt8 → Nat → Prop where
  | last {b : UInt8} : b.toNat < 0x80 → Encodes [b] b.toNat
  | more {b : UInt8} {bs : List UInt8} {n : Nat} :
      0x80 ≤ b.toNat → Encodes bs n → Encodes (b :: bs) (b.toNat - 0x80 + 0x80 * n)

/-- A byte string that ends where an encoding ends: all bytes but the last have
the high bit. -/
inductive Token : List UInt8 → Prop where
  | last {b : UInt8} : b.toNat < 0x80 → Token [b]
  | more {b : UInt8} {bs : List UInt8} : 0x80 ≤ b.toNat → Token bs → Token (b :: bs)

variable {n : Nat}

theorem encode_of_lt (h : n < 0x80) : encode n = [.ofNat n] := by
  rw [encode, if_pos h]

theorem encode_of_le (h : 0x80 ≤ n) :
    encode n = .ofNat (n % 0x80 + 0x80) :: encode (n / 0x80) := by
  rw [encode, if_neg (by omega)]

theorem toNat_digit (h : n < 256) : (UInt8.ofNat n).toNat = n :=
  UInt8.toNat_ofNat_of_lt' h

theorem encodes_encode (n : Nat) : Encodes (encode n) n := by
  induction n using Nat.strongRecOn with
  | ind n ih =>
    by_cases h : n < 0x80
    · have hbyte := toNat_digit (show n < 256 by omega)
      have hlast : Encodes [UInt8.ofNat n] (UInt8.ofNat n).toNat := .last (by omega)
      rwa [hbyte, ← encode_of_lt h] at hlast
    · have hbyte := toNat_digit (show n % 0x80 + 0x80 < 256 by omega)
      have hmore := Encodes.more (b := UInt8.ofNat (n % 0x80 + 0x80)) (by omega)
        (ih (n / 0x80) (by omega))
      have hvalue : n % 0x80 + 0x80 - 0x80 + 0x80 * (n / 0x80) = n := by omega
      rwa [hbyte, hvalue, ← encode_of_le (by omega)] at hmore

variable {bs : List UInt8}

theorem Encodes.token (h : Encodes bs n) : Token bs := by
  induction h with
  | last hb => exact .last hb
  | more hb _ ih => exact .more hb ih

theorem token_encode (n : Nat) : Token (encode n) := (encodes_encode n).token

/-- Where one encoding ends, the other does. -/
theorem Token.append_inj {as bs us vs : List UInt8} (ha : Token as) (hb : Token bs)
    (h : as ++ us = bs ++ vs) : as = bs ∧ us = vs := by
  induction ha generalizing bs with
  | last hlow =>
    cases hb with
    | last _ =>
      rw [singleton_append, singleton_append, List.cons.injEq] at h
      exact ⟨by rw [h.1], h.2⟩
    | more hhigh _ =>
      rw [singleton_append, cons_append, List.cons.injEq] at h
      rw [h.1] at hlow
      omega
  | more hhigh _ ih =>
    cases hb with
    | last hlow =>
      rw [singleton_append, cons_append, List.cons.injEq] at h
      rw [h.1] at hhigh
      omega
    | more _ hrest =>
      rw [cons_append, cons_append, List.cons.injEq] at h
      obtain ⟨hsame, hafter⟩ := ih hrest h.2
      exact ⟨by rw [h.1, hsame], hafter⟩

/-- No encoding is shorter. -/
theorem Encodes.length_le (h : Encodes bs n) :
    (encode n).length ≤ bs.length := by
  induction h with
  | last hb =>
    rw [encode_of_lt hb]
    exact Nat.le_refl 1
  | @more b bs n hb hrest ih =>
    by_cases hsmall : b.toNat - 0x80 + 0x80 * n < 0x80
    · rw [encode_of_lt hsmall, length_singleton, length_cons]
      omega
    · have hbyte := UInt8.toNat_lt b
      have hquotient : (b.toNat - 0x80 + 0x80 * n) / 0x80 = n := by omega
      rw [encode_of_le (by omega), hquotient, length_cons, length_cons]
      omega

/-- An encoding of the shortest length is the shortest one. -/
theorem Encodes.eq_encode (h : Encodes bs n)
    (hlen : bs.length = (encode n).length) : bs = encode n := by
  induction h with
  | @last b hb => rw [encode_of_lt hb, UInt8.ofNat_toNat]
  | @more b bs n hb hrest ih =>
    have hbyte := UInt8.toNat_lt b
    by_cases hsmall : b.toNat - 0x80 + 0x80 * n < 0x80
    · -- the number needs one byte and has more
      have hpos := hrest.length_le
      have hone : 1 ≤ (encode n).length := by
        unfold encode
        split <;> simp
      rw [encode_of_lt hsmall, length_singleton, length_cons] at hlen
      omega
    · have hquotient : (b.toNat - 0x80 + 0x80 * n) / 0x80 = n := by omega
      have hdigit : (b.toNat - 0x80 + 0x80 * n) % 0x80 + 0x80 = b.toNat := by omega
      rw [encode_of_le (by omega), hquotient, length_cons, length_cons] at hlen
      rw [encode_of_le (by omega), hquotient, hdigit, UInt8.ofNat_toNat, ih (by omega)]

theorem encode_ne_nil (n : Nat) : encode n ≠ [] := by
  unfold encode
  split <;> simp

theorem getLast_cons_of_ne_nil {b : UInt8} (h : bs ≠ []) :
    (b :: bs).getLast? = bs.getLast? := by
  cases bs with
  | nil => exact absurd rfl h
  | cons c bs => rfl

/-- The last digit of a positive number is not zero. -/
theorem getLast_encode (h : 0 < n) : (encode n).getLast? ≠ some 0 := by
  induction n using Nat.strongRecOn with
  | ind n ih =>
    by_cases hsmall : n < 0x80
    · rw [encode_of_lt hsmall]
      intro hlast
      have hzero : UInt8.ofNat n = 0 := Option.some.inj hlast
      have hbyte := toNat_digit (show n < 256 by omega)
      rw [hzero] at hbyte
      exact absurd hbyte (Nat.ne_of_lt h)
    · rw [encode_of_le (by omega), getLast_cons_of_ne_nil (encode_ne_nil _)]
      exact ih (n / 0x80) (by omega) (by omega)

theorem Encodes.getLast_of_zero (h : Encodes bs n) (hn : n = 0) :
    bs.getLast? = some 0 := by
  induction h with
  | last hb => exact congrArg some (UInt8.toNat_inj.mp hn)
  | @more b bs n hb hrest ih =>
    have hne : bs ≠ [] := by
      rintro rfl
      cases hrest
    rw [getLast_cons_of_ne_nil hne]
    exact ih (by omega)

/-- The last digit of a padded number is zero. -/
theorem Encodes.getLast_of_padded (h : Encodes bs n)
    (hlen : (encode n).length < bs.length) : bs.getLast? = some 0 := by
  induction h with
  | last hb =>
    rw [encode_of_lt hb] at hlen
    exact absurd hlen (Nat.lt_irrefl _)
  | @more b bs n hb hrest ih =>
    have hbyte := UInt8.toNat_lt b
    have hne : bs ≠ [] := by
      rintro rfl
      cases hrest
    rw [getLast_cons_of_ne_nil hne]
    by_cases hn : n = 0
    · exact hrest.getLast_of_zero hn
    · have hquotient : (b.toNat - 0x80 + 0x80 * n) / 0x80 = n := by omega
      rw [encode_of_le (by omega), hquotient, length_cons, length_cons] at hlen
      exact ih (by omega)

/-- Cutting a padded encoding down to the length of the shortest does not give
the shortest: what is left ends in a zero digit. -/
theorem Encodes.drop_ne_encode (h : Encodes bs n) (hn : 0 < n)
    (hlen : (encode n).length < bs.length) :
    bs.drop (bs.length - (encode n).length) ≠ encode n := by
  intro heq
  have hpos : 0 < (encode n).length := length_pos_of_ne_nil (encode_ne_nil n)
  have hlast := h.getLast_of_padded hlen
  have hkept : (bs.drop (bs.length - (encode n).length)).getLast? = bs.getLast? := by
    rw [List.getLast?_drop, if_neg (by omega)]
  rw [heq] at hkept
  exact getLast_encode hn (hkept.trans hlast)

/-- Bytes taken from the front of an encoding, before its last, and an encoding
after them end where the encoding ends. -/
theorem Encodes.token_take_append {bs ds : List UInt8} {n k : Nat} (h : Encodes bs n)
    (hk : k < bs.length) (hd : Token ds) : Token (bs.take k ++ ds) := by
  induction h generalizing k with
  | last hb =>
    rw [length_singleton, Nat.lt_one_iff] at hk
    rwa [hk, take_zero, nil_append]
  | more hb _ ih =>
    cases k with
    | zero => rwa [take_zero, nil_append]
    | succ k =>
      rw [take_succ_cons, cons_append]
      exact .more hb (ih (by simpa using hk))

end Jco.Leb128

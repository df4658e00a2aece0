import Mathlib
import Jco.Codec.Lower

/-! # Images and meanings

What the canonical ABI stores for a component value, and which JavaScript value
`LiftFlat*` shows it as. Both relations follow the types; the second leaves out what the
functions cannot treat, and says so at each type.
-/

namespace Jco.Codec

open Jco.Js (JsError)
open Jco.Stream Jco.Lib

/-! ## Images -/

/-- The properties of fields hold at their offsets, from offset `s` on. -/
def Each : List (Layout × (Nat → Prop)) → Nat → Prop
  | [], _ => True
  | (l, P) :: fs, s => P (alignTo s l.align) ∧ Each fs (alignTo s l.align + l.size)

/-- The property that a case puts on its payload. -/
def CaseHolds (cases : List (Option (Value → Prop))) (idx : Nat) (payload : Option Value) : Prop :=
  match cases[idx]?, payload with
  | some none, none => True
  | some (some P), some y => P y
  | _, _ => False

/-- The word at `p` is `n`. -/
def HasWord (m : Memory) (p n : Nat) : Prop := n < 2 ^ 32 ∧ HasBytes m p (LittleEndian.bytes 4 n)

/-- The bytes of a text and the length it is stored with. -/
def encodeText : StringEncoding → Utf8.Text → Option (List UInt8 × Nat)
  | .utf8, t => some (Utf8.encode t, (Utf8.encode t).length)
  | .utf16, t => some ((codeUnits t).flatMap (LittleEndian.bytes 2), (codeUnits t).length)
  | .compactUtf16, _ => none

/-- A text lies at `q`. -/
def TextAt (enc : StringEncoding) (t : Utf8.Text) (m : Memory) (q len : Nat) : Prop :=
  ∃ bs, encodeText enc t = some (bs, len) ∧ q + bs.length ≤ m.length ∧ HasBytes m q bs

/-- The word of flags. -/
def bitsOf : List Bool → Nat
  | [] => 0
  | b :: bs => b.toNat + 2 * bitsOf bs

/-- `m` holds the canonical image of a value at `p`. -/
def Image (enc : StringEncoding) : Ty → Value → Memory → Nat → Prop
  | .bool, x, m, p => ∃ b : Bool, x = .bool b ∧ HasBytes m p [if b then 1 else 0]
  | .int ty, x, m, p => ∃ n, x = .int n ∧ ty.Contains n ∧
      HasBytes m p (LittleEndian.bytes ty.bytes (LittleEndian.word ty.bytes n))
  | .float ty, x, m, p => ∃ w, x = .float (ty.canon w) ∧ w < 256 ^ ty.bytes ∧
      HasBytes m p (LittleEndian.bytes ty.bytes w)
  | .char, x, m, p => ∃ c : Char, x = .char c ∧ HasBytes m p (LittleEndian.bytes 4 c.toNat)
  | .string, x, m, p => ∃ t q len, x = .string t ∧ HasWord m p q ∧ HasWord m (p + 4) len ∧
      TextAt enc t m q len
  | .record (n := n) _ tys, x, m, p => ∃ xs : Fin n → Value, x = .record (List.ofFn xs) ∧
      Each (List.ofFn fun i => ((tys i).layout, fun off => Image enc (tys i) (xs i) m (p + off))) 0
  | .tuple (n := n) tys, x, m, p => ∃ xs : Fin n → Value, x = .record (List.ofFn xs) ∧
      Each (List.ofFn fun i => ((tys i).layout, fun off => Image enc (tys i) (xs i) m (p + off))) 0
  | .tagged _ _ payload tys, x, m, p => ∃ idx y, x = .variant idx y ∧
      HasBytes m p (LittleEndian.bytes (Ty.caseLayout payload tys).discriminant idx) ∧
      CaseHolds (List.ofFn fun i => (payload i).map fun j y =>
        Image enc (tys j) y m (p + (Ty.caseLayout payload tys).payloadOffset)) idx y
  | .flags names, x, m, p => ∃ bs, x = .flags bs ∧ bs.length = names.length ∧
      HasBytes m p (LittleEndian.bytes (Ty.flags names).size (bitsOf bs))
  | .list elem, x, m, p => ∃ xs q, x = .list xs ∧ HasWord m p q ∧ HasWord m (p + 4) xs.length ∧
      q % elem.align = 0 ∧ ∀ i (h : i < xs.length), Image enc elem xs[i] m (q + i * elem.size)
  | .fixedList elem len, x, m, p => ∃ xs, x = .list xs ∧ xs.length = len ∧
      ∀ i (h : i < xs.length), Image enc elem xs[i] m (p + i * elem.size)
  | .map key value, x, m, p => ∃ es q, x = .map es ∧ HasWord m p q ∧ HasWord m (p + 4) es.length ∧
      q % (Ty.entryLayout key value).align = 0 ∧ ∀ i (h : i < es.length),
        Image enc key es[i].1 m (q + i * (Ty.entryLayout key value).size) ∧
        Image enc value es[i].2 m
          (q + i * (Ty.entryLayout key value).size + Ty.valueOffset key value)
  | .handle _, x, m, p => ∃ h, x = .handle h ∧ HasWord m p h

/-! ## Discriminants -/

/-- The width that the codec gives the discriminant is the canonical one: one byte
stops short of 256 cases and two of 65536. -/
def DiscriminantFits (count : Nat) : Prop := count ≠ 256 ∧ count ≠ 65536 ∧ count < 2 ^ 32

end Jco.Codec

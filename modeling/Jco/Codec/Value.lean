import Mathlib
import Jco.Js.Basic
import Jco.Lib.LittleEndian
import Jco.Lib.Utf8

/-! # Values of the codec

The JavaScript values that `LiftFlat*` makes and `LowerFlat*` takes, and the
component values that both stand for.
-/

namespace Jco.Codec

open Jco.Js Jco.Lib

/-! ## Numbers -/

/-- The integer types. -/
inductive IntTy where
  | s8 | u8 | s16 | u16 | s32 | u32 | s64 | u64
deriving DecidableEq, Repr

namespace IntTy

def bytes : IntTy → Nat
  | s8 | u8 => 1
  | s16 | u16 => 2
  | s32 | u32 => 4
  | s64 | u64 => 8

def isSigned : IntTy → Bool
  | s8 | s16 | s32 | s64 => true
  | u8 | u16 | u32 | u64 => false

/-- `n` is a number of the type. -/
def Contains (ty : IntTy) (n : Int) : Prop :=
  if ty.isSigned then -(256 ^ ty.bytes : Nat) ≤ 2 * n ∧ 2 * n < (256 ^ ty.bytes : Nat)
  else 0 ≤ n ∧ n < (256 ^ ty.bytes : Nat)

instance (ty : IntTy) (n : Int) : Decidable (ty.Contains n) := by
  unfold Contains; infer_instance

/-- The integer a word of the type is read as. -/
def ofWord (ty : IntTy) (n : Nat) : Int :=
  if ty.isSigned then LittleEndian.signed ty.bytes n else n

end IntTy

inductive FloatTy where
  | f32 | f64
deriving DecidableEq, Repr

namespace FloatTy

def bytes : FloatTy → Nat
  | f32 => 4
  | f64 => 8

/-- The number of bits of the fraction. -/
def fraction : FloatTy → Nat
  | f32 => 23
  | f64 => 52

def exponents : FloatTy → Nat
  | f32 => 2 ^ 8 - 1
  | f64 => 2 ^ 11 - 1

def isNaN (ty : FloatTy) (bits : Nat) : Bool :=
  bits / 2 ^ ty.fraction % (ty.exponents + 1) = ty.exponents ∧ bits % 2 ^ ty.fraction ≠ 0

/-- JavaScript has one NaN: reading any of the patterns gives this one. -/
def canon (ty : FloatTy) (bits : Nat) : Nat :=
  if ty.isNaN bits then ty.exponents * 2 ^ ty.fraction + 2 ^ (ty.fraction - 1) else bits

end FloatTy

/-! ## JavaScript values -/

inductive TypedArray where
  | ints (ty : IntTy)
  | floats (ty : FloatTy)
deriving DecidableEq, Repr

/-- Values without parts. A number is an integer where an integer type is meant and
a bit pattern where a float is; a string is a text, or the single unpaired
surrogate that `String.fromCharCode` can make. -/
inductive Atom where
  | undefined
  | null
  | bool (b : Bool)
  | num (n : Int)
  | bigint (n : Int)
  | float (ty : FloatTy) (bits : Nat)
  | str (s : String)
  | surrogate (unit : Nat)
  /-- The object of a resource, a future, a stream or an error context. -/
  | handle (id : Nat)
deriving DecidableEq, Repr

inductive Val where
  | atom (a : Atom)
  /-- An array, or a typed array. -/
  | arr (typed : Option TypedArray) (elems : List Val)
  | obj (props : List (String × Val))
  /-- A `Map` -/
  | map (entries : List (Val × Val))

namespace Val

@[match_pattern] abbrev undefined : Val := .atom .undefined
@[match_pattern] abbrev bool (b : Bool) : Val := .atom (.bool b)
@[match_pattern] abbrev num (n : Int) : Val := .atom (.num n)
@[match_pattern] abbrev bigint (n : Int) : Val := .atom (.bigint n)
@[match_pattern] abbrev float (ty : FloatTy) (bits : Nat) : Val := .atom (.float ty bits)
@[match_pattern] abbrev str (s : String) : Val := .atom (.str s)
/-- The integers of 64 bits are `BigInt`s. -/
def ofInt : IntTy → Int → Val
  | .s64, n | .u64, n => bigint n
  | _, n => num n

/-- `typeof v` -/
def typeof : Val → String
  | undefined => "undefined"
  | bool _ => "boolean"
  | num _ | float _ _ => "number"
  | bigint _ => "bigint"
  | str _ | .atom (.surrogate _) => "string"
  | _ => "object"

/-- Setting a property of an object that has no accessors. -/
def setProp (props : List (String × Val)) (key : String) (v : Val) : List (String × Val) :=
  if props.any (·.1 = key) then props.map fun p => if p.1 = key then (key, v) else p
  else props ++ [(key, v)]

/-- `const res = {}; for (…) { res[key] = val; }` -/
def objectOf (props : List (String × Val)) : Val :=
  .obj (props.foldl (fun acc p => setProp acc p.1 p.2) [])

/-- `v[key]` of a value that is not nullish; no key of a field or a case names what
arrays and maps inherit. -/
def prop (v : Val) (key : String) : Val :=
  match v with
  | .obj props => ((props.find? (·.1 = key)).map (·.2)).getD undefined
  | _ => undefined

/-- The equality of the keys of a `Map`. -/
def sameKey : Val → Val → Bool
  | .atom a, .atom b => a = b
  | _, _ => false

/-- `map.set(key, value)` -/
def setEntry (entries : List (Val × Val)) (key value : Val) : List (Val × Val) :=
  if entries.any (sameKey ·.1 key) then
    entries.map fun e => if sameKey e.1 key then (e.1, value) else e
  else entries ++ [(key, value)]

/-- A `Map` filled with entries one after another. -/
def mapOf (entries : List (Val × Val)) : Val :=
  .map (entries.foldl (fun acc e => setEntry acc e.1 e.2) [])

end Val

/-! ## Component values -/

/-- The value of a component type that memory images and JavaScript values denote.
The fields of records and tuples and the cases of variants go by position. -/
inductive Value where
  | bool (b : Bool)
  | int (n : Int)
  | float (bits : Nat)
  | char (c : Char)
  | string (t : Utf8.Text)
  | record (fields : List Value)
  | variant (idx : Nat) (payload : Option Value)
  | flags (bits : List Bool)
  | list (elems : List Value)
  | map (entries : List (Value × Value))
  | handle (h : Nat)

end Jco.Codec

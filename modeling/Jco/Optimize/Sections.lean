import Jco.Lib.Leb128
import Jco.Optimize.Component

/-! # Components as sections

The binary of a component as far as the optimiser looks at it: core modules and
components in sections, each section its id, its size field and its content,
and other bytes in between. `spliced` is what an optimised component should
be, `written` what `write` makes of it.
-/

namespace Jco.Optimize

open Jco.Js Jco.Breadth Jco.Leb128 List

/-- The items of a component, one after the other. -/
inductive Items where
  | nil
  | other (bytes : Bytes) (rest : Items)
  | coreModule (field content : Bytes) (rest : Items)
  | component (field : Bytes) (body rest : Items)
deriving DecidableEq, Repr

namespace Items

def render : Items → Bytes
  | nil => []
  | other bytes rest => bytes ++ rest.render
  | coreModule field content rest => 1 :: (field ++ (content ++ rest.render))
  | component field body rest => 4 :: (field ++ (body.render ++ rest.render))

/-- Every size field encodes the size of its section, shortest or padded, and a
component starts with its preamble. -/
def Valid : Items → Prop
  | nil => True
  | other _ rest => rest.Valid
  | coreModule field content rest => Encodes field content.length ∧ rest.Valid
  | component field body rest =>
    Encodes field body.render.length ∧ 8 ≤ body.render.length ∧ body.Valid ∧ rest.Valid

/-- The payloads of items that start at `off`. -/
def payloads (off : Nat) : Items → Forest Payload
  | nil => .nil
  | other bytes rest => rest.payloads (off + bytes.length)
  | coreModule field content rest =>
    let start := off + 1 + field.length
    .cons ⟨.module, start, start + content.length⟩ .nil (rest.payloads (start + content.length))
  | component field body rest =>
    let start := off + 1 + field.length
    .cons ⟨.component, start, start + body.render.length⟩ (body.payloads start)
      (rest.payloads (start + body.render.length))

/-- The core modules of items that start at `off`, each with where it starts. -/
def modules (off : Nat) : Items → List (Nat × Bytes)
  | nil => []
  | other bytes rest => rest.modules (off + bytes.length)
  | coreModule field content rest =>
    let start := off + 1 + field.length
    (start, content) :: rest.modules (start + content.length)
  | component field body rest =>
    let start := off + 1 + field.length
    body.modules start ++ rest.modules (start + body.render.length)

def hasModule : Items → Bool
  | nil => false
  | other _ rest => rest.hasModule
  | coreModule _ _ _ => true
  | component _ body rest => body.hasModule || rest.hasModule

variable (opt : Nat → Bytes → Bytes)

/-- The exact splice: core modules replaced by `opt`, sizes of the modules and
of the sections around them encoded anew, all else kept. -/
def spliced (off : Nat) : Items → Bytes
  | nil => []
  | other bytes rest => bytes ++ rest.spliced (off + bytes.length)
  | coreModule field content rest =>
    let start := off + 1 + field.length
    1 :: (encode (opt start content).length ++
      (opt start content ++ rest.spliced (start + content.length)))
  | component field body rest =>
    let start := off + 1 + field.length
    let size := if body.hasModule then encode (body.spliced start).length else field
    4 :: (size ++ (body.spliced start ++ rest.spliced (start + body.render.length)))

/-- Every size that is encoded anew fits in the format, which has sizes of 32
bits. -/
def Fits (off : Nat) : Items → Prop
  | nil => True
  | other bytes rest => rest.Fits (off + bytes.length)
  | coreModule field content rest =>
    let start := off + 1 + field.length
    (opt start content).length < 2 ^ 32 ∧ rest.Fits (start + content.length)
  | component field body rest =>
    let start := off + 1 + field.length
    (body.hasModule → (body.spliced opt start).length < 2 ^ 32) ∧ body.Fits start ∧
      rest.Fits (start + body.render.length)

/-- Every size field is the shortest. -/
def Shortest : Items → Prop
  | nil => True
  | other _ rest => rest.Shortest
  | coreModule field content rest => field = encode content.length ∧ rest.Shortest
  | component field body rest =>
    field = encode body.render.length ∧ body.Shortest ∧ rest.Shortest

/-- What is left of a size field when `size` is taken for encoded shortest. -/
def stray (field : Bytes) (size : Nat) : Bytes :=
  field.take (field.length - byteLengthLEB128 size)

/-- What `write` makes of items that start at `off`. -/
def written (off : Nat) : Items → Bytes
  | nil => []
  | other bytes rest => bytes ++ rest.written (off + bytes.length)
  | coreModule field content rest =>
    let start := off + 1 + field.length
    1 :: (stray field content.length ++ (encode ((opt start content).length % 2 ^ 32) ++
      (opt start content ++ rest.written (start + content.length))))
  | component field body rest =>
    let start := off + 1 + field.length
    4 :: (stray field body.render.length ++ (encode ((body.written start).length % 2 ^ 32) ++
      (body.written start ++ rest.written (start + body.render.length))))

end Items

/-! ## Sizes -/

theorem lengthLEB_eq (n : Nat) : lengthLEB n = (encode n).length := by
  induction n using Nat.strongRecOn with
  | ind n ih =>
    by_cases h : n < 0x80
    · rw [lengthLEB, if_pos (by omega), encode_of_lt h, length_singleton]
    · rw [lengthLEB, if_neg (by omega), encode_of_le (by omega), length_cons,
        ih (n / 0x80) (by omega)]

theorem byteLengthLEB128_eq (n : Nat) :
    byteLengthLEB128 n = (encode (n % 2 ^ 32)).length := by
  rw [byteLengthLEB128, toUint32_natCast, lengthLEB_eq]

theorem byteLengthLEB128_of_lt {n : Nat} (h : n < 2 ^ 32) :
    byteLengthLEB128 n = (encode n).length := by
  rw [byteLengthLEB128_eq, Nat.mod_eq_of_lt h]

namespace Items

/-- The guess is never too long. -/
theorem byteLengthLEB128_le {field : Bytes} {size : Nat} (h : Encodes field size)
    (hsize : size < 2 ^ 32) : byteLengthLEB128 size ≤ field.length := by
  rw [byteLengthLEB128_of_lt hsize]
  exact h.length_le

theorem length_stray {field : Bytes} {size : Nat} (h : Encodes field size)
    (hsize : size < 2 ^ 32) :
    (stray field size).length + byteLengthLEB128 size = field.length := by
  have hle := byteLengthLEB128_le h hsize
  rw [stray, length_take]
  omega

theorem length_render_coreModule (field content : Bytes) (rest : Items) :
    (coreModule field content rest).render.length =
      field.length + content.length + rest.render.length + 1 := by
  rw [render, length_cons, length_append, length_append]
  omega

theorem length_render_component (field : Bytes) (body rest : Items) :
    (component field body rest).render.length =
      field.length + body.render.length + rest.render.length + 1 := by
  rw [render, length_cons, length_append, length_append]
  omega

end Items

/-! ## The sizes of the tree -/

/-- What a payload of items becomes in the tree, its children done. -/
def payloadNode (opt : Nat → Bytes → Bytes) (componentBytes : Bytes) (payload : Payload)
    (children : List Node) : Node :=
  let optimized := match payload.kind with
    | .component => none
    | .module => some (opt payload.range.1
        (subarray componentBytes payload.range.1 payload.range.2))
  finishNode payload.range optimized (byteLengthLEB128 (rangeSize payload.range))
    (optimized.map fun bytes => bytes.length - rangeSize payload.range) children

/-- How much longer the section of a node becomes. -/
def Node.gain (node : Node) : Int :=
  node.info.sizeChange + node.info.newLEBLen - node.info.prevLEBLen

def gains (nodes : List Node) : Int := (nodes.map Node.gain).sum

theorem gains_cons (node : Node) (nodes : List Node) :
    gains (node :: nodes) = node.gain + gains nodes := by
  rw [gains, map_cons, sum_cons, gains]

/-- A node without a size change has a size field of the same length, so the
shortcut of the inner `reduce` changes nothing. -/
def Node.Sized (node : Node) : Prop :=
  node.info.sizeChange = 0 → node.info.newLEBLen = node.info.prevLEBLen

theorem foldl_addSizeChange {nodes : List Node} (h : ∀ node ∈ nodes, node.Sized) (total : Int) :
    nodes.foldl addSizeChange total = total + gains nodes := by
  induction nodes generalizing total with
  | nil => exact (Int.add_zero total).symm
  | cons node nodes ih =>
    have hstep : addSizeChange total node = total + node.gain := by
      unfold addSizeChange Node.gain
      split
      · omega
      next hzero =>
        have hsame := h node mem_cons_self (by omega)
        omega
    rw [foldl_cons, hstep, ih (fun n hn => h n (mem_cons_of_mem node hn)), gains_cons,
      Int.add_assoc]

theorem foldl_addTotalChange (nodes : List Node) (total : Int) :
    nodes.foldl addTotalChange total = total + gains nodes := by
  induction nodes generalizing total with
  | nil => exact (Int.add_zero total).symm
  | cons node nodes ih =>
    have hstep : addTotalChange total node = total + node.gain := by
      unfold addTotalChange Node.gain
      omega
    rw [foldl_cons, hstep, ih, gains_cons, Int.add_assoc]

/-! ## Where parts of a binary stand -/

/-- `part` stands in `bytes` at `off`. -/
def At (bytes : Bytes) (off : Nat) (part : Bytes) : Prop :=
  ∃ front back, bytes = front ++ (part ++ back) ∧ front.length = off

namespace At

variable {bytes xs ys : Bytes} {off : Nat}

theorem whole (bytes : Bytes) : At bytes 0 bytes :=
  ⟨[], [], by rw [nil_append, append_nil], rfl⟩

theorem left (h : At bytes off (xs ++ ys)) : At bytes off xs := by
  obtain ⟨front, back, hbytes, hoff⟩ := h
  exact ⟨front, ys ++ back, by rw [hbytes, append_assoc], hoff⟩

theorem right (h : At bytes off (xs ++ ys)) : At bytes (off + xs.length) ys := by
  obtain ⟨front, back, hbytes, hoff⟩ := h
  refine ⟨front ++ xs, back, ?_, by rw [length_append, hoff]⟩
  rw [hbytes, append_assoc, append_assoc]

theorem le_length (h : At bytes off xs) : off + xs.length ≤ bytes.length := by
  obtain ⟨front, back, hbytes, hoff⟩ := h
  rw [hbytes, length_append, length_append, hoff]
  omega

/-- Reading on from `r` over a part. -/
theorem subarray_append (h : At bytes off xs) {r : Nat} (hr : r ≤ off) :
    subarray bytes r (off + xs.length : Nat) = subarray bytes r off ++ xs := by
  obtain ⟨front, back, hbytes, hoff⟩ := h
  have hlonger : bytes.take (off + xs.length) = front ++ xs := by
    rw [hbytes, ← append_assoc, ← hoff, ← length_append, take_left]
  have hshorter : bytes.take off = front := by
    rw [hbytes, ← hoff, take_left]
  rw [subarray_natCast, subarray_natCast, hlonger, hshorter,
    drop_append_of_le_length (by omega)]

theorem subarray_self (bytes : Bytes) (off : Nat) : subarray bytes off off = [] := by
  rw [subarray_natCast]
  exact drop_eq_nil_of_le (by rw [length_take]; omega)

theorem subarray (h : At bytes off xs) : subarray bytes off (off + xs.length : Nat) = xs := by
  rw [h.subarray_append (Nat.le_refl off), subarray_self, nil_append]

/-- The parts of a section: its head, its content and what follows. -/
theorem section_parts {id : UInt8} {field content rest : Bytes}
    (h : At bytes off (id :: (field ++ (content ++ rest)))) :
    At bytes off (id :: field) ∧ At bytes (off + 1 + field.length) content ∧
      At bytes (off + 1 + field.length + content.length) rest := by
  have hsplit : id :: (field ++ (content ++ rest)) = (id :: field) ++ (content ++ rest) := rfl
  have hlen : off + (id :: field).length = off + 1 + field.length := by
    rw [length_cons]
    omega
  rw [hsplit] at h
  have hcontent := h.right
  rw [hlen] at hcontent
  exact ⟨h.left, hcontent.left, hcontent.right⟩

end At

end Jco.Optimize

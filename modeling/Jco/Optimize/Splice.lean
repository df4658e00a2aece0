import Jco.Optimize.Sections

/-! # What the optimiser writes

For every binary whose size fields are right, and whatever `wasm-opt` answers,
`writeComponent` on the tree of the binary gives `Items.written`: the guessed
lengths of the old size fields enter the size of the buffer and the copying in
the same way, so the buffer is always filled exactly.
-/

namespace Jco.Optimize

open Jco.Js Jco.Breadth Jco.Leb128 Items List

section Nodes

variable (opt : Nat → Bytes → Bytes) (componentBytes : Bytes)

/-- The tree of items that start at `off`. -/
def Items.nodes (off : Nat) (items : Items) : List Node :=
  (items.payloads off).fold (payloadNode opt componentBytes)

variable {opt componentBytes}

theorem sized_finishNode (range : Nat × Nat) (optimized : Option Bytes) (ownChange : Option Int)
    (children : List Node) :
    (finishNode range optimized (byteLengthLEB128 (rangeSize range)) ownChange children).Sized := by
  intro hzero
  dsimp only [finishNode, Node.info] at hzero ⊢
  rw [hzero, Int.add_zero]

theorem sized_nodes (items : Items) (off : Nat) :
    ∀ node ∈ items.nodes opt componentBytes off, node.Sized := by
  intro node hnode
  rw [nodes, Forest.fold_eq_map, mem_map] at hnode
  obtain ⟨t, _, rfl⟩ := hnode
  exact sized_finishNode t.1.range _ _ _

theorem rangeSize_add (start size : Nat) : rangeSize (start, start + size) = size := by
  unfold rangeSize
  dsimp only
  omega

theorem nodes_other (bytes : Bytes) (rest : Items) (off : Nat) :
    (other bytes rest).nodes opt componentBytes off =
      rest.nodes opt componentBytes (off + bytes.length) := rfl

/-- The node of a core module at `start`. -/
def moduleInfo (start : Nat) (content optimized : Bytes) : NodeInfo where
  range := (start, start + content.length)
  optimized := some optimized
  prevLEBLen := byteLengthLEB128 content.length
  newLEBLen := byteLengthLEB128 optimized.length
  sizeChange := optimized.length - content.length

/-- The node of a component of `size` bytes at `start`. -/
def componentInfo (start size : Nat) (sizeChange : Int) : NodeInfo where
  range := (start, start + size)
  optimized := none
  prevLEBLen := byteLengthLEB128 size
  newLEBLen := byteLengthLEB128 (size + sizeChange)
  sizeChange := sizeChange

theorem nodes_coreModule {field content : Bytes} (rest : Items) {off : Nat}
    (h : At componentBytes (off + 1 + field.length) content) :
    (coreModule field content rest).nodes opt componentBytes off =
      .mk (moduleInfo (off + 1 + field.length) content (opt (off + 1 + field.length) content)) [] ::
        rest.nodes opt componentBytes (off + 1 + field.length + content.length) := by
  have hsize : (content.length : Int) +
      ((opt (off + 1 + field.length) content).length - content.length) =
        (opt (off + 1 + field.length) content).length := by omega
  rw [nodes, payloads, Forest.fold, Forest.fold, ← nodes, payloadNode]
  dsimp only [finishNode, moduleInfo]
  rw [rangeSize_add, h.subarray, Option.map_some, Option.getD_some, foldl_nil, hsize]

theorem nodes_component (field : Bytes) (body rest : Items) (off : Nat) :
    (component field body rest).nodes opt componentBytes off =
      .mk (componentInfo (off + 1 + field.length) body.render.length
        (gains (body.nodes opt componentBytes (off + 1 + field.length))))
          (body.nodes opt componentBytes (off + 1 + field.length)) ::
        rest.nodes opt componentBytes (off + 1 + field.length + body.render.length) := by
  rw [nodes, payloads, Forest.fold, ← nodes, ← nodes, payloadNode]
  dsimp only [finishNode, componentInfo]
  rw [rangeSize_add, Option.map_none, Option.getD_none, foldl_addSizeChange (sized_nodes _ _),
    Int.zero_add]

/-- The sizes of the tree tell how much longer the written items are. -/
theorem gains_nodes (opt : Nat → Bytes → Bytes) {items : Items} {off : Nat} (hvalid : items.Valid)
    (hsmall : items.render.length < 2 ^ 32) (hat : At componentBytes off items.render) :
    gains (items.nodes opt componentBytes off) =
      (items.written opt off).length - items.render.length := by
  induction items generalizing off with
  | nil => rfl
  | other bytes rest ih =>
    have hrest := ih hvalid
      (by rw [render, length_append] at hsmall; omega) hat.right
    rw [nodes_other, hrest, written, render, length_append, length_append]
    omega
  | coreModule field content rest ih =>
    obtain ⟨_, hcontent, hafter⟩ := hat.section_parts
    rw [length_render_coreModule] at hsmall ⊢
    have hrest := ih hvalid.2 (by omega) hafter
    have hstray := length_stray hvalid.1 (by omega)
    have hnew := byteLengthLEB128_eq (opt (off + 1 + field.length) content).length
    rw [nodes_coreModule rest hcontent, gains_cons, hrest, written]
    simp only [Node.gain, Node.info, moduleInfo, length_cons, length_append]
    omega
  | component field body rest ihbody ihrest =>
    obtain ⟨_, hbody, hafter⟩ := hat.section_parts
    rw [length_render_component] at hsmall ⊢
    have hinner := ihbody hvalid.2.2.1 (by omega) hbody
    have hrest := ihrest hvalid.2.2.2
      (by omega) hafter
    have hstray := length_stray hvalid.1 (by omega)
    have hnew := byteLengthLEB128_eq (body.written opt (off + 1 + field.length)).length
    have hsize : (body.render.length : Int) +
        gains (body.nodes opt componentBytes (off + 1 + field.length)) =
          (body.written opt (off + 1 + field.length)).length := by omega
    rw [nodes_component, gains_cons, hrest, written]
    simp only [Node.gain, Node.info, componentInfo, hsize, length_cons, length_append]
    omega

theorem written_of_nodes_nil {items : Items} {off : Nat}
    (h : items.nodes opt componentBytes off = []) : items.written opt off = items.render := by
  induction items generalizing off with
  | nil => rfl
  | other bytes rest ih => rw [written, render, ih h]
  | coreModule field content rest _ => cases h
  | component field body rest _ _ => cases h

end Nodes

/-! ## The buffer -/

/-- `done` has been written into a buffer of `size` bytes, and the input read up
to `read`. -/
structure Filled (size : Nat) (done : Bytes) (read : Nat) (st : Output) : Prop where
  bytes : st.outComponentBytes = done ++ List.replicate (size - done.length) 0
  readPos : st.nextReadPos = read
  writePos : st.nextWritePos = done.length

variable {size read : Nat} {done : Bytes} {st : Output}

theorem Filled.readAt (h : Filled size done read st) (pos : Nat) :
    Filled size done pos { st with nextReadPos := pos } :=
  ⟨h.bytes, rfl, h.writePos⟩

theorem Filled.setBytes_ok (h : Filled size done read st) (source : Bytes)
    (hroom : done.length + source.length ≤ size) :
    setBytes st.outComponentBytes source st.nextWritePos =
      .ok ((done ++ source) ++ List.replicate (size - (done ++ source).length) 0) := by
  rw [h.bytes, h.writePos, setBytes_append done source (by omega), length_append,
    Nat.sub_sub]

theorem Filled.writeBytes_ok (h : Filled size done read st) (source : Bytes)
    (hroom : done.length + source.length ≤ size) :
    ∃ st', writeBytes source st = .ok st' ∧ Filled size (done ++ source) read st' := by
  refine ⟨{ st with
    outComponentBytes := (done ++ source) ++ List.replicate (size - (done ++ source).length) 0
    nextWritePos := st.nextWritePos + source.length }, ?_, rfl, h.readPos, ?_⟩
  · rw [writeBytes, h.setBytes_ok _ hroom]
  · rw [h.writePos, length_append]
    rfl

theorem Filled.writeLEB_ok {n : Nat} (h : Filled size done read st)
    (hroom : done.length + (encode n).length ≤ size) :
    Filled size (done ++ encode n) read (writeLEB n st) := by
  induction n using Nat.strongRecOn generalizing done st with
  | ind n ih =>
    -- one round stores one byte
    have hround : ∀ b : UInt8, done.length + 1 ≤ size → Filled size (done ++ [b]) read { st with
        outComponentBytes := storeByte st.outComponentBytes st.nextWritePos b
        nextWritePos := st.nextWritePos + 1 } := by
      intro b hone
      refine ⟨?_, h.readPos, ?_⟩
      · rw [h.bytes, h.writePos, storeByte_append done b (by omega), length_append,
          length_singleton, Nat.sub_sub]
      · rw [h.writePos, length_append, length_singleton]
        rfl
    by_cases hlast : n < 0x80
    · have hquotient : n / 0x80 = 0 := by omega
      have hdigit : n % 0x80 = n := by omega
      rw [encode_of_lt hlast] at hroom ⊢
      rw [writeLEB, if_pos hquotient]
      rw [if_pos hquotient, hdigit]
      exact hround _ hroom
    · have hquotient : ¬ n / 0x80 = 0 := by omega
      rw [encode_of_le (by omega), length_cons] at hroom
      rw [encode_of_le (by omega), writeLEB, if_neg hquotient]
      rw [if_neg hquotient, ← singleton_append, ← append_assoc]
      apply ih (n / 0x80) (by omega) (hround _ (by omega))
      rw [length_append, length_singleton]
      omega

/-- The input copied from the read position to `stop`, as `write` does it. -/
theorem Filled.copy (h : Filled size done read st) {componentBytes part : Bytes} {stop : Nat}
    (hpart : subarray componentBytes read stop = part) (hlen : part.length + read = stop)
    (hroom : done.length + part.length ≤ size) :
    ∃ bytes, setBytes st.outComponentBytes (subarray componentBytes st.nextReadPos stop)
        st.nextWritePos = .ok bytes ∧
      Filled size (done ++ part) read { st with
        outComponentBytes := bytes
        nextWritePos := st.nextWritePos + (stop - st.nextReadPos) } := by
  refine ⟨(done ++ part) ++ List.replicate (size - (done ++ part).length) 0, ?_, rfl, h.readPos, ?_⟩
  · rw [h.readPos, hpart, h.setBytes_ok _ hroom]
  · dsimp only
    rw [h.writePos, h.readPos, length_append]
    omega

/-- The bytes up to the guessed start of the size field, and the new size. -/
theorem Filled.writeHead_ok {componentBytes field : Bytes} {id : UInt8} {off : Nat}
    (h : Filled size done read st) (info : NodeInfo) (newSize : Nat) (hat : At componentBytes off (id :: field))
    (hread : read ≤ off) (hstart : info.range.1 = off + 1 + field.length)
    (hprev : info.prevLEBLen ≤ field.length)
    (hsize : rangeSize info.range + info.sizeChange = newSize)
    (hroom : done.length + (subarray componentBytes read off).length +
      (field.length - info.prevLEBLen) + (encode (newSize % 2 ^ 32)).length + 1 ≤ size) :
    ∃ st', writeHead componentBytes info st = .ok st' ∧
      Filled size (done ++ (subarray componentBytes read off ++ (id ::
        (field.take (field.length - info.prevLEBLen) ++ encode (newSize % 2 ^ 32)))))
          read st' := by
  have hkept : At componentBytes off (id :: field.take (field.length - info.prevLEBLen)) := by
    have hsplit : id :: field = (id :: field.take (field.length - info.prevLEBLen)) ++
        field.drop (field.length - info.prevLEBLen) := by
      rw [cons_append, take_append_drop]
    rw [hsplit] at hat
    exact hat.left
  have hlen : (id :: field.take (field.length - info.prevLEBLen)).length =
      field.length - info.prevLEBLen + 1 := by
    rw [length_cons, length_take]
    omega
  -- the copying stops where the field is guessed to start
  have hstop : (info.range.1 : Int) - info.prevLEBLen =
      ((off + (id :: field.take (field.length - info.prevLEBLen)).length : Nat) : Int) := by
    rw [hlen, hstart]
    omega
  have hread_len : (subarray componentBytes read off).length + read = off := by
    have hle := hkept.le_length
    rw [subarray_natCast, length_drop, length_take]
    omega
  obtain ⟨bytes, hset, hcopied⟩ := h.copy (hkept.subarray_append hread)
    (by rw [length_append]; omega) (by rw [length_append, hlen]; omega)
  have hencoded := hcopied.writeLEB_ok (n := newSize % 2 ^ 32)
    (by rw [length_append, length_append, hlen]; omega)
  refine ⟨_, ?_, by simpa only [append_assoc, cons_append] using hencoded⟩
  rw [writeHead, hstop, hset, hsize, toUint32_natCast]

/-! ## The tree -/

/-- The nodes can be written from `st` on; what has then been written, with
the input from there up to `stop`, is `target`. -/
def Writes (componentBytes : Bytes) (size : Nat) (nodes : List Node) (st : Output) (stop : Nat)
    (target : Bytes) : Prop :=
  ∃ st' done read, writeAll componentBytes nodes st = .ok st' ∧ Filled size done read st' ∧
    read ≤ stop ∧ done ++ subarray componentBytes read stop = target

theorem Writes.cons {componentBytes target : Bytes} {node : Node} {nodes : List Node}
    {st' : Output} {stop : Nat} (hnode : write componentBytes node st = .ok st')
    (h : Writes componentBytes size nodes st' stop target) :
    Writes componentBytes size (node :: nodes) st stop target := by
  obtain ⟨st'', done, read, hall, hfilled, hread, htarget⟩ := h
  exact ⟨st'', done, read, by rw [writeAll, hnode]; exact hall, hfilled, hread, htarget⟩

/-- Writing the nodes of items that stand at `off`, with enough room, adds the
input up to `off` and then `written`. -/
theorem writes_nodes (opt : Nat → Bytes → Bytes) {componentBytes : Bytes} {items : Items}
    {off : Nat} (hvalid : items.Valid) (hsmall : items.render.length < 2 ^ 32)
    (hat : At componentBytes off items.render) (hfilled : Filled size done read st)
    (hread : read ≤ off)
    (hroom : done.length + (subarray componentBytes read off).length +
      (items.written opt off).length ≤ size) :
    Writes componentBytes size (items.nodes opt componentBytes off) st
      (off + items.render.length)
      (done ++ (subarray componentBytes read off ++ items.written opt off)) := by
  induction items generalizing off read done st with
  | nil =>
    rw [written, append_nil]
    exact ⟨st, done, read, rfl, hfilled, hread, rfl⟩
  | other bytes rest ih =>
    have hcopy := hat.left.subarray_append hread
    rw [written, length_append] at hroom
    rw [render, length_append] at hsmall ⊢
    have hrest := ih hvalid (by omega) hat.right hfilled
      (by omega) (by rw [hcopy, length_append]; omega)
    rw [nodes_other, written, ← append_assoc (subarray componentBytes read off), ← hcopy,
      ← Nat.add_assoc]
    exact hrest
  | coreModule field content rest ih =>
    obtain ⟨hhead, hcontent, hafter⟩ := hat.section_parts
    rw [length_render_coreModule] at hsmall ⊢
    have hstray := length_stray hvalid.1 (by omega)
    have hkept : (field.take (field.length - byteLengthLEB128 content.length)).length =
      field.length - byteLengthLEB128 content.length := by rw [← stray]; omega
    rw [written] at hroom ⊢
    simp only [length_cons, length_append] at hroom
    rw [nodes_coreModule rest hcontent]
    -- the head, then the module
    obtain ⟨st₁, hst₁, hfilled₁⟩ := hfilled.writeHead_ok
      (moduleInfo (off + 1 + field.length) content (opt (off + 1 + field.length) content))
      (opt (off + 1 + field.length) content).length hhead hread rfl
      (by dsimp only [moduleInfo]; omega)
      (by dsimp only [moduleInfo]; rw [rangeSize_add]; omega)
      (by dsimp only [moduleInfo]; omega)
    dsimp only [moduleInfo] at hfilled₁
    obtain ⟨st₂, hst₂, hfilled₂⟩ :=
      (hfilled₁.readAt (off + 1 + field.length + content.length)).writeBytes_ok
        (opt (off + 1 + field.length) content)
        (by simp only [length_append, length_cons]; omega)
    have hnode : write componentBytes (.mk (moduleInfo (off + 1 + field.length) content
        (opt (off + 1 + field.length) content)) []) st = .ok st₂ := by
      rw [write, hst₁]
      exact hst₂
    have hrest := ih hvalid.2 (by omega) hafter
      hfilled₂ (Nat.le_refl _)
      (by
        simp only [At.subarray_self, length_append, length_cons, length_nil]
        omega)
    have hstop : off + 1 + field.length + content.length + rest.render.length =
      off + (field.length + content.length + rest.render.length + 1) := by omega
    rw [hstop, At.subarray_self, nil_append] at hrest
    have hdone := Writes.cons hnode hrest
    simpa only [stray, append_assoc, cons_append] using hdone
  | component field body rest ihbody ihrest =>
    obtain ⟨hhead, hbody, hafter⟩ := hat.section_parts
    rw [length_render_component] at hsmall ⊢
    have hstray := length_stray hvalid.1 (by omega)
    have hkept : (field.take (field.length - byteLengthLEB128 body.render.length)).length =
      field.length - byteLengthLEB128 body.render.length := by rw [← stray]; omega
    have hgains := gains_nodes opt hvalid.2.2.1 (by omega) hbody
    rw [written] at hroom ⊢
    simp only [length_cons, length_append] at hroom
    rw [nodes_component]
    -- the head, then what is inside
    obtain ⟨st₁, hst₁, hfilled₁⟩ := hfilled.writeHead_ok
      (componentInfo (off + 1 + field.length) body.render.length
        (gains (body.nodes opt componentBytes (off + 1 + field.length))))
      (body.written opt (off + 1 + field.length)).length hhead hread rfl
      (by dsimp only [componentInfo]; omega)
      (by dsimp only [componentInfo]; rw [rangeSize_add]; omega)
      (by dsimp only [componentInfo]; omega)
    dsimp only [componentInfo] at hfilled₁
    have hinside : ∃ st₂ done₂ read₂,
        write componentBytes (.mk (componentInfo (off + 1 + field.length) body.render.length
          (gains (body.nodes opt componentBytes (off + 1 + field.length))))
            (body.nodes opt componentBytes (off + 1 + field.length))) st = .ok st₂ ∧
        Filled size done₂ read₂ st₂ ∧ read₂ ≤ off + 1 + field.length + body.render.length ∧
        done₂ ++ subarray componentBytes read₂
          (off + 1 + field.length + body.render.length : Nat) =
            done ++ (subarray componentBytes read off ++ (4 ::
              (field.take (field.length - byteLengthLEB128 body.render.length) ++
                encode ((body.written opt (off + 1 + field.length)).length % 2 ^ 32)))) ++
              body.written opt (off + 1 + field.length) := by
      rw [write, hst₁]
      cases hnodes : body.nodes opt componentBytes (off + 1 + field.length) with
      | nil =>
        -- nothing inside: the body is copied as it is
        rw [written_of_nodes_nil hnodes] at hroom hfilled₁ ⊢
        obtain ⟨st₂, hst₂, hfilled₂⟩ :=
          (hfilled₁.readAt (off + 1 + field.length + body.render.length)).writeBytes_ok
            body.render (by simp only [length_append, length_cons]; omega)
        refine ⟨st₂, _, _, ?_, hfilled₂, Nat.le_refl _, ?_⟩
        · dsimp only [componentInfo]
          rw [hbody.subarray]
          exact hst₂
        · rw [At.subarray_self, append_nil]
      | cons child children =>
        have hwrites := ihbody hvalid.2.2.1 (by omega) hbody
          (hfilled₁.readAt (off + 1 + field.length)) (Nat.le_refl _)
          (by
            simp only [At.subarray_self, length_append, length_cons, length_nil]
            omega)
        rw [hnodes, At.subarray_self, nil_append] at hwrites
        exact hwrites
    obtain ⟨st₂, done₂, read₂, hst₂, hfilled₂, hread₂, hdone₂⟩ := hinside
    have hlen₂ := congrArg List.length hdone₂
    simp only [length_append, length_cons] at hlen₂
    have hrest := ihrest hvalid.2.2.2 (by omega) hafter hfilled₂ hread₂ (by omega)
    have hstop : off + 1 + field.length + body.render.length + rest.render.length =
      off + (field.length + body.render.length + rest.render.length + 1) := by omega
    rw [hstop, ← append_assoc done₂, hdone₂] at hrest
    have hdone := Writes.cons hst₂ hrest
    simpa only [stray, append_assoc, cons_append] using hdone

/-- The whole component: the buffer has exactly the length of what is written. -/
theorem writeComponent_nodes (opt : Nat → Bytes → Bytes) {items : Items} (hvalid : items.Valid)
    (hsmall : items.render.length < 2 ^ 32) :
    writeComponent items.render (items.nodes opt items.render 0) =
      .ok (items.written opt 0) := by
  have hwhole := At.whole items.render
  have hgains := gains_nodes opt hvalid hsmall hwhole
  have hlength : (items.render.length : Int) +
      (items.nodes opt items.render 0).foldl addTotalChange 0 =
        (items.written opt 0).length := by
    rw [foldl_addTotalChange, hgains]
    omega
  have hfilled : Filled (items.written opt 0).length [] 0
      ⟨List.replicate (items.written opt 0).length 0, 0, 0⟩ := ⟨rfl, rfl, rfl⟩
  have hnothing : subarray items.render (0 : Nat) (0 : Nat) = [] := At.subarray_self _ 0
  obtain ⟨st, done, read, hst, hdone, hread, htarget⟩ :=
    writes_nodes opt hvalid hsmall hwhole hfilled (Nat.le_refl 0)
      (by rw [hnothing, length_nil]; omega)
  rw [hnothing, nil_append, nil_append, Nat.zero_add] at htarget
  have hlen := congrArg List.length htarget
  rw [length_append] at hlen
  have hset := hdone.setBytes_ok (subarray items.render read items.render.length)
    (by omega)
  rw [htarget, Nat.sub_self, replicate_zero, append_nil] at hset
  rw [writeComponent, hlength, newUint8Array, if_neg (by omega), Int.toNat_natCast]
  dsimp only
  rw [hst]
  dsimp only
  rw [hdone.readPos]
  exact hset

end Jco.Optimize

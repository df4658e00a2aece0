import Jco.Optimize.Splice

/-! # When an optimised component is an exact splice

The optimiser never reads a size field. It takes each for the shortest encoding
of the size it knows, so a field that is padded leaves its first bytes in the
output. With shortest fields, and new sizes that the format has, the output is
the exact splice; with anything else it never is, as an encoding tells where it
ends and the first field that differs shows.
-/

namespace Jco.Optimize

open Jco.Js Jco.Breadth Jco.Leb128 Items List

/-! ## Written against spliced -/

section Bytes

variable (opt : Nat → Bytes → Bytes)

variable {items : Items} {off : Nat}

/-- Without core modules the splice changes nothing. -/
theorem spliced_of_not_hasModule (h : items.hasModule = false) :
    items.spliced opt off = items.render := by
  induction items generalizing off with
  | nil => rfl
  | other bytes rest ih => rw [spliced, render, ih h]
  | coreModule field content rest _ => cases h
  | component field body rest ihbody ihrest =>
    rw [hasModule, Bool.or_eq_false_iff] at h
    rw [spliced, render, ihbody h.1, ihrest h.2, h.1]
    rfl

theorem stray_encode {size : Nat} (h : size < 2 ^ 32) : stray (encode size) size = [] := by
  rw [stray, byteLengthLEB128_of_lt h, Nat.sub_self, take_zero]

/-- With shortest size fields all is exact. -/
theorem written_eq_spliced (hsmall : items.render.length < 2 ^ 32)
    (hshort : items.Shortest) (hfits : items.Fits opt off) :
    items.written opt off = items.spliced opt off := by
  induction items generalizing off with
  | nil => rfl
  | other bytes rest ih =>
    rw [render, length_append] at hsmall
    rw [written, spliced, ih (by omega) hshort hfits]
  | coreModule field content rest ih =>
    rw [length_render_coreModule] at hsmall
    have hstray : stray field content.length = [] := by
      rw [hshort.1, stray_encode (by omega)]
    rw [written, spliced, ih (by omega) hshort.2 hfits.2, Nat.mod_eq_of_lt hfits.1, hstray,
      nil_append]
  | component field body rest ihbody ihrest =>
    rw [length_render_component] at hsmall
    have hbody := ihbody (by omega) hshort.2.1 hfits.2.1
    rw [written, spliced, hbody, ihrest (by omega) hshort.2.2 hfits.2.2]
    have hstray : stray field body.render.length = [] := by
      rw [hshort.1, stray_encode (by omega)]
    rw [hstray, nil_append]
    cases hmodule : body.hasModule with
    | true => rw [if_pos rfl, Nat.mod_eq_of_lt (hfits.1 hmodule)]
    | false =>
      rw [if_neg Bool.false_ne_true, spliced_of_not_hasModule opt hmodule,
        Nat.mod_eq_of_lt (by omega), ← hshort.1]

/-- What is left of a size field and an encoding after it are read as one
number; if that is the new size, nothing was left. -/
theorem shortest_of_stray_append {field us vs : Bytes} {size newSize newSize' : Nat}
    (hfield : Encodes field size) (hsize : size < 2 ^ 32)
    (h : stray field size ++ (encode newSize ++ us) = encode newSize' ++ vs) :
    us = vs ∧ (newSize = newSize' → field = encode size) := by
  have hlen := length_stray hfield hsize
  have hpos : 0 < byteLengthLEB128 size := by
    rw [byteLengthLEB128_of_lt hsize]
    exact length_pos_of_ne_nil (encode_ne_nil size)
  have hle := byteLengthLEB128_le hfield hsize
  have htoken : Token (stray field size ++ encode newSize) :=
    hfield.token_take_append (by omega) (token_encode newSize)
  rw [← append_assoc] at h
  obtain ⟨hsame, hafter⟩ := htoken.append_inj (token_encode newSize') h
  refine ⟨hafter, ?_⟩
  rintro rfl
  have hnone : (stray field size).length = 0 := by
    have hlen' := congrArg List.length hsame
    rw [length_append] at hlen'
    omega
  apply hfield.eq_encode
  rw [← byteLengthLEB128_of_lt hsize]
  omega

/-- A size field that is kept by the splice is left alone only if it is the
shortest. -/
theorem shortest_of_stray_kept {field us vs : Bytes} {size newSize : Nat}
    (hfield : Encodes field size) (hsize : size < 2 ^ 32) (hpos : 0 < size)
    (h : stray field size ++ (encode newSize ++ us) = field ++ vs) :
    us = vs ∧ (newSize = size → field = encode size) := by
  have hlen := length_stray hfield hsize
  have hbyte : 0 < byteLengthLEB128 size := by
    rw [byteLengthLEB128_of_lt hsize]
    exact length_pos_of_ne_nil (encode_ne_nil size)
  have hle := byteLengthLEB128_le hfield hsize
  have htoken : Token (stray field size ++ encode newSize) :=
    hfield.token_take_append (by omega) (token_encode newSize)
  rw [← append_assoc] at h
  obtain ⟨hsame, hafter⟩ := htoken.append_inj hfield.token h
  refine ⟨hafter, ?_⟩
  rintro rfl
  have hcut : field.drop (field.length - (encode newSize).length) = encode newSize := by
    have hdrop := congrArg (List.drop (stray field newSize).length) hsame
    rw [drop_left] at hdrop
    rw [← byteLengthLEB128_of_lt hsize, hdrop]
    congr 1
    omega
  apply hfield.eq_encode
  by_contra hne
  have hshorter := hfield.length_le
  exact hfield.drop_ne_encode hpos (by omega) hcut

/-- Bytes that start with what is written and with the splice show that all
size fields are the shortest, and agree in what follows. -/
theorem shortest_of_written_append {us vs : Bytes}
    (hvalid : items.Valid) (hsmall : items.render.length < 2 ^ 32) (hfits : items.Fits opt off)
    (h : items.written opt off ++ us = items.spliced opt off ++ vs) :
    items.Shortest ∧ us = vs := by
  induction items generalizing off us vs with
  | nil => exact ⟨trivial, h⟩
  | other bytes rest ih =>
    rw [render, length_append] at hsmall
    rw [written, spliced, append_assoc, append_assoc, append_cancel_left_eq] at h
    exact ih hvalid (by omega) hfits h
  | coreModule field content rest ih =>
    rw [length_render_coreModule] at hsmall
    rw [written, spliced, Nat.mod_eq_of_lt hfits.1] at h
    simp only [cons_append, append_assoc, List.cons.injEq, true_and] at h
    obtain ⟨hafter, hfield⟩ := shortest_of_stray_append hvalid.1 (by omega) h
    rw [append_cancel_left_eq] at hafter
    obtain ⟨hrest, hend⟩ := ih hvalid.2 (by omega) hfits.2 hafter
    exact ⟨⟨hfield rfl, hrest⟩, hend⟩
  | component field body rest ihbody ihrest =>
    obtain ⟨hencodes, hpreamble, hbody, hrest⟩ := hvalid
    rw [length_render_component] at hsmall
    rw [written, spliced] at h
    simp only [cons_append, append_assoc, List.cons.injEq, true_and] at h
    cases hmodule : body.hasModule with
    | true =>
      rw [hmodule, if_pos rfl] at h
      obtain ⟨hinside, hfield⟩ := shortest_of_stray_append hencodes (by omega) h
      obtain ⟨hshort, hafter⟩ := ihbody hbody (by omega) hfits.2.1 hinside
      obtain ⟨hshort', hend⟩ := ihrest hrest (by omega) hfits.2.2 hafter
      have hsame := written_eq_spliced opt (by omega) hshort hfits.2.1
      refine ⟨⟨hfield ?_, hshort, hshort'⟩, hend⟩
      rw [hsame, Nat.mod_eq_of_lt (hfits.1 hmodule)]
    | false =>
      rw [hmodule, if_neg Bool.false_ne_true] at h
      obtain ⟨hinside, hfield⟩ := shortest_of_stray_kept hencodes (by omega) (by omega) h
      obtain ⟨hshort, hafter⟩ := ihbody hbody (by omega) hfits.2.1 hinside
      obtain ⟨hshort', hend⟩ := ihrest hrest (by omega) hfits.2.2 hafter
      have hsame := written_eq_spliced opt (by omega) hshort hfits.2.1
      refine ⟨⟨hfield ?_, hshort, hshort'⟩, hend⟩
      rw [hsame, spliced_of_not_hasModule opt hmodule, Nat.mod_eq_of_lt (by omega)]

theorem written_eq_spliced_iff (hvalid : items.Valid)
    (hsmall : items.render.length < 2 ^ 32) (hfits : items.Fits opt off) :
    items.written opt off = items.spliced opt off ↔ items.Shortest :=
  ⟨fun h => (shortest_of_written_append opt hvalid hsmall hfits
      (congrArg (· ++ []) h)).1,
    fun h => written_eq_spliced opt hsmall h hfits⟩

end Bytes

/-! ## The tree of a binary -/

/-- A component binary: items whose size fields are right. -/
structure Component where
  items : Items
  valid : items.Valid

def Component.bytes (c : Component) : Bytes := c.items.render

/-- What the parser tells of the binary. -/
def Component.payload (c : Component) : PayloadTree :=
  (⟨.component, 0, c.bytes.length⟩, c.items.payloads 0)

section Tools

variable (tools : Tools) (args : List String)

/-- The answer of `wasm-opt` for a core module. -/
def replacement (start : Nat) (content : Bytes) : Bytes :=
  match tools.wasmOpt args start content with
  | .ok (some optimized) => optimized
  | _ => []

/-- `wasm-opt` succeeds on every core module. -/
def Optimized (c : Component) : Prop :=
  ∀ m ∈ c.items.modules 0, ∃ optimized, tools.wasmOpt args m.1 m.2 = .ok (some optimized)

/-- An entry once `wasm-opt` has succeeded on it. -/
def optimizedEntry (componentBytes : Bytes) (entry : EnhancedModuleMetadata) :
    EnhancedModuleMetadata :=
  match entry.metadata.metaType with
  | .component _ => entry
  | .module => withOptimized entry (replacement tools args entry.metadata.range.1
      (subarray componentBytes entry.metadata.range.1 entry.metadata.range.2))

variable {tools args} (missing : JsError) {componentBytes : Bytes}

theorem optimizeModules_ok {entries : List EnhancedModuleMetadata}
    (h : ∀ entry ∈ entries, entry.metadata.metaType = .module →
      ∃ optimized, tools.wasmOpt args entry.metadata.range.1
        (subarray componentBytes entry.metadata.range.1 entry.metadata.range.2) =
          .ok (some optimized)) :
    optimizeModules tools missing args componentBytes entries =
      .ok (entries.map (optimizedEntry tools args componentBytes)) := by
  induction entries with
  | nil => rfl
  | cons entry entries ih =>
    have hentry : optimizeModule tools missing args componentBytes entry =
        .ok (optimizedEntry tools args componentBytes entry) := by
      unfold optimizeModule optimizedEntry
      cases hkind : entry.metadata.metaType with
      | component n => rfl
      | module =>
        obtain ⟨optimized, hopt⟩ := h entry mem_cons_self hkind
        dsimp only [replacement]
        rw [hopt]
    rw [optimizeModules, hentry]
    rw [ih fun e he => h e (mem_cons_of_mem entry he)]
    rfl

theorem optimizeModules_error {entries : List EnhancedModuleMetadata}
    {entry : EnhancedModuleMetadata} (hentry : entry ∈ entries)
    (hkind : entry.metadata.metaType = .module)
    (h : ¬ ∃ optimized, tools.wasmOpt args entry.metadata.range.1
        (subarray componentBytes entry.metadata.range.1 entry.metadata.range.2) =
          .ok (some optimized)) :
    ∃ e, optimizeModules tools missing args componentBytes entries = .error e := by
  induction entries with
  | nil => cases hentry
  | cons first entries ih =>
    rw [optimizeModules]
    cases hfirst : optimizeModule tools missing args componentBytes first with
    | error e => exact ⟨e, rfl⟩
    | ok done =>
      rcases mem_cons.mp hentry with rfl | hlater
      · -- the run on this module fails
        unfold optimizeModule at hfirst
        rw [hkind] at hfirst
        dsimp only at hfirst
        split at hfirst
        · exact nomatch hfirst
        · exact nomatch hfirst
        next optimized hopt => exact absurd ⟨optimized, hopt⟩ h
      · obtain ⟨e, he⟩ := ih hlater
        exact ⟨e, by dsimp only; rw [he]⟩

end Tools

/-- The core modules among the payloads are those of the items. -/
theorem modules_of_payloads {items : Items} {componentBytes : Bytes} {off : Nat}
    (hat : At componentBytes off items.render) (m : Nat × Bytes) :
    m ∈ items.modules off ↔ ∃ p ∈ (items.payloads off).labels, p.kind = .module ∧
      (p.range.1, subarray componentBytes p.range.1 p.range.2) = m := by
  induction items generalizing off with
  | nil => simp [modules, payloads, Forest.labels]
  | other bytes rest ih => exact ih hat.right
  | coreModule field content rest ih =>
    obtain ⟨_, hcontent, hafter⟩ := hat.section_parts
    rw [modules, payloads, Forest.labels, Forest.labels, nil_append, mem_cons,
      ih hafter, eq_comm (a := m)]
    simp only [mem_cons, exists_eq_or_imp, true_and, hcontent.subarray]
  | component field body rest ihbody ihrest =>
    obtain ⟨_, hbody, hafter⟩ := hat.section_parts
    rw [modules, payloads, Forest.labels, mem_append, ihbody hbody, ihrest hafter]
    simp [or_and_right, exists_or]

section Run

variable {tools : Tools} {args : List String} {c : Component}

/-- The entry made of a visit, with the answer of `wasm-opt`. -/
def entryOf (tools : Tools) (args : List String) (componentBytes : Bytes) (index : Nat)
    (visit : Visit Payload) : EnhancedModuleMetadata :=
  optimizedEntry tools args componentBytes (enhance index (moduleMetadata visit))

theorem entryOf_index (componentBytes : Bytes) (index : Nat) (visit : Visit Payload) :
    (entryOf tools args componentBytes index visit).index = index := by
  unfold entryOf optimizedEntry
  split <;> rfl

theorem entryOf_parentIndex (componentBytes : Bytes) (index : Nat) (visit : Visit Payload) :
    (entryOf tools args componentBytes index visit).metadata.parentIndex = visit.1 := by
  unfold entryOf optimizedEntry
  split <;> rfl

theorem finish_entryOf (componentBytes : Bytes) (index : Nat) (visit : Visit Payload)
    (children : List Node) :
    finish (entryOf tools args componentBytes index visit) children =
      payloadNode (replacement tools args) componentBytes visit.2.1 children := by
  rcases visit with ⟨parent, ⟨kind, range⟩, below⟩
  cases kind <;> rfl

/-- The metadata of the binary, as the loops over it leave them. -/
def Component.entries (c : Component) : List EnhancedModuleMetadata :=
  ((listing c.payload).map moduleMetadata).zipIdx.map fun m => enhance m.2 m.1

theorem Component.entry_visit {entry : EnhancedModuleMetadata} (h : entry ∈ c.entries) :
    ∃ visit ∈ listing c.payload, entry.metadata = moduleMetadata visit := by
  rw [entries, mem_map] at h
  obtain ⟨⟨metadata, index⟩, hm, rfl⟩ := h
  have hmetadata := mem_of_getElem? (mem_zipIdx_iff_getElem?.mp hm)
  obtain ⟨visit, hvisit, hmeta⟩ := mem_map.mp hmetadata
  exact ⟨visit, hvisit, hmeta.symm⟩

theorem Component.visit_entry {visit : Visit Payload} (h : visit ∈ listing c.payload) :
    ∃ entry ∈ c.entries, entry.metadata = moduleMetadata visit := by
  obtain ⟨index, hindex⟩ := List.getElem?_of_mem (mem_map_of_mem (f := moduleMetadata) h)
  exact ⟨enhance index (moduleMetadata visit),
    mem_map.mpr ⟨(moduleMetadata visit, index),
      mem_zipIdx_iff_getElem?.mpr hindex, rfl⟩, rfl⟩

theorem metaType_eq_module {visit : Visit Payload} :
    (moduleMetadata visit).metaType = .module ↔ visit.2.1.kind = .module := by
  rcases visit with ⟨parent, ⟨kind, range⟩, below⟩
  cases kind with
  | component => exact ⟨nofun, nofun⟩
  | module => exact ⟨fun _ => rfl, fun _ => rfl⟩

/-- The entries of core modules are those of the items. -/
theorem Component.optimized_iff (c : Component) :
    Optimized tools args c ↔ ∀ entry ∈ c.entries,
      entry.metadata.metaType = .module → ∃ optimized, tools.wasmOpt args entry.metadata.range.1
        (subarray c.bytes entry.metadata.range.1 entry.metadata.range.2) =
          .ok (some optimized) := by
  have hmodules := modules_of_payloads (At.whole c.items.render)
  constructor
  · intro h entry hentry hkind
    obtain ⟨visit, hvisit, hmeta⟩ := entry_visit hentry
    rw [hmeta] at hkind ⊢
    rw [metaType_eq_module] at hkind
    have hlabel : visit.2.1 ∈ (c.items.payloads 0).labels := by
      rcases (exists_mem_listing c.payload visit.2.1).mp ⟨visit, hvisit, rfl⟩ with hroot | hbelow
      · -- the root is a component
        rw [hroot] at hkind
        exact nomatch hkind
      · exact hbelow
    exact h _ ((hmodules _).mpr ⟨visit.2.1, hlabel, hkind, rfl⟩)
  · intro h m hm
    obtain ⟨p, hp, hkind, rfl⟩ := (hmodules m).mp hm
    obtain ⟨visit, hvisit, rfl⟩ := (exists_mem_listing c.payload p).mpr (.inr hp)
    obtain ⟨entry, hentry, hmeta⟩ := visit_entry hvisit
    have hdone := h entry hentry (by rw [hmeta, metaType_eq_module]; exact hkind)
    rw [hmeta] at hdone
    exact hdone

/-- With every module optimised the search gathers the tree of the items. -/
theorem Component.getChildren_entries (c : Component) :
    getChildren ((c.entries.map (optimizedEntry tools args c.bytes)).drop 1) 0 =
      c.items.nodes (replacement tools args) c.bytes 0 := by
  have hentries : c.entries.map (optimizedEntry tools args c.bytes) =
      Breadth.entries (entryOf tools args c.bytes) (listing c.payload) := by
    rw [entries, Breadth.entries, zipIdx_map, map_map, map_map]
    rfl
  rw [hentries, getChildren]
  exact rebuild_listing (entryOf_index c.bytes) (entryOf_parentIndex c.bytes)
    (finish_entryOf c.bytes) c.payload

variable (missing : JsError) (opts : OptimizeOptions)

/-- Once every module is optimised only the verification can fail. -/
theorem optimizeWith_eq (hread : tools.fromBinary c.bytes = .ok c.payload)
    (hsmall : c.bytes.length < 2 ^ 32) (hopt : Optimized tools (optimizeArgs opts) c) :
    ∃ info, optimizeWith tools missing c.bytes opts =
      (verify tools opts (c.items.written (replacement tools (optimizeArgs opts)) 0)).map
        fun _ => ⟨c.items.written (replacement tools (optimizeArgs opts)) 0, info⟩ := by
  have hshow : metadataShow tools c.bytes = .ok ((listing c.payload).map moduleMetadata) := by
    rw [metadataShow, if_neg (by omega), hread]
  have hmodules := optimizeModules_ok missing (c.optimized_iff.mp hopt)
  have hwrite := writeComponent_nodes (replacement tools (optimizeArgs opts)) c.valid hsmall
  refine ⟨((c.entries.map (optimizedEntry tools (optimizeArgs opts) c.bytes)).filter
    fun e => e.metadata.metaType = .module).map compressionInfo, ?_⟩
  rw [optimizeWith, hshow]
  dsimp only
  rw [← Component.entries, hmodules]
  dsimp only
  rw [c.getChildren_entries, Component.bytes, hwrite]
  dsimp only
  cases verify tools opts (c.items.written (replacement tools (optimizeArgs opts)) 0) with
  | error e => rfl
  | ok u => rfl

/-- The run throws on a binary it cannot hold, and when `wasm-opt` fails. -/
theorem optimizeWith_error (hread : tools.fromBinary c.bytes = .ok c.payload)
    (h : 2 ^ 32 ≤ c.bytes.length ∨ ¬ Optimized tools (optimizeArgs opts) c) :
    ∃ e, optimizeWith tools missing c.bytes opts = .error e := by
  by_cases hlarge : 2 ^ 32 ≤ c.bytes.length
  · exact ⟨.engine, by rw [optimizeWith, metadataShow, if_pos hlarge]⟩
  have hfails := h.resolve_left hlarge
  rw [c.optimized_iff] at hfails
  simp only [not_forall] at hfails
  obtain ⟨entry, hentry, hkind, hnone⟩ := hfails
  obtain ⟨e, he⟩ := optimizeModules_error missing hentry hkind
    hnone
  refine ⟨e, ?_⟩
  rw [optimizeWith, metadataShow, if_neg hlarge, hread]
  dsimp only
  rw [← Component.entries, he]

/-- The result is the exact splice of the answers of `wasm-opt`. -/
def ExactSplice (tools : Tools) (args : List String) (c : Component) (out : Bytes) : Prop :=
  c.items.Fits (replacement tools args) 0 ∧ out = c.items.spliced (replacement tools args) 0

/-- With `noVerify` or without, what is returned is the exact splice. -/
def ExactOrThrows (run : Bytes → OptimizeOptions → Except JsError OptimizeResult)
    (tools : Tools) (c : Component) (opts : OptimizeOptions) : Prop :=
  ∀ noVerify result, run c.bytes { opts with noVerify } = .ok result →
    ExactSplice tools (optimizeArgs opts) c result.component

theorem exactOrThrows_iff (hread : tools.fromBinary c.bytes = .ok c.payload) :
    ExactOrThrows (optimizeWith tools missing) tools c opts ↔
      2 ^ 32 ≤ c.bytes.length ∨ ¬ Optimized tools (optimizeArgs opts) c ∨
        c.items.Shortest ∧ c.items.Fits (replacement tools (optimizeArgs opts)) 0 := by
  by_cases hthrows : 2 ^ 32 ≤ c.bytes.length ∨ ¬ Optimized tools (optimizeArgs opts) c
  · refine iff_of_true ?_ (or_assoc.mp (.inl hthrows))
    intro noVerify result hresult
    obtain ⟨e, he⟩ := optimizeWith_error missing { opts with noVerify }
      hread hthrows
    rw [he] at hresult
    exact nomatch hresult
  rw [not_or, not_not] at hthrows
  obtain ⟨hlarge, hopt⟩ := hthrows
  have hsmall : c.bytes.length < 2 ^ 32 := Nat.lt_of_not_le hlarge
  rw [or_iff_right hlarge, or_iff_right (not_not_intro hopt)]
  constructor
  · intro hexact
    -- the unverified run returns
    obtain ⟨info, hinfo⟩ := optimizeWith_eq missing
      { opts with noVerify := true } hread hsmall hopt
    obtain ⟨hfits, hsame⟩ := hexact true _ hinfo
    exact ⟨(written_eq_spliced_iff _ c.valid hsmall hfits).mp hsame, hfits⟩
  · rintro ⟨hshort, hfits⟩ noVerify result hresult
    obtain ⟨info, hinfo⟩ := optimizeWith_eq missing { opts with noVerify }
      hread hsmall hopt
    rw [hinfo] at hresult
    cases hverify : verify tools { opts with noVerify }
        (c.items.written (replacement tools (optimizeArgs opts)) 0) with
    | error e =>
      rw [show optimizeArgs { opts with noVerify } = optimizeArgs opts from rfl, hverify] at hresult
      exact nomatch hresult
    | ok u =>
      rw [show optimizeArgs { opts with noVerify } = optimizeArgs opts from rfl, hverify] at hresult
      cases hresult
      exact ⟨hfits, written_eq_spliced _ hsmall hshort hfits⟩

end Run

/-- Both functions return exact splices or throw on just these inputs: those too
long to be read, those on which `wasm-opt` fails, and those whose size fields
are all the shortest, as long as the new sizes fit. -/
theorem optimized_exact_iff (tools : Tools) (c : Component) (opts : OptimizeOptions)
    (hread : tools.fromBinary c.bytes = .ok c.payload) :
    (ExactOrThrows (runOptimizeComponent tools) tools c opts ↔
      2 ^ 32 ≤ c.bytes.length ∨ ¬ Optimized tools (optimizeArgs opts) c ∨
        c.items.Shortest ∧ c.items.Fits (replacement tools (optimizeArgs opts)) 0) ∧
    (ExactOrThrows (optimizeComponent tools) tools c opts ↔
      2 ^ 32 ≤ c.bytes.length ∨ ¬ Optimized tools (optimizeArgs opts) c ∨
        c.items.Shortest ∧ c.items.Fits (replacement tools (optimizeArgs opts)) 0) :=
  ⟨exactOrThrows_iff _ opts hread, exactOrThrows_iff _ opts hread⟩

/-- The preambles of a component and of a core module. -/
def componentPreamble : Bytes := [0x00, 0x61, 0x73, 0x6d, 0x0d, 0x00, 0x01, 0x00]

def modulePreamble : Bytes := [0x00, 0x61, 0x73, 0x6d, 0x01, 0x00, 0x00, 0x00]

/-- Tools that know one component and optimise nothing away. -/
def idleTools (c : Component) : Tools where
  fromBinary binary := if binary = c.bytes then .ok c.payload else .error "unexpected end-of-file"
  wasmOpt _ _ source := .ok (some source)
  print _ := .ok ()

theorem fromBinary_idleTools (c : Component) :
    (idleTools c).fromBinary c.bytes = .ok c.payload := by
  dsimp only [idleTools]
  rw [if_pos rfl]

/-- Tools that strip a core module of its custom sections. -/
def strippingTools (c : Component) : Tools :=
  { idleTools c with wasmOpt := fun _ _ _ => .ok (some modulePreamble) }

/-- A core module with an empty custom section, which is beside it in a component of its own as
well. -/
def nestedModule : Component where
  items := .other componentPreamble
    (.component [0x15]
      (.other componentPreamble (.coreModule [0x0b] (modulePreamble ++ [0, 1, 0]) .nil))
      (.coreModule [0x0b] (modulePreamble ++ [0, 1, 0]) .nil))
  valid := ⟨.last (by decide), by decide, ⟨.last (by decide), trivial⟩, .last (by decide), trivial⟩

/-- Both modules shrink, and so does the component around the one. -/
theorem nestedModule_exact :
    (∃ result, runOptimizeComponent (strippingTools nestedModule) nestedModule.bytes {} =
        .ok result) ∧
      ExactOrThrows (runOptimizeComponent (strippingTools nestedModule))
        (strippingTools nestedModule) nestedModule {} ∧
      ExactOrThrows (optimizeComponent (strippingTools nestedModule))
        (strippingTools nestedModule) nestedModule {} := by
  have hread : (strippingTools nestedModule).fromBinary nestedModule.bytes =
      .ok nestedModule.payload := fromBinary_idleTools nestedModule
  obtain ⟨hrun, hoptimize⟩ := optimized_exact_iff _ nestedModule {} hread
  have hmodule : [0x0b] = encode (modulePreamble ++ [0, 1, 0]).length :=
    (encode_of_lt (by decide)).symm
  have hshort : nestedModule.items.Shortest :=
    ⟨(encode_of_lt (by decide)).symm, ⟨hmodule, trivial⟩, hmodule, trivial⟩
  have hfits : nestedModule.items.Fits
      (replacement (strippingTools nestedModule) (optimizeArgs {})) 0 := by
    have hsmall : modulePreamble.length < 2 ^ 32 := by decide
    refine ⟨fun _ => ?_, ⟨hsmall, trivial⟩, hsmall, trivial⟩
    change (componentPreamble ++ 1 :: (encode modulePreamble.length ++ modulePreamble)).length < _
    rw [encode_of_lt (by decide)]
    decide
  obtain ⟨_, hdone⟩ := optimizeWith_eq _ {} hread (by decide) fun m _ => ⟨modulePreamble, rfl⟩
  exact ⟨⟨_, hdone⟩, hrun.mpr (.inr (.inr ⟨hshort, hfits⟩)),
    hoptimize.mpr (.inr (.inr ⟨hshort, hfits⟩))⟩

/-- An empty module with its size padded to two bytes. -/
def twoByteSize : Component where
  items := .other componentPreamble (.coreModule [0x88, 0x00] modulePreamble .nil)
  valid := ⟨.more (by decide) (.last (by decide)), trivial⟩

/-- Its first byte is left in the output. -/
theorem twoByteSize_not_exact :
    (idleTools twoByteSize).fromBinary twoByteSize.bytes = .ok twoByteSize.payload ∧
      ¬ ExactOrThrows (runOptimizeComponent (idleTools twoByteSize)) (idleTools twoByteSize)
        twoByteSize {} ∧
      ¬ ExactOrThrows (optimizeComponent (idleTools twoByteSize)) (idleTools twoByteSize)
        twoByteSize {} := by
  have hread := fromBinary_idleTools twoByteSize
  have hsmall : ¬ 2 ^ 32 ≤ twoByteSize.bytes.length := by decide
  have hopt : Optimized (idleTools twoByteSize) (optimizeArgs {}) twoByteSize :=
    fun m _ => ⟨m.2, rfl⟩
  have hshort : ¬ twoByteSize.items.Shortest := by
    rintro ⟨hfield, _⟩
    rw [encode_of_lt (show modulePreamble.length < 0x80 by decide)] at hfield
    exact absurd hfield (by decide)
  have hcondition : ¬ (2 ^ 32 ≤ twoByteSize.bytes.length ∨
      ¬ Optimized (idleTools twoByteSize) (optimizeArgs {}) twoByteSize ∨
        twoByteSize.items.Shortest ∧
          twoByteSize.items.Fits (replacement (idleTools twoByteSize) (optimizeArgs {})) 0) := by
    rintro (hlarge | hfails | ⟨h, _⟩)
    · exact hsmall hlarge
    · exact hfails hopt
    · exact hshort h
  exact ⟨hread, fun h => hcondition ((exactOrThrows_iff _ {} hread).mp h),
    fun h => hcondition ((exactOrThrows_iff _ {} hread).mp h)⟩

end Jco.Optimize

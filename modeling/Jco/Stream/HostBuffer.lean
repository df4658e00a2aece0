import Jco.Stream.Cancel
import Jco.Stream.Conservation

/-! # Buffers of the host

A buffer that the host reads into has no memory: it holds what was placed in it. Between
such a buffer and one of a guest a transfer does not fail half way, so that all that is
taken is placed.
-/

namespace Jco.Stream

open Jco.Js StreamState List

variable {α : Type}

/-- A buffer of the host holds what was placed in it. -/
structure Filled [StreamValue α] (s : StreamState α) (b : Nat) : Prop where
  memory : (s.buffers b).memory = none
  counted : (s.buffers b).processed = (s.placedIn b).length
  fits : (s.buffers b).processed ≤ (s.buffers b).capacity
  nulls : (s.buffers b).elemMeta.isNone = true → ∀ x ∈ s.placedIn b, x.value = StreamValue.null
  data : (s.buffers b).elemMeta.isNone = false →
    (s.buffers b).hostOnlyData = (s.placedIn b).map (·.value)

section

variable [StreamValue α] {s s' t : StreamState α} {b w : Nat} {o : Side → Option Nat}

theorem Filled.congr (h : Filled s b) (hbuffer : (s.buffers b).Recoded (s'.buffers b))
    (hplaced : s'.placedIn b = s.placedIn b) : Filled s' b := by
  obtain ⟨enc, hbuffer⟩ := hbuffer
  constructor
  case memory =>
    rw [hbuffer]
    exact h.memory
  case counted =>
    rw [hbuffer, hplaced]
    exact h.counted
  case fits =>
    rw [hbuffer]
    exact h.fits
  case nulls =>
    rw [hbuffer, hplaced]
    exact h.nulls
  case data =>
    rw [hbuffer, hplaced]
    exact h.data

/-- Reading all of it gives the values back. -/
theorem Filled.read (h : Filled s b) (hpos : 0 < (s.placedIn b).length) :
    ∃ s', bufferRead b (s.placedIn b).length s = .ok ((s.placedIn b).map (·.value)) s' := by
  have hcapacity : ¬ (s.buffers b).capacity < (s.placedIn b).length :=
    Nat.not_lt.2 (h.counted ▸ h.fits)
  unfold bufferRead
  dsimp only
  rw [if_neg (Nat.ne_of_gt hpos), if_neg hcapacity]
  unfold ManagedBuffer.lifted
  cases hnone : (s.buffers b).elemMeta.isNone with
  | true =>
    refine ⟨_, congrArg (EStateM.Result.ok · _) ?_⟩
    have hnulls : (s.placedIn b).map (·.value) =
        List.replicate (s.placedIn b).length StreamValue.null :=
      eq_replicate_iff.2 ⟨length_map _, fun v hv => by
        obtain ⟨x, hx, rfl⟩ := mem_map.1 hv
        exact h.nulls hnone x hx⟩
    rw [hnulls]
    exact map_replicate
  | false =>
    rw [h.memory]
    refine ⟨_, congrArg (EStateM.Result.ok · _) ?_⟩
    have hall : (s.buffers b).hostOnlyData.take (s.placedIn b).length =
        (s.placedIn b).map (·.value) := by
      rw [h.data hnone]
      exact take_of_length_le (Nat.le_of_eq (length_map _))
    rw [map_map, hall.symm]
    exact map_id _

/-- What moves when some of the elements in `c` do: `values` come from the write and go to
the read. -/
structure Gains (o : Side → Option Nat) (s s' : StreamState α) (values : List α) : Prop where
  taken : s'.taken.map (·.value) = s.taken.map (·.value) ++ values
  placed : s'.placed.map (·.value) = s.placed.map (·.value) ++ values
  placedIn : ∀ b, (s'.placedIn b).map (·.value) =
    (s.placedIn b).map (·.value) ++ if o .read = some b then values else []
  filled : ∀ b, o .write ≠ some b → Filled s b → Filled s' b
  isNone : ∀ b, (s'.buffers b).elemMeta.isNone = (s.buffers b).elemMeta.isNone
  memory : ∀ b, (s'.buffers b).memory = (s.buffers b).memory

omit [StreamValue α] in
theorem ManagedBuffer.Recoded.like {b b' : ManagedBuffer α} (h : b.Recoded b') :
    b'.memory = b.memory ∧ b'.elemMeta.isNone = b.elemMeta.isNone ∧ b'.capacity = b.capacity ∧
      b'.hostOnlyData = b.hostOnlyData := by
  obtain ⟨enc, rfl⟩ := h
  exact ⟨rfl, rfl, rfl, rfl⟩

omit [StreamValue α] in
/-- The values of what is placed in a part of a copy. -/
theorem entries_zip_value (b k : Nat) {ptrs : List Int} {values : List α}
    (h : ptrs.length = values.length) :
    (entries b k (ptrs.zip values)).map (·.value) = values := by
  rw [entries_value]
  exact map_snd_zip (Nat.le_of_eq h.symm)

/-- Between buffers of a guest and of the host nothing is lost half way. -/
theorem Moved.gains {r : Nat} {s₂ : StreamState α} {values : List (Int × α)}
    (hm : Moved w r values s s₂ true) (hw : o .write = some w) (hr : o .read = some r)
    (hroom : values.length ≤ (s.buffers r).remaining)
    (hmemory : (s.buffers r).memory = none) (hne : r ≠ w)
    (hnone : (s.buffers r).elemMeta.isNone = (s.buffers w).elemMeta.isNone) :
    Gains o s s₂ (values.map (·.2)) := by
  obtain ⟨ptrs, hptrs, hplaced⟩ := hm.placed
  obtain ⟨ptr, data, hsource⟩ := hm.source
  obtain ⟨ptr', data', htarget, hdata⟩ := hm.target
  have hzip : ptrs.length = (values.map (·.2)).length := by
    rw [hptrs, length_map]
  have hplacedIn : ∀ b, s₂.placedIn b = s.placedIn b ++
      if b = r then entries r (s.buffers r).processed (ptrs.zip (values.map (·.2))) else [] := by
    intro b
    unfold StreamState.placedIn
    rw [hplaced, filter_append_entries]
  -- every other buffer is as it was
  have hbuffers : ∀ b, (s₂.buffers b).elemMeta = (s.buffers b).elemMeta ∧
      (s₂.buffers b).memory = (s.buffers b).memory := by
    intro b
    by_cases hbw : b = w
    · rw [hbw, hsource]
      exact ⟨rfl, rfl⟩
    by_cases hbr : b = r
    · rw [hbr, htarget]
      exact ⟨rfl, rfl⟩
    · rw [hm.other b hbw hbr]
      exact ⟨rfl, rfl⟩
  constructor
  case taken => rw [hm.taken, map_append, entries_value]
  case placed => rw [hplaced, map_append, entries_zip_value _ _ hzip]
  case placedIn =>
    intro b
    rw [hplacedIn, map_append, hr]
    by_cases hb : b = r
    · subst hb
      rw [if_pos rfl, if_pos rfl, entries_zip_value _ _ hzip]
    · rw [if_neg hb, if_neg fun heq => hb (Option.some.inj heq).symm]
      rfl
  case filled =>
    intro b hbw h
    by_cases hb : b = r
    · subst hb
      have hlength : (entries b (s.buffers b).processed (ptrs.zip (values.map (·.2)))).length =
          values.length := by
        rw [length_entries, length_zip, hzip, length_map, Nat.min_self]
      constructor
      case memory => exact (hbuffers b).2.trans h.memory
      case counted =>
        rw [hplacedIn, if_pos rfl, length_append, hlength, ← h.counted, htarget]
        rfl
      case fits =>
        have hfits := h.fits
        unfold ManagedBuffer.remaining at hroom
        rw [htarget]
        show (s.buffers b).processed + values.length ≤ (s.buffers b).capacity
        omega
      case nulls =>
        intro hunit x hx
        rw [(hbuffers b).1] at hunit
        rw [hplacedIn, if_pos rfl] at hx
        rcases mem_append.1 hx with hx | hx
        · exact h.nulls hunit x hx
        · -- units come from a buffer of units
          have hmem : x.value ∈ values.map (·.2) := by
            rw [← entries_zip_value b (s.buffers b).processed hzip]
            exact mem_map.2 ⟨x, hx, rfl⟩
          obtain ⟨v, hv, heq⟩ := mem_map.1 hmem
          rw [← heq]
          exact hm.nulls (hnone ▸ hunit) v hv
      case data =>
        intro hunit
        rw [(hbuffers b).1] at hunit
        rw [hplacedIn, if_pos rfl, map_append, entries_zip_value _ _ hzip, htarget]
        rw [hdata rfl hmemory hunit, h.data hunit]
    · have hbw' : b ≠ w := fun heq => hbw (heq ▸ hw)
      refine h.congr (hm.other b hbw' hb ▸ .refl _) ?_
      rw [hplacedIn, if_neg hb, append_nil]
  case isNone => exact fun b => congrArg _ (hbuffers b).1
  case memory => exact fun b => (hbuffers b).2

theorem Shifts.gains (h : Shifts o s s') (hread : ∀ b, o .read = some b → (s.buffers b).memory = none)
    (hwrite : ∀ b, o .write = some b → (s.buffers b).memory.isSome = true)
    (hnone : ∀ b b', (s.buffers b).elemMeta.isNone = (s.buffers b').elemMeta.isNone) :
    ∃ values, Gains o s s' values ∧ (o .read = none → values = []) := by
  cases h with
  | still htaken hplaced hbuffers =>
    refine ⟨[], ?_, fun _ => rfl⟩
    have hplacedIn : ∀ b, s'.placedIn b = s.placedIn b := by
      intro b
      unfold StreamState.placedIn
      rw [hplaced]
    constructor
    case taken => rw [htaken, append_nil]
    case placed => rw [hplaced, append_nil]
    case placedIn =>
      intro b
      rw [hplacedIn, ite_self, append_nil]
    case filled => exact fun b _ h => h.congr (hbuffers b) (hplacedIn b)
    case isNone => exact fun b => (hbuffers b).like.2.1
    case memory => exact fun b => (hbuffers b).like.1
  | moved hs hm hw hr hpending hroom hwhy htaken hplaced hbuffers =>
    -- the reader is of the host and the writer of the guest, so the values are placed
    rename_i s₁ s₂ w r values placed
    have hlike := fun b => (hs.buffers b).like
    have hmemory : (s₁.buffers r).memory = none := (hlike r).1.trans (hread r hr)
    have hunit : (s₁.buffers r).elemMeta.isNone = (s₁.buffers w).elemMeta.isNone := by
      rw [(hlike r).2.1, (hlike w).2.1]
      exact hnone r w
    have hne : r ≠ w := by
      rintro rfl
      have hguest := hwrite r hw
      rw [hread r hr] at hguest
      cases hguest
    cases placed with
    | false =>
      rcases hwhy rfl with hsome | ⟨hone, hother⟩
      · rw [hmemory] at hsome
        cases hsome
      · rw [hunit, hother] at hone
        cases hone
    | true =>
      have hgains := hm.gains hw hr (Nat.le_min.1 hroom).2 hmemory hne hunit
      refine ⟨values.map (·.2), ?_, fun hnone => ?_⟩
      · have hbase : ∀ b, s₁.placedIn b = s.placedIn b := by
          intro b
          unfold StreamState.placedIn
          rw [hs.placed]
        have hlast : ∀ b, s'.placedIn b = s₂.placedIn b := by
          intro b
          unfold StreamState.placedIn
          rw [hplaced]
        constructor
        case taken => rw [htaken, hgains.taken, hs.taken]
        case placed => rw [hplaced, hgains.placed, hs.placed]
        case placedIn =>
          intro b
          rw [hlast, hgains.placedIn, hbase]
        case filled =>
          intro b hb h
          have hfilled := hgains.filled b hb (h.congr (hs.buffers b) (hbase b))
          exact hfilled.congr (hbuffers ▸ .refl _) (hlast b)
        case isNone =>
          intro b
          rw [hbuffers, hgains.isNone, (hlike b).2.1]
        case memory =>
          intro b
          rw [hbuffers, hgains.memory, (hlike b).1]
      · rw [hr] at hnone
        cases hnone

end

end Jco.Stream

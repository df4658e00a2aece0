import Jco.Stream.Meeting
import Jco.Stream.Rendezvous

/-! # Streams conserve and order their elements

The invariant says, for each end, where its outstanding copy is: its buffer is
pending, with or without an event that will reclaim it, or its event is there
and the buffer is not pending any more. Copies change it in four ways, whatever
end they are on; the rest of the proof is the bookkeeping of addresses.
-/

namespace Jco.Stream

open Jco.Js Jco.Lib ManagedBuffer StreamState Function Nat

variable {α : Type}

/-! ## Addresses -/

@[simp] theorem length_slots (call : Nat) (ptr : Int) (size n : Nat) :
    (slots call ptr size n).length = n := by
  simp [slots]

@[simp] theorem slots_zero (call : Nat) (ptr : Int) (size : Nat) : slots call ptr size 0 = [] := rfl

theorem slots_add (call : Nat) (ptr : Int) (size m n : Nat) :
    slots call ptr size (m + n) = slots call ptr size m ++
      (List.range n).map fun i => ⟨call, m + i, ptr + ((m + i) * size : Nat)⟩ := by
  unfold slots
  rw [List.range_add, List.map_append, List.map_map]
  rfl

theorem slots_le (call : Nat) (ptr : Int) (size : Nat) {m n : Nat} (h : m ≤ n) :
    slots call ptr size m <+: slots call ptr size n := by
  obtain ⟨k, rfl⟩ := Nat.exists_eq_add_of_le h
  rw [slots_add]
  exact List.prefix_append _ _

theorem nodup_slots (call : Nat) (ptr : Int) (size n : Nat) : (slots call ptr size n).Nodup := by
  refine List.Nodup.map (fun i j hij => ?_) List.nodup_range
  exact (Slot.mk.inj hij).2.1

theorem call_of_mem_slots {call : Nat} {ptr : Int} {size n : Nat} {sl : Slot}
    (h : sl ∈ slots call ptr size n) : sl.call = call := by
  obtain ⟨i, -, rfl⟩ := List.mem_map.1 h
  rfl

/-- The elements that a buffer moves next have the next addresses. -/
theorem entries_slot {buffer m size n : Nat} {ptr : Int} {values : List (Int × α)}
    (h : values.map (·.1) = strided (ptr + (m * size : Nat)) size n) :
    (entries buffer m values).map Entry.slot =
      (List.range n).map fun i => ⟨buffer, m + i, ptr + ((m + i) * size : Nat)⟩ := by
  have hlen : values.length = n := by simpa using congrArg List.length h
  apply List.ext_getElem
  · simp [entries, hlen]
  · intro i hi _
    have hi' : i < values.length := by simpa [entries] using hi
    have hptr : (values.map (·.1))[i]? = some (ptr + (m * size : Nat) + (i * size : Nat)) := by
      simp [h, strided, hlen ▸ hi']
    rw [List.getElem?_map, List.getElem?_eq_getElem hi'] at hptr
    simp only [Option.map_some, Option.some.injEq] at hptr
    simp only [entries, List.getElem_map, List.getElem_mapIdx, Entry.slot,
      List.getElem_range, hptr, Slot.mk.injEq, true_and]
    rw [add_mul]
    push_cast
    ring

theorem entries_value (buffer m : Nat) (values : List (Int × α)) :
    (entries buffer m values).map Entry.value = values.map (·.2) := by
  apply List.ext_getElem
  · simp [entries]
  · intro i _ _
    simp [entries]

theorem code_lt (result : CopyResult) : result.code < 2 ^ 4 := by
  cases result <;> decide

variable {n : Nat}

theorem progress_packResult (h : n < 2 ^ 28) (result : CopyResult) :
    progress (packResult n result) = n := by
  have hcode := code_lt result
  unfold progress packResult
  rw [bitOr_shl_four h hcode]
  omega

/-! ## The invariant -/

variable {size : Nat}

/-- The metas agree on how an element advances the pointer. -/
theorem ElemMeta.AdvancesBy.like {e e' : ElemMeta α} (h : e.AdvancesBy size)
    (hlike : e'.Like e) : e'.AdvancesBy size := by
  have hfields := ElemMeta.mk.inj hlike
  unfold ElemMeta.AdvancesBy at h ⊢
  rw [hfields.2.1, hfields.1, hfields.2.2.2.2.2.2.1, hfields.2.2.2.2.2.2.2]
  exact h

/-- The buffer of an outstanding copy. -/
structure Holds (e : ElemMeta α) (size : Nat) (b : ManagedBuffer α) (o : OpenCopy) : Prop where
  memory : b.memory.isSome
  like : b.elemMeta.Like e
  encoding : b.elemMeta.stringEncoding.isSome
  capacity : b.capacity = o.count
  count_le : o.count ≤ MAX_LENGTH
  processed_le : b.processed ≤ o.count
  ptr : b.ptr = o.ptr + (b.processed * size : Nat)

/-- The buffer after `n` more elements. -/
def ManagedBuffer.advance (b : ManagedBuffer α) (size n : Nat) : ManagedBuffer α :=
  { b with ptr := b.ptr + (n * size : Nat), processed := b.processed + n }

variable {e : ElemMeta α} {o : OpenCopy}

theorem Holds.advance {size n : Nat} {b : ManagedBuffer α}
    (h : Holds e size b o) (hn : n ≤ b.remaining) : Holds e size (b.advance size n) o where
  memory := h.memory
  like := h.like
  encoding := h.encoding
  capacity := h.capacity
  count_le := h.count_le
  processed_le := by
    have hp := h.processed_le
    unfold ManagedBuffer.remaining at hn
    rw [h.capacity] at hn
    show b.processed + n ≤ o.count
    omega
  ptr := by
    show b.ptr + _ = o.ptr + ((b.processed + n) * size : Nat)
    rw [h.ptr, add_mul]
    push_cast
    ring

/-- The pending buffer, if any, is not one of `side`. -/
def NotOwner (pending : Option PendingBufferMeta) (side : Side) : Prop :=
  ∀ p, pending = some p → p.onCopyFn.streamEnd ≠ side

theorem notOwner_none (side : Side) : NotOwner none side := by
  intro p hp
  cases hp

theorem notOwner_some {p : PendingBufferMeta} {side : Side} (h : p.onCopyFn.streamEnd ≠ side) :
    NotOwner (some p) side := by
  intro p' hp
  cases hp
  exact h

/-- Where the outstanding copy `call` of `side` is. -/
inductive Awaits (pending : Option PendingBufferMeta) (event : Option EventFn) (side : Side)
    (call : Nat) : Prop where
  | pending {c : Int} (hpending : pending = some ⟨c, call, ⟨side, call⟩, some ⟨side, call⟩, none⟩)
      (hevent : event = none ∨ event = some (.processFn call .completed true none))
  | notified {result : CopyResult} {rejectedLength : Option Nat} (hpending : NotOwner pending side)
      (hevent : event = some (.processFn call result false rejectedLength))

/-- The state of an end matches its view. -/
def EndInv (e : ElemMeta α) (size : Nat) (s : StreamState α) (side : Side) (v : View) : Prop :=
  match v.opened with
  | none =>
    (s.moved side).map Entry.slot = v.settled ∧ (s.ends side).pendingEventFn = none ∧
      NotOwner s.pendingBufferMeta side
  | some o =>
    (s.moved side).map Entry.slot =
        v.settled ++ slots o.call o.ptr size (s.buffers o.call).processed ∧
      Holds e size (s.buffers o.call) o ∧
      Awaits s.pendingBufferMeta (s.ends side).pendingEventFn side o.call

variable {s : StreamState α} {side : Side} {v : View}

theorem endInv_none
    (ho : v.opened = none) : EndInv e size s side v ↔
      (s.moved side).map Entry.slot = v.settled ∧ (s.ends side).pendingEventFn = none ∧
        NotOwner s.pendingBufferMeta side := by
  unfold EndInv
  rw [ho]

theorem endInv_some
    (ho : v.opened = some o) : EndInv e size s side v ↔
      (s.moved side).map Entry.slot =
          v.settled ++ slots o.call o.ptr size (s.buffers o.call).processed ∧
        Holds e size (s.buffers o.call) o ∧
        Awaits s.pendingBufferMeta (s.ends side).pendingEventFn side o.call := by
  unfold EndInv
  rw [ho]

/-- The views are consistent by themselves: no element is offered twice. -/
structure ViewsOk (size : Nat) (vs : Views) : Prop where
  reported : ∀ side, (vs.view side).reported = (vs.view side).settled.length
  nodup : ∀ side, ((vs.view side).offered size).Nodup
  calls : ∀ side, ∀ sl ∈ (vs.view side).offered size, sl.call < vs.calls
  opened : ∀ side o, (vs.view side).opened = some o → o.call < vs.calls

structure Inv (e : ElemMeta α) (size : Nat) (s : StreamState α) (vs : Views) : Prop where
  like : s.elemMeta.Like e
  copies : s.copies = vs.calls
  dropped : s.dropped = true → s.pendingBufferMeta = none
  ends : ∀ side, EndInv e size s side (vs.view side)
  distinct : ∀ side o o', (vs.view side).opened = some o →
    (vs.view side.other).opened = some o' → o.call ≠ o'.call
  values : s.placed.map Entry.value = s.taken.map Entry.value
  views : ViewsOk size vs

/-- An idle end has no outstanding copy. -/
def IdleInv (s : StreamState α) (vs : Views) : Prop :=
  ∀ side, (s.ends side).copyState = .idle → (vs.view side).opened = none

theorem EndInv.congr {s s' : StreamState α}
    (h : EndInv e size s side v) (hmoved : s'.moved side = s.moved side)
    (hbuffer : ∀ o, v.opened = some o → s'.buffers o.call = s.buffers o.call)
    (hevent : (s'.ends side).pendingEventFn = (s.ends side).pendingEventFn)
    (hpending : s'.pendingBufferMeta = s.pendingBufferMeta ∨
      NotOwner s.pendingBufferMeta side ∧ NotOwner s'.pendingBufferMeta side) :
    EndInv e size s' side v := by
  cases ho : v.opened with
  | none =>
    obtain ⟨hslots, hnone, hnot⟩ := (endInv_none ho).1 h
    refine (endInv_none ho).2 ⟨hmoved ▸ hslots, hevent.trans hnone, ?_⟩
    rcases hpending with heq | ⟨-, hnot'⟩
    · exact heq ▸ hnot
    · exact hnot'
  | some o =>
    obtain ⟨hslots, hholds, hawaits⟩ := (endInv_some ho).1 h
    rw [endInv_some ho, hmoved, hbuffer o ho, hevent]
    refine ⟨hslots, hholds, ?_⟩
    rcases hpending with heq | ⟨hnot, hnot'⟩
    · exact heq ▸ hawaits
    · cases hawaits with
      | pending hp _ => exact absurd rfl (hnot _ hp)
      | notified _ he => exact .notified hnot' he

variable {vs : Views}

/-- The owner of the pending buffer has an outstanding copy, which the buffer is of. -/
theorem Inv.pending
    (hinv : Inv e size s vs) {p : PendingBufferMeta} (hp : s.pendingBufferMeta = some p) :
    ∃ side c o, p = ⟨c, o.call, ⟨side, o.call⟩, some ⟨side, o.call⟩, none⟩ ∧
      (vs.view side).opened = some o ∧ Holds e size (s.buffers o.call) o ∧
      ((s.ends side).pendingEventFn = none ∨
        (s.ends side).pendingEventFn = some (.processFn o.call .completed true none)) := by
  have hend := hinv.ends p.onCopyFn.streamEnd
  cases ho : (vs.view p.onCopyFn.streamEnd).opened with
  | none => exact absurd rfl (((endInv_none ho).1 hend).2.2 p hp)
  | some o =>
    obtain ⟨-, hholds, hawaits⟩ := (endInv_some ho).1 hend
    cases hawaits with
    | notified hnot _ => exact absurd rfl (hnot p hp)
    | pending hpend hevent =>
      exact ⟨p.onCopyFn.streamEnd, _, o, Option.some.inj (hp.symm.trans hpend), ho, hholds,
        hevent⟩

/-! ## Views -/

@[simp] theorem Views.setView_self (vs : Views) (side : Side) (v : View) :
    (vs.setView side v).view side = v := by
  simp [Views.setView]

@[simp] theorem Views.setView_calls (vs : Views) (side : Side) (v : View) :
    (vs.setView side v).calls = vs.calls := rfl

theorem Views.setView_ne (vs : Views) {side side' : Side} (v : View) (h : side' ≠ side) :
    (vs.setView side v).view side' = vs.view side' := by
  simp [Views.setView, update_of_ne h]

/-- Changing one view. -/
theorem ViewsOk.setView (h : ViewsOk size vs)
    (hreported : v.reported = v.settled.length) (hnodup : (v.offered size).Nodup)
    (hcalls : ∀ sl ∈ v.offered size, sl.call < vs.calls)
    (hopened : ∀ o, v.opened = some o → o.call < vs.calls) : ViewsOk size (vs.setView side v) := by
  refine ⟨fun side' => ?_, fun side' => ?_, fun side' => ?_, fun side' => ?_⟩ <;>
    by_cases hs : side' = side
  · subst hs; simpa using hreported
  · rw [Views.setView_ne _ _ hs]; exact h.reported side'
  · subst hs; simpa using hnodup
  · rw [Views.setView_ne _ _ hs]; exact h.nodup side'
  · subst hs; simpa using hcalls
  · rw [Views.setView_ne _ _ hs]; exact h.calls side'
  · subst hs; simpa using hopened
  · rw [Views.setView_ne _ _ hs]; exact h.opened side'

theorem ViewsOk.bump (h : ViewsOk size vs) :
    ViewsOk size { vs with calls := vs.calls + 1 } where
  reported := h.reported
  nodup := h.nodup
  calls side sl hsl := lt_succ_of_lt (h.calls side sl hsl)
  opened side o ho := lt_succ_of_lt (h.opened side o ho)

/-- A copy that waits offers new elements, under a new number. -/
theorem ViewsOk.opens (h : ViewsOk size vs)
    (hnone : (vs.view side).opened = none) (ptr : Int) (count : Nat) :
    ViewsOk size ({ vs with calls := vs.calls + 1 }.setView side
      { vs.view side with opened := some ⟨vs.calls, ptr, count⟩ }) := by
  have hcalls := h.calls side
  have hnodup := h.nodup side
  unfold View.offered at hcalls hnodup
  rw [hnone, Option.elim_none, List.append_nil] at hcalls hnodup
  refine h.bump.setView (h.reported side) ?_ ?_ ?_
  · -- the settled elements belong to earlier calls
    refine List.nodup_append.2 ⟨hnodup, nodup_slots _ _ _ _, fun sl hsl sl' hsl' heq => ?_⟩
    have hlt := hcalls sl hsl
    rw [heq, call_of_mem_slots hsl'] at hlt
    exact lt_irrefl _ hlt
  · intro sl hsl
    rcases List.mem_append.1 hsl with hsl | hsl
    · exact lt_succ_of_lt (hcalls sl hsl)
    · rw [call_of_mem_slots hsl]
      exact lt_succ_self _
  · intro o ho
    cases ho
    exact lt_succ_self _

/-- A result settles some of the offered elements and withdraws the others. -/
theorem ViewsOk.settles (h : ViewsOk size vs)
    (ho : (vs.view side).opened = some o) (hn : n ≤ o.count) :
    ViewsOk size (vs.setView side { (vs.view side).settle size o n with opened := none }) := by
  have hle : ({ (vs.view side).settle size o n with opened := none } : View).offered size <+:
      (vs.view side).offered size := by
    unfold View.offered View.settle
    rw [ho, Option.elim_none, Option.elim_some, List.append_nil]
    exact List.prefix_append_right_inj _ |>.2 (slots_le _ _ _ hn)
  refine h.setView ?_ ((h.nodup side).sublist hle.sublist)
    (fun sl hsl => h.calls side sl (hle.subset hsl)) (fun o' ho' => by cases ho')
  show _ + n = (_ ++ slots o.call o.ptr size n).length
  rw [List.length_append, length_slots, h.reported side]

/-! ## Delivering an event -/

theorem Inv.deliver
    (hinv : Inv e size s vs)
    (hfits : ∀ buffer result reclaim rejectedLength,
      (s.ends side).pendingEventFn = some (.processFn buffer result reclaim rejectedLength) →
        (s.buffers buffer).processed ≠ MAX_LENGTH) :
    ((s.ends side).pendingEventFn = none ∧ s.getPendingEvent side = .ok none s) ∨
    ∃ o event s', (vs.view side).opened = some o ∧
      s.getPendingEvent side = .ok (some event) s' ∧ event.code = side.eventCode ∧
      event.payload0 = (s'.ends side).waitableIdx ∧
      Inv e size s' (vs.setView side
        { (vs.view side).settle size o (progress event.payload1) with opened := none }) ∧
      ∀ side', side' ≠ side → s'.ends side' = s.ends side' := by
  have hend := hinv.ends side
  cases ho : (vs.view side).opened with
  | none =>
    have hnone := ((endInv_none ho).1 hend).2.1
    exact .inl ⟨hnone, by unfold getPendingEvent; rw [hnone]⟩
  | some o =>
    obtain ⟨hslots, hholds, hawaits⟩ := (endInv_some ho).1 hend
    by_cases hevent : (s.ends side).pendingEventFn = none
    · exact .inl ⟨hevent, by unfold getPendingEvent; rw [hevent]⟩
    -- the event is of the buffer of the outstanding copy, and reclaims it while it is pending
    obtain ⟨result, reclaim, rejectedLength, hfn, hreclaim⟩ :
        ∃ result reclaim rejectedLength,
          (s.ends side).pendingEventFn =
            some (.processFn o.call result reclaim rejectedLength) ∧
          NotOwner (if reclaim then none else s.pendingBufferMeta) side := by
      cases hawaits with
      | pending hp he => exact ⟨_, _, _, he.resolve_left hevent, notOwner_none side⟩
      | notified hnot he => exact ⟨_, _, _, he, by simpa using hnot⟩
    have hlt : (s.buffers o.call).processed < MAX_LENGTH := by
      have hle := le_trans hholds.processed_le hholds.count_le
      have hne := hfits _ _ _ _ hfn
      omega
    have hpack := progress_packResult (n := (s.buffers o.call).processed)
      (lt_trans hlt (by unfold MAX_LENGTH; omega)) result
    refine .inr ⟨o, ⟨side.eventCode, (s.ends side).waitableIdx,
      packResult (s.buffers o.call).processed result, rejectedLength⟩,
      { s with
        pendingBufferMeta := if reclaim then none else s.pendingBufferMeta
        ends := update s.ends side { s.ends side with
          pendingEventFn := none
          copyState := if result = .dropped then .done else .idle } },
      rfl, ?_, rfl, ?_, ⟨hinv.like, hinv.copies, ?_, ?_, ?_, hinv.values, ?_⟩, ?_⟩
    · unfold getPendingEvent
      rw [hfn]
      cases reclaim <;>
        simp [processFn, setEnd, setCopyState,
          resetPendingBufferMeta, not_le.2 hlt]
    · simp
    · intro hd
      have hnone := hinv.dropped hd
      rw [hnone, ite_self]
    · intro side'
      by_cases hs : side' = side
      · subst hs
        rw [Views.setView_self]
        refine (endInv_none rfl).2 ⟨?_, by simp, hreclaim⟩
        rw [hpack]
        exact hslots
      · rw [Views.setView_ne _ _ hs]
        refine (hinv.ends side').congr rfl (fun _ _ => rfl) (by simp [hs]) ?_
        cases hr : reclaim with
        | false => exact .inl rfl
        | true =>
          -- only the owner of the pending buffer has an event that reclaims it
          refine .inr ⟨?_, fun p hp => by cases hp⟩
          cases hawaits with
          | notified _ he => rw [hfn, hr] at he; cases he
          | pending hp _ =>
            intro p hp'
            cases hp.symm.trans hp'
            exact fun h => hs h.symm
    · intro side' o₁ o₂ h₁ h₂
      by_cases hs : side' = side
      · subst hs
        rw [Views.setView_self] at h₁
        cases h₁
      · have hother : side'.other = side := (Side.eq_other (Ne.symm hs)).symm
        rw [hother, Views.setView_self] at h₂
        cases h₂
    · rw [hpack]
      exact hinv.views.settles ho hholds.processed_le
    · intro side' hs
      simp [hs]

/-! ## What the parts of a call preserve -/

/-- The owner of the pending buffer gets an event, and keeps its outstanding copy. -/
theorem Inv.notify
    (hinv : Inv e size s vs) (result : CopyResult) :
    Inv e size (s.resetAndNotifyPending result) vs ∧
      (s.resetAndNotifyPending result).pendingBufferMeta = none ∧
      (s.resetAndNotifyPending result).buffers = s.buffers ∧
      ∀ side, ((s.resetAndNotifyPending result).ends side).copyState =
        (s.ends side).copyState := by
  unfold resetAndNotifyPending
  cases hp : s.pendingBufferMeta with
  | none =>
    have hs : s.resetPendingBufferMeta = s := by
      unfold resetPendingBufferMeta
      rw [← hp]
    rw [Option.bind_none, hs]
    exact ⟨hinv, hp, rfl, fun _ => rfl⟩
  | some p =>
    obtain ⟨side, c, o, rfl, ho, hholds, -⟩ := hinv.pending hp
    simp only [Option.bind_some]
    refine ⟨⟨hinv.like, hinv.copies, fun _ => rfl, fun side' => ?_, hinv.distinct, hinv.values,
      hinv.views⟩, rfl, rfl, fun side' => ?_⟩
    · by_cases hs : side' = side
      · subst hs
        obtain ⟨hslots, -, -⟩ := (endInv_some ho).1 (hinv.ends side')
        refine (endInv_some ho).2 ⟨hslots, hholds, .notified (fun p hp' => ?_)
          (s.resetPendingBufferMeta.setPendingEvent_self side' _)⟩
        cases hp'
      · refine (hinv.ends side').congr rfl (fun _ _ => rfl)
          (congrArg _ (s.resetPendingBufferMeta.setPendingEvent_ne _ hs))
          (.inr ⟨fun p hp' => ?_, fun p hp' => ?_⟩)
        · cases hp.symm.trans hp'
          exact fun h => hs h.symm
        · cases hp'
    · exact s.resetPendingBufferMeta.setPendingEvent_copyState side side' _

/-- A copy becomes the outstanding one of its end. -/
theorem Inv.opens {s s' : StreamState α}
    (hinv : Inv e size s vs) (hlike : s'.elemMeta = s.elemMeta)
    (hcopies : s'.copies = s.copies) (hdropped : s'.dropped = false)
    (hvalues : s'.placed.map Entry.value = s'.taken.map Entry.value)
    (hviews : ViewsOk size (vs.setView side { vs.view side with opened := some o }))
    (hfresh : ∀ o', (vs.view side.other).opened = some o' → o'.call ≠ o.call)
    (hslots : (s'.moved side).map Entry.slot =
      (vs.view side).settled ++ slots o.call o.ptr size (s'.buffers o.call).processed)
    (hholds : Holds e size (s'.buffers o.call) o)
    (hawaits : Awaits s'.pendingBufferMeta (s'.ends side).pendingEventFn side o.call)
    (hother : EndInv e size s' side.other (vs.view side.other)) :
    Inv e size s' (vs.setView side { vs.view side with opened := some o }) := by
  refine ⟨hlike ▸ hinv.like, hcopies.trans hinv.copies, fun h => ?_, fun side' => ?_,
    fun side' o₁ o₂ h₁ h₂ => ?_, hvalues, hviews⟩
  · rw [hdropped] at h
    cases h
  · by_cases hs : side' = side
    · subst hs
      rw [Views.setView_self]
      exact (endInv_some rfl).2 ⟨hslots, hholds, hawaits⟩
    · rw [Views.setView_ne _ _ hs, Side.eq_other hs]
      exact hother
  · by_cases hs : side' = side
    · subst hs
      rw [Views.setView_self] at h₁
      rw [Views.setView_ne _ _ (Side.other_ne side')] at h₂
      cases h₁
      exact (hfresh o₂ h₂).symm
    · have hback : side'.other = side := (Side.eq_other (Ne.symm hs)).symm
      rw [Views.setView_ne _ _ hs, Side.eq_other hs] at h₁
      rw [hback, Views.setView_self] at h₂
      cases h₂
      exact hfresh o₁ h₁

/-- Another copy is called, which may fill in the string encoding. -/
theorem Inv.bump
    (hinv : Inv e size s vs) (enc : Option StringEncoding) :
    Inv e size
      { s with copies := s.copies + 1, elemMeta := { s.elemMeta with stringEncoding := enc } }
      { vs with calls := vs.calls + 1 } where
  like := hinv.like
  copies := congrArg (· + 1) hinv.copies
  dropped := hinv.dropped
  ends side := (hinv.ends side).congr rfl (fun _ _ => rfl) rfl (.inl rfl)
  distinct := hinv.distinct
  values := hinv.values
  views := hinv.views.bump

/-- A buffer of a new copy changes no outstanding one. -/
theorem Inv.update_buffer
    (hinv : Inv e size s vs) {buffer : Nat}
    (hfresh : ∀ side o, (vs.view side).opened = some o → o.call ≠ buffer) (b : ManagedBuffer α) :
    Inv e size { s with buffers := update s.buffers buffer b } vs where
  like := hinv.like
  copies := hinv.copies
  dropped := hinv.dropped
  ends side := (hinv.ends side).congr rfl
    (fun o ho => update_of_ne (hfresh side o ho) _ _) rfl (.inl rfl)
  distinct := hinv.distinct
  values := hinv.values
  views := hinv.views

theorem Inv.setCopyState
    (hinv : Inv e size s vs) (side : Side) (copyState : CopyState) :
    Inv e size (s.setCopyState side copyState) vs where
  like := hinv.like
  copies := hinv.copies
  dropped := hinv.dropped
  ends side' := by
    refine (hinv.ends side').congr rfl (fun _ _ => rfl) ?_ (.inl rfl)
    by_cases hs : side' = side
    · subst hs
      simp [StreamState.setCopyState, StreamState.setEnd]
    · simp [StreamState.setCopyState, StreamState.setEnd, hs]
  distinct := hinv.distinct
  values := hinv.values
  views := hinv.views

/-- The event that an end holds is of its outstanding copy. -/
theorem Inv.event
    (hinv : Inv e size s vs) (ho : (vs.view side).opened = some o) {buffer : Nat}
    {result : CopyResult} {reclaim : Bool} {rejectedLength : Option Nat}
    (hevent : (s.ends side).pendingEventFn =
      some (.processFn buffer result reclaim rejectedLength)) : buffer = o.call := by
  obtain ⟨-, -, hawaits⟩ := (endInv_some ho).1 (hinv.ends side)
  cases hawaits with
  | pending _ he =>
    rcases he with he | he
    · cases hevent.symm.trans he
    · exact (EventFn.processFn.inj (Option.some.inj (hevent.symm.trans he))).1
  | notified _ he =>
    exact (EventFn.processFn.inj (Option.some.inj (hevent.symm.trans he))).1

/-- The rest of a copy that became outstanding. -/
theorem Inv.copyFinish
    {isAsync : Bool} (hinv : Inv e size s vs)
    (ho : (vs.view side).opened = some o) (hmax : (s.buffers o.call).processed ≠ MAX_LENGTH) :
    (∃ answer copyState, StreamState.copyFinish side isAsync s =
        .ok answer (s.setCopyState side copyState) ∧ copyState ≠ .idle ∧
        (answer = .blocked ∨ answer = .suspended)) ∨
    ∃ payload s', StreamState.copyFinish side isAsync s = .ok (.packed payload) s' ∧
      Inv e size s' (vs.setView side
        { (vs.view side).settle size o (progress payload) with opened := none }) ∧
      ∀ side', side' ≠ side → s'.ends side' = s.ends side' := by
  unfold StreamState.copyFinish StreamState.hasPendingEvent
  have hfits : ∀ buffer result reclaim rejectedLength,
      (s.ends side).pendingEventFn = some (.processFn buffer result reclaim rejectedLength) →
        (s.buffers buffer).processed ≠ MAX_LENGTH := by
    intro buffer result reclaim rejectedLength hevent
    rw [hinv.event ho hevent]
    exact hmax
  rcases hinv.deliver hfits with ⟨hnone, -⟩ | ⟨o', event, s', ho', hget, hcode, hindex, hinv', hends⟩
  · rw [hnone]
    cases isAsync
    · exact .inl ⟨.suspended, .syncCopying, rfl, by decide, .inr rfl⟩
    · exact .inl ⟨.blocked, .asyncCopying, rfl, by decide, .inl rfl⟩
  · cases ho.symm.trans ho'
    cases hevent : (s.ends side).pendingEventFn with
    | none =>
      -- without an event there is nothing to deliver
      unfold StreamState.getPendingEvent at hget
      rw [hevent] at hget
      cases hget
    | some fn =>
      refine .inr ⟨event.payload1, s', ?_, hinv', hends⟩
      unfold StreamState.copyEvent
      rw [hget]
      simp [hcode, hindex]

theorem Inv.init (e : ElemMeta α) (size : Nat) (waitableIdx : Side → Nat) :
    Inv e size (.init e waitableIdx) .init where
  like := rfl
  copies := rfl
  dropped h := by cases h
  ends side := by
    refine (endInv_none rfl).2 ⟨?_, rfl, fun p hp => by cases hp⟩
    cases side <;> rfl
  distinct side o o' h := by cases h
  values := rfl
  views := ⟨fun _ => rfl, fun _ => List.nodup_nil, fun _ _ hsl => (nomatch hsl),
    fun _ _ ho => (nomatch ho)⟩

/-! ## Moving elements -/

section

variable [StreamValue α] [DecidableEq α]

/-- What a transfer between the buffers of two outstanding copies leaves. -/
structure Transferred (size n : Nat) (o : Side → OpenCopy) (s s' : StreamState α) : Prop where
  ends : s'.ends = s.ends
  pending : s'.pendingBufferMeta = s.pendingBufferMeta
  dropped : s'.dropped = s.dropped
  copies : s'.copies = s.copies
  elemMeta : s'.elemMeta = s.elemMeta
  buffers : ∀ side, s'.buffers (o side).call = (s.buffers (o side).call).advance size n
  moved : ∀ side, (s'.moved side).map Entry.slot = (s.moved side).map Entry.slot ++
    (List.range n).map fun i => ⟨(o side).call, (s.buffers (o side).call).processed + i,
      (o side).ptr + (((s.buffers (o side).call).processed + i) * size : Nat)⟩
  values : s.placed.map Entry.value = s.taken.map Entry.value →
    s'.placed.map Entry.value = s'.taken.map Entry.value

omit [DecidableEq α] in
/-- Reading from a guest's buffer. -/
theorem bufferRead_guest {e : ElemMeta α} {size n buffer : Nat} {s : StreamState α}
    {o : OpenCopy} (hadv : e.AdvancesBy size) (hholds : Holds e size (s.buffers buffer) o)
    (hn : 0 < n) (hrem : n ≤ (s.buffers buffer).remaining) :
    (∃ err, bufferRead buffer n s = .error err s) ∨
    ∃ values source', (s.buffers buffer).lifted (s.memoryOf (s.buffers buffer)) n =
        .ok (values, source') ∧
      values.map (·.1) = strided (s.buffers buffer).ptr size n ∧
      bufferRead buffer n s = .ok (values.map (·.2)) { s with
        buffers := update s.buffers buffer ((s.buffers buffer).advance size n)
        taken := s.taken ++ entries buffer (s.buffers buffer).processed values } := by
  have hcap : ¬(s.buffers buffer).capacity < n := by
    unfold ManagedBuffer.remaining at hrem
    omega
  unfold bufferRead
  simp only [if_neg (ne_of_gt hn), if_neg hcap]
  cases hlift : (s.buffers buffer).lifted (s.memoryOf (s.buffers buffer)) n with
  | error err => exact .inl ⟨err, rfl⟩
  | ok res =>
    obtain ⟨values, source'⟩ := res
    obtain ⟨hptrs, rfl⟩ := lifted_guest (hadv.like hholds.like) hholds.memory hlift
    exact .inr ⟨values, _, rfl, hptrs, rfl⟩

/-- Writing into a guest's buffer. -/
theorem bufferWrite_guest {e : ElemMeta α} {size : Nat} (s : StreamState α) (buffer : Nat)
    (values : List α) {o : OpenCopy} (hadv : e.AdvancesBy size)
    (hholds : Holds e size (s.buffers buffer) o) (hrem : values.length ≤ (s.buffers buffer).remaining)
    (hlowers : ∃ r,
      ((s.buffers buffer).lowered (s.memoryOf (s.buffers buffer)) values).2 = .ok r) :
    ∃ memories, bufferWrite buffer values s = .ok () { s with
      memories
      buffers := update s.buffers buffer ((s.buffers buffer).advance size values.length)
      placed := s.placed ++ entries buffer (s.buffers buffer).processed
        ((strided (s.buffers buffer).ptr size values.length).zip values) } := by
  obtain ⟨⟨ptrs, target'⟩, hlower⟩ := hlowers
  obtain ⟨m, res, hres⟩ : ∃ m res, (s.buffers buffer).lowered
      (s.memoryOf (s.buffers buffer)) values = (m, res) := ⟨_, _, rfl⟩
  rw [hres] at hlower
  change res = _ at hlower
  subst hlower
  obtain ⟨rfl, rfl⟩ := lowered_guest (hadv.like hholds.like) hholds.memory hres
  refine ⟨(s.buffers buffer).memory.elim s.memories (update s.memories · m), ?_⟩
  unfold bufferWrite
  simp only [if_neg (not_lt.2 hrem), hres]
  rfl

/-- A transfer fails before it changes anything, or moves exactly `n` elements. -/
theorem transfer_cases {e : ElemMeta α} {size n : Nat} {s : StreamState α} {o : Side → OpenCopy}
    (hadv : e.AdvancesBy size) (hne : (o .write).call ≠ (o .read).call)
    (hholds : ∀ side, Holds e size (s.buffers (o side).call) (o side)) (hn : 0 < n)
    (hrem : ∀ side, n ≤ (s.buffers (o side).call).remaining)
    (hlowers : ∀ values source',
      (s.buffers (o .write).call).lifted (s.memoryOf (s.buffers (o .write).call)) n =
          .ok (values, source') →
        ∃ r, ((s.buffers (o .read).call).lowered (s.memoryOf (s.buffers (o .read).call))
          (values.map (·.2))).2 = .ok r) :
    (∃ err, transfer (o .write).call (o .read).call n s = .error err s) ∨
    ∃ s', transfer (o .write).call (o .read).call n s = .ok () s' ∧
      Transferred size n o s s' := by
  unfold transfer
  rcases bufferRead_guest hadv (hholds .write) hn (hrem .write) with
    ⟨err, hread⟩ | ⟨values, source', hlift, hptrs, hread⟩
  · exact .inl ⟨err, by rw [hread]⟩
  · rw [hread]
    have hlen : values.length = n := by simpa using congrArg List.length hptrs
    -- after the read; the write fills the reader from here
    let s₁ : StreamState α := { s with
      buffers := update s.buffers (o .write).call
        ((s.buffers (o .write).call).advance size n)
      taken := s.taken ++
        entries (o .write).call (s.buffers (o .write).call).processed values }
    have htarget : s₁.buffers (o .read).call = s.buffers (o .read).call :=
      update_of_ne hne.symm _ _
    have hmemory : s₁.memoryOf (s.buffers (o .read).call) =
      s.memoryOf (s.buffers (o .read).call) := rfl
    have hlen' : (values.map (·.2)).length = n := by rw [List.length_map, hlen]
    obtain ⟨memories, hwrite⟩ := bufferWrite_guest s₁ (o .read).call (values.map (·.2)) hadv
      (htarget ▸ hholds .read) (by rw [htarget, hlen']; exact hrem .read)
      (by rw [htarget, hmemory]; exact hlowers values source' hlift)
    have hptrs' : ((strided (s.buffers (o .read).call).ptr size n).zip (values.map (·.2))).map
        (·.1) = strided ((o .read).ptr + ((s.buffers (o .read).call).processed * size : Nat))
          size n := by
      rw [← (hholds .read).ptr, List.map_fst_zip]
      simp [hlen]
    rw [htarget, hlen'] at hwrite
    refine .inr ⟨_, hwrite, rfl, rfl, rfl, rfl, rfl, fun side => ?_, fun side => ?_,
      fun hvalues => ?_⟩
    · cases side with
      | write =>
        show update s₁.buffers _ _ _ = _
        rw [update_of_ne hne]
        exact update_self ..
      | read => exact update_self ..
    · cases side with
      | write =>
        show ((s.taken ++ _).map _ : List Slot) = s.taken.map _ ++ _
        rw [List.map_append, entries_slot ((hholds .write).ptr ▸ hptrs)]
      | read =>
        show ((s.placed ++ _).map _ : List Slot) = s.placed.map _ ++ _
        rw [List.map_append, entries_slot hptrs']
    · rw [List.map_append, List.map_append, hvalues, entries_value, entries_value,
        List.map_snd_zip]
      simp [hlen]

/-- The elements that would move from one buffer to another are lowered without
an exception. -/
def LowersFrom (s : StreamState α) (source target n : Nat) : Prop :=
  ∀ values source',
    (s.buffers source).lifted (s.memoryOf (s.buffers source)) n = .ok (values, source') →
      ∃ r, ((s.buffers target).lowered (s.memoryOf (s.buffers target))
        (values.map (·.2))).2 = .ok r

/-- The same for a transfer between the copy of `side` and the pending one. -/
def LowersBetween (s : StreamState α) (side : Side) (own pending n : Nat) : Prop :=
  match side with
  | .write => LowersFrom s own pending n
  | .read => LowersFrom s pending own n

/-- A transfer between the copy `o` of `side` and the copy `o'` of the other end. -/
theorem transferOf_cases {e : ElemMeta α} {size n : Nat} {s : StreamState α} {side : Side}
    {o o' : OpenCopy} (hadv : e.AdvancesBy size) (hne : o'.call ≠ o.call)
    (hholds : Holds e size (s.buffers o.call) o) (hholds' : Holds e size (s.buffers o'.call) o')
    (hn : 0 < n) (hrem : n ≤ (s.buffers o.call).remaining) (hrem' : n ≤ (s.buffers o'.call).remaining)
    (hlowers : LowersBetween s side o.call o'.call n) :
    (∃ err, transferOf side o.call o'.call n s = .error err s) ∨
    ∃ s', transferOf side o.call o'.call n s = .ok () s' ∧
      Transferred size n (fun sd => if sd = side then o else o') s s' := by
  cases side with
  | write =>
    refine transfer_cases (o := fun sd => if sd = .write then o else o') hadv hne.symm
      (fun sd => ?_) hn (fun sd => ?_) hlowers
    · cases sd
      · exact hholds'
      · exact hholds
    · cases sd
      · exact hrem'
      · exact hrem
  | read =>
    refine transfer_cases (o := fun sd => if sd = .read then o else o') hadv hne
      (fun sd => ?_) hn (fun sd => ?_) hlowers
    · cases sd
      · exact hholds
      · exact hholds'
    · cases sd
      · exact hrem
      · exact hrem'

/-- A copy meets the pending one, or waits: either way it becomes outstanding. -/
theorem Inv.meets {e : ElemMeta α} {size : Nat} {s : StreamState α} {vs : Views} {side : Side}
    {o : OpenCopy} {c : Int} {res : EStateM.Result JsError (StreamState α) Unit}
    (hadv : e.AdvancesBy size) (hinv : Inv e size s vs) (hnone : (vs.view side).opened = none)
    (hholds : Holds e size (s.buffers o.call) o) (hzero : (s.buffers o.call).processed = 0)
    (hfresh : ∀ side' o', (vs.view side').opened = some o' → o'.call ≠ o.call)
    (hviews : ViewsOk size (vs.setView side { vs.view side with opened := some o }))
    (hdropped : s.dropped = false)
    (hfits : ∀ p n, s.pendingBufferMeta = some p →
      n = min (s.buffers o.call).remaining (s.buffers p.buffer).remaining →
        n ≠ MAX_LENGTH ∧ LowersBetween s side o.call p.buffer n)
    (hmeet : Meeting side ⟨side, o.call⟩ c s res) :
    (∃ err, res = .error err s) ∨
    ∃ s', res = .ok () s' ∧
      Inv e size s' (vs.setView side { vs.view side with opened := some o }) ∧
      (∀ side', (s'.ends side').copyState = (s.ends side').copyState) ∧
      (s'.buffers o.call).processed ≠ MAX_LENGTH := by
  have hend := (endInv_none hnone).1 (hinv.ends side)
  have hzero' : (s.buffers o.call).processed ≠ MAX_LENGTH := by
    rw [hzero]; unfold MAX_LENGTH; omega
  have hslots : (s.moved side).map Entry.slot =
      (vs.view side).settled ++ slots o.call o.ptr size (s.buffers o.call).processed := by
    rw [hzero, slots_zero, List.append_nil]
    exact hend.1
  cases hmeet with
  | fails err hp hbad => exact .inl ⟨err, rfl⟩
  | waits hp =>
    refine .inr ⟨_, rfl, hinv.opens rfl rfl hdropped hinv.values hviews (hfresh _) hslots hholds
      (.pending rfl (.inl hend.2.1)) ?_, fun _ => rfl, hzero'⟩
    refine (hinv.ends side.other).congr rfl (fun _ _ => rfl) rfl (.inr ⟨fun p h => ?_, fun p h => ?_⟩)
    · rw [hp] at h
      cases h
    · cases h
      exact (Side.other_ne side).symm
  | completes hp hnothing =>
    refine .inr ⟨_, rfl, hinv.opens rfl rfl hdropped hinv.values hviews (hfresh _) hslots hholds
      (.notified hend.2.2 (s.setPendingEvent_self side _)) ?_,
      fun side' => s.setPendingEvent_copyState side side' _, hzero'⟩
    exact (hinv.ends side.other).congr rfl (fun _ _ => rfl)
      (congrArg _ (s.setPendingEvent_ne _ (Side.other_ne side))) (.inl rfl)
  | displaces hp hfull _ =>
    obtain ⟨hinv', hpending, hbuffers, hstates⟩ := hinv.notify .completed
    have hend' := (endInv_none hnone).1 (hinv'.ends side)
    refine .inr ⟨_, rfl, hinv'.opens rfl rfl ?_ hinv'.values hviews (hfresh _) ?_ ?_
      (.pending rfl (.inl hend'.2.1)) ?_, hstates, ?_⟩
    · unfold resetAndNotifyPending
      split <;> exact hdropped
    · show _ = _ ++ slots o.call o.ptr size
        ((s.resetAndNotifyPending .completed).buffers o.call).processed
      rw [hbuffers, hzero, slots_zero, List.append_nil]
      exact hend'.1
    · exact hbuffers ▸ hholds
    · refine (hinv'.ends side.other).congr rfl (fun _ _ => rfl) rfl
        (.inr ⟨fun p h => ?_, fun p h => ?_⟩)
      · rw [hpending] at h
        cases h
      · cases h
        exact (Side.other_ne side).symm
    · exact hbuffers ▸ hzero'
  | tears hp hn hmin ht =>
    obtain ⟨side', c', o', rfl, ho', hholds', -⟩ := hinv.pending hp
    have hrem := le_of_eq hmin
    rw [Nat.le_min] at hrem
    rcases transferOf_cases hadv (hfresh _ _ ho') hholds hholds' hn hrem.1 hrem.2
        (hfits _ _ hp hmin).2 with ⟨err', herr⟩ | ⟨s', hok, -⟩
    · -- the elements could not be lifted
      obtain ⟨rfl, rfl⟩ := EStateM.Result.error.inj (ht.symm.trans herr)
      exact .inl ⟨_, rfl⟩
    · cases ht.symm.trans hok
  | moves hp hn hmin ht =>
    rename_i p n s'
    obtain ⟨side', c', o', rfl, ho', hholds', -⟩ := hinv.pending hp
    have hrem := le_of_eq hmin
    rw [Nat.le_min] at hrem
    obtain ⟨hmax, hlowers⟩ := hfits _ _ hp hmin
    rcases transferOf_cases hadv (hfresh _ _ ho') hholds hholds' hn hrem.1 hrem.2 hlowers with
      ⟨err', herr⟩ | ⟨s₁, hok, hmoved⟩
    · cases ht.symm.trans herr
    · obtain ⟨-, rfl⟩ := EStateM.Result.ok.inj (ht.symm.trans hok)
      have hside : side' = side.other :=
        Side.eq_other fun h => by rw [h, hnone] at ho'; cases ho'
      subst hside
      have hne := Side.other_ne side
      have hown := hmoved.moved side
      have hother := hmoved.moved side.other
      have hbown := hmoved.buffers side
      have hbother := hmoved.buffers side.other
      simp only [if_true, if_neg hne] at hown hother hbown hbother
      refine .inr ⟨_, rfl, hinv.opens hmoved.elemMeta hmoved.copies
        (hmoved.dropped.trans hdropped) (hmoved.values hinv.values) hviews (hfresh _) ?_ ?_
        (.notified ?_ (setPendingEvent_self _ side _)) ?_, fun side' => ?_, ?_⟩
      · show (s'.moved side).map _ = _ ++ slots o.call o.ptr size (s'.buffers o.call).processed
        rw [hown, hend.1, hbown]
        show _ = _ ++ slots o.call o.ptr size ((s.buffers o.call).processed + n)
        rw [slots_add, hzero, slots_zero, List.nil_append]
      · show Holds e size (s'.buffers o.call) o
        rw [hbown]
        exact hholds.advance hrem.1
      · exact hmoved.pending ▸ hend.2.2
      · -- the pending copy has more progress, and an event that will reclaim its buffer
        obtain ⟨hslots', -, -⟩ := (endInv_some ho').1 (hinv.ends side.other)
        refine (endInv_some ho').2 ⟨?_, ?_, .pending (hmoved.pending.trans hp) (.inr ?_)⟩
        · show (s'.moved side.other).map _ =
            _ ++ slots o'.call o'.ptr size (s'.buffers o'.call).processed
          rw [hother, hslots', hbother]
          show _ = _ ++ slots o'.call o'.ptr size ((s.buffers o'.call).processed + n)
          rw [slots_add, List.append_assoc]
        · show Holds e size (s'.buffers o'.call) o'
          rw [hbother]
          exact hholds'.advance hrem.2
        · exact (congrArg _ (setPendingEvent_ne _ _ hne)).trans
            (s'.setPendingEvent_self side.other _)
      · refine (setPendingEvent_copyState _ side side' _).trans
          ((s'.setPendingEvent_copyState side.other side' _).trans ?_)
        rw [hmoved.ends]
      · show (s'.buffers o.call).processed ≠ _
        rw [hbown]
        show (s.buffers o.call).processed + n ≠ _
        rw [hzero, zero_add]
        exact hmax

/-! ## Calls -/

/-- The copy that a guest calls fails and changes nothing, or finds the stream
dropped, or becomes outstanding. -/
theorem Inv.copyStart {e : ElemMeta α} {size : Nat} {s : StreamState α} {vs : Views} {side : Side}
    {ctx : StreamCtx} {ptr count : Int} {answer : StreamAnswer} {args : CopyArgs α}
    {res : EStateM.Result JsError (StreamState α) (Option CopyAnswer)} (hadv : e.AdvancesBy size)
    (hinv : Inv e size s vs) (hidle : IdleInv s vs)
    (hfits : Fits (.copy side ctx ptr count, answer) s)
    (hargs : args = ctx.copyArgs s.copies ptr count)
    (hres : StreamState.copyStart side args { s with copies := s.copies + 1 } = res) :
    (∃ err s', res = .error err s' ∧ Inv e size s' { vs with calls := vs.calls + 1 } ∧
      s'.ends = s.ends) ∨
    (∃ s', res = .ok (some (.packed 1)) s' ∧ Inv e size s' { vs with calls := vs.calls + 1 } ∧
      ∀ side', (s'.ends side').copyState = .idle → (s.ends side').copyState = .idle) ∨
    ∃ s', res = .ok none s' ∧ (vs.view side).opened = none ∧
      Inv e size s' ({ vs with calls := vs.calls + 1 }.setView side
        { vs.view side with opened := some ⟨vs.calls, ptr, clampCount count⟩ }) ∧
      (∀ side', (s'.ends side').copyState = (s.ends side').copyState) ∧
      (s'.buffers vs.calls).processed ≠ MAX_LENGTH := by
  have hbuffer : args.buffer = vs.calls := by rw [hargs, ← hinv.copies]; rfl
  have hargs' : args.stringEncoding = some ctx.stringEncoding ∧ args.rejectLength = none ∧
      args.componentIdx = ctx.componentIdx ∧ args.memory = some ctx.memory ∧ args.ptr = ptr ∧
      args.count = clampCount count ∧ args.data = [] := by
    rw [hargs]
    exact ⟨rfl, rfl, rfl, rfl, rfl, rfl, rfl⟩
  obtain ⟨henc, hreject, hc, hmemory, hptr, hcount, hdata⟩ := hargs'
  have hbump := hinv.bump (s.elemMeta.stringEncoding.or args.stringEncoding)
  unfold StreamState.copyStart at hres
  dsimp only at hres
  split at hres
  case isTrue => exact .inl ⟨_, _, hres.symm, hbump, rfl⟩
  split at hres
  case isTrue hd =>
    rw [StreamState.notifyDropped_of_none] at hres
    swap
    · exact hinv.dropped hd
    refine .inr (.inl ⟨_, hres.symm, hbump.setCopyState side .done, fun side' h => ?_⟩)
    by_cases hs : side' = side
    · subst hs
      simp [StreamState.setCopyState, StreamState.setEnd] at h
    · simpa [StreamState.setCopyState, StreamState.setEnd, hs] using h
  case isFalse hd =>
    have hdropped : s.dropped = false := by simpa using hd
    rcases setupCopy_cases rfl with ⟨err, hsetup⟩ | ⟨hidle', hmax, hsetup⟩
    · rw [hsetup] at hres
      exact .inl ⟨_, _, hres.symm, hbump, rfl⟩
    rw [hsetup, hbuffer] at hres
    have hnone := hidle side hidle'
    have hfresh : ∀ side' o', (vs.view side').opened = some o' → o'.call ≠ vs.calls :=
      fun side' o' ho' => Nat.ne_of_lt (hinv.views.opened side' o' ho')
    -- the state with the new buffer, which is not outstanding yet
    let b : ManagedBuffer α := ⟨args.componentIdx, args.memory,
      { s.elemMeta with stringEncoding := s.elemMeta.stringEncoding.or args.stringEncoding },
      args.ptr, args.count, 0, args.data⟩
    let s₁ : StreamState α := { s with
      copies := s.copies + 1
      elemMeta := b.elemMeta
      buffers := update s.buffers vs.calls b }
    have hinv₁ : Inv e size s₁ { vs with calls := vs.calls + 1 } := hbump.update_buffer hfresh b
    have hself : s₁.buffers vs.calls = b := update_self ..
    have hholds : Holds e size (s₁.buffers vs.calls) ⟨vs.calls, ptr, clampCount count⟩ := by
      rw [hself]
      refine ⟨?_, hinv.like, ?_, hcount, hcount ▸ hmax, zero_le _, ?_⟩
      · show args.memory.isSome
        rw [hmemory]
        rfl
      · show (s.elemMeta.stringEncoding.or args.stringEncoding).isSome
        rw [henc]
        cases s.elemMeta.stringEncoding <;> rfl
      · show args.ptr = ptr + ((0 : Nat) * size : Nat)
        rw [hptr]
        simp
    have hviews := hinv.views.opens hnone ptr (clampCount count)
    have hfits₁ : ∀ p n, s₁.pendingBufferMeta = some p →
        n = min (s₁.buffers vs.calls).remaining (s₁.buffers p.buffer).remaining →
        n ≠ MAX_LENGTH ∧ LowersBetween s₁ side vs.calls p.buffer n := by
      intro p n hp hn
      obtain ⟨side', c, o, rfl, ho, -, -⟩ := hinv.pending hp
      have hpending : s₁.buffers o.call = s.buffers o.call :=
        update_of_ne (hfresh _ _ ho) _ _
      subst hargs
      have hmoving := hfits
      unfold Fits StreamState.moving at hmoving
      simp only [show s.pendingBufferMeta = _ from hp, Option.map_some, Option.some.injEq] at hmoving
      rw [hself] at hn
      simp only [hpending] at hn
      cases side with
      | read =>
        have h := hmoving _ _ _ rfl
        rw [min_comm] at hn
        refine ⟨hn ▸ h.1, ?_⟩
        show LowersFrom s₁ o.call vs.calls n
        unfold LowersFrom
        rw [hself, hpending, hn]
        exact h.2
      | write =>
        have h := hmoving _ _ _ rfl
        refine ⟨hn ▸ h.1, ?_⟩
        show LowersFrom s₁ vs.calls o.call n
        unfold LowersFrom
        rw [hself, hpending, hn]
        exact h.2
    have hmeet : ∃ r, Meeting side ⟨side, vs.calls⟩ args.componentIdx s₁ r ∧
        res = StreamState.started r := by
      have hencodings : ∀ p, s₁.pendingBufferMeta = some p →
          (s₁.buffers p.buffer).elemMeta.stringEncoding.isSome := by
        intro p hp
        obtain ⟨_, _, _, rfl, _, hholds', -⟩ := hinv₁.pending hp
        exact hholds'.encoding
      have hrejects : ∀ p, s₁.pendingBufferMeta = some p → p.rejectLength = none := by
        intro p hp
        obtain ⟨_, _, _, rfl, _, -, -⟩ := hinv₁.pending hp
        rfl
      cases side with
      | read =>
        rw [hreject] at hres
        exact ⟨_, _read_meeting hdropped hholds.encoding hencodings, hres.symm⟩
      | write => exact ⟨_, _write_meeting hdropped hrejects, hres.symm⟩
    obtain ⟨r, hmeet, rfl⟩ := hmeet
    rcases hinv₁.meets hadv hnone hholds (by rw [hself]) hfresh hviews hdropped hfits₁ hmeet with
      ⟨err, rfl⟩ | ⟨s', rfl, hinv', hstates, hmax'⟩
    · exact .inl ⟨err, _, rfl, hinv₁, rfl⟩
    · exact .inr (.inr ⟨s', rfl, hnone, hinv', hstates, hmax'⟩)

end

section

variable [StreamValue α] [DecidableEq α]

end

/-! ## Two streams -/

/-- A stream of bytes. -/
def byteMeta : ElemMeta (Option UInt8) where
  payloadTypeName := some "U8"
  isNone := false
  isNumeric := true
  isBorrowed := false
  align32 := some 1
  stringEncoding := none
  liftFn := fun _ _ _ => none
  lowerFn := fun _ m _ _ => (m, none)

/-- The options of the component with the memory of its own number. -/
def guestCtx (component : Nat) : StreamCtx := ⟨component, component, .utf8, true, true⟩

end Jco.Stream

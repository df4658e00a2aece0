import Jco.Component.RepTable
import Jco.Component.Subtask
import Jco.Stream.Conservation

/-! # Packed words

A progress, a subtask or a waitable set is packed with a code of four bits into one
word: the number goes through `<< 4`, the code below it. A guest reads the word as
unsigned; JavaScript reads it with `>> 4`, which keeps the sign.
-/

namespace Jco.Stream

open Jco.Js Jco.Component Jco.Component.Subtask

/-! ## Readers -/

/-- What a guest makes of a word: the number and the code. -/
def guestUnpack (word : Int) : Int × Int := (word % 2 ^ 32 / 16, word % 2 ^ 32 % 16)

/-- `packedResult >> 4` and `packedResult & 0xF` of the host ends. -/
def hostUnpack (packedResult : Int) : Int × Int := (shr packedResult 4, bitAnd packedResult 0xF)

/-- `_typeCheckValidI32` of a number -/
def typeCheckValidI32 (n : Int) : Bool := -2147483648 ≤ n ∧ n ≤ 2147483647

/-- `[eventCode, waitableSetRep]` -/
def unpackCallbackResult (result : Int) : Except JsError (Int × Int) :=
  if ¬ typeCheckValidI32 result then
    .error (.error s!"invalid callback return value [{result}], not a valid i32")
  else
    let eventCode := bitAnd result 0xF
    if eventCode < 0 ∨ 3 < eventCode then
      .error (.error s!"invalid async return value [{eventCode}], outside callback code range")
    else if result < 0 ∨ 2 ^ 32 ≤ result then .error (.error "invalid callback result")
    else .ok (eventCode, shr result 4)

/-- `Number(subtask.waitableRep()) << 4 | subtaskState` -/
def packSubtask (waitableRep : Int) (subtaskState : Status) : Int :=
  bitOr (shl waitableRep 4) subtaskState.number

/-- The i32 that the callback of a guest returns for a code and a waitable set. -/
def packCallback (code : Nat) (waitableSet : Int) : Int := bitOr (shl waitableSet 4) code

/-! ## Words -/

section

variable {n : Int} {r : Nat}

/-- A packed word is an i32. -/
theorem pack_range (n : Int) (hr : r < 2 ^ 4) :
    -2 ^ 31 ≤ bitOr (shl n 4) r ∧ bitOr (shl n 4) r < 2 ^ 31 := by
  rw [bitOr_shl_four_eq n hr, Int.bmod_def]
  split <;> omega

theorem guestUnpack_iff (hr : r < 2 ^ 4) :
    guestUnpack (bitOr (shl n 4) r) = (n, (r : Int)) ↔ 0 ≤ n ∧ n < 2 ^ 28 := by
  have hmod : bitOr (shl n 4) r % 2 ^ 32 = (16 * n + r) % 2 ^ 32 := by
    rw [bitOr_shl_four_eq n hr]
    exact Int.bmod_emod
  unfold guestUnpack
  rw [hmod, Prod.mk.injEq]
  omega

/-- From bit 27 of the number on the word is negative. -/
theorem hostUnpack_iff (hr : r < 2 ^ 4) (hn : 0 ≤ n) (hn' : n < 2 ^ 28) :
    hostUnpack (bitOr (shl n 4) r) = (n, (r : Int)) ↔ n < 2 ^ 27 := by
  obtain ⟨hlow, hup⟩ := pack_range n hr
  unfold hostUnpack
  rw [shr_four hlow hup, bitAnd_fifteen, bitOr_shl_four_eq n hr, Int.bmod_def, Prod.mk.injEq]
  -- The signed word is the product or the product less 2^32.
  split <;> omega

theorem unpackCallbackResult_iff (hr : r < 4) :
    unpackCallbackResult (packCallback r n) = .ok ((r : Int), n) ↔ 0 ≤ n ∧ n < 2 ^ 27 := by
  have hr' : r < 2 ^ 4 := by omega
  obtain ⟨hlow, hup⟩ := pack_range n hr'
  have hcheck : typeCheckValidI32 (bitOr (shl n 4) r) = true := by
    exact decide_eq_true ⟨by omega, by omega⟩
  have hcode : bitAnd (bitOr (shl n 4) r) 0xF = r := by
    rw [bitAnd_fifteen, bitOr_shl_four_eq n hr', Int.bmod_def]
    split <;> omega
  unfold unpackCallbackResult packCallback
  rw [if_neg (by simp [hcheck])]
  rw [hcode, if_neg (by omega)]
  constructor
  · intro h
    split at h
    case isTrue => cases h
    case isFalse hsign =>
      -- A word that passed the check of the sign has lost nothing but what bit 27 up held.
      have hrep := congrArg Prod.snd (Except.ok.inj h)
      rw [shr_four hlow hup] at hrep
      omega
  · rintro ⟨h0, h27⟩
    have hword : bitOr (shl n 4) r = 16 * n + r := by
      rw [bitOr_shl_four_eq n hr', Int.bmod_def]
      split <;> omega
    rw [if_neg (by omega), shr_four hlow hup, hword]
    exact congrArg (fun q => Except.ok ((r : Int), q)) (by omega)

end

/-! ## What is packed -/

/-- A representation that a table can answer. -/
def Returned (rep : Int) : Prop :=
  ∃ t t' : RepTable Unit, t.insert () = some (rep, t')

inductive Packed where
  | copy (processed : Nat) (result : CopyResult)
  | subtask (waitableRep : Int) (subtaskState : Status)
  | callback (code : Nat) (waitableSet : Int)

/-- The counts that a buffer admits, the representations of tables and the codes of
a callback. -/
def Packed.Admitted : Packed → Prop
  | copy processed _ => processed ≤ MAX_LENGTH
  | subtask waitableRep _ => Returned waitableRep
  | callback code waitableSet => code < 4 ∧ Returned waitableSet

/-- The word is made, and its readers get the pair back. -/
def Packed.Exact : Packed → Prop
  | copy processed result => ∀ (α : Type) (s : StreamState α) (side : Side) (buffer : Nat)
      (reclaim : Bool) (rejectedLength : Option Nat), (s.buffers buffer).processed = processed →
      ∃ event s', s.processFn side buffer result reclaim rejectedLength = .ok event s' ∧
        guestUnpack event.payload1 = ((processed : Int), (result.code : Int)) ∧
        hostUnpack event.payload1 = ((processed : Int), (result.code : Int))
  | subtask waitableRep subtaskState =>
    guestUnpack (packSubtask waitableRep subtaskState) =
      (waitableRep, (subtaskState.number : Int))
  | callback code waitableSet =>
    unpackCallbackResult (packCallback code waitableSet) = .ok ((code : Int), waitableSet)

/-- The word has room for the number, where JavaScript reads it below its sign. -/
def Packed.Fits : Packed → Prop
  | copy processed _ => processed < 2 ^ 27
  | subtask waitableRep _ => 0 ≤ waitableRep ∧ waitableRep < 2 ^ 28
  | callback _ waitableSet => 0 ≤ waitableSet ∧ waitableSet < 2 ^ 27

theorem number_lt (subtaskState : Status) : subtaskState.number < 2 ^ 4 := by
  cases subtaskState <;> decide

/-! ## What fits -/

/-- Below the maximum the event carries the packed word; at the maximum there is none. -/
theorem processFn_packs {α : Type} (s : StreamState α) (side : Side) (buffer : Nat)
    (result : CopyResult) (reclaim : Bool) (rejectedLength : Option Nat) :
    (∃ event s', s.processFn side buffer result reclaim rejectedLength = .ok event s' ∧
      event.payload1 = StreamState.packResult (s.buffers buffer).processed result) ∨
    MAX_LENGTH ≤ (s.buffers buffer).processed ∧
      ∃ s', s.processFn side buffer result reclaim rejectedLength = .error .engine s' := by
  have hbuffers : (if reclaim then s.resetPendingBufferMeta else s).buffers = s.buffers := by
    cases reclaim <;> rfl
  unfold StreamState.processFn
  dsimp only [StreamState.setCopyState, StreamState.setEnd]
  rw [hbuffers]
  split
  case isTrue hmax => exact .inr ⟨hmax, _, rfl⟩
  case isFalse => exact .inl ⟨_, _, rfl, rfl⟩

/-- A stream of bytes whose buffers have all moved `n` elements. -/
def movedStream (n : Nat) : StreamState (Option UInt8) :=
  { StreamState.init byteMeta (fun side => side.eventCode + 2) with
    buffers := fun _ => ⟨-1, none, byteMeta, 0, MAX_LENGTH, n, []⟩ }

theorem copy_exact_iff {processed : Nat} {result : CopyResult} (h : processed ≤ MAX_LENGTH) :
    (Packed.copy processed result).Exact ↔ processed < 2 ^ 27 := by
  have hmax : processed < 2 ^ 28 := by
    unfold MAX_LENGTH at h
    omega
  constructor
  · intro hexact
    -- One stream is enough: the word does not depend on the others.
    obtain ⟨event, s', hok, -, hhost⟩ := hexact _ (movedStream processed) .write 0 false none rfl
    rcases processFn_packs (movedStream processed) .write 0 result false none with
      ⟨event', s₁, hok', hword⟩ | ⟨-, s₁, herr⟩
    · rw [hok] at hok'
      obtain ⟨rfl, rfl⟩ := EStateM.Result.ok.inj hok'
      rw [hword] at hhost
      have hlt := (hostUnpack_iff (code_lt result) (Int.natCast_nonneg _) (by exact_mod_cast hmax)).1
        hhost
      exact_mod_cast hlt
    · rw [hok] at herr
      cases herr
  · rintro hlt α s side buffer reclaim rejectedLength rfl
    rcases processFn_packs s side buffer result reclaim rejectedLength with
      ⟨event, s', hok, hword⟩ | ⟨hle, -⟩
    · refine ⟨event, s', hok, ?_, ?_⟩
      · rw [hword]
        exact (guestUnpack_iff (code_lt result)).2 ⟨by omega, by exact_mod_cast hmax⟩
      · rw [hword]
        exact (hostUnpack_iff (code_lt result) (by omega) (by exact_mod_cast hmax)).2
          (by exact_mod_cast hlt)
    · -- At the maximum there is no event, but the number is far below it.
      unfold MAX_LENGTH at hle
      omega

/-- The words whose readers get back what was packed: streams and callbacks have one
bit less than the guest reads, since JavaScript takes the highest for a sign. -/
theorem packed_exact_iff (p : Packed) (h : p.Admitted) : p.Exact ↔ p.Fits := by
  cases p with
  | copy processed result => exact copy_exact_iff h
  | subtask waitableRep subtaskState => exact guestUnpack_iff (number_lt subtaskState)
  | callback code waitableSet => exact unpackCallbackResult_iff h.1

/-- Bit 27 of the progress. -/
theorem packed_exact_iff_halfFull :
    (Packed.copy (2 ^ 27) .completed).Exact ↔ (Packed.copy (2 ^ 27) .completed).Fits :=
  packed_exact_iff _ (show 2 ^ 27 ≤ MAX_LENGTH by decide)

/-- The host reads a completed copy of 2^27 elements as one of -2^27, a full buffer has
no event at all, and the set 2^27 comes back from a callback as an error. -/
theorem packing_not_exact :
    ¬ (∀ p : Packed, p.Admitted → p.Exact) ∧
      ¬ (Packed.copy (2 ^ 27) .completed).Exact ∧ ¬ (Packed.copy MAX_LENGTH .completed).Exact ∧
      ¬ (Packed.callback 2 (2 ^ 27)).Exact := by
  have hhalf : ¬ (Packed.copy (2 ^ 27) .completed).Exact := fun h =>
    absurd ((copy_exact_iff (by decide)).1 h) (by decide)
  have hadmitted : (Packed.copy (2 ^ 27) .completed).Admitted :=
    show 2 ^ 27 ≤ MAX_LENGTH by decide
  refine ⟨fun h => hhalf (h _ hadmitted), hhalf, fun h => ?_, fun h => ?_⟩
  · exact absurd ((copy_exact_iff (Nat.le_refl _)).1 h) (by decide)
  · exact absurd ((unpackCallbackResult_iff (by decide)).1 h).2 (by decide)

end Jco.Stream

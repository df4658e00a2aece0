import Jco.Stream.End

/-! # How copies meet

One inversion lemma for each of `setupCopy`, `_read` and `_write`. Whatever end
a copy is on, it waits, is completed without elements, displaces an exhausted
buffer, or moves elements between its buffer and the pending one.
-/

namespace Jco.Stream

open Jco.Js StreamState

variable {α : Type}

/-- Making the closures of a copy adds its buffer, or changes nothing. -/
theorem setupCopy_cases {side : Side} {args : CopyArgs α} {s : StreamState α}
    {res : EStateM.Result JsError (StreamState α) Callback}
    (hres : setupCopy side args s = res) :
    (∃ err, res = .error err s) ∨
    ((s.ends side).copyState = .idle ∧ args.count ≤ MAX_LENGTH ∧
      res = .ok ⟨side, args.buffer⟩ { s with
        buffers := Function.update s.buffers args.buffer
          ⟨args.componentIdx, args.memory, s.elemMeta, args.ptr, args.count, 0, args.data⟩ }) := by
  unfold setupCopy at hres
  split at hres
  case isTrue => exact .inl ⟨_, hres.symm⟩
  split at hres
  case isTrue => exact .inl ⟨_, hres.symm⟩
  case isFalse hidle =>
    split at hres
    case isTrue => exact .inl ⟨_, hres.symm⟩
    split at hres
    case h_1 => exact .inl ⟨_, hres.symm⟩
    case h_2 b hb =>
      obtain ⟨hmax, rfl⟩ := ManagedBuffer.new_eq hb
      exact .inr ⟨not_not.1 hidle, hmax, hres.symm⟩

variable [StreamValue α] [DecidableEq α]

/-- `target.write(source.read(n))` between the copy of `side` and the pending one. -/
def transferOf (side : Side) (own pending n : Nat) : StreamM α Unit :=
  match side with
  | .write => StreamState.transfer own pending n
  | .read => StreamState.transfer pending own n

/-- What `_read` and `_write` do, for guests and while nothing is dropped. -/
inductive Meeting (side : Side) (own : Callback) (c : Int) (s : StreamState α) :
    EStateM.Result JsError (StreamState α) Unit → Prop where
  | fails (err : JsError) {p : PendingBufferMeta} (hp : s.pendingBufferMeta = some p)
      (hbad : (s.buffers p.buffer).elemMeta.payloadTypeName ≠
          (s.buffers own.buffer).elemMeta.payloadTypeName ∨
        StreamState.sameComponent p (s.buffers p.buffer) (s.buffers own.buffer) = true) :
      Meeting side own c s (.error err s)
  | waits (hp : s.pendingBufferMeta = none) :
      Meeting side own c s (.ok () (s.setPendingBufferMeta ⟨c, own.buffer, own, some own, none⟩))
  | completes {p : PendingBufferMeta} (hp : s.pendingBufferMeta = some p)
      (hnothing : (s.buffers own.buffer).remaining = 0) :
      Meeting side own c s (.ok () (s.onCopyDoneFn own .completed none))
  | displaces {p : PendingBufferMeta} (hp : s.pendingBufferMeta = some p)
      (hfull : (s.buffers p.buffer).remaining = 0)
      (hunit : side = .write →
        ¬((s.buffers own.buffer).capacity = 0 ∧ (s.buffers p.buffer).capacity = 0)) :
      Meeting side own c s (.ok () ((s.resetAndNotifyPending .completed).setPendingBufferMeta
        ⟨c, own.buffer, own, some own, none⟩))
  | tears {p : PendingBufferMeta} {n : Nat} {err : JsError} {s' : StreamState α}
      (hp : s.pendingBufferMeta = some p) (hn : 0 < n)
      (hmin : n = min (s.buffers own.buffer).remaining (s.buffers p.buffer).remaining)
      (ht : transferOf side own.buffer p.buffer n s = .error err s') :
      Meeting side own c s (.error err s')
  | moves {p : PendingBufferMeta} {n : Nat} {s' : StreamState α}
      (hp : s.pendingBufferMeta = some p) (hn : 0 < n)
      (hmin : n = min (s.buffers own.buffer).remaining (s.buffers p.buffer).remaining)
      (ht : transferOf side own.buffer p.buffer n s = .ok () s') :
      Meeting side own c s
        (.ok () ((s'.onCopyFn p.onCopyFn).onCopyDoneFn own .completed none))

theorem _write_meeting {own : Callback} {c : Int} {s : StreamState α} (hdropped : s.dropped = false)
    (hreject : ∀ p, s.pendingBufferMeta = some p → p.rejectLength = none) :
    Meeting .write own c s (_write own c s) := by
  unfold _write
  simp only [hdropped, Bool.false_eq_true, if_false]
  cases hp : s.pendingBufferMeta with
  | none => exact .waits hp
  | some p =>
    simp only [hreject p hp, exceeds, Option.any_none, Bool.false_eq_true, if_false]
    split
    case isTrue hbad => exact .fails _ hp (.inl hbad)
    split
    case isTrue hbad => exact .fails _ hp (.inr hbad)
    split
    case isTrue hunit =>
      refine .completes hp ?_
      unfold ManagedBuffer.remaining
      omega
    rename_i hunit
    split
    case isTrue hfull => exact .displaces hp hfull fun _ => hunit
    case isFalse hpending =>
      split
      case isFalse hnothing => exact .completes hp (Nat.eq_zero_of_not_pos hnothing)
      case isTrue hown =>
        have hn : 0 < min (s.buffers own.buffer).remaining (s.buffers p.buffer).remaining :=
          Nat.lt_min.2 ⟨hown, Nat.pos_of_ne_zero hpending⟩
        cases ht : transfer own.buffer p.buffer
            (min (s.buffers own.buffer).remaining (s.buffers p.buffer).remaining) s with
        | error err s' => exact .tears hp hn rfl ht
        | ok _ s' => exact .moves hp hn rfl ht

theorem _read_meeting {own : Callback} {c : Int} {s : StreamState α} (hdropped : s.dropped = false)
    (hown : (s.buffers own.buffer).elemMeta.stringEncoding.isSome)
    (hpending : ∀ p, s.pendingBufferMeta = some p →
      (s.buffers p.buffer).elemMeta.stringEncoding.isSome) :
    Meeting .read own c s (_read own c none s) := by
  unfold _read
  simp only [hdropped, Bool.false_eq_true, if_false]
  cases hp : s.pendingBufferMeta with
  | none => exact .waits hp
  | some p =>
    have hshare : s.shareEncoding own.buffer p.buffer = .ok () s := by
      unfold shareEncoding
      rw [if_pos ⟨hown, hpending p hp⟩]
    simp only [hshare, exceeds, Option.any_none, Bool.false_eq_true, if_false]
    split
    case isTrue hbad => exact .fails _ hp (.inl hbad)
    split
    case isTrue hbad => exact .fails _ hp (.inr hbad)
    split
    case isFalse hfull =>
      exact .displaces hp (Nat.eq_zero_of_not_pos hfull) fun h => absurd h (by decide)
    case isTrue hrem =>
      split
      case isFalse hnothing => exact .completes hp (Nat.eq_zero_of_not_pos hnothing)
      case isTrue hrem' =>
        have hn : 0 < min (s.buffers p.buffer).remaining (s.buffers own.buffer).remaining :=
          Nat.lt_min.2 ⟨hrem, hrem'⟩
        cases ht : transfer p.buffer own.buffer
            (min (s.buffers p.buffer).remaining (s.buffers own.buffer).remaining) s with
        | error err s' => exact .tears hp hn (Nat.min_comm _ _) ht
        | ok _ s' => exact .moves hp hn (Nat.min_comm _ _) ht

end Jco.Stream

import Jco.Stream.HostBuffer
import Jco.Stream.HostReads

/-! # What the host's reads hold

What the reads hold together is what was placed, in the order of their calls. The copy of
a read is in the books of the stream while it is blocked.
-/

namespace Jco.Stream.HostReads

open Jco.Js Jco.Lib StreamState List Nat

variable {α : Type} {r : Reader α} {jobs : List Nat} {k j m p c a q : Nat}

/-! ## The copy of a read -/

section

variable [StreamValue α] {s s' : StreamState α} {o : Side → Option Nat} {args : CopyArgs α}

/-- The open copies while a read starts its own. -/
def startedCopies (s : StreamState α) (o : Side → Option Nat) : Side → Option Nat :=
  Function.update o .read (some s.copies)

/-- What a new copy of the read end moves is there in the pending buffer. -/
theorem processed_le_of_shifts (h : Sound s o) (ho : o .read = none)
    (hshifts : Shifts (startedCopies s o) (s.opened args) s') :
    (s'.buffers s.copies).processed = 0 ∨ ∃ p, s.pendingBufferMeta = some p ∧
      (s'.buffers s.copies).processed ≤ min args.count (s.buffers p.buffer).remaining := by
  have hnew := opened_self s args
  cases hshifts with
  | still htaken hplaced hbuffers =>
    refine .inl ((hbuffers s.copies).processed.trans ?_)
    rw [hnew]
  | moved hs hm hw hr hpending hroom hwhy htaken hplaced hbuffers =>
    rename_i s₁ s₂ w r values placed
    obtain ⟨p, hp⟩ := Option.ne_none_iff_exists'.1 hpending
    have hp' : s.pendingBufferMeta = some p := hp
    have hopen : startedCopies s o .read = some s.copies := Function.update_self ..
    obtain rfl : s.copies = r := Option.some.inj (hopen.symm.trans hr)
    -- the pending buffer is the one of the open write
    have hw' : o .write = some w := by
      unfold startedCopies at hw
      rwa [Function.update_of_ne (by decide)] at hw
    have hopen := (h.copies.pending p hp').1
    obtain rfl : p.buffer = w := by
      cases hside : p.onCopyFn.streamEnd with
      | read =>
        rw [hside, ho] at hopen
        cases hopen
      | write =>
        rw [hside, hw'] at hopen
        exact (Option.some.inj hopen).symm
    have hne : p.buffer ≠ s.copies := Nat.ne_of_lt (h.copies.fresh .write p.buffer hw')
    have hown : (s₁.buffers s.copies).remaining = args.count := by
      rw [(hs.buffers s.copies).remaining, hnew]
      rfl
    have hother : (s₁.buffers p.buffer).remaining = (s.buffers p.buffer).remaining := by
      rw [(hs.buffers p.buffer).remaining, opened_ne s args hne]
    have hzero : (s₁.buffers s.copies).processed = 0 := by
      rw [(hs.buffers s.copies).processed, hnew]
    obtain ⟨ptr, data, htarget, -⟩ := hm.target
    refine .inr ⟨p, hp', ?_⟩
    rw [hown, hother, min_comm] at hroom
    rw [hbuffers, htarget]
    rw [hzero, zero_add]
    refine le_trans ?_ hroom
    split
    · exact le_refl _
    · exact zero_le _

variable [DecidableEq α]

/-- How the copy of a read leaves the books. -/
inductive Copied (s : StreamState α) (o : Side → Option Nat) (args : CopyArgs α) :
    EStateM.Result JsError (StreamState α) (CopyAnswer × Option Nat) → Prop where
  | refused (err : JsError) {s' : StreamState α} (h : Stays .read o o s s') :
      Copied s o args (.error err s')
  | dropped {s' : StreamState α} (h : Stays .read o o s s') (hcopies : s.copies < s'.copies) :
      Copied s o args (.ok (.packed CopyResult.dropped.code, none) s')
  | fails (err : JsError) {s' : StreamState α}
      (h : Acts .read o (startedCopies s o) o s (s.opened args) s')
      (hplaced : s'.placed = s.placed) : Copied s o args (.error err s')
  | reports (result : CopyResult) (rejectedLength : Option Nat) {s' : StreamState α}
      (h : Acts .read o (startedCopies s o) o s (s.opened args) s')
      (hless : (s'.buffers s.copies).processed < 2 ^ 27) (hcopies : s.copies < s'.copies) :
      Copied s o args
        (.ok (.packed (packResult (s'.buffers s.copies).processed result), rejectedLength) s')
  | blocks (rejectedLength : Option Nat) {s' : StreamState α}
      (h : Acts .read o (startedCopies s o) (startedCopies s o) s (s.opened args) s') :
      Copied s o args (.ok (.blocked, rejectedLength) s')

theorem hostCopy_copied (h : Sound s o) (hidle : IdleEnds s o) (hthrow : NoThrow s .read)
    (ho : o .read = none) (hbuffer : args.buffer = s.copies) (hasync : args.isAsync = true)
    (hfits : ∀ p, s.pendingBufferMeta = some p →
      min args.count (s.buffers p.buffer).remaining < 2 ^ 27) :
    Copied s o args (Reader.hostCopy args { s with copies := s.copies + 1 }) := by
  unfold Reader.hostCopy
  rcases copyStart_cases h hbuffer rfl with
    ⟨err, elemMeta, hlike, hres⟩ | ⟨elemMeta, hlike, hdropped, hres⟩ |
    ⟨res', hdropped, hstate, hcount, hmet, hres⟩
  · rw [hres]
    exact .refused err (.of_end h hidle rfl rfl rfl rfl rfl rfl rfl (le_succ _) hlike id)
  · rw [hres]
    exact .dropped (dropped_stays h hidle hlike) (lt_succ_self _)
  rw [hres]
  have hopened : Sound (s.opened args) (startedCopies s o) := h.opened ho (nomatch ·)
  have hopen : startedCopies s o .read = some s.copies := Function.update_self ..
  have hnot : (s.opened args).NotPending .read := h.copies.notPending ho
  have hunreported : (s.opened args).Unreported .read := h.copies.unreported ho
  rcases hmet.leaves hopened hopen hnot hunreported hdropped with
    ⟨err, s', rfl, hm, hends, hpending, hplaced⟩ | ⟨s', rfl, hm, hattended⟩
  · refine .fails err (hm.acts_error ho hidle (fun p hp => ?_) ?_) hplaced
    · exact hnot p (hpending.symm.trans hp)
    · intro b result reclaim rejectedLength he
      rw [hends] at he
      exact hunreported b result reclaim rejectedLength he
  · unfold StreamState.started copyFinish
    dsimp only
    cases he : (s'.ends .read).pendingEventFn with
    | none =>
      have hno : s'.hasPendingEvent .read = false := by
        unfold StreamState.hasPendingEvent
        rw [he]
        rfl
      rw [hno, hasync]
      exact .blocks none (hm.acts_blocked ho hidle hattended CopyState.noConfusion)
    | some fn =>
      have hyes : s'.hasPendingEvent .read = true := by
        unfold StreamState.hasPendingEvent
        rw [he]
        rfl
      rw [hyes, if_pos rfl]
      cases fn with
      | throwFn err => exact absurd he (hm.kept.noThrow hthrow err)
      | processFn b result reclaim rejectedLength =>
        -- the event is about the new buffer
        obtain rfl : s.copies = b :=
          Option.some.inj (hopen.symm.trans (hm.sound.copies.event .read b _ _ _ he).1)
        have hless : (s'.buffers s.copies).processed < 2 ^ 27 := by
          rcases processed_le_of_shifts h ho hm.shifts with hzero | ⟨p, hp, hle⟩
          · rw [hzero]
            decide
          · exact lt_of_le_of_lt hle (hfits p hp)
        rw [copyEvent_processFn he, if_neg (by unfold MAX_LENGTH; omega)]
        have hcopies : s.copies < s'.copies :=
          lt_of_lt_of_eq (lt_succ_self _) hm.copies.symm
        exact .reports result rejectedLength (hm.acts_closed ho hidle he) hless hcopies

end

/-! ## The books -/

/-- The buffer of a read that may have elements. -/
def Read.held (read : Read α) : Option Nat :=
  match read.phase with
  | .copied (.ok _) | .blocked | .woken => some read.buffer
  | _ => none

/-- The values that a read has settled with. -/
def Read.given (read : Read α) : List α :=
  match read.phase with
  | .settled (.ok value) => value.getD []
  | .answered (.ok result) => result.value.getD []
  | _ => []

/-- The values of a read: what lies in its buffer, or what it has settled with. -/
def Read.contents (read : Read α) (s : StreamState α) : List α :=
  match read.held with
  | some b => (s.placedIn b).map (·.value)
  | none => read.given

theorem Read.contents_of_held {read : Read α} {b : Nat} (h : read.held = some b)
    (s : StreamState α) : read.contents s = (s.placedIn b).map (·.value) := by
  unfold Read.contents
  rw [h]

theorem Read.contents_of_not_held {read : Read α} (h : read.held = none) (s : StreamState α) :
    read.contents s = read.given := by
  unfold Read.contents
  rw [h]

section

variable [StreamValue α]

/-- What is kept about the stream: the host reads and guests write, and all that is taken
is placed. -/
structure StreamBooks (e : ElemMeta α) (s : StreamState α) (o : Side → Option Nat) : Prop where
  sound : Sound s o
  idle : IdleEnds s o
  free : ∀ side, o side = none → (s.ends side).isCopying = false
  noThrow : ∀ side, NoThrow s side
  like : s.elemMeta.Like e
  isNone : ∀ b, (s.buffers b).elemMeta.isNone = e.isNone
  guest : ∀ b, o .write = some b → (s.buffers b).memory.isSome = true
  host : ∀ b, o .read = some b → (s.buffers b).memory = none
  moved : s.taken.map (·.value) = s.placed.map (·.value)

/-- What is kept about a read; `o` is the buffer of the copy of the read end. -/
structure ReadBooks (e : ElemMeta α) (s : StreamState α) (o : Option Nat) (read : Read α) :
    Prop where
  known : ∀ b, read.held = some b → b < s.copies
  filled : ∀ b, read.held = some b → o = some b ∨ s.placedIn b ≠ [] → Filled s b
  reported : ∀ packedResult, read.phase = .copied (.ok packedResult) → ∃ result,
    packedResult = packResult (s.placedIn read.buffer).length result ∧
      (s.placedIn read.buffer).length < 2 ^ 27
  aligned : ∀ packedResult, read.phase = .copied packedResult → e.align32.isSome = true
  noClash : read.clashed = false

structure Books (e : ElemMeta α) (s : StreamState α) (reads : Nat → Read α) (calls : Nat)
    (o : Side → Option Nat) : Prop where
  stream : StreamBooks e s o
  contents : (List.range calls).flatMap (fun k => (reads k).contents s) = s.placed.map (·.value)
  each : ∀ k < calls, ReadBooks e s (o .read) (reads k)
  distinct : ∀ k < calls, ∀ k' < calls, ∀ b, (reads k).held = some b →
    (reads k').held = some b → k = k'

/-- What a call on the stream leaves: `c` are the copies that were open meanwhile. -/
structure Outcome (e : ElemMeta α) (s : StreamState α) (c o' : Side → Option Nat)
    (t s' : StreamState α) (values : List α) : Prop where
  books : StreamBooks e s' o'
  gains : Gains c t s' values
  prepared : Prepared s t
  nothing : c .read = none → values = []
  opens : ∀ b, o' .read = some b → c .read = some b
  guest : ∀ b, c .write = some b → (t.buffers b).memory.isSome = true
  copies : s.copies ≤ s'.copies

variable {e : ElemMeta α} {s s' t : StreamState α} {c o o' : Side → Option Nat} {side : Side}
  {values : List α} {read : Read α} {reads : Nat → Read α} {calls : Nat} {b : Nat}

theorem StreamBooks.outcome (h : StreamBooks e s o) (hacts : Acts side o c o' s t s')
    (hnone : ∀ b, (t.buffers b).elemMeta.isNone = e.isNone)
    (hread : ∀ b, c .read = some b → (t.buffers b).memory = none)
    (hwrite : ∀ b, c .write = some b → (t.buffers b).memory.isSome = true) :
    ∃ values, Outcome e s c o' t s' values := by
  obtain ⟨values, hgains, hnothing⟩ := hacts.shifts.gains hread hwrite fun b b' =>
    (hnone b).trans (hnone b').symm
  -- the copies that are open now were open meanwhile
  have hopens : ∀ side' b, o' side' = some b → c side' = some b := by
    intro side' b hb
    by_cases hside : side' = side
    · subst hside
      rcases hacts.own with hnone | hsame
      · rw [hnone] at hb
        cases hb
      · exact hsame ▸ hb
    · rw [Side.eq_other hside] at hb ⊢
      exact hacts.other.2.trans (hacts.other.1.symm.trans hb)
  have hbooks : StreamBooks e s' o' := by
    constructor
    case sound => exact hacts.sound
    case idle => exact hacts.idle
    case free =>
      intro side' ho
      by_cases hside : side' = side
      · subst hside
        exact hacts.free (h.free side') ho
      · rw [Side.eq_other hside] at ho ⊢
        rw [isCopying_of_copyState hacts.untouched.copyState]
        exact h.free side.other (hacts.other.1.symm.trans ho)
    case noThrow =>
      intro side'
      by_cases hside : side' = side
      · subst hside
        exact hacts.noThrow (h.noThrow side')
      · intro err he
        rw [Side.eq_other hside] at he
        rcases hacts.untouched.event with hsame | ⟨_, _, _, _, hevent⟩
        · exact h.noThrow side.other err (hsame.symm.trans he)
        · rw [hevent] at he
          cases he
    case like => exact hacts.like.trans h.like
    case isNone => exact fun b => (hgains.isNone b).trans (hnone b)
    case guest =>
      intro b hb
      rw [hgains.memory]
      exact hwrite b (hopens .write b hb)
    case host => exact fun b hb => (hgains.memory b).trans (hread b (hopens .read b hb))
    case moved =>
      rw [hgains.taken, hgains.placed, hacts.prepared.taken, hacts.prepared.placed, h.moved]
  exact ⟨values, hbooks, hgains, hacts.prepared, hnothing, hopens .read, hwrite, hacts.copies⟩

theorem Outcome.placedIn (h : Outcome e s c o' t s' values) (b : Nat) :
    (s'.placedIn b).map (·.value) =
      (s.placedIn b).map (·.value) ++ if c .read = some b then values else [] := by
  rw [h.gains.placedIn]
  unfold StreamState.placedIn
  rw [h.prepared.placed]

theorem Outcome.placed (h : Outcome e s c o' t s' values) :
    s'.placed.map (·.value) = s.placed.map (·.value) ++ values := by
  rw [h.gains.placed, h.prepared.placed]

/-- A buffer of the host from before. -/
theorem Outcome.filled (h : Outcome e s c o' t s' values) (hb : b < s.copies) (hfilled : Filled s b) :
    Filled s' b := by
  have hsame := h.prepared.buffers b hb
  have hplaced : t.placedIn b = s.placedIn b := by
    unfold StreamState.placedIn
    rw [h.prepared.placed]
  refine h.gains.filled b (fun hwrite => ?_) (hfilled.congr (hsame ▸ .refl _) hplaced)
  -- a guest's buffer has a memory
  have hguest := h.guest b hwrite
  rw [hsame, hfilled.memory] at hguest
  cases hguest

/-- A read that the call is not about. -/
theorem ReadBooks.outcome (h : ReadBooks e s (o .read) read) (hout : Outcome e s c o' t s' values)
    (hc : c .read = o .read ∨ c .read = some s.copies)
    (hnot : ∀ packedResult, read.phase = .copied (.ok packedResult) →
      c .read ≠ some read.buffer) : ReadBooks e s' (o' .read) read where
  known b hb := lt_of_lt_of_le (h.known b hb) hout.copies
  filled b hb hopen := by
    have hknown := h.known b hb
    have hold : c .read = some b → o .read = some b := by
      intro hcb
      rcases hc with hsame | hnew
      · exact hsame ▸ hcb
      · exact absurd (Option.some.inj (hcb.symm.trans hnew)) (Nat.ne_of_lt hknown)
    refine hout.filled hknown (h.filled b hb ?_)
    rcases hopen with hopen | hplaced
    · exact .inl (hold (hout.opens b hopen))
    · by_cases hcb : c .read = some b
      · exact .inl (hold hcb)
      · refine .inr fun hempty => hplaced ?_
        have hvalues := hout.placedIn b
        rw [hempty, if_neg hcb] at hvalues
        exact map_eq_nil_iff.1 hvalues
  reported packedResult hphase := by
    have hvalues := hout.placedIn read.buffer
    rw [if_neg (hnot packedResult hphase), append_nil] at hvalues
    have hlength := congrArg List.length hvalues
    rw [length_map, length_map] at hlength
    rw [hlength]
    exact h.reported packedResult hphase
  aligned := h.aligned
  noClash := h.noClash

omit [StreamValue α] in
theorem flatMap_range_append {n : Nat} {f f' : Nat → List α} (hk : k < n)
    (hself : f' k = f k ++ values) (hother : ∀ j < n, j ≠ k → f' j = f j)
    (hlater : ∀ j < n, k < j → f j = []) :
    (List.range n).flatMap f' = (List.range n).flatMap f ++ values := by
  induction n, hk using le_induction with
  | base =>
    have hbefore : (List.range k).flatMap f' = (List.range k).flatMap f :=
      flatMap_congr fun j hj => by
        have hlt := mem_range.1 hj
        exact hother j (Nat.lt_succ_of_lt hlt) (Nat.ne_of_lt hlt)
    rw [range_succ, flatMap_append, flatMap_append, hbefore, append_assoc]
    simp only [flatMap_singleton, hself]
  | succ n hle ih =>
    have hn : k < n := hle
    have hsame : f' n = f n := hother n (lt_succ_self n) (ne_of_gt hn)
    have hempty : f n = [] := hlater n (lt_succ_self n) hn
    rw [range_succ, flatMap_append, flatMap_append, flatMap_singleton,
      flatMap_singleton, hsame, hempty, append_nil, append_nil]
    exact ih (fun j hj => hother j (lt_succ_of_lt hj))
      fun j hj => hlater j (lt_succ_of_lt hj)

/-- Reads change without a change of what they hold. -/
theorem Books.pointwise (h : Books e s reads calls o) {reads' : Nat → Read α}
    (hheld : ∀ k < calls, ∀ b, (reads' k).held = some b → (reads k).held = some b)
    (hcontents : ∀ k < calls, (reads' k).contents s = (reads k).contents s)
    (heach : ∀ k < calls, ReadBooks e s (o .read) (reads' k)) : Books e s reads' calls o where
  stream := h.stream
  contents := by
    rw [← h.contents]
    exact flatMap_congr fun k hk => hcontents k (mem_range.1 hk)
  each := heach
  distinct k hk k' hk' b hb hb' := h.distinct k hk k' hk' b (hheld k hk b hb) (hheld k' hk' b hb')

/-- A read without a buffer. -/
theorem ReadBooks.of_not_held {ob : Option Nat} (hheld : read.held = none)
    (hphase : ∀ packedResult, read.phase ≠ .copied packedResult) (hclash : read.clashed = false) :
    ReadBooks e s ob read where
  known b hb := by
    rw [hheld] at hb
    cases hb
  filled b hb := by
    rw [hheld] at hb
    cases hb
  reported packedResult hcopied := absurd hcopied (hphase _)
  aligned packedResult hcopied := absurd hcopied (hphase _)
  noClash := hclash

/-- A read changes and holds what it has held. -/
theorem Books.update (h : Books e s reads calls o) (k : Nat)
    (hheld : ∀ b, read.held = some b → (reads k).held = some b)
    (hcontents : read.contents s = (reads k).contents s)
    (hread : ReadBooks e s (o .read) read) :
    Books e s (Function.update reads k read) calls o := by
  have hself : Function.update reads k read k = read := Function.update_self ..
  have hne : ∀ j, j ≠ k → Function.update reads k read j = reads j :=
    fun j hj => Function.update_of_ne hj ..
  refine h.pointwise (fun j hj b hb => ?_) (fun j hj => ?_) fun j hj => ?_
  · by_cases hjk : j = k
    · subst hjk
      rw [hself] at hb
      exact hheld b hb
    · rwa [hne j hjk] at hb
  · by_cases hjk : j = k
    · subst hjk
      rw [hself]
      exact hcontents
    · rw [hne j hjk]
  · by_cases hjk : j = k
    · subst hjk
      rw [hself]
      exact hread
    · rw [hne j hjk]
      exact h.each j hj

/-- A read whose copy has thrown. -/
theorem ReadBooks.failed {ob : Option Nat} {err : JsError}
    (hphase : read.phase = .copied (.error err)) (haligned : e.align32.isSome = true)
    (hclash : read.clashed = false) : ReadBooks e s ob read := by
  have hheld : read.held = none := by
    unfold Read.held
    rw [hphase]
  refine ⟨fun b hb => ?_, fun b hb => ?_, fun packedResult hcopied => ?_, fun _ _ => haligned,
    hclash⟩
  · rw [hheld] at hb
    cases hb
  · rw [hheld] at hb
    cases hb
  · cases hphase.symm.trans hcopied

/-- The buffer of a copy that starts is empty, and then holds what the copy moves. -/
theorem StreamBooks.opened (h : StreamBooks e s o) {args : CopyArgs α}
    (hacts : Acts .read o (startedCopies s o) o' s (s.opened args) s')
    (hmemory : args.memory = none) (hdata : args.data = []) :
    ∃ values, Outcome e s (startedCopies s o) o' (s.opened args) s' values ∧
      (s'.placedIn s.copies).map (·.value) = values ∧ Filled s' s.copies := by
  have hnew := opened_self s args
  have hopen : startedCopies s o .read = some s.copies := Function.update_self ..
  have hothers : startedCopies s o .write = o .write := Function.update_of_ne (by decide) ..
  have hne : ∀ b, o .write = some b → b ≠ s.copies :=
    fun b hb => Nat.ne_of_lt (h.sound.copies.fresh .write b hb)
  have hempty : (s.opened args).placedIn s.copies = [] :=
    (h.sound.accounts.of_fresh (le_refl _)).2
  have hnone : ∀ b, ((s.opened args).buffers b).elemMeta.isNone = e.isNone := by
    intro b
    by_cases hb : b = s.copies
    · subst hb
      rw [hnew]
      exact (ElemMeta.mk.inj h.like).2.1
    · rw [opened_ne s args hb]
      exact h.isNone b
  have hread : ∀ b, startedCopies s o .read = some b →
      ((s.opened args).buffers b).memory = none := by
    intro b hb
    cases hopen.symm.trans hb
    rw [hnew]
    exact hmemory
  have hwrite : ∀ b, startedCopies s o .write = some b →
      ((s.opened args).buffers b).memory.isSome = true := by
    intro b hb
    rw [hothers] at hb
    rw [opened_ne s args (hne b hb)]
    exact h.guest b hb
  -- nothing has been placed in the new buffer yet
  have hfilled : Filled (s.opened args) s.copies := by
    constructor
    case memory =>
      rw [hnew]
      exact hmemory
    case counted =>
      rw [hnew, hempty]
      rfl
    case fits =>
      rw [hnew]
      exact zero_le _
    case nulls =>
      intro _ x hx
      rw [hempty] at hx
      cases hx
    case data =>
      intro _
      rw [hnew, hempty]
      exact hdata
  obtain ⟨values, hout⟩ := h.outcome hacts hnone hread hwrite
  refine ⟨values, hout, ?_, hout.gains.filled _ (fun hb => ?_) hfilled⟩
  · rw [hout.gains.placedIn, hempty, hopen, if_pos rfl]
    rfl
  · rw [hothers] at hb
    exact hne _ hb rfl

/-- A new read. -/
theorem Books.add (h : Books e s reads calls o) (hheld : read.held = none)
    (hgiven : read.given = []) (hread : ReadBooks e s (o .read) read) :
    Books e s (Function.update reads calls read) (calls + 1) o := by
  have hold : ∀ k < calls, Function.update reads calls read k = reads k :=
    fun k hk => Function.update_of_ne (Nat.ne_of_lt hk) ..
  have hnew : Function.update reads calls read calls = read := Function.update_self ..
  have hsplit : ∀ {k b}, k < calls + 1 → (Function.update reads calls read k).held = some b →
      k < calls ∧ (reads k).held = some b := by
    intro k b hk hb
    rcases eq_or_lt_of_le (le_of_lt_succ hk) with rfl | hlt
    · rw [hnew, hheld] at hb
      cases hb
    · exact ⟨hlt, hold k hlt ▸ hb⟩
  constructor
  case stream => exact h.stream
  case contents =>
    rw [range_succ, flatMap_append, flatMap_singleton, hnew,
      Read.contents_of_not_held hheld, hgiven, append_nil, ← h.contents]
    exact flatMap_congr fun k hk => by rw [hold k (mem_range.1 hk)]
  case each =>
    intro k hk
    rcases eq_or_lt_of_le (le_of_lt_succ hk) with rfl | hlt
    · rw [hnew]
      exact hread
    · rw [hold k hlt]
      exact h.each k hlt
  case distinct =>
    intro k hk k' hk' b hb hb'
    obtain ⟨hlt, hb⟩ := hsplit hk hb
    obtain ⟨hlt', hb'⟩ := hsplit hk' hb'
    exact h.distinct k hlt k' hlt' b hb hb'

/-- A call of another party: what moves goes to the read that is copying. -/
theorem Books.outcome (h : Books e s reads calls o) (hout : Outcome e s c o' t s' values)
    (hc : c .read = o .read)
    (hopen : ∀ b, o .read = some b → ∃ a < calls, (reads a).held = some b ∧
      (∀ packedResult, (reads a).phase ≠ .copied packedResult) ∧
        ∀ j < calls, a < j → (reads j).contents s = []) : Books e s' reads calls o' := by
  -- whoever does not have the open buffer has the values from before
  have hsame : ∀ j, (∀ b, o .read = some b → (reads j).held ≠ some b) →
      (reads j).contents s' = (reads j).contents s := by
    intro j hnot
    cases hheld : (reads j).held with
    | none => rw [Read.contents_of_not_held hheld, Read.contents_of_not_held hheld]
    | some b =>
      rw [Read.contents_of_held hheld, Read.contents_of_held hheld, hout.placedIn b, hc,
        if_neg fun hb => hnot b hb hheld, append_nil]
  constructor
  case stream => exact hout.books
  case contents =>
    rw [hout.placed, ← h.contents]
    cases ho : o .read with
    | none =>
      rw [hout.nothing (hc.trans ho), append_nil]
      refine flatMap_congr fun j hj => hsame j fun b hb => ?_
      rw [ho] at hb
      cases hb
    | some b =>
      obtain ⟨a, ha, hheld, -, hlater⟩ := hopen b ho
      refine flatMap_range_append ha ?_ (fun j hj hne => hsame j fun b' hb' hheld' => ?_) hlater
      · rw [Read.contents_of_held hheld, Read.contents_of_held hheld, hout.placedIn b, hc,
          if_pos ho]
      · cases ho.symm.trans hb'
        exact hne (h.distinct j hj a ha b hheld' hheld)
  case each =>
    intro k hk
    refine (h.each k hk).outcome hout (.inl hc) fun packedResult hphase hb => ?_
    -- a read that is copying has no result yet
    obtain ⟨a, ha, hheld, hnot, -⟩ := hopen _ (hc.symm.trans hb)
    have hheld' : (reads k).held = some (reads k).buffer := by
      unfold Read.held
      rw [hphase]
    obtain rfl := h.distinct k hk a ha _ hheld' hheld
    exact hnot _ hphase
  case distinct => exact h.distinct

/-- A read starts its copy. -/
theorem Books.start (h : Books e s reads calls o) (hout : Outcome e s c o' t s' values)
    (ho : o .read = none) (hc : c .read = none ∨ c .read = some s.copies) (hk : k < calls)
    (hold : (reads k).contents s = []) (hlater : ∀ j < calls, k < j → (reads j).contents s = [])
    (hheld : ∀ b, read.held = some b → b = s.copies) (hcontents : read.contents s' = values)
    (hread : ReadBooks e s' (o' .read) read) :
    Books e s' (Function.update reads k read) calls o' := by
  have hself : Function.update reads k read k = read := Function.update_self ..
  have hother : ∀ j, j ≠ k → Function.update reads k read j = reads j :=
    fun j hj => Function.update_of_ne hj ..
  have hnew : ∀ j < calls, ∀ b, (reads j).held = some b → c .read ≠ some b := by
    intro j hj b hb hcb
    rcases hc with hnone | hsome
    · rw [hnone] at hcb
      cases hcb
    · cases hsome.symm.trans hcb
      exact lt_irrefl _ ((h.each j hj).known _ hb)
  constructor
  case stream => exact hout.books
  case contents =>
    rw [hout.placed, ← h.contents]
    refine flatMap_range_append hk ?_ (fun j hj hne => ?_) hlater
    · rw [hself, hcontents, hold]
      rfl
    · rw [hother j hne]
      cases hb : (reads j).held with
      | none => rw [Read.contents_of_not_held hb, Read.contents_of_not_held hb]
      | some b =>
        rw [Read.contents_of_held hb, Read.contents_of_held hb, hout.placedIn b,
          if_neg (hnew j hj b hb), append_nil]
  case each =>
    intro j hj
    by_cases hne : j = k
    · subst hne
      rw [hself]
      exact hread
    · rw [hother j hne]
      refine (h.each j hj).outcome hout ?_ fun packedResult hphase => hnew j hj _ ?_
      · rw [ho]
        exact hc
      · unfold Read.held
        rw [hphase]
  case distinct =>
    -- the buffer of the copy is new
    have hsplit : ∀ j < calls, j ≠ k → ∀ b, (reads j).held = some b → read.held ≠ some b := by
      intro j hj hne b hb hb'
      obtain rfl := hheld b hb'
      exact lt_irrefl _ ((h.each j hj).known _ hb)
    intro j hj j' hj' b hb hb'
    by_cases hjk : j = k
    · subst hjk
      by_cases hjk' : j' = j
      · exact hjk'.symm
      · rw [hself] at hb
        rw [hother j' hjk'] at hb'
        exact absurd hb (hsplit j' hj' hjk' b hb')
    · rw [hother j hjk] at hb
      by_cases hjk' : j' = k
      · subst hjk'
        rw [hself] at hb'
        exact absurd hb' (hsplit j hj hjk b hb)
      · rw [hother j' hjk'] at hb'
        exact h.distinct j hj j' hj' b hb hb'

end

end Jco.Stream.HostReads

import Jco.Stream.Conservation
import Jco.Stream.Injection

/-! # Host-fed streams deliver their source

Each call of the guest, each timer and each promise keeps the accounts of the
source's values, as long as it meets `Safe`. So does a run.
-/

namespace Jco.Stream

open Jco.Js Jco.Lib StreamState HostFed List Option Nat

variable {α : Type} [StreamValue α] {e : ElemMeta α} {s : HostFed α} {o : Option Nat}
  {l held : List α} {h k : Nat}

/-! ## The accounts under the steps -/

variable {stream : StreamState α}

/-- The stream changes, but not in what has been placed. -/
theorem Accounted.withStream (hacc : Accounted e s o l held)
    (hinv : StreamInv e stream o l) (hplaced : stream.placed = s.stream.placed)
    (hdropped : stream.dropped = s.stream.dropped) (hcopies : s.stream.copies ≤ stream.copies) :
    Accounted e { s with stream } o l held := by
  have hvaluesIn : stream.valuesIn = s.stream.valuesIn := by
    funext b
    unfold valuesIn
    rw [hplaced]
  constructor
  case stream => exact hinv
  case kept =>
    rw [hplaced]
    exact hacc.kept
  case reported =>
    rw [hplaced, hvaluesIn]
    exact hacc.reported
  case unreported =>
    intro r hr
    obtain ⟨hlt, hne⟩ := hacc.unreported r hr
    exact ⟨lt_of_lt_of_le hlt hcopies, hne⟩
  case bounded => exact hacc.bounded
  case exhausted => exact hacc.exhausted
  case ended =>
    rw [hdropped, hplaced]
    exact hacc.ended

/-- The event of the open read is taken, and its result is reported. -/
theorem Accounted.takesEvent (hacc : Accounted e s o l held)
    (hsome : s.stream.hasPendingEvent .read = true) :
    ∃ event stream, s.stream.getPendingEvent .read = .ok (some event) stream ∧
      event.code = Side.read.eventCode ∧ event.payload0 = (stream.ends .read).waitableIdx ∧
      (stream.ends .read).isCopying = false ∧ stream.ends .write = s.stream.ends .write ∧
      Accounted e { s with stream, reports := s.reports ++ s.report event.payload1 } none l held := by
  obtain ⟨b, event, stream, rfl, hget, ⟨result, reclaim, rejectedLength, hfn⟩, hcode, hpayload,
    hprogress, hcopying, hinv, hplaced, hdropped, hcopies, -, hwrite⟩ :=
    hacc.stream.getReadEvent hsome
  refine ⟨event, stream, hget, hcode, hpayload, hcopying, hwrite, ?_⟩
  have hopen : ReadOpen e s.stream b := by
    cases hacc.stream.read with
    | opened hopen => exact hopen
  -- the progress covers all that lies in the buffer
  have hreport : s.report event.payload1 = [⟨b, (s.stream.buffers b).capacity,
      (s.stream.buffers b).processed, s.stream.valuesIn b⟩] := by
    unfold report
    rw [hfn]
    dsimp only
    rw [hprogress, take_of_length_le (le_of_eq hopen.valuesIn)]
  rw [hreport]
  constructor
  case stream => exact hinv
  case kept =>
    rw [hplaced]
    exact hacc.kept
  case reported =>
    rw [hplaced, hacc.reported]
    simp [delivered]
  case unreported =>
    intro r hr
    refine ⟨?_, fun heq => by cases heq⟩
    rw [hcopies]
    rcases mem_append.1 hr with hr | hr
    · exact (hacc.unreported r hr).1
    · rw [mem_singleton.1 hr]
      exact hopen.fresh
  case bounded =>
    intro r hr
    rcases mem_append.1 hr with hr | hr
    · exact hacc.bounded r hr
    · rw [mem_singleton.1 hr]
      exact ⟨hopen.valuesIn, hopen.processed_le⟩
  case exhausted => exact hacc.exhausted
  case ended =>
    rw [hdropped, hplaced]
    exact hacc.ended

/-! ## Steps of the injections -/

variable {s' : HostFed α}

/-- The invariant after a part of an injection. -/
theorem HostInv.segment (hinv : HostInv e s o l h) (hk : k < s.injected)
    (hawait : (s.injections k).await ≠ .returned true) (hseg : Segment e s s' k o) :
    ∃ o l h, HostInv e s' o l h := by
  obtain ⟨l', h', hacc, honly⟩ := hseg.inv
  refine ⟨o, l', h', hacc, honly, ?_, ?_, ?_, ?_⟩
  · intro j hj
    have hne : j ≠ k := by
      rintro rfl
      rw [hseg.injected] at hj
      exact absurd hk (not_lt.2 hj)
    rw [hseg.other j hne]
    exact hinv.fresh j (hseg.injected ▸ hj)
  · intro j hj
    by_cases hne : j = k
    · rw [hne]
      exact hseg.own
    · rw [hseg.other j hne]
      exact hinv.ok j (hseg.injected ▸ hj)
  · intro hevent
    obtain ⟨j, hj, hcaller, hreturned⟩ := hinv.call.met (hseg.event hevent)
    have hne : j ≠ k := by
      rintro rfl
      exact hawait hreturned
    refine ⟨j, hseg.injected ▸ hj, ?_⟩
    rw [hseg.other j hne]
    exact ⟨hcaller, hreturned⟩
  · intro hidle
    rw [hseg.copyState] at hidle
    refine (hinv.call.idle hidle).imp_right ?_
    rintro ⟨hevent, j, hj, hcaller⟩
    refine ⟨hseg.notified hevent, j, hseg.injected ▸ hj, ?_⟩
    by_cases hne : j = k
    · rw [hne, hseg.caller, ← hne]
      exact hcaller
    · rw [hseg.other j hne]
      exact hcaller

variable [DecidableEq α]

variable {answer : StreamAnswer}

theorem HostInv.resume (hinv : HostInv e s o l h)
    (hsafe : Safe (.resume k, answer) s) (hstep : s.resume k = some s') :
    ∃ o l h, HostInv e s' o l h := by
  unfold HostFed.resume at hstep
  by_cases hk : s.injected ≤ k
  · rw [if_pos hk] at hstep
    cases hstep
  rw [if_neg hk] at hstep
  have hlt : k < s.injected := Nat.lt_of_not_le hk
  have hok := hinv.ok k hlt
  unfold Injection.Ok at hok
  cases hawait : (s.injections k).await with
  | source zero answered =>
    cases answered with
    | none =>
      rw [hawait] at hstep
      cases hstep
    | some appended =>
      rw [hawait] at hstep
      have hne : (s.injections k).await ≠ .returned true := by
        rw [hawait]
        exact Await.noConfusion
      cases hstep
      cases zero with
      | true =>
        rw [if_pos rfl]
        exact hinv.segment hlt hne (hinv.resumeZero hlt hsafe hawait)
      | false =>
        rw [if_neg Bool.false_ne_true]
        exact hinv.segment hlt hne (hinv.resumeLoop hlt hsafe hawait)
  | write err =>
    rw [hawait] at hstep hok
    have hne : (s.injections k).await ≠ .returned true := by
      rw [hawait]
      exact Await.noConfusion
    cases err with
    | some err => exact hok.elim
    | none =>
      -- the write end is made idle again
      cases hstep
      obtain ⟨stream, hreset, hstream, hnone, hplaced, hdropped, hcopies, -, hread⟩ :=
        hinv.accounted.stream.resetWriteEndToIdle
      obtain ⟨held, hacc, helse, -⟩ := hinv.split k
      rw [hok, nil_append] at hacc
      rw [hreset]
      refine hinv.segment hlt hne (Segment.leaves
        (hacc.withStream hstream hplaced hdropped hcopies) helse (.inr ⟨false, rfl⟩) rfl
        (fun _ _ => rfl) rfl ?_ (fun hevent => absurd hnone hevent) ?_)
      · rw [hread]
      · show _ → (stream.ends .read).pendingEventFn ≠ none
        rw [hread]
        exact id
  | returned resets =>
    rw [hawait] at hstep
    cases hstep
  | failed err =>
    rw [hawait] at hok
    exact hok.elim

/-! ## Steps of the source -/

omit [DecidableEq α] in
/-- The elements of a result go to the end of the queue. -/
theorem contents_appendReadValue (q : PendingValueQueue α) {e : ElemMeta α} {r : SourceResult α}
    (hr : r.value = .undefined → r.done = true ∨ e.isNumeric = true) :
    (q.appendReadValue e r.value).2.contents = q.contents ++ r.elements e := by
  rcases r with ⟨value, done⟩
  unfold PendingValueQueue.appendReadValue SourceResult.elements
  cases value with
  | undefined =>
    show q.contents = q.contents ++ if done = true ∨ e.isNumeric = true then [] else _
    rw [if_pos (hr rfl), append_nil]
  | value v => exact (PendingValueQueue.push_eq _ _).2
  | array v elements | arrayBuffer v elements =>
    dsimp only
    by_cases hnumeric : e.isNumeric = true
    · rw [if_pos hnumeric, if_pos hnumeric]
      exact (PendingValueQueue.push_eq _ _).2
    · rw [if_neg hnumeric, if_neg hnumeric]
      exact (PendingValueQueue.push_eq _ _).2

theorem HostInv.resolve {r : SourceResult α} (hinv : HostInv e s o l h)
    (hsafe : Safe (.resolve r, answer) s) (hstep : s.resolve r = some s') :
    HostInv e s' o l h := by
  unfold HostFed.resolve at hstep
  by_cases hpromise : s.sourceReadPromise ≠ some none
  · rw [if_pos hpromise] at hstep
    cases hstep
  rw [if_neg hpromise] at hstep
  cases hstep
  -- a source that has ended is not asked again
  have hdone : ¬s.done = true := fun hd => hpromise (hinv.accounted.exhausted hd)
  have hlike : s.stream.elemMeta.Like e := hinv.accounted.stream.like
  have hcontents := contents_appendReadValue s.queue hsafe
  have hacc := hinv.accounted
  refine ⟨?_, hinv.holder, hinv.fresh, hinv.ok, hinv.call.met, hinv.call.idle⟩
  constructor
  case stream => exact hacc.stream
  case kept =>
    show _ ++ _ ++ (_ ++ (s.queue.appendReadValue s.stream.elemMeta r.value).2.contents).map _ =
      s.fromSource ++ (r.elements s.stream.elemMeta).map s.stream.elemMeta.asElement
    rw [hcontents, hlike.asElement, ← hacc.kept]
    simp only [map_append, append_assoc]
  case reported => exact hacc.reported
  case unreported => exact hacc.unreported
  case bounded => exact hacc.bounded
  case exhausted =>
    intro _ heq
    cases heq
  case ended => exact fun hd => absurd (hacc.ended hd).1 hdone

omit [DecidableEq α] in
theorem HostInv.settle (hinv : HostInv e s o l h) (hstep : s.settle = some s') :
    HostInv e s' o l h := by
  unfold HostFed.settle at hstep
  rcases hpromise : s.sourceReadPromise with _ | _ | appended
  · rw [hpromise] at hstep
    cases hstep
  · rw [hpromise] at hstep
    cases hstep
  rw [hpromise] at hstep
  have heq := Option.some.inj hstep
  have hframe : s'.stream = s.stream ∧ s'.queue = s.queue ∧ s'.done = s.done ∧
      s'.injected = s.injected ∧ s'.sourceReadPromise = none ∧ s'.fromSource = s.fromSource ∧
      s'.reports = s.reports := by
    rw [← heq]
    exact ⟨rfl, rfl, rfl, rfl, rfl, rfl, rfl⟩
  obtain ⟨hstream, hqueue, hdone, hinjected, hpromise', hsource, hreports⟩ := hframe
  -- an injection that awaited the source has its answer
  have hinj : ∀ j, s'.injections j = s.injections j ∨ ∃ zero,
      (s.injections j).await = .source zero none ∧
        s'.injections j = { s.injections j with await := .source zero (some appended) } := by
    intro j
    rw [← heq]
    dsimp only
    split
    case h_1 zero hawait => exact .inr ⟨zero, hawait, rfl⟩
    case h_2 => exact .inl rfl
  have hsame : ∀ j, (s'.injections j).values = (s.injections j).values ∧
      (s'.injections j).caller = (s.injections j).caller := by
    intro j
    rcases hinj j with hj | ⟨zero, -, hj⟩
    · rw [hj]
      exact ⟨rfl, rfl⟩
    · rw [hj]
      exact ⟨rfl, rfl⟩
  have hacc : Accounted e { s with sourceReadPromise := none } o l (s.injections h).values := by
    constructor
    case stream => exact hinv.accounted.stream
    case kept => exact hinv.accounted.kept
    case reported => exact hinv.accounted.reported
    case unreported => exact hinv.accounted.unreported
    case bounded => exact hinv.accounted.bounded
    case exhausted =>
      intro _ hnone
      cases hnone
    case ended => exact hinv.accounted.ended
  constructor
  case accounted =>
    rw [(hsame h).1]
    exact hacc.congr hstream hqueue hdone hpromise' hsource hreports
  case holder =>
    intro j hj
    rw [(hsame j).1]
    exact hinv.holder j hj
  case fresh =>
    intro j hj
    rw [(hsame j).1]
    exact hinv.fresh j (hinjected ▸ hj)
  case ok =>
    intro j hj
    have hok := hinv.ok j (hinjected ▸ hj)
    rcases hinj j with hj | ⟨zero, hawait, hj⟩
    · rw [hj]
      exact hok
    · rw [hj]
      unfold Injection.Ok at hok ⊢
      rw [hawait] at hok
      cases zero <;> exact hok
  case call =>
    constructor
    · intro hevent
      rw [hstream] at hevent
      obtain ⟨j, hj, hcaller, hawait⟩ := hinv.call.met hevent
      refine ⟨j, hinjected ▸ hj, (hsame j).2.trans hcaller, ?_⟩
      rcases hinj j with heq | ⟨zero, hwaits, -⟩
      · rw [heq]
        exact hawait
      · rw [hawait] at hwaits
        cases hwaits
    · rw [hstream]
      intro hidle
      refine (hinv.call.idle hidle).imp_right ?_
      rintro ⟨hevent, j, hj, hcaller⟩
      exact ⟨hevent, j, hinjected ▸ hj, (hsame j).2.trans hcaller⟩

/-! ## Steps of the guest -/

omit [DecidableEq α] in
/-- The ends change, but not in what the accounts or the calls are about. -/
theorem HostInv.withStream (hinv : HostInv e s o l h)
    (hstream : StreamInv e stream o l) (hplaced : stream.placed = s.stream.placed)
    (hdropped : stream.dropped = s.stream.dropped) (hcopies : s.stream.copies ≤ stream.copies)
    (hwrite : (stream.ends .write).pendingEventFn ≠ none →
      (s.stream.ends .write).pendingEventFn ≠ none)
    (hstate : (stream.ends .read).copyState = .idle → (s.stream.ends .read).copyState = .idle)
    (hread : (s.stream.ends .read).pendingEventFn ≠ none →
      (stream.ends .read).pendingEventFn ≠ none) :
    HostInv e { s with stream } o l h := by
  refine ⟨hinv.accounted.withStream hstream hplaced hdropped hcopies, hinv.holder, hinv.fresh,
    hinv.ok, ?_, ?_⟩
  · exact fun hevent => hinv.call.met (hwrite hevent)
  · intro hidle
    exact (hinv.call.idle (hstate hidle)).imp_right fun ⟨hevent, hcaller⟩ => ⟨hread hevent, hcaller⟩

variable {ctx : StreamCtx}

/-- A `stream.read` that has got as far as its injection. -/
theorem HostInv.readStarted {ptr count : Int}
    {moved l' : List α} (hinv : HostInv e s none l h) (hsplit : moved ++ l' = l)
    (hdropped : s.stream.dropped = false)
    (hsafe : Safe (.read ctx ptr count, answer) s)
    (hreads : Reads e s.stream stream ctx ptr count moved l') {t : HostFed α}
    (ht : t = ({ s with stream, injected := s.injected + 1 } : HostFed α).setInjection s.injected
      ⟨.awaiting, .returned false, clampCount count, []⟩) :
    Accounted e t (some s.stream.copies) l' (s.injections h).values ∧
      Segment e t (t.inject s.injected) s.injected (some s.stream.copies) := by
  obtain ⟨-, -, -, hready⟩ := hsafe
  have hinj : t.injections s.injected = ⟨.awaiting, .returned false, clampCount count, []⟩ := by
    rw [ht, setInjection_self]
  have hothers : ∀ j, j ≠ s.injected → t.injections j = s.injections j := by
    intro j hj
    rw [ht, setInjection_ne _ _ hj]
  have hframe : t.stream = stream ∧ t.queue = s.queue ∧ t.done = s.done := by
    rw [ht]
    exact ⟨rfl, rfl, rfl⟩
  obtain ⟨hstream, hqueue, hdone⟩ := hframe
  have hacc : Accounted e t (some s.stream.copies) l' (s.injections h).values := by
    have hvalues : stream.placed.map Entry.value =
        s.delivered ++ stream.valuesIn s.stream.copies := by
      rw [hreads.placed, hreads.valuesIn, hinv.accounted.reported]
      simp
    have hopened : Accounted e { s with stream } (some s.stream.copies) l'
        (s.injections h).values := by
      constructor
      case stream => exact hreads.inv
      case kept =>
        rw [hreads.placed, append_assoc _ moved, hsplit]
        exact hinv.accounted.kept
      case reported => exact hvalues
      case unreported =>
        intro r hr
        have hlt := (hinv.accounted.unreported r hr).1
        refine ⟨lt_trans hlt ?_, fun heq => ne_of_gt hlt (Option.some.inj heq)⟩
        cases hreads.inv.read with
        | opened hopen => exact hopen.fresh
      case bounded => exact hinv.accounted.bounded
      case exhausted => exact hinv.accounted.exhausted
      case ended =>
        intro hd
        have hd' : stream.dropped = true := hd
        rw [hreads.dropped, hdropped] at hd'
        cases hd'
    rw [ht]
    exact hopened.congr rfl rfl rfl rfl rfl rfl
  refine ⟨hacc, Segment.inject hacc ?_ (by rw [hinj]) ?_ ?_⟩
  · -- the new injection holds nothing
    by_cases hh : h = s.injected
    · rw [hh, hinv.fresh _ (le_refl _)]
      refine ⟨s.injected, fun _ => rfl, fun hne => absurd rfl hne, ?_⟩
      intro j _ hj
      rw [hothers j hj]
      exact hinv.holder j (hh ▸ hj)
    · refine ⟨h, fun heq => absurd heq hh, ?_, ?_⟩
      · intro _
        rw [hothers h hh]
      · intro j hj hj'
        rw [hothers j hj']
        exact hinv.holder j hj
  · rw [hinj]
    exact min_le_right _ _
  · rw [hstream, hqueue, hdone, hinj]
    intro hnone
    obtain ⟨-, hpending, -, hwaits, hbuffer, hmemories⟩ := hreads.waits hnone
    refine ⟨_, hwaits, rfl, ?_, ?_⟩
    · rw [hbuffer]
      rfl
    · intro hsome
      have hsome' : 0 < s.queue.length ∨ s.done = true := by
        refine hsome.imp_left fun hne => pos_of_ne_zero fun hzero => hne ?_
        exact PendingValueQueue.contents_eq_nil.2 hzero
      obtain ⟨honly, haccepts⟩ := hready hpending hsome'
      have hheld : (s.injections h).values = [] := by
        by_cases hh : h = s.injected
        · rw [hh]
          exact hinv.fresh _ (le_refl _)
        · exact honly h hh
      refine ⟨hheld, ?_, ?_⟩
      · intro j hj
        rw [hothers j hj]
        exact honly j hj
      · have hmemory : stream.memoryOf (readBuffer s.stream.elemMeta ctx ptr count) =
            s.stream.memories ctx.memory := by
          show stream.memories ctx.memory = _
          rw [hmemories]
        rw [hbuffer, hmemory]
        exact haccepts

/-- An injection that finds an event leaves the rest to its read. -/
theorem inject_met {t : HostFed α} (hsome : (t.stream.ends .read).pendingEventFn ≠ none) :
    t.inject k = t.leave k (.returned true) := by
  have hevent : t.stream.hasPendingEvent .read = true := by
    exact isSome_iff_ne_none.2 hsome
  unfold inject
  rw [if_pos hevent]

theorem HostInv.read {ptr count : Int} {answer answer' : StreamAnswer}
    (hinv : HostInv e s o l h) (hsafe : Safe (.read ctx ptr count, answer) s)
    (hstep : s.read ctx ptr count = (answer', s')) : ∃ o l h, HostInv e s' o l h := by
  have hsafe' := hsafe
  obtain ⟨hcallers, hfits, hroom, -⟩ := hsafe
  rw [hinv.accounted.stream.hostHeld] at hroom
  -- no read is on its way
  have hidle : (s.stream.ends .read).copyState = .idle → o = none := by
    intro hidle
    rcases hinv.call.idle hidle with ho | ⟨-, k, hk, hcaller⟩
    · exact ho
    · exact absurd hcaller (hcallers k hk).2
  have hwrite : (s.stream.ends .write).pendingEventFn = none := by
    by_contra hne
    obtain ⟨k, hk, hcaller, -⟩ := hinv.call.met hne
    exact (hcallers k hk).2 hcaller
  have hcalled : HostInv e
      { s with stream := { s.stream with copies := s.stream.copies + 1 } } o l h :=
    hinv.withStream (hinv.accounted.stream.congr hinv.accounted.stream.like id rfl rfl rfl rfl
      (fun _ _ => rfl) (le_succ _) rfl rfl) rfl rfl (le_succ _) id id id
  unfold HostFed.read at hstep
  dsimp only at hstep
  split at hstep
  case isTrue =>
    obtain ⟨-, rfl⟩ := hstep
    exact ⟨o, l, h, hcalled⟩
  split at hstep
  case isTrue =>
    obtain ⟨-, rfl⟩ := hstep
    exact ⟨o, l, h, hcalled⟩
  rcases hinv.accounted.stream.copyStartRead hidle hwrite hfits hroom rfl with
    ⟨err, stream, hcopy, hstream, hplaced, hends, hdropped, hcopies⟩ |
    ⟨answered, stream, hcopy, hstream, hplaced, hstate, hends, hdropped, hcopies⟩ |
    ⟨stream, moved, l', hcopy, rfl, hsplit, hdropped, hstate, hreads⟩
  · rw [hcopy] at hstep
    obtain ⟨-, rfl⟩ := hstep
    refine ⟨o, l, h, hinv.withStream hstream hplaced hdropped hcopies ?_ ?_ ?_⟩ <;>
      exact hends ▸ id
  · rw [hcopy] at hstep
    obtain ⟨-, rfl⟩ := hstep
    refine ⟨o, l, h, hinv.accounted.withStream hstream hplaced hdropped hcopies, hinv.holder,
      hinv.fresh, hinv.ok, ?_, ?_⟩
    · intro hevent
      have hevent' : (stream.ends .write).pendingEventFn ≠ none := hevent
      rw [hends] at hevent'
      exact hinv.call.met hevent'
    · intro hidle'
      have hdone : (stream.ends .read).copyState = .idle := hidle'
      rw [hstate] at hdone
      cases hdone
  · rw [hcopy] at hstep
    obtain ⟨t, ht⟩ : ∃ t, t = ({ s with stream, injected := s.injected + 1 } :
        HostFed α).setInjection s.injected ⟨.awaiting, .returned false, clampCount count, []⟩ :=
      ⟨_, rfl⟩
    obtain ⟨hacc, hseg⟩ := hinv.readStarted hsplit hdropped hsafe' hreads ht
    obtain ⟨u, hu⟩ : ∃ u, u = t.inject s.injected := ⟨_, rfl⟩
    rw [← hu] at hseg
    have hframe : t.stream = stream ∧ t.injected = s.injected + 1 ∧
        (t.injections s.injected).caller = .awaiting := by
      rw [ht, HostFed.setInjection_self]
      exact ⟨rfl, rfl, rfl⟩
    obtain ⟨htstream, htinjected, hcaller⟩ := hframe
    have hothers : ∀ j, j ≠ s.injected → u.injections j = s.injections j := by
      intro j hj
      rw [hseg.other j hj, ht, HostFed.setInjection_ne _ _ hj]
    have hinjected : u.injected = s.injected + 1 := hseg.injected.trans htinjected
    have hown : s.injected < u.injected := hinjected ▸ lt_succ_self _
    -- what holds of the other injections, and of the new one
    have hfresh : ∀ j, u.injected ≤ j → (u.injections j).values = [] := by
      intro j hj
      have hlt : s.injected < j := lt_of_lt_of_le hown hj
      rw [hothers j (ne_of_gt hlt)]
      exact hinv.fresh j (le_of_lt hlt)
    have hok : ∀ j, j < u.injected → (u.injections j).Ok := by
      intro j hj
      by_cases hne : j = s.injected
      · rw [hne]
        exact hseg.own
      · rw [hothers j hne]
        exact hinv.ok j (by omega)
    obtain ⟨l'', h', hacc', honly⟩ := hseg.inv
    obtain ⟨copyState, hcopyState⟩ : ∃ copyState : CopyState,
        copyState = if ctx.isAsync then .asyncCopying else .syncCopying := ⟨_, rfl⟩
    obtain ⟨caller, hcaller''⟩ : ∃ caller : Caller,
        caller = if ctx.isAsync then .detached else .suspended := ⟨_, rfl⟩
    have hstep' : (if u.stream.hasPendingEvent .read = true then (StreamAnswer.copy .suspended, u)
        else (.copy (if ctx.isAsync then .blocked else .suspended),
          ({ u with stream := u.stream.setCopyState .read copyState } : HostFed α).setInjection
            s.injected { u.injections s.injected with caller })) = (answer', s') := by
      rw [hu, ht, hcopyState, hcaller'']
      exact hstep
    by_cases hevent : u.stream.hasPendingEvent .read = true
    · rw [if_pos hevent] at hstep'
      rw [← (Prod.mk.inj hstep').2]
      have hcaller' : (u.injections s.injected).caller = .awaiting := hseg.caller.trans hcaller
      refine ⟨_, l'', h', hacc', honly, hfresh, hok, ?_, ?_⟩
      · -- the read has met a write, so that it has had its event from the start
        intro hmet
        have hmet' := hseg.event hmet
        rw [htstream] at hmet'
        have hsome : (t.stream.ends .read).pendingEventFn ≠ none := by
          rw [htstream]
          exact fun hnone => hmet' (hreads.waits hnone).2.2.1
        refine ⟨s.injected, hown, hcaller', ?_⟩
        rw [hu, inject_met hsome, HostFed.leave_self]
      · intro _
        refine .inr ⟨?_, s.injected, hown, hcaller'⟩
        exact isSome_iff_ne_none.1 hevent
    · rw [if_neg hevent] at hstep'
      obtain ⟨-, rfl⟩ := hstep'
      have hnone : (u.stream.ends .write).pendingEventFn = none := by
        by_contra hmet
        have hmet' := hseg.event hmet
        rw [htstream] at hmet'
        have hread : (t.stream.ends .read).pendingEventFn ≠ none := by
          rw [htstream]
          exact fun hnone => hmet' (hreads.waits hnone).2.2.1
        exact hseg.notified hread
          (hasPendingEvent_eq_false.1 (Bool.eq_false_of_not_eq_true hevent))
      have hvalues : ∀ j, ((({ u with stream := u.stream.setCopyState .read copyState } :
          HostFed α).setInjection s.injected
            { u.injections s.injected with caller }).injections j).values =
          (u.injections j).values := by
        intro j
        by_cases hj : j = s.injected
        · rw [hj, HostFed.setInjection_self]
        · rw [HostFed.setInjection_ne _ _ hj]
      have hends : (u.stream.setCopyState .read copyState).ends .write = u.stream.ends .write := by
        simp [setCopyState, setEnd]
      have hstream : StreamInv e (u.stream.setCopyState .read copyState) (some s.stream.copies)
          l'' :=
        hacc'.stream.congr hacc'.stream.like id rfl
          (by simp [setCopyState, setEnd]) (by rw [hends]) (by rw [hends])
          (fun _ _ => rfl) (le_refl _) rfl rfl
      refine ⟨some s.stream.copies, l'', h', ?_, ?_, ?_, ?_, ?_, ?_⟩
      · rw [hvalues]
        exact (hacc'.withStream hstream rfl rfl (le_refl _)).congr rfl rfl rfl rfl rfl rfl
      · intro j hj
        rw [hvalues]
        exact honly j hj
      · intro j hj
        rw [hvalues]
        exact hfresh j hj
      · intro j hj
        by_cases hne : j = s.injected
        · rw [hne, HostFed.setInjection_self]
          exact hseg.own
        · rw [HostFed.setInjection_ne _ _ hne]
          exact hok j hj
      · intro hmet
        have hmet' : ((u.stream.setCopyState .read copyState).ends .write).pendingEventFn ≠ none :=
          hmet
        rw [hends] at hmet'
        exact absurd hnone hmet'
      · intro hidle'
        have hcopying : ((u.stream.setCopyState .read copyState).ends .read).copyState = .idle :=
          hidle'
        have hstate' : copyState ≠ .idle := by
          rw [hcopyState]
          split <;> exact CopyState.noConfusion
        refine absurd ?_ hstate'
        simpa [setCopyState, setEnd] using hcopying

omit [DecidableEq α] in
/-- The event of the open read is taken by a call that reports it. -/
theorem HostInv.reportsEvent {event : Event} (hinv : HostInv e s o l h)
    (hget : s.stream.getPendingEvent .read = .ok (some event) stream) :
    HostInv e { s with stream, reports := s.reports ++ s.report event.payload1 } none l h := by
  have hsome : s.stream.hasPendingEvent .read = true := by
    by_contra hnone
    rw [getPendingEvent_of_none (hasPendingEvent_eq_false.1 (Bool.eq_false_of_not_eq_true hnone))]
      at hget
    cases hget
  obtain ⟨event', stream', hget', -, -, -, hwrite, hacc⟩ := hinv.accounted.takesEvent hsome
  cases hget.symm.trans hget'
  refine ⟨hacc, hinv.holder, hinv.fresh, hinv.ok, ?_, fun _ => .inl rfl⟩
  intro hevent
  have hevent' : (stream.ends .write).pendingEventFn ≠ none := hevent
  rw [hwrite] at hevent'
  exact hinv.call.met hevent'

omit [DecidableEq α] in
theorem HostInv.deliver (hinv : HostInv e s o l h)
    (hstep : s.deliver = (answer, s')) : ∃ o l h, HostInv e s' o l h := by
  unfold HostFed.deliver at hstep
  by_cases hsome : s.stream.hasPendingEvent .read = true
  · obtain ⟨event, stream, hget, -⟩ := hinv.accounted.takesEvent hsome
    rw [hget] at hstep
    obtain ⟨-, rfl⟩ := hstep
    exact ⟨none, l, h, hinv.reportsEvent hget⟩
  · rw [getPendingEvent_of_none (hasPendingEvent_eq_false.1 (Bool.eq_false_of_not_eq_true hsome))]
      at hstep
    obtain ⟨-, rfl⟩ := hstep
    exact ⟨o, l, h, hinv⟩

omit [DecidableEq α] in
/-- The caller of one injection goes on; nobody relied on it. -/
theorem HostInv.setCaller {caller : Caller} (hinv : HostInv e s o l h) (hk : k < s.injected)
    (hmet : (s.stream.ends .write).pendingEventFn ≠ none →
      (s.injections k).await = .returned true → (s.injections k).caller = .awaiting →
      caller = .awaiting)
    (hidle : (s.stream.ends .read).copyState = .idle → (s.injections k).caller = .awaiting →
      caller = .awaiting ∨ o = none) :
    HostInv e (s.setInjection k { s.injections k with caller }) o l h := by
  have hsame : ∀ j, ((s.setInjection k { s.injections k with caller }).injections j).values =
      (s.injections j).values := by
    intro j
    by_cases hj : j = k
    · rw [hj, setInjection_self]
    · rw [setInjection_ne _ _ hj]
  constructor
  case accounted =>
    rw [hsame]
    exact hinv.accounted.congr rfl rfl rfl rfl rfl rfl
  case holder =>
    intro j hj
    rw [hsame]
    exact hinv.holder j hj
  case fresh =>
    intro j hj
    rw [hsame]
    exact hinv.fresh j hj
  case ok =>
    intro j hj
    by_cases hne : j = k
    · rw [hne, setInjection_self]
      exact hinv.ok k hk
    · rw [setInjection_ne _ _ hne]
      exact hinv.ok j hj
  -- only the caller of `k` is another one, so the cases are `k` and the rest
  case call =>
    constructor
    · intro hevent
      obtain ⟨j, hj, hcaller, hawait⟩ := hinv.call.met hevent
      refine ⟨j, hj, ?_⟩
      by_cases hne : j = k
      · subst hne
        rw [setInjection_self]
        exact ⟨hmet hevent hawait hcaller, hawait⟩
      · rw [setInjection_ne _ _ hne]
        exact ⟨hcaller, hawait⟩
    · intro hstate
      rcases hinv.call.idle hstate with ho | ⟨hevent, j, hj, hcaller⟩
      · exact .inl ho
      by_cases hne : j = k
      · subst hne
        rcases hidle hstate hcaller with hawaiting | ho
        · refine .inr ⟨hevent, j, hj, ?_⟩
          rw [setInjection_self]
          exact hawaiting
        · exact .inl ho
      · refine .inr ⟨hevent, j, hj, ?_⟩
        rw [setInjection_ne _ _ hne]
        exact hcaller

omit [DecidableEq α] in
theorem HostInv.wake (hinv : HostInv e s o l h)
    (hstep : s.wake k = some (answer, s')) : HostInv e s' o l h := by
  rcases ite_none_left_eq_some.1 hstep with ⟨hwakes, hstep⟩
  cases hstep
  refine hinv.setCaller (Nat.lt_of_not_le fun hle => hwakes (.inl hle)) ?_ ?_
  · exact fun _ _ _ => rfl
  · exact fun _ _ => .inl rfl

omit [DecidableEq α] in
/-- The write end becomes idle. -/
theorem HostInv.resetWriteEndToIdle (hinv : HostInv e s o l h) :
    ∃ stream, s.stream.resetWriteEndToIdle = .ok () stream ∧
      (stream.ends .write).pendingEventFn = none ∧ stream.ends .read = s.stream.ends .read ∧
      HostInv e { s with stream } o l h := by
  obtain ⟨stream, hreset, hstream, hnone, hplaced, hdropped, hcopies, -, hread⟩ :=
    hinv.accounted.stream.resetWriteEndToIdle
  refine ⟨stream, hreset, hnone, hread, hinv.withStream hstream hplaced hdropped hcopies ?_ ?_ ?_⟩
  · exact fun hevent => absurd hnone hevent
  · exact hread ▸ id
  · exact hread ▸ id

omit [DecidableEq α] in
theorem HostInv.takeOutcome (hinv : HostInv e s o l h)
    (hstep : s.takeOutcome k = some (answer, s')) : HostInv e s' o l h := by
  rcases ite_none_left_eq_some.1 hstep with ⟨htakes, hstep⟩
  have hk : k < s.injected := Nat.lt_of_not_le fun hle => htakes (.inl hle)
  have hdetached : (s.injections k).caller = .detached := by
    by_contra hne
    exact htakes (.inr hne)
  have hfinished : HostInv e
      (s.setInjection k { s.injections k with caller := .finished }) o l h := by
    refine hinv.setCaller hk ?_ ?_
    · intro _ _ hcaller
      rw [hdetached] at hcaller
      cases hcaller
    · intro _ hcaller
      rw [hdetached] at hcaller
      cases hcaller
  have hok := hinv.ok k hk
  unfold Injection.Ok at hok
  split at hstep
  case h_1 =>
    obtain ⟨stream, hreset, -, -, hinv'⟩ := hfinished.resetWriteEndToIdle
    rw [hreset] at hstep
    cases hstep
    exact hinv'
  case h_2 =>
    cases hstep
    exact hfinished
  case h_3 hawait =>
    rw [hawait] at hok
    exact hok.elim
  case h_4 => cases hstep

/-- The end of a read, which takes its event. -/
theorem HostInv.finishRead (hinv : HostInv e s o l h)
    (hstep : s.finishRead k = some (answer, s')) : ∃ o l h, HostInv e s' o l h := by
  rcases ite_none_left_eq_some.1 hstep with ⟨hends, hstep⟩
  have hk : k < s.injected := Nat.lt_of_not_le fun hle => hends (.inl hle)
  have hok := hinv.ok k hk
  unfold Injection.Ok at hok
  split at hstep
  case h_2 hawait =>
    rw [hawait] at hok
    exact hok.elim
  case h_3 => cases hstep
  case h_1 resets hawait =>
  -- the write that the read has met is over
  obtain ⟨stream, hreset, hmet, hinv'⟩ : ∃ stream,
      (if resets then s.stream.resetWriteEndToIdle else .ok () s.stream) = .ok () stream ∧
      ((stream.ends .write).pendingEventFn ≠ none → resets = false) ∧
      HostInv e { s with stream } o l h := by
    cases resets with
    | true =>
      obtain ⟨stream, hreset, hnone, -, hinv'⟩ := hinv.resetWriteEndToIdle
      rw [if_pos rfl]
      exact ⟨stream, hreset, fun hevent => absurd hnone hevent, hinv'⟩
    | false => exact ⟨s.stream, rfl, fun _ => rfl, hinv⟩
  have hstep' : ({ s.setInjection k { s.injections k with caller := .finished } with stream } :
      HostFed α).consumes (copyEvent .read stream) = (answer, s') := by
    split at hstep
    case h_1 hfails => cases hfails.symm.trans hreset
    case h_2 hdone =>
      cases hdone.symm.trans hreset
      exact Option.some.inj hstep
  unfold copyEvent at hstep'
  by_cases hsome : stream.hasPendingEvent .read = true
  · obtain ⟨event, stream', hget, hcode, hpayload, -, hwrite, -⟩ :=
      hinv'.accounted.takesEvent hsome
    have hvalid : ¬(event.code ≠ Side.read.eventCode ∨
        event.payload0 ≠ (stream'.ends .read).waitableIdx) := by
      rintro (hne | hne)
      · exact hne hcode
      · exact hne hpayload
    have hget' : stream.getPendingEvent .read = .ok (some event) stream' := hget
    rw [hget'] at hstep'
    dsimp only at hstep'
    rw [if_neg hvalid] at hstep'
    obtain ⟨-, rfl⟩ := hstep'
    refine ⟨none, l, h, (hinv'.reportsEvent hget).setCaller hk ?_ fun _ _ => .inr rfl⟩
    intro hevent hreturned
    have hevent' : (stream'.ends .write).pendingEventFn ≠ none := hevent
    rw [hwrite] at hevent'
    have hreturned' : (s.injections k).await = .returned true := hreturned
    rw [hawait, hmet hevent'] at hreturned'
    cases hreturned'
  · have hnone := hasPendingEvent_eq_false.1 (Bool.eq_false_of_not_eq_true hsome)
    rw [getPendingEvent_of_none hnone] at hstep'
    obtain ⟨-, rfl⟩ := hstep'
    refine ⟨o, l, h, hinv'.setCaller hk ?_ ?_⟩
    · intro hevent hreturned
      have hreturned' : (s.injections k).await = .returned true := hreturned
      rw [hawait, hmet hevent] at hreturned'
      cases hreturned'
    · intro hidle _
      rcases hinv'.call.idle hidle with ho | ⟨hevent, -⟩
      · exact .inr ho
      · exact absurd hnone hevent

/-! ## Cancellation -/

omit [DecidableEq α] in
theorem HostInv.cancelEvent (hinv : HostInv e s o l h)
    (hsome : s.stream.hasPendingEvent .read = true) (hstep : s.cancelEvent = (answer, s')) :
    ∃ o l h, HostInv e s' o l h := by
  obtain ⟨event, stream, hget, hcode, hpayload, hcopying, -⟩ := hinv.accounted.takesEvent hsome
  unfold HostFed.cancelEvent at hstep
  rw [hget] at hstep
  dsimp only at hstep
  rw [hcopying, if_neg Bool.false_ne_true, if_neg (not_not.2 hcode), if_neg (not_not.2 hpayload)]
    at hstep
  obtain ⟨-, rfl⟩ := hstep
  exact ⟨none, l, h, hinv.reportsEvent hget⟩

omit [DecidableEq α] in
theorem HostInv.cancelRead
    (hinv : HostInv e s o l h) (hstep : s.cancelRead ctx = (answer, s')) :
    ∃ o l h, HostInv e s' o l h := by
  have hcancels : HostInv e
      { s with stream := s.stream.setCopyState .read .cancellingCopy } o l h := by
    have hends : (s.stream.setCopyState .read .cancellingCopy).ends .write =
        s.stream.ends .write := by
      simp [setCopyState, setEnd]
    have hevent : ((s.stream.setCopyState .read .cancellingCopy).ends .read).pendingEventFn =
        (s.stream.ends .read).pendingEventFn := by
      simp [setCopyState, setEnd]
    refine hinv.withStream (hinv.accounted.stream.congr hinv.accounted.stream.like id rfl hevent
      (by rw [hends]) (by rw [hends]) (fun _ _ => rfl) (le_refl _) rfl rfl) rfl rfl
      (le_refl _) (hends ▸ id) ?_ (hevent ▸ id)
    intro hidle
    simp [setCopyState, setEnd] at hidle
  unfold HostFed.cancelRead at hstep
  dsimp only at hstep
  split at hstep
  case isTrue =>
    obtain ⟨-, rfl⟩ := hstep
    exact ⟨o, l, h, hinv⟩
  split at hstep
  case isTrue =>
    obtain ⟨-, rfl⟩ := hstep
    exact ⟨o, l, h, hinv⟩
  split at hstep
  case isTrue =>
    obtain ⟨-, rfl⟩ := hstep
    exact ⟨o, l, h, hinv⟩
  split at hstep
  case isTrue hsome => exact hcancels.cancelEvent hsome hstep
  case isFalse =>
    -- timers and waiting calls are no part of the invariant
    split at hstep
    · obtain ⟨-, rfl⟩ := hstep
      exact ⟨o, l, h, hcancels.accounted.congr rfl rfl rfl rfl rfl rfl, hcancels.holder,
        hcancels.fresh, hcancels.ok, hcancels.call.met, hcancels.call.idle⟩
    · obtain ⟨-, rfl⟩ := hstep
      exact ⟨o, l, h, hcancels.accounted.congr rfl rfl rfl rfl rfl rfl, hcancels.holder,
        hcancels.fresh, hcancels.ok, hcancels.call.met, hcancels.call.idle⟩

/-- Under `Safe`, the host adds nothing to a read that is cancelled. -/
theorem hostCancel_eq (hsafe : ∀ p, s.stream.pendingBufferMeta = some p →
      s.queue.length = 0 ∨ (s.stream.buffers p.buffer).remaining = 0) :
    ∃ queue : PendingValueQueue α, queue.contents = s.queue.contents ∧
      s.hostCancel = .ok false { s with queue } := by
  unfold hostCancel
  cases hp : s.stream.pendingBufferMeta with
  | none => exact ⟨s.queue, rfl, rfl⟩
  | some p =>
    dsimp only
    by_cases hlength : s.queue.length = 0
    · rw [if_pos hlength]
      exact ⟨s.queue, rfl, rfl⟩
    rw [if_neg hlength, (hsafe p hp).resolve_left hlength]
    rcases hdrain : s.queue.drainInto 0 with ⟨cancelValues, queue⟩
    obtain ⟨rfl, hleft⟩ := PendingValueQueue.drainInto_eq hdrain
    exact ⟨queue, hleft, rfl⟩

theorem HostInv.completeCancel
    (hinv : HostInv e s o l h) (hheld : s.stream.hostHeld = [])
    (hsafe : s.hasHostCancelFn = true → ∀ p, s.stream.pendingBufferMeta = some p →
      s.queue.length = 0 ∨ (s.stream.buffers p.buffer).remaining = 0)
    (hstep : s.completeCancel = (answer, s')) : ∃ o l h, HostInv e s' o l h := by
  rw [hinv.accounted.stream.hostHeld] at hheld
  subst hheld
  unfold completeCancel at hstep
  split at hstep
  case isTrue =>
    obtain ⟨-, rfl⟩ := hstep
    exact ⟨o, [], h, hinv⟩
  obtain ⟨queue, hcontents, hcancel⟩ : ∃ queue : PendingValueQueue α,
      queue.contents = s.queue.contents ∧
      (if s.hasHostCancelFn then s.hostCancel else .ok false s) = .ok false { s with queue } := by
    by_cases hfn : s.hasHostCancelFn = true
    · rw [if_pos hfn]
      exact hostCancel_eq (hsafe hfn)
    · rw [if_neg hfn]
      exact ⟨s.queue, rfl, rfl⟩
  rw [hcancel] at hstep
  obtain ⟨-, rfl⟩ := hstep
  generalize hresult : (if 0 < (s.stream.pendingBufferMeta.map fun p =>
    (s.stream.buffers p.buffer).processed).getD 0 then CopyResult.completed else .cancelled) = result
  have hne : result ≠ .dropped := by
    rw [← hresult]
    split <;> exact CopyResult.noConfusion
  obtain ⟨hstream, hplaced, hdropped, -, hcopies, hstate, hwrite, hread⟩ :=
    hinv.accounted.stream.notify hne
  have hnotified := hinv.withStream hstream hplaced hdropped (le_of_eq hcopies.symm) hwrite
    (hstate ▸ id) hread
  refine ⟨o, [], h, hnotified.accounted.moveQueue ?_, hnotified.holder, hnotified.fresh,
    hnotified.ok, hnotified.call.met, hnotified.call.idle⟩
  rw [hcontents]

/-! ## Runs -/

theorem hostNext_inv {label : HostCall α × StreamAnswer}
    (hstep : guarded Safe hostNext label s s') (hinv : ∃ o l h, HostInv e s o l h) :
    ∃ o l h, HostInv e s' o l h := by
  obtain ⟨hsafe, hcall⟩ := hstep
  obtain ⟨o, l, h, hinv⟩ := hinv
  obtain ⟨call, answer⟩ := label
  unfold hostNext HostFed.call at hcall
  cases call with
  | read ctx ptr count => exact hinv.read hsafe (Option.some.inj hcall)
  | cancelRead ctx => exact hinv.cancelRead (Option.some.inj hcall)
  | cancelEvent =>
    rcases ite_none_left_eq_some.1 hcall with ⟨hturn, hcall⟩
    have hsome : s.stream.hasPendingEvent .read = true := by
      by_contra hne
      exact hturn (.inr hne)
    have hinv' : HostInv e { s with cancels := s.cancels - 1 } o l h :=
      ⟨hinv.accounted.congr rfl rfl rfl rfl rfl rfl, hinv.holder, hinv.fresh, hinv.ok,
        hinv.call.met, hinv.call.idle⟩
    exact hinv'.cancelEvent hsome (Option.some.inj hcall)
  | deliver => exact hinv.deliver (Option.some.inj hcall)
  | resolve r =>
    obtain ⟨t, hresolve, heq⟩ := map_eq_some_iff.1 hcall
    obtain ⟨-, rfl⟩ := heq
    exact ⟨o, l, h, hinv.resolve hsafe hresolve⟩
  | settle =>
    obtain ⟨t, hsettle, heq⟩ := map_eq_some_iff.1 hcall
    obtain ⟨-, rfl⟩ := heq
    exact ⟨o, l, h, hinv.settle hsettle⟩
  | resume k =>
    obtain ⟨t, hresume, heq⟩ := map_eq_some_iff.1 hcall
    obtain ⟨-, rfl⟩ := heq
    exact hinv.resume hsafe hresume
  | takeOutcome k => exact ⟨o, l, h, hinv.takeOutcome hcall⟩
  | wake k => exact ⟨o, l, h, hinv.wake hcall⟩
  | finishRead k => exact hinv.finishRead hcall
  | timeout =>
    rcases ite_none_left_eq_some.1 hcall with ⟨-, hcall⟩
    have hinv' : HostInv e { s with timers := s.timers - 1 } o l h :=
      ⟨hinv.accounted.congr rfl rfl rfl rfl rfl rfl, hinv.holder, hinv.fresh, hinv.ok,
        hinv.call.met, hinv.call.idle⟩
    exact hinv'.completeCancel hsafe.1 hsafe.2 (Option.some.inj hcall)
  | run memories =>
    cases hcall
    exact ⟨o, l, h, hinv.withStream (hinv.accounted.stream.congr hinv.accounted.stream.like id rfl
      rfl rfl rfl (fun _ _ => rfl) (le_refl _) rfl rfl) rfl rfl (le_refl _) id id id⟩

omit [DecidableEq α] in
theorem HostInv.init (e : ElemMeta α) (waitableIdx : Side → Nat) :
    HostInv e (.init e waitableIdx) none [] 0 := by
  have hnobody : ∀ side, NotOwner none side := by
    intro side p hp
    cases hp
  refine ⟨?_, fun _ _ => rfl, fun _ _ => rfl, ?_, ?_, fun _ => .inl rfl⟩
  · constructor
    case stream =>
      refine ⟨rfl, ?_, .closed rfl (hnobody .read), .idle rfl rfl (hnobody .write), fun _ => rfl, ?_⟩
      · intro hp
        cases hp
      · intro x hx
        cases hx
    case kept => rfl
    case reported => rfl
    case unreported =>
      intro r hr
      cases hr
    case bounded =>
      intro r hr
      cases hr
    case exhausted =>
      intro hdone
      cases hdone
    case ended =>
      intro hdropped
      cases hdropped
  · intro j hj
    exact absurd hj (not_lt_zero j)
  · intro hevent
    exact absurd rfl hevent

omit [DecidableEq α] in
/-- What the invariant says about the property. -/
theorem HostInv.delivers (hinv : HostInv e s o l h) : Delivers s := by
  have hacc := hinv.accounted
  have hlike : s.stream.elemMeta.Like e := hacc.stream.like
  constructor
  case inOrder =>
    rw [← hacc.kept, hacc.reported]
    exact ((prefix_append _ _).trans (prefix_append _ _)).trans (prefix_append _ _)
  case bounded => exact hacc.bounded
  case unreported =>
    cases o with
    | some b =>
      refine ⟨b, ?_, hacc.reported⟩
      intro r hr heq
      exact (hacc.unreported r hr).2 (congrArg some heq.symm)
    | none =>
      -- no read has values, so that a buffer to come will do
      refine ⟨s.stream.copies, ?_, ?_⟩
      · intro r hr
        exact Nat.ne_of_lt (hacc.unreported r hr).1
      · rw [hacc.stream.valuesIn_fresh]
        exact hacc.reported
  case kept =>
    refine ⟨h, hinv.holder, ?_⟩
    rw [hacc.stream.hostHeld, hlike.asElement]
    exact hacc.kept
  case ended => exact fun hdropped => (hacc.ended hdropped).2

/-- Over every run whose steps are safe, the guest gets what the source gives. -/
theorem hostFed_delivers {waitableIdx : Side → Nat} {ls : List (HostCall α × StreamAnswer)}
    (hrun : Run (guarded Safe hostNext) (.init e waitableIdx) ls s) : Delivers s := by
  obtain ⟨o, l, h, hinv⟩ := Run.invariant (fun _ _ _ hstep hinv => hostNext_inv hstep hinv) hrun
    ⟨none, [], 0, HostInv.init e waitableIdx⟩
  exact hinv.delivers

/-- The guest asks for two bytes, the source has three. -/
def readTwoOfChunk : List (HostCall (Option UInt8) × StreamAnswer) :=
  [(.run fun _ => [0, 0], .done),
    (.read (guestCtx 1) 0 2, .copy .blocked),
    (.resolve ⟨.array none [some 1, some 2, some 3], false⟩, .done),
    (.settle, .done),
    (.resume 0, .done),
    (.deliver, .event (some ⟨2, 4, 32, none⟩))]

theorem readTwoOfChunk_run : ∃ s : HostFed (Option UInt8),
    Run (guarded Safe hostNext) (.init byteMeta fun side => side.eventCode + 2) readTwoOfChunk s := by
  refine ⟨_, .cons ⟨trivial, rfl⟩ <| .cons ⟨?_, rfl⟩ <| .cons ⟨?_, rfl⟩ <| .cons ⟨trivial, rfl⟩ <|
    .cons ⟨?_, rfl⟩ <| .cons ⟨trivial, rfl⟩ <| .nil _⟩
  · refine ⟨?_, ?_, .inl (zero_le _), ?_⟩
    · intro k hk
      exact absurd hk (not_lt_zero k)
    · intro source target n hmoving
      cases hmoving
    · rintro - (hlength | hdone)
      · exact absurd hlength (lt_irrefl 0)
      · cases hdone
  · intro hundefined
    cases hundefined
  · intro zero appended hawait hnone hpending
    cases hawait
    refine ⟨fun _ j hj => ?_, fun _ => ⟨_, rfl, rfl, fun _ => ⟨by decide, .inr ⟨by decide, _, rfl⟩⟩⟩⟩
    cases j with
    | zero => exact absurd rfl hj
    | succ j => rfl

theorem hostFed_delivers_readTwoOfChunk : ∃ s : HostFed (Option UInt8),
    Run (guarded Safe hostNext) (.init byteMeta fun side => side.eventCode + 2) readTwoOfChunk s ∧
      Delivers s := by
  obtain ⟨s, hrun⟩ := readTwoOfChunk_run
  exact ⟨s, hrun, hostFed_delivers hrun⟩

/-- A read is cancelled while its injection awaits the source. The next read is
for one byte, and the injection goes on with the chunk of three. -/
def readAfterCancel : List (HostCall (Option UInt8) × StreamAnswer) :=
  [(.run fun _ => [0, 0, 0, 0, 0], .done),
    (.read (guestCtx 1) 0 5, .copy .blocked),
    (.cancelRead (guestCtx 1), .copy .blocked),
    (.timeout, .done),
    (.deliver, .event (some ⟨2, 4, 2, none⟩)),
    (.read (guestCtx 1) 0 1, .copy .blocked),
    (.resolve ⟨.array none [some 1, some 2, some 3], false⟩, .done),
    (.settle, .done),
    (.resume 0, .done)]

/-- Two bytes of the chunk are gone after it: the read has one, and neither the
host nor an injection nor the queue holds any. -/
theorem readAfterCancel_run : ∃ s : HostFed (Option UInt8),
    Run hostNext (.init byteMeta fun side => side.eventCode + 2) readAfterCancel s ∧
      s.fromSource = [some 1, some 2, some 3] ∧ s.stream.placed.map Entry.value = [some 1] ∧
      s.stream.hostHeld = [] ∧ s.queue.contents = [] ∧ ∀ k, (s.injections k).values = [] := by
  refine ⟨_, .cons rfl <| .cons rfl <| .cons rfl <| .cons rfl <| .cons rfl <| .cons rfl <|
    .cons rfl <| .cons rfl <| .cons rfl <| .nil _, rfl, rfl, rfl, rfl, ?_⟩
  intro k
  match k with
  | 0 => rfl
  | 1 => rfl
  | k + 2 => rfl

theorem readAfterCancel_not_delivered : ¬ ∀ (ls : List (HostCall (Option UInt8) × StreamAnswer))
    (s : HostFed (Option UInt8)),
    Run hostNext (.init byteMeta fun side => side.eventCode + 2) ls s → Delivers s := by
  intro hall
  obtain ⟨s, hrun, hsource, hplaced, hheld, hqueue, hvalues⟩ := readAfterCancel_run
  obtain ⟨k, -, hkept⟩ := (hall _ _ hrun).kept
  rw [hsource, hplaced, hheld, hqueue, hvalues k] at hkept
  cases hkept

end Jco.Stream

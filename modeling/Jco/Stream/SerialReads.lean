import Jco.Stream.ReadBooks
import Jco.Stream.ReadOrder

/-! # Reads of the host are answered in their order

Each step of a read keeps the order of the reads and what they hold.
-/

namespace Jco.Stream.HostReads

open Jco.Js Jco.Lib StreamState Function List Nat

variable {α : Type} {r : Reader α} {jobs : List Nat} {k j m p c a q : Nat}

/-! ## Steps of the reads -/

variable {reads : Nat → Read α}

theorem Stages.update {calls : Nat} (h : Stages reads calls m p c a)
    (hmp : m ≤ p) (hpa : p ≤ a) (read : Read α) :
    Stages (Function.update reads a read) calls m p c a := by
  have hne : ∀ k, k ≠ a → Function.update reads a read k = reads k :=
    fun k hk => Function.update_of_ne hk ..
  constructor
  case answered =>
    intro k hk
    rw [hne k (by omega)]
    exact h.answered k hk
  case settled =>
    intro k hmk hkp
    rw [hne k (by omega)]
    exact h.settled k hmk hkp
  case copied =>
    intro k hck hka
    rw [hne k (Nat.ne_of_lt hka)]
    exact h.copied k hck hka
  case waits =>
    intro k hak hk
    rw [hne k (ne_of_gt hak)]
    exact h.waits k hak hk

/-- The next read has its result. -/
theorem Stages.succ {calls : Nat} (h : Stages reads calls m p c a)
    (hphase : c ≤ a → ∃ packedResult, (reads a).phase = .copied packedResult) :
    Stages reads calls m p c (a + 1) where
  answered := h.answered
  settled := h.settled
  copied k hck hk := by
    rcases eq_or_lt_of_le (le_of_lt_succ hk) with rfl | hlt
    · exact hphase hck
    · exact h.copied k hck hlt
  waits k hk := h.waits k (lt_of_succ_lt hk)

theorem Stages.mono {calls c' : Nat} (h : Stages reads calls m p c a)
    (hc : c ≤ c') : Stages reads calls m p c' a where
  answered := h.answered
  settled := h.settled
  copied k hck := h.copied k (le_trans hc hck)
  waits := h.waits

theorem Turn.next (h : Stages r.reads r.calls m p c a) (hpa : p ≤ a) (ha : a < r.calls) :
    Turn r Option.none p (a + 1) (a + 1) := by
  rcases eq_or_lt_of_le (succ_le_of_lt ha) with heq | hlt
  · exact .none heq rfl
  · exact .waits hlt (lt_succ_of_le hpa) rfl (h.waits (a + 1) (lt_succ_self a) hlt)

/-- The reads behind the next one have nothing yet. -/
theorem Stages.later {calls : Nat} (h : Stages reads calls m p c a)
    (s : StreamState α) : ∀ j < calls, a < j → (reads j).contents s = [] := by
  intro j hj haj
  have hphase := h.waits j haj hj
  have hheld : (reads j).held = none := by
    unfold Read.held
    rw [hphase]
  rw [Read.contents_of_not_held hheld]
  unfold Read.given
  rw [hphase]

section

variable [StreamValue α] {e : ElemMeta α} {o : Side → Option Nat}
  {value : Except JsError (Option (List α))}

/-- The invariant. -/
def Inv (e : ElemMeta α) (r : Reader α) : Prop :=
  ∃ o m p a q, Place r r.jobs m p p a q ∧ Turn r (o .read) p a q ∧
    Books e r.stream r.reads r.calls o

theorem Books.settle (h : Books e r.stream r.reads r.calls o)
    (hvalue : ∀ read : Read α, read.phase = .settled value →
      read.given = (r.reads k).contents r.stream) :
    Books e (r.settle k value).stream (r.settle k value).reads (r.settle k value).calls o := by
  have hfields : ∀ j, ((r.settle k value).reads j).phase = .settled value ∧ j = k ∨
      ((r.settle k value).reads j).phase = .starting ∧ (r.reads j).awaits k = true ∨
      (r.settle k value).reads j = r.reads j := by
    intro j
    by_cases hj : j = k
    · subst hj
      exact .inl ⟨r.settle_self value, rfl⟩
    · cases hawaits : (r.reads j).awaits k with
      | true =>
        refine .inr (.inl ⟨?_, rfl⟩)
        rw [r.settle_awaits value hj hawaits]
      | false => exact .inr (.inr (r.settle_ne value hj hawaits))
  refine Books.pointwise h (fun j hj b hb => ?_) (fun j hj => ?_) fun j hj => ?_
  · rcases hfields j with ⟨hphase, -⟩ | ⟨hphase, -⟩ | hsame
    · unfold Read.held at hb
      rw [hphase] at hb
      cases hb
    · unfold Read.held at hb
      rw [hphase] at hb
      cases hb
    · rwa [hsame] at hb
  · rcases hfields j with ⟨hphase, rfl⟩ | ⟨hphase, hawaits⟩ | hsame
    · have hheld : ((r.settle j value).reads j).held = none := by
        unfold Read.held
        rw [hphase]
      rw [Read.contents_of_not_held hheld]
      exact hvalue _ hphase
    · -- neither before nor after it has anything
      have hheld : ((r.settle k value).reads j).held = none := by
        unfold Read.held
        rw [hphase]
      unfold Read.awaits at hawaits
      split at hawaits
      · rename_i hwaits
        have hheld' : (r.reads j).held = none := by
          unfold Read.held
          rw [hwaits]
        rw [Read.contents_of_not_held hheld, Read.contents_of_not_held hheld']
        unfold Read.given
        rw [hphase, hwaits]
      · cases hawaits
    · rw [hsame]
  · have hclash := (r.settle_clashed (k := k) value j).trans (h.each j hj).noClash
    rcases hfields j with ⟨hphase, -⟩ | ⟨hphase, -⟩ | hsame
    · refine .of_not_held ?_ (fun packedResult => ?_) hclash
      · unfold Read.held
        rw [hphase]
      · rw [hphase]
        exact (nomatch ·)
    · refine .of_not_held ?_ (fun packedResult => ?_) hclash
      · unfold Read.held
        rw [hphase]
      · rw [hphase]
        exact (nomatch ·)
    · rw [hsame]
      exact h.each j hj

theorem Inv.settle (hplace : Place r (p :: r.jobs) m p (p + 1) a q)
    (hturn : Turn r (o .read) p a q) (hpa : p < a) (hself : (r.reads p).awaits p = false)
    (hbooks : Books e r.stream r.reads r.calls o)
    (hvalue : ∀ read : Read α, read.phase = .settled value →
      read.given = (r.reads p).contents r.stream) : Inv e (r.settle p value) := by
  obtain ⟨q', hplace', hturn'⟩ := hplace.settle hturn hpa hself value
  exact ⟨o, m, p + 1, a, q', hplace', hturn', hbooks.settle hvalue⟩

/-- What a read is told about its copy is what it has got. -/
theorem Inv.finish (hplace : Place r (p :: r.jobs) m p (p + 1) a q)
    (hturn : Turn r (o .read) p a q) (hpa : p < a) (hself : (r.reads p).awaits p = false)
    (hbooks : Books e r.stream r.reads r.calls o) {packedResult : Int} {result : CopyResult}
    (hheld : (r.reads p).held = some (r.reads p).buffer)
    (hresult : packedResult = packResult (r.stream.placedIn (r.reads p).buffer).length result)
    (hless : (r.stream.placedIn (r.reads p).buffer).length < 2 ^ 27) :
    Inv e (r.finish p packedResult) := by
  have hcontents := Read.contents_of_held hheld r.stream
  have hunpack : hostUnpack packedResult =
      (((r.stream.placedIn (r.reads p).buffer).length : Int), (result.code : Int)) := by
    rw [hresult]
    exact (hostUnpack_iff (code_lt result) (Int.natCast_nonneg _)
      (by exact_mod_cast lt_trans hless (by decide))).2 (by exact_mod_cast hless)
  -- the flag of the end of the stream does not matter here
  have hflag : ∀ endOfStream, Inv e (({ r with endOfStream, result := none } : Reader α).settle p
      (.ok (if 0 < (r.stream.placedIn (r.reads p).buffer).length then
        some ((r.stream.placedIn (r.reads p).buffer).map (·.value)) else none))) := by
    intro endOfStream
    refine Inv.settle (o := o) (m := m) (a := a) (q := q) ?_ ?_ hpa hself hbooks ?_
    · exact ⟨hplace.m_le, hplace.p_le, hplace.a_le, hplace.stages, hplace.turns, hplace.answered,
        fun _ k hk => by cases hk⟩
    · cases hturn with
      | none ha ho => exact .none ha ho
      | waits ha hp ho hphase => exact .waits ha hp ho hphase
      | starting ha hp ho hphase => exact .starting ha hp ho hphase
      | blocked ha ho hphase => exact .blocked ha ho hphase
      | woken ha ho hphase hevent => exact .woken ha ho hphase hevent
    · intro read hphase
      unfold Read.given
      rw [hphase]
      dsimp only
      rw [hcontents]
      split
      · rfl
      · rename_i hzero
        rw [length_eq_zero_iff.1 (Nat.eq_zero_of_not_pos hzero)]
        rfl
  unfold Reader.finish
  rw [hunpack]
  dsimp only
  rw [Int.toNat_natCast]
  by_cases hpos : 0 < (r.stream.placedIn (r.reads p).buffer).length
  · have hfilled : Filled r.stream (r.reads p).buffer :=
      (hbooks.each p (lt_of_lt_of_le hpa hplace.a_le)).filled _ hheld
        (.inr (length_pos_iff.1 hpos))
    obtain ⟨s', hread⟩ := hfilled.read hpos
    rw [if_pos (show (0 : Int) < _ by exact_mod_cast hpos)]
    simp only [if_pos hpos] at hflag
    by_cases hdropped : (result.code : Int) = (CopyResult.dropped.code : Int)
    · rw [if_pos hdropped]
      dsimp only
      rw [hread]
      exact hflag true
    · rw [if_neg hdropped, hread]
      exact hflag r.endOfStream
  · rw [if_neg (show ¬ (0 : Int) < _ by exact_mod_cast hpos)]
    simp only [if_neg hpos] at hflag
    split
    · exact hflag true
    · exact hflag r.endOfStream

end

/-! ## Starting a copy -/

theorem packResult_zero : packResult 0 .dropped = ((CopyResult.dropped.code : Nat) : Int) := by
  decide

/-- The constructor refuses a buffer of the host only for elements without an alignment. -/
theorem new_host_isSome {e : ElemMeta α} {count : Nat} {b : ManagedBuffer α}
    (h : ManagedBuffer.new (-1) none e 0 count [] = .ok b) : e.align32.isSome = true := by
  unfold ManagedBuffer.new at h
  split at h
  · cases h
  split at h
  · cases h
  · rename_i halign
    rw [halign]
    rfl

theorem new_host_ok {e : ElemMeta α} (count : Nat) (hcount : count ≤ MAX_LENGTH)
    (halign : e.align32.isSome = true) : ∃ b, ManagedBuffer.new (-1) none e 0 count [] = .ok b := by
  obtain ⟨align32, halign⟩ := Option.isSome_iff_exists.1 halign
  unfold ManagedBuffer.new
  rw [if_neg (not_lt.2 hcount), halign]
  dsimp only
  rw [if_neg fun h => h.2.2.1 rfl]
  exact ⟨_, rfl⟩

theorem ElemMeta_align32_of_like {e e' : ElemMeta α} (h : e.Like e') : e.align32 = e'.align32 :=
  (ElemMeta.mk.inj h).2.2.2.2.1

section

variable [StreamValue α] {e : ElemMeta α} {r' : Reader α} {c o o' : Side → Option Nat}
  {t s' : StreamState α} {values : List α}

/-- Two states of the reader that differ in the stream and in what is known about a read. -/
structure Starts (r r' : Reader α) (a : Nat) (read : Read α) (s' : StreamState α) : Prop where
  stream : r'.stream = s'
  reads : r'.reads = Function.update r.reads a read
  calls : r'.calls = r.calls
  answered : r'.answered = r.answered
  result : r'.result = r.result
  endOfStream : r'.endOfStream = r.endOfStream

/-- The copy of the read `a` has a result. -/
theorem Inv.copied (read : Read α) (hplace : Place r r.jobs m p p a a) (ha : a < r.calls) (ho : o .read = none)
    (hbooks : Books e r.stream r.reads r.calls o) (hold : (r.reads a).contents r.stream = [])
    (hout : Outcome e r.stream c o' t s' values)
    (hc : c .read = none ∨ c .read = some r.stream.copies) (ho' : o' .read = none)
    (hstarts : Starts r r' a read s') (hjobs : r'.jobs = r.jobs ++ [a])
    {packedResult : Except JsError Int} (hphase : read.phase = .copied packedResult)
    (hheld : ∀ b, read.held = some b → b = r.stream.copies)
    (hcontents : read.contents s' = values) (hread : ReadBooks e s' (o' .read) read) : Inv e r' := by
  have hreads := hstarts.reads
  have hself : (update r.reads a read) a = read := update_self ..
  have hstages : Stages r'.reads r'.calls m p p (a + 1) := by
    rw [hreads, hstarts.calls]
    refine (hplace.stages.update hplace.m_le hplace.p_le read).succ fun _ => ?_
    rw [hself]
    exact ⟨packedResult, hphase⟩
  have hpa : p ≤ a + 1 := le_succ_of_le hplace.p_le
  have hcalls : a + 1 ≤ r'.calls := hstarts.calls ▸ ha
  refine ⟨o', m, p, a + 1, a + 1, ⟨hplace.m_le, hpa, hcalls, hstages, ?_, ?_, ?_⟩, ?_, ?_⟩
  · rw [hjobs]
    have hturns : Turns (r.jobs ++ []) m p a := by
      rw [append_nil]
      exact hplace.turns
    exact hturns.join hplace.p_le fun j hj => by cases hj
  · exact hstarts.answered.trans hplace.answered
  · intro hend k hk
    rw [hstarts.calls]
    exact hplace.latest (hstarts.endOfStream.symm.trans hend) k (hstarts.result.symm.trans hk)
  · rw [ho']
    have hbefore : Stages r'.reads r'.calls m p p a := by
      rw [hreads, hstarts.calls]
      exact hplace.stages.update hplace.m_le hplace.p_le read
    exact Turn.next hbefore hplace.p_le hcalls
  · rw [hstarts.stream, hreads, hstarts.calls]
    exact hbooks.start hout ho hc ha hold (hplace.stages.later _) hheld hcontents hread

/-- The copy of the read `a` waits. -/
theorem Inv.blocked (read : Read α) (hplace : Place r r.jobs m p p a a) (ha : a < r.calls) (ho : o .read = none)
    (hbooks : Books e r.stream r.reads r.calls o) (hold : (r.reads a).contents r.stream = [])
    (hout : Outcome e r.stream c o' t s' values)
    (hc : c .read = none ∨ c .read = some r.stream.copies)
    (ho' : o' .read = some r.stream.copies) (hstarts : Starts r r' a read s')
    (hjobs : r'.jobs = r.jobs) (hphase : read.phase = .blocked)
    (hbuffer : read.buffer = r.stream.copies) (hcontents : read.contents s' = values)
    (hread : ReadBooks e s' (o' .read) read) : Inv e r' := by
  have hreads := hstarts.reads
  have hself : r'.reads a = read := by
    rw [hreads]
    exact update_self ..
  have hstages : Stages r'.reads r'.calls m p p a := by
    rw [hreads, hstarts.calls]
    exact hplace.stages.update hplace.m_le hplace.p_le read
  have hcalls : a < r'.calls := hstarts.calls ▸ ha
  refine ⟨o', m, p, a, a, ⟨hplace.m_le, hplace.p_le, le_of_lt hcalls, hstages, ?_, ?_, ?_⟩,
    ?_, ?_⟩
  · rw [hjobs]
    exact hplace.turns
  · exact hstarts.answered.trans hplace.answered
  · intro hend k hk
    rw [hstarts.calls]
    exact hplace.latest (hstarts.endOfStream.symm.trans hend) k (hstarts.result.symm.trans hk)
  · refine .blocked hcalls ?_ ?_
    · rw [ho', hself, hbuffer]
    · rw [hself]
      exact hphase
  · rw [hstarts.stream, hreads, hstarts.calls]
    refine hbooks.start hout ho hc ha hold (hplace.stages.later _) (fun b hb => ?_) hcontents hread
    unfold Read.held at hb
    rw [hphase] at hb
    exact (Option.some.inj hb).symm.trans hbuffer

variable [DecidableEq α]

theorem Inv.startCopy (hplace : Place r r.jobs m p p a a) (ha : a < r.calls)
    (hphase : (r.reads a).phase = .starting) (ho : o .read = none)
    (hbooks : Books e r.stream r.reads r.calls o) (hfits : r.Fits (r.reads a).count) :
    Inv e (r.startCopy a) := by
  have hstream := hbooks.stream
  have hheld : (r.reads a).held = none := by
    unfold Read.held
    rw [hphase]
  have hold : (r.reads a).contents r.stream = [] := by
    rw [Read.contents_of_not_held hheld]
    unfold Read.given
    rw [hphase]
  have halign : r.stream.elemMeta.align32 = e.align32 := ElemMeta_align32_of_like hstream.like
  unfold Reader.startCopy
  dsimp only
  cases hnew : ManagedBuffer.new (-1) none r.stream.elemMeta 0
      (min (r.reads a).count MAX_LENGTH) [] with
  | error err =>
    -- no read before it has copied either
    obtain rfl : p = a := by
      refine Nat.le_antisymm hplace.p_le (Nat.le_of_not_lt fun hpa => ?_)
      obtain ⟨packedResult, hcopied⟩ := hplace.stages.copied p (Nat.le_refl p) hpa
      have haligned := (hbooks.each p (lt_trans hpa ha)).aligned packedResult hcopied
      obtain ⟨b, hok⟩ := new_host_ok (min (r.reads a).count MAX_LENGTH)
        (min_le_right _ _) (halign ▸ haligned)
      rw [hnew] at hok
      cases hok
    have hstages : Stages (update r.reads p
        { r.reads p with count := min (r.reads p).count MAX_LENGTH }) r.calls m p (p + 1) p :=
      (hplace.stages.update hplace.m_le (le_refl p) _).mono (le_succ p)
    refine Inv.settle (o := o) (m := m) (a := p + 1) (q := p + 1) ?_ ?_ (lt_succ_self p) ?_
      ?_ ?_
    · exact ⟨hplace.m_le, le_succ p, ha,
        hstages.succ fun hle => absurd hle (not_succ_le_self p), hplace.turns.enter,
        hplace.answered, hplace.latest⟩
    · rw [ho]
      exact Turn.next hstages (le_refl p) ha
    · have hstarting : (((r.setRead p
          { r.reads p with count := min (r.reads p).count MAX_LENGTH }).reads p).phase) =
          .starting := by
        rw [Reader.setRead_self]
        exact hphase
      exact awaits_of_phase hstarting fun _ => (nomatch ·)
    · have heach := hbooks.each p ha
      exact hbooks.update p (fun b hb => hb) rfl { heach with }
    · intro read hread
      unfold Read.given
      rw [hread, Reader.setRead_self]
      exact hold.symm
  | ok buffer =>
    -- the read takes the copy: it ends at once, clashes or waits for the writer
    have haligned := halign ▸ new_host_isSome hnew
    have hclashed : Reader.copyInProgress r.stream .read = false := by
      unfold Reader.copyInProgress
      rw [hstream.free .read ho]
      simp
    obtain ⟨read, hread⟩ : ∃ read : Read α, read = { r.reads a with
      count := min (r.reads a).count MAX_LENGTH
      buffer := r.stream.copies
      clashed := Reader.copyInProgress r.stream .read } := ⟨_, rfl⟩
    have hbuffer : read.buffer = r.stream.copies := by rw [hread]
    have hread' : read.clashed = false := by rw [hread, hclashed]
    have hfits' : ∀ p, r.stream.pendingBufferMeta = some p →
        min read.count (r.stream.buffers p.buffer).remaining < 2 ^ 27 := by
      intro p hp
      have hless := hfits p hp
      rw [hread]
      show min (min _ _) _ < _
      omega
    have hupdate : ∀ phase, update (update r.reads a read) a
        { (update r.reads a read) a with phase } =
        update r.reads a { read with phase } := by
      intro phase
      rw [update_idem, update_self]
    obtain ⟨res, hres⟩ : ∃ res, Reader.hostCopy (Reader.copyArgs read r.stream.copies)
      { r.stream with copies := r.stream.copies + 1 } = res := ⟨_, rfl⟩
    have hcopied : Copied r.stream o (Reader.copyArgs read r.stream.copies)
        (Reader.hostCopy (Reader.copyArgs read r.stream.copies)
          { r.stream with copies := r.stream.copies + 1 }) :=
      hostCopy_copied hstream.sound hstream.idle (hstream.noThrow .read) ho rfl rfl hfits'
    rw [← hread]
    rw [hres] at hcopied ⊢
    have hfresh := (hstream.sound.accounts.of_fresh (le_refl r.stream.copies)).2
    cases hcopied with
    | refused err h =>
      obtain ⟨values, hout⟩ := hstream.outcome h.acts hstream.isNone hstream.host hstream.guest
      obtain rfl := hout.nothing ho
      refine Inv.copied { read with phase := .copied (.error err) } hplace ha ho hbooks
        hold hout (.inl ho) ho ⟨rfl, hupdate _, rfl, rfl, rfl, rfl⟩ rfl rfl ?_ rfl ?_
      · intro b hb
        cases hb
      · exact .failed rfl haligned hread'
    | dropped h hcopies =>
      obtain ⟨values, hout⟩ := hstream.outcome h.acts hstream.isNone hstream.host hstream.guest
      obtain rfl := hout.nothing ho
      rename_i s'
      have hempty : s'.placedIn r.stream.copies = [] := by
        have hvalues := hout.placedIn r.stream.copies
        rw [hfresh, ite_self, append_nil] at hvalues
        exact map_eq_nil_iff.1 hvalues
      refine Inv.copied { read with phase := .copied (.ok CopyResult.dropped.code) }
        hplace ha ho hbooks hold hout (.inl ho) ho ⟨rfl, hupdate _, rfl, rfl, rfl, rfl⟩ rfl rfl
        ?_ ?_ ?_
      · intro b hb
        exact (Option.some.inj hb).symm.trans hbuffer
      · show (s'.placedIn read.buffer).map (·.value) = []
        rw [hbuffer, hempty]
        rfl
      · refine ⟨fun b hb => ?_, fun b hb hopen => ?_, fun packedResult hphase => ?_,
          fun _ _ => haligned, hread'⟩
        · obtain rfl := (Option.some.inj hb).symm.trans hbuffer
          exact hcopies
        · obtain rfl := (Option.some.inj hb).symm.trans hbuffer
          rcases hopen with hopen | hplaced
          · rw [ho] at hopen
            cases hopen
          · exact absurd hempty hplaced
        · cases hphase
          refine ⟨.dropped, ?_, ?_⟩
          · rw [hbuffer, hempty]
            exact packResult_zero.symm
          · rw [hbuffer, hempty]
            exact Nat.two_pow_pos 27
    | fails err h hplaced =>
      obtain ⟨values, hout, -, -⟩ := hstream.opened h rfl rfl
      have hvalues := hout.placed
      rw [hplaced, self_eq_append_right] at hvalues
      refine Inv.copied { read with phase := .copied (.error err) } hplace ha ho hbooks
        hold hout (.inr (update_self ..)) ho ⟨rfl, hupdate _, rfl, rfl, rfl, rfl⟩ rfl
        rfl ?_ hvalues.symm ?_
      · intro b hb
        cases hb
      · exact .failed rfl haligned hread'
    | reports result rejectedLength h hless hcopies =>
      obtain ⟨values, hout, hcontents, hfilled⟩ := hstream.opened h rfl rfl
      rename_i s'
      refine Inv.copied { read with
          phase := .copied (.ok (packResult (s'.buffers r.stream.copies).processed result)) }
        hplace ha ho hbooks hold hout (.inr (update_self ..)) ho
        ⟨rfl, hupdate _, rfl, rfl, rfl, rfl⟩ rfl rfl ?_ ?_ ?_
      · intro b hb
        exact (Option.some.inj hb).symm.trans hbuffer
      · rw [hbuffer]
        exact hcontents
      · refine ⟨fun b hb => ?_, fun b hb _ => ?_, fun packedResult hphase => ?_,
          fun _ _ => haligned, hread'⟩
        · obtain rfl := (Option.some.inj hb).symm.trans hbuffer
          exact hcopies
        · obtain rfl := (Option.some.inj hb).symm.trans hbuffer
          exact hfilled
        · cases hphase
          refine ⟨result, ?_, ?_⟩
          · rw [hbuffer, hfilled.counted]
          · rw [hbuffer, ← hfilled.counted]
            exact hless
    | blocks rejectedLength h =>
      obtain ⟨values, hout, hcontents, hfilled⟩ := hstream.opened h rfl rfl
      rename_i s'
      have hopen : startedCopies r.stream o .read = some r.stream.copies :=
        update_self ..
      refine Inv.blocked { read with phase := .blocked } hplace ha ho hbooks hold hout
        (.inr hopen) hopen ⟨rfl, hupdate _, rfl, rfl, rfl, rfl⟩ rfl rfl hbuffer ?_ ?_
      · rw [hbuffer]
        exact hcontents
      · refine ⟨fun b hb => ?_, fun b hb _ => ?_, fun _ hphase => ?_, fun _ hphase => ?_, hread'⟩
        · obtain rfl := (Option.some.inj hb).symm.trans hbuffer
          exact h.sound.copies.fresh .read _ hopen
        · obtain rfl := (Option.some.inj hb).symm.trans hbuffer
          exact hfilled
        · cases hphase
        · cases hphase

end

/-! ## Steps -/

/-- The next read is where it was. -/
theorem Turn.congr {r' : Reader α} {o o' : Option Nat} (h : Turn r o p a q)
    (hcalls : a = r.calls → a = r'.calls) (hle : a < r.calls → a < r'.calls)
    (hread : a < r.calls → r'.reads a = r.reads a) (ho : o' = o)
    (hevent : r.stream.hasPendingEvent .read = true →
      r'.stream.hasPendingEvent .read = true) : Turn r' o' p a q := by
  cases h with
  | none ha hnone => exact .none (hcalls ha) (ho.trans hnone)
  | waits ha hp hnone hphase =>
    exact .waits (hle ha) hp (ho.trans hnone) ((congrArg _ (hread ha)).trans hphase)
  | starting ha hp hnone hphase =>
    exact .starting (hle ha) hp (ho.trans hnone) ((congrArg _ (hread ha)).trans hphase)
  | blocked ha hsome hphase =>
    exact .blocked (hle ha) (ho.trans (hsome.trans (congrArg (some ·.buffer) (hread ha).symm)))
      ((congrArg _ (hread ha)).trans hphase)
  | woken ha hsome hphase hevent' =>
    exact .woken (hle ha) (ho.trans (hsome.trans (congrArg (some ·.buffer) (hread ha).symm)))
      ((congrArg _ (hread ha)).trans hphase) (hevent hevent')

/-- The read that is copying, if there is one. -/
theorem Turn.open {o : Option Nat} (h : Turn r o p a q) {b : Nat} (hb : o = some b) :
    a < r.calls ∧ (r.reads a).held = some b ∧
      ∀ packedResult, (r.reads a).phase ≠ .copied packedResult := by
  cases h with
  | none ha ho =>
    rw [ho] at hb
    cases hb
  | waits ha hp ho hphase =>
    rw [ho] at hb
    cases hb
  | starting ha hp ho hphase =>
    rw [ho] at hb
    cases hb
  | blocked ha ho hphase =>
    refine ⟨ha, ?_, fun packedResult => ?_⟩
    · unfold Read.held
      rw [hphase]
      exact ho.symm.trans hb
    · rw [hphase]
      exact (nomatch ·)
  | woken ha ho hphase hevent =>
    refine ⟨ha, ?_, fun packedResult => ?_⟩
    · unfold Read.held
      rw [hphase]
      exact ho.symm.trans hb
    · rw [hphase]
      exact (nomatch ·)

section

variable [StreamValue α] {e : ElemMeta α} {c o o' : Side → Option Nat} {side : Side}
  {t s' : StreamState α}

/-- A call of another party. -/
theorem Inv.call (hplace : Place r r.jobs m p p a q) (hturn : Turn r (o .read) p a q)
    (hbooks : Books e r.stream r.reads r.calls o) (hacts : Acts side o c o' r.stream t s')
    (hc : c .read = o .read) (ho' : o' .read = o .read)
    (hnone : ∀ b, (t.buffers b).elemMeta.isNone = e.isNone)
    (hread : ∀ b, c .read = some b → (t.buffers b).memory = none)
    (hwrite : ∀ b, c .write = some b → (t.buffers b).memory.isSome = true)
    (hevent : r.stream.hasPendingEvent .read = true → s'.hasPendingEvent .read = true) :
    Inv e { r with stream := s' } := by
  obtain ⟨values, hout⟩ := hbooks.stream.outcome hacts hnone hread hwrite
  refine ⟨o', m, p, a, q, { hplace with }, hturn.congr id id (fun _ => rfl) ho' hevent, ?_⟩
  refine hbooks.outcome hout hc fun b hb => ?_
  obtain ⟨ha, hheld, hnot⟩ := hturn.open hb
  exact ⟨a, ha, hheld, hnot, hplace.stages.later _⟩

/-- A call that moves nothing. -/
theorem Inv.stays (hplace : Place r r.jobs m p p a q) (hturn : Turn r (o .read) p a q)
    (hbooks : Books e r.stream r.reads r.calls o) (hstays : Stays side o o' r.stream s')
    (ho' : o' .read = o .read)
    (hevent : r.stream.hasPendingEvent .read = true → s'.hasPendingEvent .read = true) :
    Inv e { r with stream := s' } :=
  .call hplace hturn hbooks hstays.acts rfl ho' hbooks.stream.isNone hbooks.stream.host
    hbooks.stream.guest hevent

/-- A read is answered with what it settled with. -/
theorem Inv.answer [DecidableEq α] (hplace : Place r (m :: r.jobs) m p p a q)
    (hturn : Turn r (o .read) p a q) (hmp : m < p)
    (hbooks : Books e r.stream r.reads r.calls o) {value : Except JsError (Option (List α))}
    (hphase : (r.reads m).phase = .settled value) : Inv e (r.answer m value) := by
  obtain ⟨-, hturns⟩ := hplace.turns.secondTurn hmp
  have hma : m ≠ a := Nat.ne_of_lt (Nat.lt_of_lt_of_le hmp hplace.p_le)
  -- the new phase gives the same values
  have hgoal : ∀ result rejectedLength,
      (∀ read : Read α, read.phase = .answered result → read.given = (r.reads m).given) →
      Inv e (({ r with answered := r.answered ++ [m], rejectedLength } : Reader α).setPhase m
        (.answered result)) := by
    intro result rejectedLength hgiven
    have hself : update r.reads m { r.reads m with phase := .answered result } m =
        { r.reads m with phase := .answered result } := update_self ..
    have hne : ∀ k, k ≠ m →
        update r.reads m { r.reads m with phase := .answered result } k = r.reads k :=
      fun k hk => update_of_ne hk ..
    refine ⟨o, m + 1, p, a, q, ⟨hmp, hplace.p_le, hplace.a_le, ?_, hturns, ?_, hplace.latest⟩,
      ?_, ?_⟩
    · constructor
      case answered =>
        intro k hk
        show ∃ result', (update r.reads m _ k).phase = .answered result'
        rcases eq_or_lt_of_le (le_of_lt_succ hk) with rfl | hlt
        · exact ⟨result, congrArg _ hself⟩
        · rw [hne k (Nat.ne_of_lt hlt)]
          exact hplace.stages.answered k hlt
      case settled =>
        intro k hmk hkp
        show ∃ value', (update r.reads m _ k).phase = .settled value'
        rw [hne k (ne_of_gt hmk)]
        exact hplace.stages.settled k (le_of_succ_le hmk) hkp
      case copied =>
        intro k hpk hka
        show ∃ packedResult, (update r.reads m _ k).phase = .copied packedResult
        rw [hne k (ne_of_gt (lt_of_lt_of_le hmp hpk))]
        exact hplace.stages.copied k hpk hka
      case waits =>
        intro k hak hk
        show (update r.reads m _ k).phase = _
        rw [hne k (ne_of_gt (lt_trans (lt_of_lt_of_le hmp hplace.p_le) hak))]
        exact hplace.stages.waits k hak hk
    · show r.answered ++ [m] = List.range (m + 1)
      rw [hplace.answered, range_succ]
    · exact hturn.congr id id (fun _ => hne a hma.symm) rfl id
    · have hold : (r.reads m).held = none := by
        unfold Read.held
        rw [hphase]
      have hm : m < r.calls :=
        lt_of_lt_of_le (lt_of_lt_of_le hmp hplace.p_le) hplace.a_le
      refine hbooks.update m (fun b hb => ?_) ?_ ?_
      · cases hb
      · rw [Read.contents_of_not_held hold]
        exact hgiven _ rfl
      · exact .of_not_held rfl (fun _ => (nomatch ·)) (hbooks.each m hm).noClash
  cases value with
  | error err =>
    refine hgoal _ _ fun read hread => ?_
    unfold Read.given
    rw [hread, hphase]
  | ok value =>
    refine hgoal _ _ fun read hread => ?_
    unfold Read.given
    rw [hread, hphase]

/-- The read that the interval wakes takes its event. -/
theorem Inv.takeEvent (hplace : Place r (p :: r.jobs) m p p p q) (hp : p < r.calls)
    (hturns : Turns (p :: r.jobs) m p (p + 1)) (ho : o .read = some (r.reads p).buffer)
    (hphase : (r.reads p).phase = .woken) (hevent : r.stream.hasPendingEvent .read = true)
    (hbooks : Books e r.stream r.reads r.calls o) (hreports : r.Reports) :
    Inv e (r.takeEvent p) := by
  have hstream := hbooks.stream
  have hheld : (r.reads p).held = some (r.reads p).buffer := by
    unfold Read.held
    rw [hphase]
  cases he : (r.stream.ends .read).pendingEventFn with
  | none =>
    unfold StreamState.hasPendingEvent at hevent
    rw [he] at hevent
    cases hevent
  | some fn =>
    cases fn with
    | throwFn err => exact absurd he (hstream.noThrow .read err)
    | processFn b result reclaim rejectedLength =>
      obtain rfl : b = (r.reads p).buffer :=
        Option.some.inj ((hstream.sound.copies.event .read b _ _ _ he).1.symm.trans ho)
      have hless := hreports _ _ _ _ he
      have hstays := closed_stays hstream.sound hstream.idle he
      obtain ⟨values, hout⟩ := hstream.outcome hstays.acts hstream.isNone hstream.host
        hstream.guest
      have hbooks' := hbooks.outcome hout rfl fun b hb => by
        cases ho.symm.trans hb
        refine ⟨p, hp, hheld, fun packedResult => ?_, hplace.stages.later _⟩
        rw [hphase]
        exact (nomatch ·)
      have hfilled : Filled r.stream (r.reads p).buffer :=
        (hbooks.each p hp).filled _ hheld (.inl ho)
      unfold Reader.takeEvent
      rw [getPendingEvent_processFn he, if_neg (by unfold MAX_LENGTH; omega)]
      have hidx := congrArg StreamEnd.waitableIdx (closed_self r.stream .read result reclaim)
      dsimp only at hidx ⊢
      rw [if_neg (not_not.2 rfl), hidx, if_neg (not_not.2 rfl)]
      have hstages := hplace.stages.mono (le_succ p)
      have hpacked : packResult (r.stream.buffers (r.reads p).buffer).processed result =
          packResult (r.stream.placedIn (r.reads p).buffer).length result :=
        congrArg (packResult · result) hfilled.counted
      refine Inv.finish (o := update o .read none) (m := m) (a := p + 1) (q := p + 1)
        ?_ ?_ (lt_succ_self p) ?_ hbooks' hheld hpacked ?_
      · exact ⟨hplace.m_le, le_succ p, hp,
          hstages.succ fun hle => absurd hle (not_succ_le_self p), hturns,
          hplace.answered, hplace.latest⟩
      · rw [update_self]
        exact Turn.next hstages (le_refl p) hp
      · exact awaits_of_phase hphase fun _ => (nomatch ·)
      · exact hfilled.counted ▸ hless

end

section

variable [StreamValue α] [DecidableEq α] {e : ElemMeta α} {r' : Reader α} {o : Side → Option Nat}

/-- The first job. -/
theorem Inv.resume (hplace : Place r (k :: r.jobs) m p p a q) (hturn : Turn r (o .read) p a q)
    (hbooks : Books e r.stream r.reads r.calls o)
    (hstarting : (r.reads k).phase = .starting → r.Fits (r.reads k).count)
    (hwoken : (r.reads k).phase = .woken → r.Reports) : Inv e (r.resume k) := by
  unfold Reader.resume
  rcases lt_or_ge k p with hkp | hpk
  · -- its own promise has settled
    obtain ⟨rfl, -⟩ := hplace.turns.secondTurn hkp
    obtain ⟨value, hphase⟩ := hplace.stages.settled k (le_refl k) hkp
    rw [hphase]
    exact Inv.answer hplace hturn hkp hbooks hphase
  obtain ⟨rfl, hkq, -⟩ := hplace.turns.firstTurn hplace.m_le hpk
  rcases eq_or_lt_of_le hplace.p_le with rfl | hka
  · -- it is the next read
    cases hturn with
    | none ha ho => exact absurd hkq (lt_irrefl k)
    | waits ha hp ho hphase => exact absurd hp (lt_irrefl k)
    | starting ha hp ho hphase =>
      rw [hphase]
      have hleft : Place r r.jobs m k k k k := ⟨hplace.m_le, hplace.p_le, hplace.a_le,
        hplace.stages, hplace.turns.leave, hplace.answered, hplace.latest⟩
      exact Inv.startCopy hleft ha hphase ho hbooks (hstarting hphase)
    | blocked ha ho hphase => exact absurd hkq (lt_irrefl k)
    | woken ha ho hphase hevent =>
      rw [hphase]
      exact Inv.takeEvent hplace ha hplace.turns ho hphase hevent hbooks (hwoken hphase)
  · -- its copy has answered
    obtain ⟨packedResult, hphase⟩ := hplace.stages.copied k (le_refl k) hka
    have hk : k < r.calls := lt_of_lt_of_le hka hplace.a_le
    have hplace' : Place r (k :: r.jobs) m k (k + 1) a q :=
      ⟨hplace.m_le, hplace.p_le, hplace.a_le, hplace.stages.mono (le_succ k), hplace.turns,
        hplace.answered, hplace.latest⟩
    have hself : (r.reads k).awaits k = false := awaits_of_phase hphase fun _ => (nomatch ·)
    rw [hphase]
    cases packedResult with
    | error err =>
      refine Inv.settle hplace' hturn hka hself hbooks fun read hread => ?_
      have hheld : (r.reads k).held = none := by
        unfold Read.held
        rw [hphase]
      rw [Read.contents_of_not_held hheld]
      unfold Read.given
      rw [hread, hphase]
    | ok packedResult =>
      have hheld : (r.reads k).held = some (r.reads k).buffer := by
        unfold Read.held
        rw [hphase]
      obtain ⟨result, hresult, hless⟩ := (hbooks.each k hk).reported packedResult hphase
      exact Inv.finish hplace' hturn hka hself hbooks hheld hresult hless

omit [DecidableEq α] in
/-- The interval finds an event. -/
theorem Inv.poll (hplace : Place r r.jobs m p p a q) (hturn : Turn r (o .read) p a q)
    (hbooks : Books e r.stream r.reads r.calls o) (hk : k < r.calls)
    (hphase : (r.reads k).phase = .blocked) (hevent : r.stream.hasPendingEvent .read = true) :
    Inv e (({ r with jobs := r.jobs ++ [k] } : Reader α).setPhase k .woken) := by
  -- only the next read is blocked
  have hka : k = a := by
    rcases lt_or_ge k m with hkm | hmk
    · obtain ⟨result, hphase'⟩ := hplace.stages.answered k hkm
      cases hphase.symm.trans hphase'
    rcases lt_or_ge k p with hkp | hpk
    · obtain ⟨value, hphase'⟩ := hplace.stages.settled k hmk hkp
      cases hphase.symm.trans hphase'
    rcases lt_or_ge k a with hka | hak
    · obtain ⟨packedResult, hphase'⟩ := hplace.stages.copied k hpk hka
      cases hphase.symm.trans hphase'
    rcases eq_or_lt_of_le hak with heq | hak
    · exact heq.symm
    · cases hphase.symm.trans (hplace.stages.waits k hak hk)
  subst hka
  have hheld : (r.reads k).held = some (r.reads k).buffer := by
    unfold Read.held
    rw [hphase]
  cases hturn with
  | none ha ho => exact absurd hk (not_lt.2 (le_of_eq ha.symm))
  | waits ha hp ho hphase' => cases hphase.symm.trans hphase'
  | starting ha hp ho hphase' => cases hphase.symm.trans hphase'
  | woken ha ho hphase' => cases hphase.symm.trans hphase'
  | blocked ha ho _ =>
    have heach := hbooks.each k hk
    have hself : update r.reads k { r.reads k with phase := .woken } k =
        { r.reads k with phase := .woken } := update_self ..
    refine ⟨o, m, p, k, k + 1, ⟨hplace.m_le, hplace.p_le, hplace.a_le,
      hplace.stages.update hplace.m_le hplace.p_le _, ?_, hplace.answered, hplace.latest⟩, ?_, ?_⟩
    · have hturns : Turns (r.jobs ++ []) m p k := by
        rw [append_nil]
        exact hplace.turns
      exact hturns.join hplace.p_le fun j hj => by cases hj
    · refine .woken ha ?_ (congrArg _ hself) hevent
      exact ho.trans (congrArg (some ·.buffer) hself.symm)
    · refine hbooks.update k (fun b hb => hheld.trans hb) ?_ ?_
      · rw [Read.contents_of_held hheld]
        rfl
      · refine ⟨fun b hb => heach.known b (hheld.trans hb),
          fun b hb => heach.filled b (hheld.trans hb), fun _ hcopied => ?_, fun _ hcopied => ?_,
          heach.noClash⟩
        · cases hcopied
        · cases hcopied

omit [StreamValue α] [DecidableEq α] in
/-- When all the reads have copied, nobody is next. -/
theorem Place.copied_all (hplace : Place r jobs m p p a q) {o : Option Nat} (hturn : Turn r o p a q)
    (hall : ∀ k < r.calls, (r.reads k).hasCopied = true) : a = r.calls ∧ q = a ∧ o = none := by
  have hnot : ∀ {phase : Phase α}, a < r.calls → (r.reads a).phase = phase →
      ({ r.reads a with phase } : Read α).hasCopied = false → False := by
    intro phase ha hphase hfalse
    have htrue := hall a ha
    unfold Read.hasCopied at htrue hfalse
    rw [hphase] at htrue
    exact Bool.false_ne_true (hfalse.symm.trans htrue)
  cases hturn with
  | none ha ho => exact ⟨ha, rfl, ho⟩
  | waits ha hp ho hphase => exact (hnot ha hphase rfl).elim
  | starting ha hp ho hphase => exact (hnot ha hphase rfl).elim
  | blocked ha ho hphase => exact (hnot ha hphase rfl).elim
  | woken ha ho hphase hevent => exact (hnot ha hphase rfl).elim

omit [StreamValue α] [DecidableEq α] in
/-- A read that has settled does not keep a later one waiting. -/
theorem Place.hasSettled_iff (hplace : Place r jobs m p p a q) {o : Option Nat}
    (hturn : Turn r o p a q) (hk : k < r.calls) : r.hasSettled k = true ↔ k < p := by
  unfold Reader.hasSettled
  constructor
  · intro hsettled
    by_contra hpk
    have hfalse : ∀ {phase : Phase α}, (r.reads k).phase = phase →
        (∀ value, phase ≠ .settled value) → (∀ result, phase ≠ .answered result) → False := by
      intro phase hphase hnot hnot'
      split at hsettled
      · rename_i hphase'
        exact hnot _ (hphase.symm.trans hphase')
      · rename_i hphase'
        exact hnot' _ (hphase.symm.trans hphase')
      · cases hsettled
    rcases lt_or_ge k a with hka | hak
    · obtain ⟨packedResult, hphase⟩ := hplace.stages.copied k (Nat.le_of_not_lt hpk) hka
      exact hfalse hphase (fun _ => (nomatch ·)) fun _ => (nomatch ·)
    rcases eq_or_lt_of_le hak with rfl | hak
    · cases hturn with
      | none ha => exact absurd hk (not_lt.2 (le_of_eq ha.symm))
      | waits _ _ _ hphase => exact hfalse hphase (fun _ => (nomatch ·)) fun _ => (nomatch ·)
      | starting _ _ _ hphase => exact hfalse hphase (fun _ => (nomatch ·)) fun _ => (nomatch ·)
      | blocked _ _ hphase => exact hfalse hphase (fun _ => (nomatch ·)) fun _ => (nomatch ·)
      | woken _ _ hphase => exact hfalse hphase (fun _ => (nomatch ·)) fun _ => (nomatch ·)
    · exact hfalse (hplace.stages.waits k hak hk) (fun _ => (nomatch ·)) fun _ => (nomatch ·)
  · intro hkp
    rcases lt_or_ge k m with hkm | hmk
    · obtain ⟨result, hphase⟩ := hplace.stages.answered k hkm
      rw [hphase]
    · obtain ⟨value, hphase⟩ := hplace.stages.settled k hmk hkp
      rw [hphase]

omit [StreamValue α] [DecidableEq α] in
theorem Place.answered_all (hplace : Place r jobs m p p a q) {o : Option Nat}
    (hturn : Turn r o p a q) (hall : ∀ k < r.calls, (r.reads k).isAnswered = true) :
    m = r.calls ∧ q = a ∧ o = none := by
  have hcopied : ∀ k < r.calls, (r.reads k).hasCopied = true := by
    intro k hk
    have hanswered := hall k hk
    unfold Read.isAnswered at hanswered
    unfold Read.hasCopied
    split at hanswered
    · rename_i hphase
      rw [hphase]
    · cases hanswered
  obtain ⟨ha, hq, ho⟩ := hplace.copied_all hturn hcopied
  refine ⟨Nat.le_antisymm ?_ (Nat.le_of_not_lt fun hm => ?_), hq, ho⟩
  · exact le_trans (le_trans hplace.m_le hplace.p_le) hplace.a_le
  · -- the first read that is not answered has no other phase
    have hanswered := hall m hm
    unfold Read.isAnswered at hanswered
    rcases eq_or_lt_of_le hplace.m_le with rfl | hmp
    · obtain ⟨packedResult, hphase⟩ := hplace.stages.copied m (le_refl m) (ha ▸ hm)
      rw [hphase] at hanswered
      cases hanswered
    · obtain ⟨value, hphase⟩ := hplace.stages.settled m (le_refl m) hmp
      rw [hphase] at hanswered
      cases hanswered

omit [StreamValue α] [DecidableEq α] in
theorem Stages.add {reads : Nat → Read α} {calls c : Nat} {read : Read α}
    (h : Stages reads calls m p c a) (hmp : m ≤ p) (hpa : p ≤ a) (ha : a ≤ calls)
    (hread : a < calls → read.phase = .waits (calls - 1)) :
    Stages (Function.update reads calls read) (calls + 1) m p c a := by
  have hne : ∀ k, k ≠ calls → Function.update reads calls read k = reads k :=
    fun k hk => Function.update_of_ne hk ..
  constructor
  case answered =>
    intro k hk
    rw [hne k (by omega)]
    exact h.answered k hk
  case settled =>
    intro k hmk hkp
    rw [hne k (by omega)]
    exact h.settled k hmk hkp
  case copied =>
    intro k hck hka
    rw [hne k (by omega)]
    exact h.copied k hck hka
  case waits =>
    intro k hak hk
    rcases eq_or_lt_of_le (le_of_lt_succ hk) with rfl | hlt
    · rw [Function.update_self]
      exact hread hak
    · rw [hne k (Nat.ne_of_lt hlt)]
      exact h.waits k hak hlt

/-- A call of `read()`. -/
theorem Inv.read (hinv : Inv e r) {count : Int} {rejectLength : Option Int}
    (hsafe : Safe (.read count rejectLength) r) : Inv e (r.read count rejectLength) := by
  obtain ⟨o, m, p, a, q, hplace, hturn, hbooks⟩ := hinv
  unfold Safe at hsafe
  dsimp only at hsafe
  unfold Reader.read
  dsimp only
  cases hend : r.endOfStream with
  | true =>
    -- the reads before it have their answers
    rw [hend, if_pos rfl] at hsafe
    obtain ⟨rfl, rfl, ho⟩ := hplace.answered_all hturn hsafe
    obtain rfl : r.calls = p :=
      le_antisymm hplace.m_le (le_trans hplace.p_le hplace.a_le)
    obtain rfl : r.calls = q := le_antisymm hplace.p_le hplace.a_le
    have hjobs : r.jobs = [] := hplace.turns.eq_nil
    refine ⟨o, r.calls + 1, r.calls + 1, r.calls + 1, r.calls + 1,
      ⟨le_refl _, le_refl _, le_refl _, ?_, ?_, ?_, fun hnot => ?_⟩, .none rfl ho, ?_⟩
    · refine ⟨fun k hk => ?_, fun k hk hk' => ?_, fun k hk hk' => ?_, fun k hk hk' => ?_⟩
      · rcases eq_or_lt_of_le (le_of_lt_succ hk) with rfl | hlt
        · exact ⟨_, congrArg _ (Function.update_self ..)⟩
        · obtain ⟨result, hphase⟩ := hplace.stages.answered k hlt
          exact ⟨result, (congrArg _ (Function.update_of_ne (Nat.ne_of_lt hlt) ..)).trans hphase⟩
      · exact absurd hk' (not_lt.2 hk)
      · exact absurd hk' (not_lt.2 hk)
      · exact absurd hk' (not_lt.2 (le_of_lt hk))
    · show Turns r.jobs _ _ _
      rw [hjobs]
      exact .nil _
    · show r.answered ++ [r.calls] = List.range (r.calls + 1)
      rw [hplace.answered, range_succ]
    · cases hnot
    · exact hbooks.add rfl rfl (.of_not_held rfl (fun _ => (nomatch ·)) rfl)
  | false =>
    rw [hend, if_neg Bool.false_ne_true] at hsafe
    rw [if_neg Bool.false_ne_true]
    cases hopts : Reader.readOpts count rejectLength with
    | error err => exact ⟨o, m, p, a, q, hplace, hturn, hbooks⟩
    | ok opts =>
      obtain ⟨n, limit⟩ := opts
      cases hresult : r.result with
      | none =>
        obtain ⟨hall, hfits⟩ := hsafe n limit hopts hresult
        obtain ⟨rfl, rfl, ho⟩ := hplace.copied_all hturn hall
        have hself : Function.update r.reads r.calls
            (⟨n, limit, 0, false, .starting⟩ : Read α) r.calls =
            ⟨n, limit, 0, false, .starting⟩ := Function.update_self ..
        refine Inv.startCopy (o := o) (m := m) (p := p) ?_ (lt_succ_self _)
          (congrArg _ hself) ho ?_ ?_
        · refine ⟨hplace.m_le, hplace.p_le, le_succ _, ?_, hplace.turns, hplace.answered,
            fun _ k hk => congrArg (· + 1) (Option.some.inj hk).symm⟩
          exact hplace.stages.add hplace.m_le hplace.p_le hplace.a_le fun hlt =>
            absurd hlt (lt_irrefl _)
        · exact hbooks.add rfl rfl (.of_not_held rfl (fun _ => (nomatch ·)) rfl)
        · show r.Fits (Function.update r.reads r.calls _ r.calls).count
          rw [hself]
          exact hfits
      | some previous =>
        have hlatest := hplace.latest hend previous hresult
        have hprevious : previous < r.calls := lt_of_succ_le (le_of_eq hlatest)
        have hiff := hplace.hasSettled_iff hturn hprevious
        dsimp only
        cases hsettled : r.hasSettled previous with
        | true =>
          -- nobody is before it
          rw [if_pos rfl]
          have hpa : r.calls ≤ p := hlatest ▸ hiff.1 hsettled
          obtain rfl : r.calls = p :=
            le_antisymm hpa (le_trans hplace.p_le hplace.a_le)
          obtain rfl : r.calls = a := le_antisymm hplace.p_le hplace.a_le
          obtain ⟨rfl, ho⟩ : q = r.calls ∧ o .read = none := by
            cases hturn with
            | none ha ho => exact ⟨rfl, ho⟩
            | waits ha => exact absurd ha (lt_irrefl _)
            | starting ha => exact absurd ha (lt_irrefl _)
            | blocked ha => exact absurd ha (lt_irrefl _)
            | woken ha => exact absurd ha (lt_irrefl _)
          refine ⟨o, m, r.calls, r.calls, r.calls + 1, ⟨hplace.m_le, le_refl _,
            le_succ _, ?_, ?_, hplace.answered, fun _ k hk => ?_⟩,
            .starting (lt_succ_self _) rfl ho (congrArg _ (Function.update_self ..)), ?_⟩
          · exact hplace.stages.add hplace.m_le (le_refl _) (le_refl _) fun hlt =>
              absurd hlt (lt_irrefl _)
          · have hturns : Turns (r.jobs ++ []) m r.calls r.calls := by
              rw [append_nil]
              exact hplace.turns
            exact hturns.join (le_refl _) fun j hj => by cases hj
          · exact congrArg (· + 1) (Option.some.inj hk).symm
          · exact hbooks.add rfl rfl (.of_not_held rfl (fun _ => (nomatch ·)) rfl)
        | false =>
          rw [if_neg Bool.false_ne_true]
          have hpk : p ≤ previous := Nat.le_of_not_lt fun hlt =>
            Bool.false_ne_true (hsettled.symm.trans (hiff.2 hlt))
          have hphase : (⟨n, limit, 0, false, .waits previous⟩ : Read α).phase =
              .waits (r.calls - 1) := by
            rw [← hlatest]
            rfl
          refine ⟨o, m, p, a, q, ⟨hplace.m_le, hplace.p_le, le_succ_of_le hplace.a_le,
            ?_, hplace.turns, hplace.answered, fun _ k hk => ?_⟩, ?_, ?_⟩
          · exact hplace.stages.add hplace.m_le hplace.p_le hplace.a_le fun _ => hphase
          · exact congrArg (· + 1) (Option.some.inj hk).symm
          · rcases eq_or_lt_of_le hplace.a_le with rfl | hlt
            · obtain ⟨rfl, ho⟩ : q = r.calls ∧ o .read = none := by
                cases hturn with
                | none ha ho => exact ⟨rfl, ho⟩
                | waits ha => exact absurd ha (lt_irrefl _)
                | starting ha => exact absurd ha (lt_irrefl _)
                | blocked ha => exact absurd ha (lt_irrefl _)
                | woken ha => exact absurd ha (lt_irrefl _)
              exact .waits (lt_succ_self _) (lt_of_le_of_lt hpk hprevious) ho
                ((congrArg _ (Function.update_self ..)).trans hphase)
            · exact hturn.congr (fun heq => absurd heq (Nat.ne_of_lt hlt))
                Nat.lt_succ_of_lt (fun _ => Function.update_of_ne (Nat.ne_of_lt hlt) ..) rfl id
          · exact hbooks.add rfl rfl (.of_not_held rfl (fun _ => (nomatch ·)) rfl)

end

/-! ## Runs -/

section

variable [StreamValue α] {s s' : StreamState α} {o : Side → Option Nat} {side : Side}

omit [StreamValue α] in
theorem hasPendingEvent_of_untouched (h : Untouched s s' side) (hevent : s.hasPendingEvent side = true) :
    s'.hasPendingEvent side = true := by
  unfold StreamState.hasPendingEvent at hevent ⊢
  rcases h.event with hsame | ⟨_, _, _, _, hnew⟩
  · rw [hsame]
    exact hevent
  · rw [hnew]
    rfl

omit [StreamValue α] in
/-- An end with an event is not dropped. -/
theorem drop_hasPendingEvent (hevent : s.hasPendingEvent side = true) :
    (resultState (drop side s)).hasPendingEvent side = true := by
  unfold StreamState.drop
  split
  · exact hevent
  · exact hevent

omit [StreamValue α] in
theorem StreamBooks.init (e : ElemMeta α) (waitableIdx : Side → Nat) :
    StreamBooks e (.init e waitableIdx) fun _ => none where
  sound := {
    copies := ⟨fun _ => rfl, fun _ _ => (nomatch ·), fun _ => (nomatch ·),
      fun _ _ _ _ _ => (nomatch ·)⟩
    accounts := ⟨fun _ => (nomatch ·), fun _ => rfl, fun _ => (nomatch ·), fun _ => (nomatch ·),
      .nil, fun _ => rfl⟩
    backed := fun _ => (nomatch ·)
    distinct := fun _ => (nomatch ·) }
  idle _ _ := rfl
  free _ _ := rfl
  noThrow _ _ := (nomatch ·)
  like := rfl
  isNone _ := rfl
  guest _ := (nomatch ·)
  host _ := (nomatch ·)
  moved := rfl

variable [DecidableEq α] {e : ElemMeta α} {r' : Reader α}

omit [DecidableEq α] in
theorem Inv.init (e : ElemMeta α) (waitableIdx : Side → Nat) : Inv e (.init e waitableIdx) := by
  refine ⟨fun _ => none, 0, 0, 0, 0, ⟨le_refl 0, le_refl 0, le_refl 0, ?_, .nil 0, rfl,
    fun _ _ => (nomatch ·)⟩, .none rfl rfl, .init e waitableIdx, rfl, fun _ => (nomatch ·),
    fun _ => (nomatch ·)⟩
  exact ⟨fun _ => (nomatch ·), fun _ _ => (nomatch ·), fun _ _ => (nomatch ·), fun _ _ => (nomatch ·)⟩

omit [DecidableEq α] in
/-- A call on the write end that moves nothing. -/
theorem Inv.onWrite (hinv : Inv e r)
    (h : ∀ o, StreamBooks e r.stream o → ∃ o', Stays .write o o' r.stream s') :
    Inv e { r with stream := s' } := by
  obtain ⟨o, m, p, a, q, hplace, hturn, hbooks⟩ := hinv
  obtain ⟨o', hstays⟩ := h o hbooks.stream
  exact Inv.stays hplace hturn hbooks hstays hstays.acts.other.1
    (hasPendingEvent_of_untouched hstays.acts.untouched)

theorem Inv.step {call : Call} (hstep : guarded Safe next call r r') (hinv : Inv e r) :
    Inv e r' := by
  obtain ⟨hsafe, hnext⟩ := hstep
  unfold next computed at hnext
  cases call with
  | read count rejectLength =>
    cases hnext
    exact hinv.read hsafe
  | job =>
    obtain ⟨o, m, p, a, q, hplace, hturn, hbooks⟩ := hinv
    unfold Reader.perform at hnext
    dsimp only at hnext
    split at hnext
    · cases hnext
    · rename_i k jobs hjobs
      cases hnext
      have hfirst := hsafe k (by rw [hjobs]; rfl)
      rw [hjobs] at hplace
      refine Inv.resume (o := o) (m := m) (p := p) (a := a) (q := q) ?_ ?_ hbooks ?_ ?_
      · exact { hplace with }
      · exact hturn.congr id id (fun _ => rfl) rfl id
      · intro hphase
        rw [hphase] at hfirst
        exact hfirst
      · intro hphase
        dsimp only at hphase
        rw [hphase] at hfirst
        exact hfirst
  | poll k =>
    obtain ⟨o, m, p, a, q, hplace, hturn, hbooks⟩ := hinv
    unfold Reader.perform at hnext
    dsimp only at hnext
    split at hnext
    · rename_i hphase
      split at hnext
      · rename_i hpoll
        cases hnext
        exact Inv.poll hplace hturn hbooks hpoll.1 hphase hpoll.2
      · cases hnext
    · cases hnext
  | dropRead =>
    obtain ⟨o, m, p, a, q, hplace, hturn, hbooks⟩ := hinv
    cases hnext
    have hstream := hbooks.stream
    exact Inv.stays hplace hturn hbooks (drop_stays hstream.sound hstream.idle .read) rfl
      drop_hasPendingEvent
  | write ctx ptr count =>
    obtain ⟨o, m, p, a, q, hplace, hturn, hbooks⟩ := hinv
    cases hnext
    have hstream := hbooks.stream
    rcases streamCopy_acts hstream.sound hstream.idle (hstream.noThrow .write) ctx ptr count with
      ⟨o', hstays⟩ | ⟨o', hacts⟩
    · exact Inv.stays hplace hturn hbooks hstays hstays.acts.other.1
        (hasPendingEvent_of_untouched hstays.acts.untouched)
    · -- the new buffer is in the memory of the guest
      have hold : ∀ b, o .read = some b → b ≠ r.stream.copies :=
        fun b hb => Nat.ne_of_lt (hstream.sound.copies.fresh .read b hb)
      have hread : update o .write (some r.stream.copies) .read = o .read :=
        hacts.other.2
      refine Inv.call hplace hturn hbooks hacts hread hacts.other.1 (fun b => ?_)
        (fun b hb => ?_) (fun b hb => ?_) (hasPendingEvent_of_untouched hacts.untouched)
      · by_cases hb : b = r.stream.copies
        · subst hb
          rw [opened_self]
          exact (ElemMeta.mk.inj hstream.like).2.1
        · rw [opened_ne _ _ hb]
          exact hstream.isNone b
      · rw [hread] at hb
        rw [opened_ne _ _ (hold b hb)]
        exact hstream.host b hb
      · rw [update_self] at hb
        cases hb
        rw [opened_self]
        rfl
  | cancelWrite ctx =>
    cases hnext
    exact hinv.onWrite fun o hstream =>
      streamCancel_stays hstream.sound hstream.idle (hstream.noThrow .write) ctx
  | cancelEvent =>
    cases hnext
    exact hinv.onWrite fun o hstream =>
      cancelEvent_stays hstream.sound hstream.idle (hstream.noThrow .write)
  | deliver =>
    cases hnext
    exact hinv.onWrite fun o hstream =>
      getPendingEvent_stays hstream.sound hstream.idle (hstream.noThrow .write)
  | dropWrite =>
    cases hnext
    exact hinv.onWrite fun o hstream =>
      ⟨o, streamDrop_stays hstream.sound hstream.idle .write⟩
  | run memories =>
    cases hnext
    exact hinv.onWrite fun o hstream => ⟨o, .of_end hstream.sound hstream.idle rfl rfl rfl rfl rfl
      rfl rfl (le_refl _) rfl id⟩

omit [DecidableEq α] in
/-- What the invariant says about the answers. -/
theorem Inv.serialised (hinv : Inv e r) : Serialised r := by
  obtain ⟨o, m, p, a, q, hplace, hturn, hbooks⟩ := hinv
  have hstream := hbooks.stream
  have hlength : r.answered.length = m := by
    rw [hplace.answered, length_range]
  have hle : m ≤ r.calls := le_trans (le_trans hplace.m_le hplace.p_le) hplace.a_le
  constructor
  case inOrder =>
    rw [hlength]
    exact hplace.answered
  case consecutive =>
    have hportion : (List.range m).flatMap (fun k => (r.reads k).portion) =
        (List.range m).flatMap fun k => (r.reads k).contents r.stream :=
      flatMap_congr fun k hk => by
        obtain ⟨result, hphase⟩ := hplace.stages.answered k (mem_range.1 hk)
        have hheld : (r.reads k).held = none := by
          unfold Read.held
          rw [hphase]
        rw [Read.contents_of_not_held hheld]
        unfold Read.portion Read.given
        rw [hphase]
        cases result with
        | ok result => rfl
        | error err => rfl
    obtain ⟨n, hn⟩ := Nat.exists_eq_add_of_le hle
    rw [hplace.answered, hportion, hstream.moved, ← hbooks.contents, hn, range_add,
      flatMap_append]
    exact prefix_append _ _
  case written => exact ⟨hstream.sound.accounts.ordered, hstream.sound.accounts.indexed⟩
  case noClash => exact fun k hk => (hbooks.each k hk).noClash

/-- Over every run whose steps are safe, the reads of the host are answered one after the
other. -/
theorem reads_serialised {waitableIdx : Side → Nat} {calls : List Call}
    (hrun : Run (guarded Safe next) (.init e waitableIdx) calls r) : Serialised r := by
  have hinv : Inv e r := by
    refine Run.invariant ?_ hrun (Inv.init e waitableIdx)
    intro call r₁ r₂ hstep hinv
    exact Inv.step hstep hinv
  exact hinv.serialised

/-- Two overlapping reads for a byte each. The second one is called while the first is blocked,
and the guest writes the second byte while the second read is. -/
def readTwo : List Call :=
  [.run fun _ => [7, 8], .read 1 none, .read 1 none, .write (guestCtx 1) 0 1, .poll 0, .job, .job,
    .job, .deliver, .write (guestCtx 1) 1 1, .poll 1, .job, .job]

theorem readTwo_run : ∃ r : Reader (Option UInt8),
    Run (guarded Safe next) (.init byteMeta fun side => side.eventCode + 2) readTwo r ∧
      r.answered = [0, 1] := by
  refine ⟨_, .cons ⟨trivial, rfl⟩ <| .cons ⟨?first, rfl⟩ <| .cons ⟨?second, rfl⟩ <|
    .cons ⟨trivial, rfl⟩ <| .cons ⟨trivial, rfl⟩ <| .cons ⟨?event₀, rfl⟩ <|
    .cons ⟨?starts, rfl⟩ <| .cons ⟨?answer₀, rfl⟩ <| .cons ⟨trivial, rfl⟩ <|
    .cons ⟨trivial, rfl⟩ <| .cons ⟨trivial, rfl⟩ <| .cons ⟨?event₁, rfl⟩ <|
    .cons ⟨?answer₁, rfl⟩ <| .nil _, rfl⟩
  case first =>
    intro n m _ _
    refine ⟨fun k hk => absurd hk (not_lt_zero k), fun p hp => ?_⟩
    cases hp
  case second =>
    -- the first read is found in `#result`
    intro n m _ hresult
    cases hresult
  case event₀ =>
    intro k hk
    cases hk
    intro b result reclaim rejectedLength he
    cases he
    decide
  case starts =>
    intro k hk
    cases hk
    intro p hp
    cases hp
  case answer₀ =>
    intro k hk
    cases hk
    trivial
  case event₁ =>
    intro k hk
    cases hk
    intro b result reclaim rejectedLength he
    cases he
    decide
  case answer₁ =>
    intro k hk
    cases hk
    trivial

theorem reads_serialised_readTwo : ∃ r : Reader (Option UInt8),
    Run (guarded Safe next) (.init byteMeta fun side => side.eventCode + 2) readTwo r ∧
      r.answered = [0, 1] ∧ Serialised r := by
  obtain ⟨r, hrun, hanswered⟩ := readTwo_run
  exact ⟨r, hrun, hanswered, reads_serialised hrun⟩

/-- Three reads for a byte each. The second one waits for the first, which clears `#result`
as it is done, so that the third one does not wait for the second. -/
def lostLink : List Call :=
  [.run fun _ => [7], .read 1 none, .read 1 none, .write (guestCtx 1) 0 1, .poll 0, .job, .job,
    .job, .read 1 none]

theorem lostLink_run : ∃ r : Reader (Option UInt8),
    Run next (.init byteMeta fun side => side.eventCode + 2) lostLink r ∧ 2 < r.calls ∧
      (r.reads 2).clashed = true :=
  ⟨_, .cons rfl <| .cons rfl <| .cons rfl <| .cons rfl <| .cons rfl <| .cons rfl <| .cons rfl <|
    .cons rfl <| .cons rfl <| .nil _, lt_succ_self 2, rfl⟩

theorem lostLink_not_serialised : ¬ ∀ (calls : List Call) (r : Reader (Option UInt8)),
    Run next (.init byteMeta fun side => side.eventCode + 2) calls r → Serialised r := by
  intro hall
  obtain ⟨r, hrun, hcalls, hclashed⟩ := lostLink_run
  have hfalse := (hall _ _ hrun).noClash 2 hcalls
  rw [hclashed] at hfalse
  cases hfalse

end

end Jco.Stream.HostReads

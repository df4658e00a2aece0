import Jco.Lib.Turns
import Jco.Stream.HostReads

/-! # The order of the host's reads

The reads are in the order of their calls: the first ones are answered, then come those
whose promise has settled, those whose copy has answered, at most one that is copying, and
those that wait for the one before. The microtask queue gives each of them two turns, one
behind its copy and one behind its promise.
-/

namespace Jco.Stream.HostReads

open Jco.Js Jco.Lib StreamState Nat

variable {α : Type} {r : Reader α} {jobs : List Nat} {k j m p c a q : Nat}

/-! ## Places -/

/-- How far the reads are. The read `p` itself may be underway when `c` is behind it. -/
structure Stages (reads : Nat → Read α) (calls m p c a : Nat) : Prop where
  answered : ∀ k < m, ∃ result, (reads k).phase = .answered result
  settled : ∀ k, m ≤ k → k < p → ∃ value, (reads k).phase = .settled value
  copied : ∀ k, c ≤ k → k < a → ∃ packedResult, (reads k).phase = .copied packedResult
  waits : ∀ k, a < k → k < calls → (reads k).phase = .waits (k - 1)

/-- The places of the reads, with the jobs that are still to be done. -/
structure Place (r : Reader α) (jobs : List Nat) (m p c a q : Nat) : Prop where
  m_le : m ≤ p
  p_le : p ≤ a
  a_le : a ≤ r.calls
  stages : Stages r.reads r.calls m p c a
  turns : Turns jobs m p q
  answered : r.answered = List.range m
  latest : r.endOfStream = false → ∀ k, r.result = some k → k + 1 = r.calls

/-- What the read `a` does, which is next; `o` is the buffer of its copy. -/
inductive Turn (r : Reader α) (o : Option Nat) (p a : Nat) : Nat → Prop where
  | none (ha : a = r.calls) (ho : o = none) : Turn r o p a a
  | waits (ha : a < r.calls) (hp : p < a) (ho : o = none)
      (hphase : (r.reads a).phase = .waits (a - 1)) : Turn r o p a a
  | starting (ha : a < r.calls) (hp : p = a) (ho : o = none)
      (hphase : (r.reads a).phase = .starting) : Turn r o p a (a + 1)
  | blocked (ha : a < r.calls) (ho : o = some (r.reads a).buffer)
      (hphase : (r.reads a).phase = .blocked) : Turn r o p a a
  | woken (ha : a < r.calls) (ho : o = some (r.reads a).buffer)
      (hphase : (r.reads a).phase = .woken) (hevent : r.stream.hasPendingEvent .read = true) :
      Turn r o p a (a + 1)

namespace Reader

theorem setRead_self (r : Reader α) (k : Nat) (read : Read α) : (r.setRead k read).reads k = read :=
  Function.update_self ..

theorem setRead_ne (r : Reader α) (read : Read α) (h : j ≠ k) :
    (r.setRead k read).reads j = r.reads j := Function.update_of_ne h ..

theorem setPhase_self (r : Reader α) (k : Nat) (phase : Phase α) :
    (r.setPhase k phase).reads k = { r.reads k with phase } := r.setRead_self k _

theorem setPhase_ne (r : Reader α) (phase : Phase α) (h : j ≠ k) :
    (r.setPhase k phase).reads j = r.reads j := r.setRead_ne _ h

/-! ### Settling -/

variable (r) (value : Except JsError (Option (List α)))

theorem settle_self : ((r.settle k value).reads k).phase = .settled value := by
  unfold settle
  dsimp only
  rw [setPhase_self]

theorem settle_awaits (hj : j ≠ k) (hawaits : (r.reads j).awaits k = true) :
    (r.settle k value).reads j = { r.reads j with phase := .starting } := by
  unfold settle
  dsimp only
  rw [setPhase_ne _ _ hj]
  exact if_pos hawaits

theorem settle_ne (hj : j ≠ k) (hawaits : (r.reads j).awaits k = false) :
    (r.settle k value).reads j = r.reads j := by
  unfold settle
  dsimp only
  rw [setPhase_ne _ _ hj]
  exact if_neg (Bool.eq_false_iff.1 hawaits)

/-- A read that goes on keeps all but its phase. -/
theorem settle_clashed (j : Nat) : ((r.settle k value).reads j).clashed = (r.reads j).clashed := by
  by_cases hj : j = k
  · subst hj
    unfold settle
    dsimp only
    rw [setPhase_self]
    dsimp only
    split
    · rfl
    · rfl
  · cases hawaits : (r.reads j).awaits k with
    | true => rw [settle_awaits r value hj hawaits]
    | false => rw [settle_ne r value hj hawaits]

end Reader

theorem awaits_of_phase {read : Read α} {phase : Phase α} (h : read.phase = phase)
    (hphase : ∀ k, phase ≠ .waits k) : read.awaits j = false := by
  unfold Read.awaits
  split
  case h_1 k hk => exact absurd (h.symm.trans hk) (hphase k)
  case h_2 => rfl

theorem awaits_waits {read : Read α} (h : read.phase = .waits k) :
    read.awaits j = decide (k = j) := by
  unfold Read.awaits
  rw [h]

/-- Nobody but the next read can wait for the one before it that is underway. -/
theorem Place.awaits_iff {o : Option Nat} (h : Place r jobs m p (p + 1) a q) (ht : Turn r o p a q)
    (hpa : p < a) (hself : (r.reads p).awaits p = false) (hj : j < r.calls) :
    (r.reads j).awaits p = true ↔ j = a ∧ a = p + 1 ∧ (r.reads a).phase = .waits p := by
  constructor
  · intro hawaits
    have hfalse : ∀ {phase : Phase α}, (r.reads j).phase = phase → (∀ k, phase ≠ .waits k) →
        False := fun hphase hnot =>
      Bool.false_ne_true ((awaits_of_phase hphase hnot).symm.trans hawaits)
    rcases lt_or_ge j m with hjm | hmj
    · obtain ⟨result, hphase⟩ := h.stages.answered j hjm
      exact (hfalse hphase fun _ => (nomatch ·)).elim
    rcases lt_or_ge j p with hjp | hpj
    · obtain ⟨value, hphase⟩ := h.stages.settled j hmj hjp
      exact (hfalse hphase fun _ => (nomatch ·)).elim
    rcases eq_or_lt_of_le hpj with rfl | hpj
    · exact (Bool.false_ne_true (hself.symm.trans hawaits)).elim
    rcases lt_or_ge j a with hja | haj
    · obtain ⟨packedResult, hphase⟩ := h.stages.copied j hpj hja
      exact (hfalse hphase fun _ => (nomatch ·)).elim
    rcases eq_or_lt_of_le haj with rfl | haj
    · cases ht with
      | none ha => exact absurd hj (not_lt.2 (le_of_eq ha.symm))
      | waits ha hp ho hphase =>
        rw [awaits_waits hphase] at hawaits
        have heq := of_decide_eq_true hawaits
        exact ⟨rfl, by omega, heq ▸ hphase⟩
      | starting ha hp ho hphase => exact absurd hp (Nat.ne_of_lt hpa)
      | blocked ha ho hphase => exact (hfalse hphase fun _ => (nomatch ·)).elim
      | woken ha ho hphase => exact (hfalse hphase fun _ => (nomatch ·)).elim
    · -- those behind it wait for later ones
      rw [awaits_waits (h.stages.waits j haj hj)] at hawaits
      have heq := of_decide_eq_true hawaits
      omega
  · rintro ⟨rfl, -, hphase⟩
    rw [awaits_waits hphase]
    exact decide_eq_true rfl

theorem filter_range_eq_nil {n : Nat} {f : Nat → Bool} (h : ∀ j < n, f j = false) :
    (List.range n).filter f = [] := by
  refine List.filter_eq_nil_iff.2 fun j hj hf => ?_
  exact Bool.false_ne_true ((h j (List.mem_range.1 hj)).symm.trans hf)

theorem filter_range_eq_singleton {n : Nat} {f : Nat → Bool} (ha : a < n)
    (h : ∀ j < n, f j = true ↔ j = a) : (List.range n).filter f = [a] := by
  have hf : ∀ j ∈ List.range n, f j = decide (j = a) := by
    intro j hj
    exact Bool.eq_iff_iff.2 ((h j (List.mem_range.1 hj)).trans (decide_eq_true_iff).symm)
  rw [List.filter_congr hf, List.filter_eq,
    List.count_eq_one_of_mem List.nodup_range (List.mem_range.2 ha)]
  rfl

/-- The read that is underway settles, and the next one starts if it waits for it. -/
theorem Place.settle {o : Option Nat} (h : Place r (p :: r.jobs) m p (p + 1) a q)
    (ht : Turn r o p a q) (hpa : p < a) (hself : (r.reads p).awaits p = false)
    (value : Except JsError (Option (List α))) :
    ∃ q', Place (r.settle p value) (r.settle p value).jobs m (p + 1) (p + 1) a q' ∧
      Turn (r.settle p value) o (p + 1) a q' := by
  obtain ⟨-, -, hturns⟩ := h.turns.firstTurn h.m_le (le_refl p)
  have hiff := fun j hj => h.awaits_iff ht hpa hself (j := j) hj
  -- whoever does not wait for `p` stays where it is
  have hsame : ∀ j < r.calls, j ≠ p → (∀ k, (r.reads j).phase ≠ .waits k) →
      (r.settle p value).reads j = r.reads j :=
    fun j hj hne hphase => r.settle_ne value hne (awaits_of_phase rfl hphase)
  have hcalls : ∀ j < a, j < r.calls := fun j hj => lt_of_lt_of_le hj h.a_le
  have hstages : Stages (r.settle p value).reads r.calls m (p + 1) (p + 1) a := by
    constructor
    case answered =>
      intro j hj
      obtain ⟨result, hphase⟩ := h.stages.answered j hj
      have hjp : j < p := lt_of_lt_of_le hj h.m_le
      refine ⟨result, ?_⟩
      rw [hsame j (hcalls j (Nat.lt_trans hjp hpa)) (Nat.ne_of_lt hjp) fun k => by
        rw [hphase]
        exact (nomatch ·)]
      exact hphase
    case settled =>
      intro j hmj hj
      rcases eq_or_lt_of_le (le_of_lt_succ hj) with rfl | hjp
      · exact ⟨value, r.settle_self value⟩
      · obtain ⟨value', hphase⟩ := h.stages.settled j hmj hjp
        refine ⟨value', ?_⟩
        rw [hsame j (hcalls j (Nat.lt_trans hjp hpa)) (Nat.ne_of_lt hjp) fun k => by
          rw [hphase]
          exact (nomatch ·)]
        exact hphase
    case copied =>
      intro j hpj hja
      obtain ⟨packedResult, hphase⟩ := h.stages.copied j hpj hja
      refine ⟨packedResult, ?_⟩
      rw [hsame j (hcalls j hja) (ne_of_gt hpj) fun k => by
        rw [hphase]
        exact (nomatch ·)]
      exact hphase
    case waits =>
      intro j haj hj
      have hnot : (r.reads j).awaits p = false :=
        Bool.eq_false_iff.2 fun hawaits => ne_of_gt haj ((hiff j hj).1 hawaits).1
      rw [r.settle_ne value (by omega) hnot]
      exact h.stages.waits j haj hj
  by_cases hnext : a < r.calls ∧ a = p + 1 ∧ (r.reads a).phase = .waits p
  · -- the next read was waiting for this one
    obtain ⟨ha, hap, hphase⟩ := hnext
    have hq : q = a ∧ o = none := by
      cases ht with
      | none _ ho => exact ⟨rfl, ho⟩
      | waits _ _ ho _ => exact ⟨rfl, ho⟩
      | starting _ hp => exact absurd hp (Nat.ne_of_lt hpa)
      | blocked _ _ hphase' => cases hphase.symm.trans hphase'
      | woken _ _ hphase' => cases hphase.symm.trans hphase'
    have hwaiting : (List.range r.calls).filter (fun j => (r.reads j).awaits p) = [a] :=
      filter_range_eq_singleton ha fun j hj =>
        (hiff j hj).trans ⟨fun heq => heq.1, fun heq => ⟨heq, hap, hphase⟩⟩
    have hjobs : (r.settle p value).jobs = r.jobs ++ a :: [p] := by
      show r.jobs ++ _ ++ [p] = _
      rw [hwaiting, List.append_assoc]
      rfl
    refine ⟨a + 1, ⟨?_, hpa, h.a_le, hstages, ?_, h.answered, h.latest⟩, ?_⟩
    · exact le_succ_of_le h.m_le
    · rw [hjobs]
      rw [hq.1] at hturns
      refine hturns.join hpa fun j hj => ?_
      rw [List.mem_singleton.1 hj]
      exact lt_succ_self p
    · refine .starting ha hap.symm hq.2 ?_
      rw [r.settle_awaits value (by omega) ((hiff a ha).2 ⟨rfl, hap, hphase⟩)]
  · have hnot : ∀ j < r.calls, (r.reads j).awaits p = false := by
      refine fun j hj => Bool.eq_false_iff.2 fun hawaits => ?_
      obtain ⟨rfl, hnext'⟩ := (hiff j hj).1 hawaits
      exact hnext ⟨hj, hnext'⟩
    have hjobs : (r.settle p value).jobs = r.jobs ++ [p] := by
      show r.jobs ++ _ ++ [p] = _
      rw [filter_range_eq_nil hnot, List.append_nil]
    have ha : a < r.calls → (r.settle p value).reads a = r.reads a :=
      fun ha => r.settle_ne value (ne_of_gt hpa) (hnot a ha)
    refine ⟨q, ⟨?_, hpa, h.a_le, hstages, hjobs ▸ hturns, h.answered, h.latest⟩, ?_⟩
    · exact le_succ_of_le h.m_le
    · cases ht with
      | none hcalls ho => exact .none hcalls ho
      | waits hcalls hp ho hphase =>
        refine .waits hcalls ?_ ho ((congrArg _ (ha hcalls)).trans hphase)
        refine lt_of_le_of_ne hp fun heq => hnext ⟨hcalls, heq.symm, ?_⟩
        rw [hphase, ← heq]
        rfl
      | starting _ hp => exact absurd hp (Nat.ne_of_lt hpa)
      | blocked hcalls ho hphase =>
        exact .blocked hcalls ((ha hcalls).symm ▸ ho) ((congrArg _ (ha hcalls)).trans hphase)
      | woken hcalls ho hphase hevent =>
        exact .woken hcalls ((ha hcalls).symm ▸ ho) ((congrArg _ (ha hcalls)).trans hphase) hevent

end Jco.Stream.HostReads

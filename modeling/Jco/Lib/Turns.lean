import Mathlib.Data.List.Basic

/-! # Queues with two turns

Numbered clients queue up twice. Each joins at the end, in the order of the numbers; after
its first turn it joins again, at the end, and after the second it is done. Whoever is
before it, the turns of either kind come in the order of the numbers.
-/

namespace Jco.Lib

open List

/-- The clients below `m` are done; those from there to `p` queue for their second turn
and those from `p` to `q` for the first one. -/
structure Turns (queue : List Nat) (m p q : Nat) : Prop where
  second : queue.filter (· < p) = List.range' m (p - m)
  first : queue.filter (p ≤ ·) = List.range' p (q - p)

namespace Turns

variable {queue : List Nat} {k m p q : Nat}

theorem nil (m : Nat) : Turns [] m m m where
  second := by rw [Nat.sub_self]; rfl
  first := by rw [Nat.sub_self]; rfl

theorem eq_nil (h : Turns queue m m m) : queue = [] := by
  have hsecond := h.second
  have hfirst := h.first
  rw [Nat.sub_self, List.range'_zero, filter_eq_nil_iff] at hsecond hfirst
  refine eq_nil_iff_forall_not_mem.2 fun j hj => ?_
  rcases Nat.lt_or_ge j m with hlt | hge
  · exact hsecond j hj (decide_eq_true hlt)
  · exact hfirst j hj (decide_eq_true hge)

/-- The next client joins; the ones that join with it go on to their second turn. -/
theorem join {queue' : List Nat} (h : Turns (queue ++ queue') m p q) (hpq : p ≤ q)
    (hqueue' : ∀ j ∈ queue', j < p) : Turns (queue ++ q :: queue') m p (q + 1) where
  second := by
    have hq : decide (q < p) = false := decide_eq_false (Nat.not_lt.2 hpq)
    rw [← h.second, filter_append, filter_append, filter_cons, hq]
    rfl
  first := by
    have hq : decide (p ≤ q) = true := decide_eq_true hpq
    have hnone : queue'.filter (p ≤ ·) = [] := by
      refine filter_eq_nil_iff.2 fun j hj hle => ?_
      exact absurd (hqueue' j hj) (Nat.not_lt.2 (of_decide_eq_true hle))
    have hfirst := h.first
    rw [filter_append, hnone, append_nil] at hfirst
    rw [filter_append, filter_cons, hq, if_pos rfl, hfirst, hnone,
      Nat.succ_sub hpq, List.range'_concat, Nat.one_mul, Nat.add_sub_cancel' hpq]

/-- A second turn is the one of the first client that is not done. -/
theorem secondTurn (h : Turns (k :: queue) m p q) (hk : k < p) :
    k = m ∧ Turns queue (m + 1) p q := by
  have hsecond := h.second
  have hfirst := h.first
  rw [filter_cons, decide_eq_true hk, if_pos rfl] at hsecond
  rw [filter_cons, decide_eq_false (Nat.not_le.2 hk), if_neg Bool.false_ne_true] at hfirst
  cases hn : p - m with
  | zero =>
    rw [hn] at hsecond
    cases hsecond
  | succ n =>
    rw [hn, List.range'_succ] at hsecond
    obtain ⟨hm, hrest⟩ := List.cons.inj hsecond
    refine ⟨hm, ?_, hfirst⟩
    rw [hrest]
    congr 1
    omega

/-- A first turn is the one of the first client without one. -/
theorem firstTurn (h : Turns (k :: queue) m p q) (hmp : m ≤ p) (hk : p ≤ k) :
    k = p ∧ p < q ∧ Turns (queue ++ [p]) m (p + 1) q := by
  have hsecond := h.second
  have hfirst := h.first
  rw [filter_cons, decide_eq_false (Nat.not_lt.2 hk), if_neg Bool.false_ne_true] at hsecond
  rw [filter_cons, decide_eq_true hk, if_pos rfl] at hfirst
  cases hn : q - p with
  | zero =>
    rw [hn] at hfirst
    cases hfirst
  | succ n =>
    rw [hn, List.range'_succ] at hfirst
    obtain ⟨hp, hrest⟩ := List.cons.inj hfirst
    -- the client is not in the queue any more
    have hnot : ∀ j ∈ queue, j ≠ p := by
      rintro j hj rfl
      have hmem : j ∈ queue.filter (j ≤ ·) :=
        mem_filter.2 ⟨hj, decide_eq_true (Nat.le_refl j)⟩
      rw [hrest, mem_range'_1] at hmem
      omega
    refine ⟨hp, by omega, ?_, ?_⟩
    · have hsame : queue.filter (· < p + 1) = queue.filter (· < p) := by
        refine filter_congr fun j hj => ?_
        have hne := hnot j hj
        exact decide_eq_decide.2 ⟨fun _ => by omega, fun _ => by omega⟩
      have hp' : [p].filter (· < p + 1) = [p] := by simp
      rw [filter_append, hsame, hsecond, hp', show p + 1 - m = p - m + 1 by omega,
        List.range'_concat, Nat.one_mul, Nat.add_sub_cancel' hmp]
    · have hsame : queue.filter (p + 1 ≤ ·) = queue.filter (p ≤ ·) := by
        refine filter_congr fun j hj => ?_
        have hne := hnot j hj
        exact decide_eq_decide.2 ⟨fun _ => by omega, fun _ => by omega⟩
      have hp' : [p].filter (p + 1 ≤ ·) = [] := by simp
      rw [filter_append, hsame, hrest, hp', append_nil]
      congr 1
      omega

/-- The only client without a first turn leaves the queue. -/
theorem leave (h : Turns (p :: queue) m p (p + 1)) : Turns queue m p p := by
  have hsecond := h.second
  have hfirst := h.first
  rw [filter_cons, decide_eq_false (Nat.lt_irrefl p), if_neg Bool.false_ne_true] at hsecond
  rw [filter_cons, decide_eq_true (Nat.le_refl p), if_pos rfl, Nat.add_sub_cancel_left] at hfirst
  refine ⟨hsecond, ?_⟩
  rw [Nat.sub_self]
  exact (List.cons.inj hfirst).2

/-- It comes back to the front. -/
theorem enter (h : Turns queue m p p) : Turns (p :: queue) m p (p + 1) where
  second := by
    rw [filter_cons, decide_eq_false (Nat.lt_irrefl p), if_neg Bool.false_ne_true]
    exact h.second
  first := by
    have hfirst := h.first
    rw [Nat.sub_self] at hfirst
    rw [filter_cons, decide_eq_true (Nat.le_refl p), if_pos rfl, hfirst,
      Nat.add_sub_cancel_left]
    rfl

end Turns

end Jco.Lib

import Mathlib

/-! # Trees told breadth first

1. `listing` is the loop over a queue that tells a tree in breadth-first order,
   each node with the position of its parent; `Listed` is what holds of it
   after every round.
2. `rebuild` is the loop that gathers the tree again, by searching one shared
   list for the children of a position and taking them out.
3. `rebuild_listing` connects the two: the tree comes back, folded bottom-up.
-/

namespace Jco.Breadth

open List

variable {α β ε : Type*}

/-- Trees beside each other: the first with its children, and the rest. -/
inductive Forest (α : Type*) where
  | nil
  | cons (label : α) (children rest : Forest α)

namespace Forest

def trees : Forest α → List (α × Forest α)
  | nil => []
  | cons label children rest => (label, children) :: rest.trees

def size : Forest α → Nat
  | nil => 0
  | cons _ children rest => children.size + rest.size + 1

/-- A bottom-up computation, tree by tree. -/
def fold (f : α → List β → β) : Forest α → List β
  | nil => []
  | cons label children rest => f label (children.fold f) :: rest.fold f

def labels : Forest α → List α
  | nil => []
  | cons label children rest => label :: (children.labels ++ rest.labels)

theorem mem_labels {ts : Forest α} {a : α} :
    a ∈ ts.labels ↔ ∃ t ∈ ts.trees, a = t.1 ∨ a ∈ t.2.labels := by
  induction ts with
  | nil => simp [labels, trees]
  | cons label children rest _ ih =>
    rw [labels, trees, mem_cons, mem_append, ih]
    simp only [mem_cons, exists_eq_or_imp, or_assoc]

theorem fold_eq_map (f : α → List β → β) (ts : Forest α) :
    ts.fold f = ts.trees.map fun t => f t.1 (t.2.fold f) := by
  induction ts with
  | nil => rfl
  | cons label children rest _ ih => rw [fold, trees, map_cons, ih]

end Forest

/-! ## Breadth first -/

/-- A tree with the position of its parent. -/
abbrev Visit (α : Type*) := Option Nat × α × Forest α

/-- The nodes that wait in a queue, counted. -/
def waiting : List (Visit α) → Nat
  | [] => 0
  | v :: queue => v.2.2.size + 1 + waiting queue

/-- The loop over the queue, `fuel` rounds at most. -/
def listingFrom : Nat → List (Visit α) → List (Visit α) → List (Visit α)
  | fuel + 1, visit :: queue, done =>
    listingFrom fuel (queue ++ visit.2.2.trees.map fun t => (some done.length, t))
      (done ++ [visit])
  | _, _, done => done

/-- All nodes of a tree, breadth first. -/
def listing (t : α × Forest α) : List (Visit α) :=
  listingFrom (t.2.size + 1) [(none, t)] []

theorem waiting_append (xs ys : List (Visit α)) :
    waiting (xs ++ ys) = waiting xs + waiting ys := by
  induction xs with
  | nil => rw [nil_append, waiting, Nat.zero_add]
  | cons x xs ih =>
    rw [cons_append, waiting, waiting, ih]
    omega

theorem waiting_children (ts : Forest α) (p : Option Nat) :
    waiting (ts.trees.map fun t => (p, t)) = ts.size := by
  induction ts with
  | nil => rfl
  | cons label children rest _ ih =>
    rw [Forest.trees, map_cons, waiting, ih, Forest.size]
    dsimp only
    omega

/-- The visits below position `k`. -/
def below (k : Nat) (visits : List (Visit α)) : List (Visit α) :=
  visits.filter fun v : Visit α => v.1 = some k

/-- What holds of the nodes visited and waiting after `n` rounds: those visited
node is the root and every other stands after its parent. -/
structure Listed (root : α × Forest α) (visits : List (Visit α)) (n : Nat) : Prop where
  children : ∀ (k : Nat) (v : Visit α), k < n → visits[k]? = some v →
    below k visits = v.2.2.trees.map fun t => (some k, t)
  pending : ∀ k, n ≤ k → below k visits = []
  root : visits[0]? = some (none, root)
  later : ∀ (i k : Nat) (v : Visit α), visits[i]? = some v → v.1 = some k → k < i
  rooted : ∀ (i : Nat) (v : Visit α), visits[i]? = some v → v.1 = none → i = 0

theorem below_append (k : Nat) (xs ys : List (Visit α)) :
    below k (xs ++ ys) = below k xs ++ below k ys :=
  filter_append xs ys

theorem below_children (k j : Nat) (ts : Forest α) :
    below k (ts.trees.map fun t => (some j, t)) =
      if j = k then ts.trees.map fun t => (some j, t) else [] := by
  unfold below
  rw [filter_map]
  by_cases h : j = k
  · rw [if_pos h, filter_eq_self.mpr (fun t _ => by simp [h])]
  · rw [if_neg h, filter_eq_nil_iff.mpr (fun t _ => by simp [h]), map_nil]

theorem Listed.start (t : α × Forest α) : Listed t [(none, t)] 0 where
  children := fun k v hk _ => absurd hk (Nat.not_lt_zero k)
  pending := fun k _ => by simp [below]
  root := rfl
  later := by
    intro i k v hv hp
    cases i with
    | zero =>
      rw [List.getElem?_cons_zero, Option.some.injEq] at hv
      subst hv
      exact nomatch hp
    | succ i => exact nomatch hv
  rooted := by
    intro i v hv _
    cases i with
    | zero => rfl
    | succ i => exact nomatch hv

/-- One round. -/
theorem Listed.round {t : α × Forest α} {visits : List (Visit α)} {n : Nat} {v : Visit α}
    (h : Listed t visits n) (hv : visits[n]? = some v) :
    Listed t (visits ++ v.2.2.trees.map fun c => (some n, c)) (n + 1) := by
  have hn : n < visits.length := (List.getElem?_eq_some_iff.mp hv).1
  -- a new node at the end of the list is a child of the node visited
  have hnew : ∀ i w, visits.length ≤ i →
      (visits ++ v.2.2.trees.map fun c => (some n, c))[i]? = some w → w.1 = some n := by
    intro i w hi hw
    rw [List.getElem?_append_right hi, List.getElem?_map, Option.map_eq_some_iff] at hw
    obtain ⟨c, _, hc⟩ := hw
    rw [← hc]
  exact {
    children := by
      intro k w hk hw
      rw [List.getElem?_append_left (by omega)] at hw
      rw [below_append, below_children]
      by_cases hkn : n = k
      · subst hkn
        have hsame : v = w := Option.some.inj (hv.symm.trans hw)
        rw [h.pending n (Nat.le_refl n), if_pos rfl, nil_append, hsame]
      · rw [h.children k w (by omega) hw, if_neg hkn, append_nil]
    pending := by
      intro k hk
      rw [below_append, below_children, h.pending k (by omega), if_neg (by omega),
        append_nil]
    root := by
      rw [List.getElem?_append_left (by omega)]
      exact h.root
    later := by
      intro i k w hw hp
      by_cases hi : i < visits.length
      · rw [List.getElem?_append_left hi] at hw
        exact h.later i k w hw hp
      · have hwn := hnew i w (by omega) hw
        rw [hp, Option.some.injEq] at hwn
        omega
    rooted := by
      intro i w hw hp
      by_cases hi : i < visits.length
      · rw [List.getElem?_append_left hi] at hw
        exact h.rooted i w hw hp
      · have hwn := hnew i w (by omega) hw
        rw [hp] at hwn
        exact nomatch hwn }

/-- The whole run: with enough fuel the queue ends empty. -/
theorem listed_listingFrom {t : α × Forest α} (fuel : Nat) (queue done : List (Visit α))
    (hfuel : waiting queue ≤ fuel) (h : Listed t (done ++ queue) done.length) :
    Listed t (listingFrom fuel queue done) (listingFrom fuel queue done).length := by
  induction fuel generalizing queue done with
  | zero =>
    cases queue with
    | nil => rwa [append_nil] at h
    | cons visit queue =>
      rw [waiting] at hfuel
      omega
  | succ fuel ih =>
    cases queue with
    | nil => rwa [append_nil] at h
    | cons visit queue =>
      rw [listingFrom]
      apply ih
      · rw [waiting_append, waiting_children]
        rw [waiting] at hfuel
        omega
      · have hvisit : (done ++ visit :: queue)[done.length]? = some visit := by
          rw [List.getElem?_append_right (Nat.le_refl _), Nat.sub_self, List.getElem?_cons_zero]
        have hround := h.round hvisit
        rw [length_append, length_singleton]
        simpa only [append_assoc, cons_append, nil_append] using hround

theorem listed_listing (t : α × Forest α) : Listed t (listing t) (listing t).length := by
  apply listed_listingFrom
  · exact Nat.le_refl _
  · exact Listed.start t

/-- The loop tells the nodes done and the nodes of the trees that wait, and no
others. -/
theorem exists_mem_listingFrom {fuel : Nat} {queue done : List (Visit α)}
    (hfuel : waiting queue ≤ fuel) (a : α) :
    (∃ v ∈ listingFrom fuel queue done, v.2.1 = a) ↔
      (∃ v ∈ done, v.2.1 = a) ∨ ∃ v ∈ queue, a = v.2.1 ∨ a ∈ v.2.2.labels := by
  induction fuel generalizing queue done with
  | zero =>
    cases queue with
    | nil => simp [listingFrom]
    | cons visit queue =>
      rw [waiting] at hfuel
      omega
  | succ fuel ih =>
    cases queue with
    | nil => simp [listingFrom]
    | cons visit queue =>
      rw [listingFrom, ih]
      · -- what stands in the tree just visited now waits
        have hvisit : a ∈ visit.2.2.labels ↔
            ∃ t ∈ visit.2.2.trees, a = t.1 ∨ a ∈ t.2.labels := Forest.mem_labels
        have hroot : visit.2.1 = a ↔ a = visit.2.1 := eq_comm
        simp only [mem_append, mem_map, mem_cons, not_mem_nil, or_false,
          or_and_right, exists_or, exists_eq_left, exists_exists_and_eq_and, hvisit, hroot]
        simp only [or_assoc, or_comm, or_left_comm]
      · rw [waiting_append, waiting_children]
        rw [waiting] at hfuel
        omega

theorem exists_mem_listing (t : α × Forest α) (a : α) :
    (∃ v ∈ listing t, v.2.1 = a) ↔ a = t.1 ∨ a ∈ t.2.labels := by
  have hwaiting : waiting [(none, t)] ≤ t.2.size + 1 := Nat.le_refl _
  rw [listing, exists_mem_listingFrom hwaiting]
  simp

/-! ## Gathering the tree again

`before` are the entries that the search at hand has passed, `after` those it
has not come to. -/

/-- The entries of `after` with parent `k`, each finished with its own children
gathered first, and the entries that are left. A gathered entry leaves the
shared list at once, so `fuel` counts entries. -/
def rebuild (index : ε → Nat) (parent : ε → Option Nat) (finish : ε → List β → β) :
    Nat → Nat → List ε → List ε → List β × List ε
  | _, _, before, [] => ([], before)
  | 0, _, before, after => ([], before ++ after)
  | fuel + 1, k, before, e :: after =>
    if parent e = some k then
      let (children, nodes) := rebuild index parent finish fuel (index e) [] (before ++ after)
      let (siblings, left) := rebuild index parent finish fuel k
        (nodes.take before.length) (nodes.drop before.length)
      (finish e children :: siblings, left)
    else
      rebuild index parent finish (fuel + 1) k (before ++ [e]) after
termination_by fuel _ _ after => (fuel, after.length)

section Rebuild

variable (index : ε → Nat) (parent : ε → Option Nat) (all : List ε)

/-- `e` stands under position `k`, at any depth. -/
inductive Under (k : Nat) : ε → Prop where
  | child {e : ε} : e ∈ all → parent e = some k → Under k e
  | deeper {d e : ε} : Under k d → e ∈ all → parent e = some (index d) → Under k e

variable {index parent all}

variable {k : Nat} {e : ε}

theorem Under.mem (h : Under index parent all k e) : e ∈ all := by
  cases h with
  | child he _ => exact he
  | deeper _ he _ => exact he

theorem Under.extend {d e : ε} (hd : Under index parent all k d)
    (he : Under index parent all (index d) e) : Under index parent all k e := by
  induction he with
  | child he hp => exact .deeper hd he hp
  | deeper _ he hp ih => exact .deeper ih he hp

/-- The first step down from `k`. -/
theorem Under.first (h : Under index parent all k e) :
    parent e = some k ∨
      ∃ c ∈ all, parent c = some k ∧ Under index parent all (index c) e := by
  induction h with
  | child _ hp => exact .inl hp
  | @deeper d e hd he hp ih =>
    rcases ih with hdk | ⟨c, hc, hck, hcd⟩
    · exact .inr ⟨d, hd.mem, hdk, .child he hp⟩
    · exact .inr ⟨c, hc, hck, .deeper hcd he hp⟩

/-- Entries in the order of their indices, parents first. -/
structure Ordered (index : ε → Nat) (parent : ε → Option Nat) (all : List ε) : Prop where
  sorted : all.Pairwise fun a b => index a < index b
  later : ∀ e ∈ all, ∀ k, parent e = some k → k < index e

variable (hall : Ordered index parent all)

include hall

theorem Ordered.under_lt (h : Under index parent all k e) : k < index e := by
  induction h with
  | child he hp => exact hall.later _ he _ hp
  | deeper _ he hp ih => exact Nat.lt_trans ih (hall.later _ he _ hp)

theorem Ordered.index_inj {a b : ε} (ha : a ∈ all) (hb : b ∈ all) (h : index a = index b) :
    a = b := by
  by_contra hne
  have hdistinct := hall.sorted.imp (S := fun a b => index a ≠ index b) Nat.ne_of_lt
  have : Std.Symm fun a b : ε => index a ≠ index b := ⟨fun _ _ h => h.symm⟩
  exact hdistinct.forall ha hb hne h

/-- Siblings do not stand under each other. -/
theorem Ordered.not_under_sibling {a b : ε} (ha : a ∈ all) (hak : parent a = some k)
    (hbk : parent b = some k) : ¬ Under index parent all (index a) b := by
  have hka := hall.later a ha k hak
  intro hab
  cases hab with
  | child _ hb =>
    rw [hbk, Option.some.injEq] at hb
    omega
  | deeper hd _ hb =>
    have hlt := hall.under_lt hd
    rw [hbk, Option.some.injEq] at hb
    omega

/-- Nothing stands under two siblings. -/
theorem Ordered.under_disjoint {a b e : ε} (ha : a ∈ all) (hb : b ∈ all)
    (hak : parent a = some k) (hbk : parent b = some k) (hne : a ≠ b)
    (hae : Under index parent all (index a) e) : ¬ Under index parent all (index b) e := by
  induction hae with
  | child _ hpa =>
    intro hbe
    cases hbe with
    | child _ hpb => exact hne (hall.index_inj ha hb (Option.some.inj (hpa.symm.trans hpb)))
    | deeper hd _ hpb =>
      have hda := hall.index_inj ha hd.mem (Option.some.inj (hpa.symm.trans hpb))
      exact hall.not_under_sibling hb hbk hak (hda ▸ hd)
  | deeper hd _ hpa ih =>
    intro hbe
    cases hbe with
    | child _ hpb =>
      have hdb := hall.index_inj hd.mem hb (Option.some.inj (hpa.symm.trans hpb))
      exact hall.not_under_sibling ha hak hbk (hdb ▸ hd)
    | deeper hd' _ hpb =>
      have hdd := hall.index_inj hd.mem hd'.mem (Option.some.inj (hpa.symm.trans hpb))
      exact ih (hdd ▸ hd')

omit hall in
/-- A sublist that keeps what `p` holds of filters to the same. -/
theorem filter_eq_of_sublist {p : ε → Bool} {nodes all : List ε} (h : nodes.Sublist all)
    (hnodup : all.Nodup) (hkeeps : ∀ e ∈ all, p e → e ∈ nodes) :
    nodes.filter p = all.filter p := by
  induction h with
  | slnil => rfl
  | @cons nodes all e hsub ih =>
    rw [nodup_cons] at hnodup
    have hout : ¬ p e := fun hp =>
      hnodup.1 (hsub.subset (hkeeps e mem_cons_self hp))
    rw [filter_cons_of_neg hout]
    exact ih hnodup.2 fun d hd => hkeeps d (mem_cons_of_mem e hd)
  | @cons_cons nodes all e hsub ih =>
    rw [nodup_cons] at hnodup
    rw [filter_cons, filter_cons, ih hnodup.2]
    intro d hd hp
    rcases mem_cons.mp (hkeeps d (mem_cons_of_mem e hd) hp) with rfl | hd'
    · exact absurd hd hnodup.1
    · exact hd'

/-- What holds before each round of the search for the children of `k`: nothing
passed stands under `k`; what is to come and stands under `k` does so through
children of `k` to come, and of those all descendants are still to come. -/
structure Searching (index : ε → Nat) (parent : ε → Option Nat) (all : List ε) (k : Nat)
    (before after : List ε) : Prop where
  sub : (before ++ after).Sublist all
  passed : ∀ e ∈ before, ¬ Under index parent all k e
  reached : ∀ e ∈ after, Under index parent all k e → parent e = some k ∨
    ∃ c ∈ after, parent c = some k ∧ Under index parent all (index c) e
  whole : ∀ c ∈ after, parent c = some k → ∀ e, Under index parent all (index c) e → e ∈ after

variable {before after : List ε}

/-- An entry after the first has a larger index. -/
theorem Ordered.index_lt {e d : ε}
    (hsub : (before ++ e :: after).Sublist all) (hd : d ∈ after) : index e < index d := by
  have hsorted := (pairwise_append.mp (hall.sorted.sublist hsub)).2.1
  exact (pairwise_cons.mp hsorted).1 d hd

/-- An entry that is no child is passed. -/
theorem Searching.pass
    (h : Searching index parent all k before (e :: after)) (he : parent e ≠ some k) :
    Searching index parent all k (before ++ [e]) after := by
  -- the entry stands before all that are to come, so under none of them
  have hnot : ∀ c ∈ after, ¬ Under index parent all (index c) e := fun c hc hce =>
    absurd (hall.under_lt hce) (Nat.lt_asymm (hall.index_lt h.sub hc))
  exact {
    sub := by simpa using h.sub
    passed := by
      intro d hd hkd
      rcases mem_append.mp hd with hd | hd
      · exact h.passed d hd hkd
      rw [mem_singleton] at hd
      subst hd
      rcases h.reached d mem_cons_self hkd with hp | ⟨c, hc, hck, hcd⟩
      · exact he hp
      rcases mem_cons.mp hc with rfl | hc
      · exact he hck
      · exact hnot c hc hcd
    reached := by
      intro d hd hkd
      rcases h.reached d (mem_cons_of_mem e hd) hkd with hp | ⟨c, hc, hck, hcd⟩
      · exact .inl hp
      rcases mem_cons.mp hc with rfl | hc
      · exact absurd hck he
      · exact .inr ⟨c, hc, hck, hcd⟩
    whole := by
      intro c hc hck d hcd
      rcases mem_cons.mp (h.whole c (mem_cons_of_mem e hc) hck d hcd) with rfl | hd
      · exact absurd hcd (hnot c hc)
      · exact hd }

/-- What stands under a child is still to come. -/
theorem Searching.keeps {d e : ε}
    (h : Searching index parent all k before (e :: after)) (he : parent e = some k)
    (hd : Under index parent all (index e) d) : d ∈ after := by
  rcases mem_cons.mp (h.whole e mem_cons_self he d hd) with rfl | hd'
  · exact absurd (hall.under_lt hd) (Nat.lt_irrefl _)
  · exact hd'

/-- The search for the children of a child starts over the list without it. -/
theorem Searching.enter
    (h : Searching index parent all k before (e :: after)) (he : parent e = some k) :
    Searching index parent all (index e) [] (before ++ after) := by
  have hbelow : ∀ d, Under index parent all (index e) d → d ∈ before ++ after :=
    fun d hd => mem_append_right before (h.keeps hall he hd)
  exact {
    sub := List.Sublist.trans
      (List.Sublist.append_left (sublist_cons_self e after) before) h.sub
    passed := fun d hd => nomatch hd
    reached := by
      intro d _ hd
      rcases hd.first with hp | ⟨c, hc, hce, hcd⟩
      · exact .inl hp
      · exact .inr ⟨c, hbelow c (.child hc hce), hce, hcd⟩
    whole := by
      intro c hc hce d hcd
      have hmem : c ∈ all := (List.Sublist.trans
        (List.Sublist.append_left (sublist_cons_self e after) before) h.sub).subset hc
      exact hbelow d ((Under.child hmem hce).extend hcd) }

open Classical in
/-- After a child has been gathered with all that stands under it, the search
goes on. -/
theorem Searching.next
    (h : Searching index parent all k before (e :: after)) (he : parent e = some k) :
    Searching index parent all k before
      (after.filter fun d => ¬ Under index parent all (index e) d) := by
  have hmem : ∀ d ∈ after, d ∈ all := fun d hd =>
    h.sub.subset (mem_append_right before (mem_cons_of_mem e hd))
  have hall_e : e ∈ all := h.sub.subset (mem_append_right before mem_cons_self)
  have hne : ∀ d ∈ after, e ≠ d := by
    rintro d hd rfl
    exact absurd (hall.index_lt h.sub hd) (Nat.lt_irrefl _)
  exact {
    sub := List.Sublist.trans (List.Sublist.append_left
      (List.Sublist.trans filter_sublist (sublist_cons_self e after)) before) h.sub
    passed := h.passed
    reached := by
      intro d hd hkd
      rw [mem_filter, decide_eq_true_eq] at hd
      rcases h.reached d (mem_cons_of_mem e hd.1) hkd with hp | ⟨c, hc, hck, hcd⟩
      · exact .inl hp
      rcases mem_cons.mp hc with rfl | hc
      · exact absurd hcd hd.2
      · have hout := hall.not_under_sibling hall_e he hck
        exact .inr ⟨c, mem_filter.mpr ⟨hc, decide_eq_true hout⟩, hck, hcd⟩
    whole := by
      intro c hc hck d hcd
      rw [mem_filter] at hc
      have hout := hall.under_disjoint (hmem c hc.1) hall_e hck he (hne c hc.1).symm hcd
      rcases mem_cons.mp (h.whole c (mem_cons_of_mem e hc.1) hck d hcd) with rfl | hd
      · exact absurd hcd (hall.not_under_sibling (hmem c hc.1) hck he)
      · exact mem_filter.mpr ⟨hd, decide_eq_true hout⟩ }

open Classical in
/-- The search gathers the children of `k` and takes out what stands under `k`.
`value` is what an entry is finished to. -/
theorem rebuild_eq {finish : ε → List β → β} {value : ε → β}
    (hvalue : ∀ e ∈ all,
      value e = finish e ((all.filter fun d => parent d = some (index e)).map value))
    (fuel k : Nat) (before after : List ε) (hfuel : before.length + after.length ≤ fuel)
    (h : Searching index parent all k before after) :
    rebuild index parent finish fuel k before after =
      ((after.filter fun d => parent d = some k).map value,
        before ++ after.filter fun d => ¬ Under index parent all k d) := by
  fun_induction rebuild index parent finish fuel k before after with
  | case1 fuel k before => simp
  | case2 k before after hne =>
    -- without fuel there is nothing left to search
    cases after with
    | nil => exact absurd rfl hne
    | cons e after =>
      rw [length_cons] at hfuel
      omega
  | case3 fuel k before e after he children nodes hinner siblings left hrest ih1 ih2 =>
    have hlen : before.length + after.length ≤ fuel := by
      rw [length_cons] at hfuel
      omega
    have he_mem : e ∈ all := h.sub.subset (mem_append_right before mem_cons_self)
    have henter := h.enter hall he
    -- the inner search gathers all children of `e`
    have hchildren : (before ++ after).filter (fun d => parent d = some (index e)) =
        all.filter fun d => parent d = some (index e) := by
      apply filter_eq_of_sublist henter.sub (hall.sorted.imp (S := (· ≠ ·)) (by grind))
      intro d hd hp
      exact mem_append_right before (h.keeps hall he (.child hd (by simpa using hp)))
    -- and leaves what came before, and after it what does not stand under `e`
    have hbefore : before.filter (fun d => ¬ Under index parent all (index e) d) = before :=
      filter_eq_self.mpr fun d hd =>
        decide_eq_true fun hed => h.passed d hd ((Under.child he_mem he).extend hed)
    rw [ih1 (by simpa using hlen) henter, nil_append, hchildren, filter_append,
      hbefore, Prod.mk.injEq] at hinner
    obtain ⟨rfl, rfl⟩ := hinner
    rw [take_left, drop_left] at hrest ih2
    have hshort := length_filter_le
      (fun d => ¬ Under index parent all (index e) d) after
    rw [ih2 (by omega) (h.next hall he), Prod.mk.injEq] at hrest
    obtain ⟨rfl, rfl⟩ := hrest
    have hsiblings : (after.filter fun d => ¬ Under index parent all (index e) d).filter
        (fun d => parent d = some k) = after.filter fun d => parent d = some k := by
      rw [filter_filter]
      apply filter_congr
      intro d _
      have hout : parent d = some k → ¬ Under index parent all (index e) d :=
        hall.not_under_sibling he_mem he
      rw [← Bool.decide_and, decide_eq_decide]
      exact ⟨And.left, fun hd => ⟨hd, hout hd⟩⟩
    have hleft : (after.filter fun d => ¬ Under index parent all (index e) d).filter
        (fun d => ¬ Under index parent all k d) =
          after.filter fun d => ¬ Under index parent all k d := by
      rw [filter_filter]
      apply filter_congr
      intro d _
      have hout : ¬ Under index parent all k d → ¬ Under index parent all (index e) d :=
        fun hd hed => hd ((Under.child he_mem he).extend hed)
      rw [← Bool.decide_and, decide_eq_decide]
      exact ⟨And.left, fun hd => ⟨hd, hout hd⟩⟩
    rw [hsiblings, hleft, ← hvalue e he_mem, filter_cons_of_pos (by simpa using he),
      map_cons, filter_cons_of_neg (by simpa using Under.child he_mem he)]
  | case4 fuel k before e after he ih =>
    have hnot : ¬ Under index parent all k e :=
      (h.pass hall he).passed e (mem_append_right before mem_cons_self)
    rw [ih (by simpa [Nat.add_assoc, Nat.add_comm 1] using hfuel) (h.pass hall he),
      filter_cons_of_neg (by simpa using he),
      filter_cons_of_pos (by simpa using hnot), append_assoc, singleton_append]

/-- The search over the whole list finds the children of `k`. -/
theorem rebuild_all {finish : ε → List β → β} {value : ε → β}
    (hvalue : ∀ e ∈ all,
      value e = finish e ((all.filter fun d => parent d = some (index e)).map value))
    (k : Nat) :
    (rebuild index parent finish all.length k [] all).1 =
      (all.filter fun d => parent d = some k).map value := by
  rw [rebuild_eq hall hvalue all.length k [] all (by simp) {
    sub := List.Sublist.refl all
    passed := fun e he => nomatch he
    reached := by
      intro e _ hke
      exact hke.first
    whole := fun c _ _ e hce => hce.mem }]

end Rebuild

/-! ## There and back -/

section There

variable {index : ε → Nat} {parent : ε → Option Nat} {entry : Nat → Visit α → ε}

/-- The entries made from the visits, each with its position. -/
def entries (entry : Nat → Visit α → ε) (visits : List (Visit α)) : List ε :=
  visits.zipIdx.map fun v => entry v.2 v.1

/-- What the node of a visit is folded to. -/
def Visit.value (f : α → List β → β) (v : Visit α) : β := f v.2.1 (v.2.2.fold f)

variable {visits : List (Visit α)}

theorem mem_entries {e : ε} (h : e ∈ entries entry visits) :
    ∃ i v, visits[i]? = some v ∧ e = entry i v := by
  rw [entries, mem_map] at h
  obtain ⟨⟨v, i⟩, hv, he⟩ := h
  exact ⟨i, v, mem_zipIdx_iff_getElem?.mp hv, he.symm⟩

/-- Entries under a position and the visits they are made from. -/
theorem map_filter_entries (hparent : ∀ i v, parent (entry i v) = v.1) {value : ε → β}
    {g : Visit α → β}
    (hvalue : ∀ i v, visits[i]? = some v → value (entry i v) = g v) (k : Nat) :
    ((entries entry visits).filter fun e => parent e = some k).map value =
      (below k visits).map g := by
  have hvisits : visits.zipIdx.map Prod.fst = visits := zipIdx_map_fst 0 visits
  have hfilter : (fun e => decide (parent e = some k)) ∘
      (fun v : Visit α × Nat => entry v.2 v.1) =
        fun v => decide (v.1.1 = some k) := by
    funext v
    rw [Function.comp_apply, hparent]
  have hbelow : below k visits = (visits.zipIdx.filter fun v => v.1.1 = some k).map Prod.fst := by
    rw [below]
    conv_lhs => rw [← hvisits, filter_map]
    rfl
  rw [entries, filter_map, map_map, hfilter, hbelow, map_map]
  apply map_congr_left
  rintro ⟨v, i⟩ hv
  exact hvalue i v (mem_zipIdx_iff_getElem?.mp (mem_filter.mp hv).1)

theorem ordered_entries (hindex : ∀ i v, index (entry i v) = i)
    (hparent : ∀ i v, parent (entry i v) = v.1) {root : α × Forest α}
    {n : Nat} (h : Listed root visits n) :
    Ordered index parent (entries entry visits) where
  sorted := by
    have hmap : (entries entry visits).map index = List.range' 0 visits.length := by
      rw [entries, map_map, ← zipIdx_map_snd]
      apply map_congr_left
      intro v _
      exact hindex v.2 v.1
    rw [← pairwise_map, hmap]
    exact pairwise_lt_range'
  later := by
    intro e he k hk
    obtain ⟨i, v, hv, rfl⟩ := mem_entries he
    rw [hindex]
    rw [hparent] at hk
    exact h.later i k v hv hk

/-- The search finds the trees below the root of a listing, each folded. -/
theorem rebuild_listing (hindex : ∀ i v, index (entry i v) = i)
    (hparent : ∀ i v, parent (entry i v) = v.1) {finish : ε → List β → β}
    {f : α → List β → β} (hfinish : ∀ i v bs, finish (entry i v) bs = f v.2.1 bs)
    (t : α × Forest α) :
    (rebuild index parent finish ((entries entry (listing t)).drop 1).length 0 []
      ((entries entry (listing t)).drop 1)).1 = t.2.fold f := by
  have hlisted := listed_listing t
  have hordered := ordered_entries hindex hparent hlisted
  -- every entry is finished to the fold of its tree
  let value : ε → β := fun e => ((listing t)[index e]?.getD (none, t)).value f
  have hvalue : ∀ i v, (listing t)[i]? = some v → value (entry i v) = v.value f := by
    intro i v hv
    dsimp only [value]
    rw [hindex, hv, Option.getD_some]
  -- the root is in no filter: it has no parent
  have hdrop : ∀ k, ((entries entry (listing t)).drop 1).filter (fun e => parent e = some k) =
      (entries entry (listing t)).filter fun e => parent e = some k := by
    intro k
    cases hvisits : listing t with
    | nil => rfl
    | cons v visits =>
      have hroot := hlisted.root
      rw [hvisits, List.getElem?_cons_zero, Option.some.injEq] at hroot
      rw [entries, zipIdx_cons, map_cons, drop_succ_cons, drop_zero,
        filter_cons_of_neg (by simp [hparent, hroot])]
  have hchildren : ∀ i v, (listing t)[i]? = some v →
      (((entries entry (listing t)).drop 1).filter fun e => parent e = some i).map value =
        v.2.2.fold f := by
    intro i v hv
    have hi : i < (listing t).length := (List.getElem?_eq_some_iff.mp hv).1
    rw [hdrop, map_filter_entries hparent hvalue, hlisted.children i v hi hv, map_map,
      Forest.fold_eq_map]
    rfl
  have htail : Ordered index parent ((entries entry (listing t)).drop 1) := {
    sorted := hordered.sorted.sublist (drop_sublist 1 _)
    later := fun e he => hordered.later e (mem_of_mem_drop he) }
  have hfinished : ∀ e ∈ (entries entry (listing t)).drop 1, value e = finish e
      ((((entries entry (listing t)).drop 1).filter fun d =>
        parent d = some (index e)).map value) := by
    intro e he
    obtain ⟨i, v, hv, rfl⟩ := mem_entries (mem_of_mem_drop he)
    rw [hindex, hvalue i v hv, hchildren i v hv, hfinish]
    rfl
  rw [rebuild_all htail hfinished 0, hchildren 0 (none, t) hlisted.root]

end There

end Jco.Breadth

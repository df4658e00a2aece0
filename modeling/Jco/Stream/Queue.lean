import Jco.Stream.Buffer

/-! # Values that wait for a guest

What a host source has produced and no guest has read yet. The queue keeps the
chunks as they came; `offset` elements of the first one are gone already.
-/

namespace Jco.Stream

open List

variable {α : Type}

/-- No chunk of a queue is exhausted. -/
structure Unexhausted (chunks : List (List α)) (offset : Nat) : Prop where
  nonempty : ∀ chunk ∈ chunks, chunk ≠ []
  offset_lt : ∀ chunk, chunks.head? = some chunk → offset < chunk.length
  offset_nil : chunks = [] → offset = 0

theorem Unexhausted.tail {chunk : List α} {chunks : List (List α)} {offset : Nat}
    (h : Unexhausted (chunk :: chunks) offset) : Unexhausted chunks 0 where
  nonempty c hc := h.nonempty c (mem_cons_of_mem _ hc)
  offset_lt c hc := by
    refine length_pos_iff.2 (h.nonempty c (mem_cons_of_mem _ ?_))
    exact mem_of_mem_head? hc
  offset_nil _ := rfl

/-- The fields of a `PendingValueQueue` that hold its values. -/
structure PendingValueQueue (α : Type) where
  chunks : List (List α)
  offset : Nat
  length : Nat
  unexhausted : Unexhausted chunks offset
  length_eq : length = (chunks.flatten.drop offset).length

namespace PendingValueQueue

def contents (q : PendingValueQueue α) : List α := q.chunks.flatten.drop q.offset

theorem length_contents (q : PendingValueQueue α) : q.contents.length = q.length :=
  q.length_eq.symm

theorem contents_eq_nil {q : PendingValueQueue α} : q.contents = [] ↔ q.length = 0 := by
  rw [← q.length_contents, length_eq_zero_iff]

def empty : PendingValueQueue α where
  chunks := []
  offset := 0
  length := 0
  unexhausted := ⟨by simp, by simp, fun _ => rfl⟩
  length_eq := rfl

@[simp] theorem contents_empty : (empty : PendingValueQueue α).contents = [] := rfl

/-! ## At the ends of the queue -/

/-- The offset stays inside of the first chunk when a chunk is appended. -/
theorem drop_flatten_append {chunks : List (List α)} {offset : Nat}
    (h : Unexhausted chunks offset) (source : List α) :
    (chunks ++ [source]).flatten.drop offset = chunks.flatten.drop offset ++ source := by
  rw [flatten_append, flatten_singleton]
  cases chunks with
  | nil =>
    rw [h.offset_nil rfl]
    rfl
  | cons chunk chunks =>
    refine drop_append_of_le_length ?_
    have hlt := h.offset_lt chunk rfl
    rw [flatten_cons, length_append]
    omega

def push (q : PendingValueQueue α) (source : List α) : Nat × PendingValueQueue α :=
  if h : source = [] then (0, q)
  else
    (source.length, {
      chunks := q.chunks ++ [source]
      offset := q.offset
      length := q.length + source.length
      unexhausted := {
        nonempty := by
          intro chunk hchunk
          rcases List.mem_append.1 hchunk with hchunk | hchunk
          · exact q.unexhausted.nonempty chunk hchunk
          · exact List.mem_singleton.1 hchunk ▸ h
        offset_lt := by
          intro chunk hchunk
          cases hq : q.chunks with
          | nil =>
            rw [hq] at hchunk
            cases hchunk
            rw [q.unexhausted.offset_nil hq]
            exact List.length_pos_iff.2 h
          | cons first chunks =>
            rw [hq] at hchunk
            obtain rfl := Option.some.inj hchunk
            exact q.unexhausted.offset_lt first (by rw [hq]; rfl)
        offset_nil := by simp }
      length_eq := by
        rw [drop_flatten_append q.unexhausted, List.length_append, ← q.length_eq] })

theorem push_eq (q : PendingValueQueue α) (source : List α) :
    (q.push source).1 = source.length ∧ (q.push source).2.contents = q.contents ++ source := by
  unfold push
  split
  case isTrue h =>
    subst h
    exact ⟨rfl, (append_nil _).symm⟩
  case isFalse => exact ⟨rfl, drop_flatten_append q.unexhausted source⟩

/-- The chunks without the elements that are gone. -/
def trimmed (q : PendingValueQueue α) : List (List α) := q.chunks.modifyHead (·.drop q.offset)

theorem flatten_trimmed (q : PendingValueQueue α) : q.trimmed.flatten = q.contents := by
  unfold trimmed contents
  cases hq : q.chunks with
  | nil => simp
  | cons chunk chunks =>
    have hlt := q.unexhausted.offset_lt chunk (by rw [hq]; rfl)
    rw [modifyHead_cons, flatten_cons, flatten_cons,
      drop_append_of_le_length (Nat.le_of_lt hlt)]

theorem trimmed_nonempty (q : PendingValueQueue α) : ∀ chunk ∈ q.trimmed, chunk ≠ [] := by
  intro chunk hchunk
  have hnonempty := q.unexhausted.nonempty
  unfold trimmed at hchunk
  cases hq : q.chunks with
  | nil =>
    rw [hq] at hchunk
    cases hchunk
  | cons first chunks =>
    rw [hq] at hchunk hnonempty
    rcases mem_cons.1 hchunk with rfl | hchunk
    · have hlt := q.unexhausted.offset_lt first (by rw [hq]; rfl)
      rw [Ne, drop_eq_nil_iff]
      omega
    · exact hnonempty chunk (mem_cons_of_mem _ hchunk)

/-- The first chunk is sliced, so that the offset can start at the new one. -/
def prepend (q : PendingValueQueue α) (source : List α) : PendingValueQueue α :=
  if h : source = [] then q
  else {
    chunks := source :: q.trimmed
    offset := 0
    length := q.length + source.length
    unexhausted := {
      nonempty := by
        intro chunk hchunk
        rcases List.mem_cons.1 hchunk with rfl | hchunk
        · exact h
        · exact q.trimmed_nonempty chunk hchunk
      offset_lt := by
        intro chunk hchunk
        cases hchunk
        exact List.length_pos_iff.2 h
      offset_nil := fun _ => rfl }
    length_eq := by
      rw [List.drop_zero, List.flatten_cons, q.flatten_trimmed, List.length_append,
        q.length_contents, Nat.add_comm] }

@[simp] theorem contents_prepend (q : PendingValueQueue α) (source : List α) :
    (q.prepend source).contents = source ++ q.contents := by
  unfold prepend
  split
  case isTrue h =>
    subst h
    rfl
  case isFalse =>
    show (source :: q.trimmed).flatten = _
    rw [flatten_cons, q.flatten_trimmed]

/-! ## Draining -/

/-- The loop of `drainInto`: the elements it pushes to its target, the chunks
that are left and the offset. A turn that leaves its chunk unfinished is the
last one. -/
def drainLoop : List (List α) → Nat → Nat → List α × List (List α) × Nat
  | chunks, offset, 0 => ([], chunks, offset)
  | [], offset, _ + 1 => ([], [], offset)
  | chunk :: chunks, offset, remaining + 1 =>
    let transfer := min (remaining + 1) (chunk.length - offset)
    let values := (chunk.drop offset).take transfer
    if offset + transfer = chunk.length then
      let (rest, left) := drainLoop chunks 0 (remaining + 1 - transfer)
      (values ++ rest, left)
    else (values, chunk :: chunks, offset + transfer)

theorem drainLoop_spec {chunks : List (List α)} {offset : Nat} (h : Unexhausted chunks offset)
    (n : Nat) {taken : List α} {chunks' : List (List α)} {offset' : Nat}
    (hloop : drainLoop chunks offset n = (taken, chunks', offset')) :
    Unexhausted chunks' offset' ∧ taken = (chunks.flatten.drop offset).take n ∧
      chunks'.flatten.drop offset' = (chunks.flatten.drop offset).drop n := by
  induction chunks generalizing offset n taken chunks' offset' with
  | nil =>
    cases n <;> cases hloop <;> simpa using h
  | cons chunk chunks ih =>
    cases n with
    | zero =>
      cases hloop
      exact ⟨h, rfl, rfl⟩
    | succ n =>
      have hlt := h.offset_lt chunk rfl
      have hdrop : (chunk :: chunks).flatten.drop offset = chunk.drop offset ++ chunks.flatten := by
        rw [flatten_cons, drop_append_of_le_length (Nat.le_of_lt hlt)]
      have hlen : (chunk.drop offset).length = chunk.length - offset := length_drop
      rw [hdrop]
      unfold drainLoop at hloop
      dsimp only at hloop
      split at hloop
      case isTrue hfinished =>
        -- the whole chunk goes, and the loop continues behind it
        have htransfer : min (n + 1) (chunk.length - offset) = (chunk.drop offset).length := by
          omega
        rcases hrest : drainLoop chunks 0 (n + 1 - min (n + 1) (chunk.length - offset)) with
          ⟨rest, chunks'', offset''⟩
        rw [hrest] at hloop
        obtain ⟨hwf, rfl, hleft⟩ := ih h.tail _ hrest
        cases hloop
        rw [drop_zero] at hleft
        have hle : (chunk.drop offset).length ≤ n + 1 := by omega
        refine ⟨hwf, ?_, ?_⟩
        · rw [drop_zero, htransfer, take_length, take_append,
            take_of_length_le hle]
        · rw [hleft, htransfer, drop_append, drop_of_length_le hle, nil_append]
      case isFalse hunfinished =>
        have htransfer : min (n + 1) (chunk.length - offset) = n + 1 := by omega
        rw [htransfer] at hloop hunfinished
        cases hloop
        have hle : n + 1 ≤ (chunk.drop offset).length := by omega
        refine ⟨⟨h.nonempty, ?_, fun h => by cases h⟩, ?_, ?_⟩
        · intro c hc
          cases hc
          omega
        · rw [take_append_of_le_length hle]
        · rw [drop_append_of_le_length hle, drop_drop, flatten_cons,
            drop_append_of_le_length (by omega)]

/-- `drainInto(target, maxCount)`: what it pushes to the target, and the queue. -/
def drainInto (q : PendingValueQueue α) (maxCount : Nat) : List α × PendingValueQueue α :=
  match h : drainLoop q.chunks q.offset (min maxCount q.length) with
  | (taken, chunks, offset) =>
    (taken, {
      chunks
      offset
      length := q.length - taken.length
      unexhausted := (drainLoop_spec q.unexhausted _ h).1
      length_eq := by
        obtain ⟨-, rfl, hleft⟩ := drainLoop_spec q.unexhausted _ h
        have hlength := q.length_eq
        rw [hleft, List.length_take, List.length_drop (i := min maxCount q.length), ← hlength]
        omega })

theorem drainInto_eq {q q' : PendingValueQueue α} {maxCount : Nat} {taken : List α}
    (h : q.drainInto maxCount = (taken, q')) :
    taken = q.contents.take maxCount ∧ q'.contents = q.contents.drop maxCount := by
  have hmin : ∀ xs : List α, xs.length = q.length →
      xs.take (min maxCount q.length) = xs.take maxCount ∧
        xs.drop (min maxCount q.length) = xs.drop maxCount := by
    intro xs hxs
    rcases Nat.le_total maxCount q.length with hle | hle
    · rw [Nat.min_eq_left hle]
      exact ⟨rfl, rfl⟩
    · rw [Nat.min_eq_right hle, take_of_length_le (by omega), take_of_length_le (by omega),
        drop_of_length_le (by omega), drop_of_length_le (by omega)]
      exact ⟨rfl, rfl⟩
  obtain ⟨htake, hdrop⟩ := hmin q.contents q.length_contents
  unfold drainInto at h
  split at h
  case h_1 taken' chunks offset hloop =>
    cases h
    obtain ⟨-, htaken, hleft⟩ := drainLoop_spec q.unexhausted _ hloop
    exact ⟨htaken.trans htake, hleft.trans hdrop⟩

/-! ## Runs of the queue

A list that is appended to, prepended to and taken from says what the queue is
for. Whatever the chunks are cut like, a caller cannot tell the two apart.
-/

/-- A call of the queue's. A chunk is an array or a typed array; the target of a
drain is an array of the caller's own, which only receives. -/
inductive Op (α : Type) where
  | push (source : List α)
  | prepend (source : List α)
  | drainInto (maxCount : Nat)
deriving DecidableEq, Repr

/-- The number that a call returns, if any, and the values it pushed to a target. -/
structure Answer (α : Type) where
  returned : Option Nat
  drained : List α
deriving DecidableEq, Repr

def perform (q : PendingValueQueue α) : Op α → Answer α × PendingValueQueue α
  | .push source => (⟨some (q.push source).1, []⟩, (q.push source).2)
  | .prepend source => (⟨none, []⟩, q.prepend source)
  | .drainInto maxCount =>
    let (taken, q') := q.drainInto maxCount
    (⟨some taken.length, taken⟩, q')

/-- The same call of a plain list. -/
def performList (l : List α) : Op α → Answer α × List α
  | .push source => (⟨some source.length, []⟩, l ++ source)
  | .prepend source => (⟨none, []⟩, source ++ l)
  | .drainInto maxCount => (⟨some (min maxCount l.length), l.take maxCount⟩, l.drop maxCount)

/-- Calls in order: what they answer, and what they leave. -/
def performAll {σ : Type} (step : σ → Op α → Answer α × σ) : σ → List (Op α) → List (Answer α) × σ
  | s, [] => ([], s)
  | s, op :: ops =>
    let (answer, s') := step s op
    let (answers, s'') := performAll step s' ops
    (answer :: answers, s'')

/-- The values that went to a target, in order. -/
def drained (answers : List (Answer α)) : List α := answers.flatMap Answer.drained

/-- A drain moves as many values as it is asked for, or all of them. -/
theorem length_drainInto (q : PendingValueQueue α) (maxCount : Nat) :
    (q.drainInto maxCount).1.length = min maxCount q.length := by
  rcases hdrain : q.drainInto maxCount with ⟨taken, q'⟩
  rw [(drainInto_eq hdrain).1, length_take, q.length_contents]

/-- One call answers as the list does, and leaves the list's values. -/
theorem perform_eq (q : PendingValueQueue α) (op : Op α) :
    (q.perform op).1 = (performList q.contents op).1 ∧
      (q.perform op).2.contents = (performList q.contents op).2 := by
  cases op with
  | push source =>
    obtain ⟨hcount, hcontents⟩ := q.push_eq source
    refine ⟨?_, hcontents⟩
    show (⟨some (q.push source).1, []⟩ : Answer α) = ⟨some source.length, []⟩
    rw [hcount]
  | prepend source => exact ⟨rfl, q.contents_prepend source⟩
  | drainInto maxCount =>
    have hlength := q.length_drainInto maxCount
    rcases hdrain : q.drainInto maxCount with ⟨taken, q'⟩
    obtain ⟨htaken, hleft⟩ := drainInto_eq hdrain
    rw [hdrain] at hlength
    simp only [perform, performList, hdrain, hlength, q.length_contents]
    exact ⟨congrArg _ htaken, hleft⟩

/-- The run lemma, from any queue. -/
theorem performAll_eq (q : PendingValueQueue α) (ops : List (Op α)) :
    (performAll perform q ops).1 = (performAll performList q.contents ops).1 ∧
      (performAll perform q ops).2.contents = (performAll performList q.contents ops).2 := by
  induction ops generalizing q with
  | nil => exact ⟨rfl, rfl⟩
  | cons op ops ih =>
    obtain ⟨hanswer, hleft⟩ := q.perform_eq op
    obtain ⟨hanswers, hcontents⟩ := ih (q.perform op).2
    rw [hleft] at hanswers hcontents
    exact ⟨congrArg₂ _ hanswer hanswers, hcontents⟩

/-- In every run the queue answers as a plain list, and keeps the values that the
list keeps; its length counts them, and a drain moves as many as there are. -/
theorem queue_refines_list (ops : List (Op α)) :
    (performAll perform empty ops).1 = (performAll performList [] ops).1 ∧
    drained (performAll perform empty ops).1 ++ (performAll perform empty ops).2.contents =
      drained (performAll performList [] ops).1 ++ (performAll performList [] ops).2 ∧
    (performAll perform empty ops).2.length = (performAll performList [] ops).2.length ∧
    ∀ maxCount, ((performAll perform empty ops).2.drainInto maxCount).1.length =
      min maxCount (performAll perform empty ops).2.length := by
  obtain ⟨hanswers, hcontents⟩ := performAll_eq (empty : PendingValueQueue α) ops
  rw [contents_empty] at hanswers hcontents
  refine ⟨hanswers, by rw [hanswers, hcontents], ?_, length_drainInto _⟩
  rw [← hcontents, length_contents]

end PendingValueQueue

/-! ## Source values -/

/-- What the `next()` promise of a source resolves with as its value. Arrays and
buffers are values of their own and have elements. -/
inductive SourceValue (α : Type) where
  | undefined
  | value (v : α)
  /-- An array or a typed array. -/
  | array (v : α) (elements : List α)
  /-- An `ArrayBuffer`, with the elements of a `Uint8Array` over it. -/
  | arrayBuffer (v : α) (elements : List α)

/-- `appendReadValue` -/
def PendingValueQueue.appendReadValue (q : PendingValueQueue α) (e : ElemMeta α) :
    SourceValue α → Nat × PendingValueQueue α
  | .undefined => (0, q)
  | .value v => q.push [v]
  | .array v elements | .arrayBuffer v elements =>
    if e.isNumeric then q.push elements else q.push [v]

end Jco.Stream

import Jco.Component.Suspended

/-! # The tick loop reaches every suspended task

As long as no ready function throws in it, the loop lives while a task is
suspended, and a task that stays ready is resumed: the tasks before it in the
list can hold it up for one tick each, by being rejected.
-/

namespace Jco.Component.SuspendedTasks

open Jco.Js Jco.Lib List AList

variable {s s' : SuspendedTasks} {tasks : Tasks}

/-! ## The list of the ids -/

variable {taskID : Nat}

theorem mem_live : taskID ∈ s.live ↔ some taskID ∈ s.suspendedTaskIDs := by
  simp [live]

theorem live_removeSuspendedTaskMeta (s : SuspendedTasks) (taskID : Nat) :
    (s.removeSuspendedTaskMeta taskID).2.live = s.live.erase taskID := by
  unfold removeSuspendedTaskMeta live
  dsimp only
  induction s.suspendedTaskIDs with
  | nil => rfl
  | cons x ids ih =>
    rw [findIdx_cons]
    by_cases hx : x = some taskID
    · subst hx
      simp
    · -- the hole is made further down, and a hole here changes nothing
      have hne : (x == some taskID) = false := by simpa using hx
      rw [hne]
      cases x with
      | none => simpa using ih
      | some y =>
        have hy : y ≠ taskID := fun h => hx (congrArg some h)
        simpa [erase_cons, hy] using ih

theorem live_addSuspendedTaskMeta (s : SuspendedTasks) (m : SuspendedTaskMeta) :
    (s.addSuspendedTaskMeta m).live = s.live ++ [m.taskID] := by
  have hfilter : ∀ ids : List (Option Nat),
      (ids.filter Option.isSome).filterMap id = ids.filterMap id := by
    intro ids
    rw [filterMap_filter]
    congr 1
    funext x
    cases x <;> rfl
  unfold addSuspendedTaskMeta live
  dsimp only
  split
  · rw [hfilter]
    simp
  · simp

/-- A task keeps its neighbours when another leaves the list. -/
theorem erase_split {ids before after : List Nat} {t u : Nat} (hne : u ≠ t)
    (h : ids = before ++ t :: after) :
    ∃ before' after', ids.erase u = before' ++ t :: after' ∧
      before'.length ≤ before.length ∧ (u ∈ before → before'.length < before.length) ∧
      ∀ v ∈ before, v ≠ u → v ∈ before' := by
  subst h
  by_cases hu : u ∈ before
  · refine ⟨before.erase u, after, erase_append_left _ hu, ?_, fun _ => ?_, ?_⟩
    · exact length_erase_le
    · rw [length_erase_of_mem hu]
      have := length_pos_of_mem hu
      omega
    · intro v hv hvu
      exact (mem_erase_of_ne hvu).2 hv
  · refine ⟨before, after.erase u, ?_, le_rfl, fun h => absurd h hu, fun v hv _ => hv⟩
    rw [erase_append_right _ hu, erase_cons_tail]
    simpa using Ne.symm hne

/-! ## Resumption -/

/-- The step from `s` to `s'` resumes the task, and nothing else. `readied` are
the promises that become ready. -/
structure Resumed (tasks : Tasks) (s s' : SuspendedTasks) (taskID : Nat) (m : SuspendedTaskMeta)
    (readied : List Nat) : Prop where
  live : s'.live = s.live.erase taskID
  lookup : ∀ t, s'.getSuspendedTaskMeta t = if t = taskID then none else s.getSuspendedTaskMeta t
  promises : s'.promises.length = s.promises.length
  settles : ∀ p, s'.promises[p]? = if p = m.promise then
      (s.promises[p]?).map fun v => some (v.getD (!tasks.isCancelled taskID))
    else s.promises[p]?
  resumed : s'.resumed = s.resumed ++ [m.promise]
  readied : s'.readied = s.readied ++ readied
  tickLoop : s'.tickLoop = s.tickLoop
  timers : s'.timers = s.timers

variable {m : SuspendedTaskMeta}

theorem resumeTaskByID_spec
    (hget : s.getSuspendedTaskMeta taskID = some m) (hid : m.taskID = taskID) (tasks : Tasks)
    (readied : List Nat) :
    ∃ s', ({ s with readied := s.readied ++ readied }).resumeTaskByID tasks taskID = (.ok (), s') ∧
      Resumed tasks s s' taskID m readied := by
  unfold getSuspendedTaskMeta at hget
  unfold resumeTaskByID removeSuspendedTaskMeta
  dsimp only
  rw [hget]
  dsimp only
  rw [if_neg (not_not.2 hid)]
  refine ⟨_, rfl, ⟨live_removeSuspendedTaskMeta s taskID, ?_, ?_, ?_, rfl, rfl, rfl, rfl⟩⟩
  · intro t
    unfold getSuspendedTaskMeta
    dsimp only [resume]
    by_cases ht : t = taskID
    · subst ht
      rw [if_pos rfl, lookup_erase]
    · rw [if_neg ht, lookup_erase_ne ht]
  · exact length_modify _ _ _
  · intro p
    dsimp only [resume]
    rw [List.getElem?_modify, hid]
    by_cases hp : p = m.promise
    · rw [if_pos hp, hp]
      simp
    · rw [if_neg hp]
      simp [Ne.symm hp]

/-- The states differ in their holes and in the tick loop at most. -/
structure Same (s s' : SuspendedTasks) : Prop where
  live : s'.live = s.live
  lookup : ∀ t, s'.getSuspendedTaskMeta t = s.getSuspendedTaskMeta t
  promises : s'.promises = s.promises
  resumed : s'.resumed = s.resumed
  readied : s'.readied = s.readied

/-- An id of no task is not resumed. -/
theorem resumeTaskByID_missing (hget : s.getSuspendedTaskMeta taskID = none)
    (hlive : taskID ∉ s.live) (tasks : Tasks) :
    Same s (s.resumeTaskByID tasks taskID).2 ∧
      (s.resumeTaskByID tasks taskID).2.tickLoop = s.tickLoop ∧
      (s.resumeTaskByID tasks taskID).2.timers = s.timers := by
  have hlive' := live_removeSuspendedTaskMeta s taskID
  rw [erase_of_not_mem hlive] at hlive'
  unfold resumeTaskByID
  unfold getSuspendedTaskMeta at hget
  unfold removeSuspendedTaskMeta at hlive' ⊢
  dsimp only at hlive' ⊢
  rw [hget]
  refine ⟨⟨hlive', fun t => ?_, rfl, rfl, rfl⟩, rfl, rfl⟩
  unfold getSuspendedTaskMeta
  dsimp only
  by_cases ht : t = taskID
  · subst ht
    rw [lookup_erase, hget]
  · rw [lookup_erase_ne ht]

/-! ## The invariant -/

structure Inv (s : SuspendedTasks) : Prop where
  ids : ∀ t, t ∈ s.live ↔ (s.getSuspendedTaskMeta t).isSome
  nodup : s.live.Nodup
  own : ∀ t m, s.getSuspendedTaskMeta t = some m → m.taskID = t
  promise : ∀ t m, s.getSuspendedTaskMeta t = some m → m.promise < s.promises.length
  promise_inj : ∀ t u m m', s.getSuspendedTaskMeta t = some m →
    s.getSuspendedTaskMeta u = some m' → m.promise = m'.promise → t = u
  resumed : ∀ promise < s.promises.length,
    s.resumed.count promise = 1 ∧ ¬ s.Waiting promise ∨
      s.resumed.count promise = 0 ∧ s.Waiting promise
  readied : ∀ promise ∈ s.readied, s.resumed.count promise = 1
  past : ∀ promise ∈ s.resumed, promise < s.promises.length
  unsettled : ∀ t m, s.getSuspendedTaskMeta t = some m → s.promises[m.promise]? = some none

/-- One timeout is pending while the flag is up, which it is while a task is
suspended. -/
structure Looping (s : SuspendedTasks) : Prop where
  timers : s.timers = if s.tickLoop then 1 else 0
  tickLoop : ∀ t, (s.getSuspendedTaskMeta t).isSome → s.tickLoop = true

theorem Same.waiting (h : Same s s') (promise : Nat) :
    s'.Waiting promise ↔ s.Waiting promise := by
  unfold Waiting
  simp only [h.lookup]

theorem Inv.same (hinv : Inv s) (h : Same s s') : Inv s' := by
  constructor
  case ids =>
    intro t
    rw [h.live, h.lookup]
    exact hinv.ids t
  case nodup =>
    rw [h.live]
    exact hinv.nodup
  case own =>
    intro t m hm
    rw [h.lookup] at hm
    exact hinv.own t m hm
  case promise =>
    intro t m hm
    rw [h.lookup] at hm
    rw [h.promises]
    exact hinv.promise t m hm
  case promise_inj =>
    intro t u m m' hm hm'
    rw [h.lookup] at hm hm'
    exact hinv.promise_inj t u m m' hm hm'
  case resumed =>
    intro p hp
    rw [h.promises] at hp
    rw [h.resumed, h.waiting]
    exact hinv.resumed p hp
  case readied =>
    rw [h.readied, h.resumed]
    exact hinv.readied
  case past =>
    rw [h.resumed, h.promises]
    exact hinv.past
  case unsettled =>
    intro t m hm
    rw [h.lookup] at hm
    rw [h.promises]
    exact hinv.unsettled t m hm

theorem Inv.init (componentIdx : Int) : Inv (init componentIdx) where
  ids t := by
    unfold SuspendedTasks.init live getSuspendedTaskMeta
    simp
  nodup := nodup_nil
  own t m h := by
    rw [getSuspendedTaskMeta, SuspendedTasks.init, lookup_empty] at h
    cases h
  promise t m h := by
    rw [getSuspendedTaskMeta, SuspendedTasks.init, lookup_empty] at h
    cases h
  promise_inj t u m m' h := by
    rw [getSuspendedTaskMeta, SuspendedTasks.init, lookup_empty] at h
    cases h
  resumed promise h := absurd h (Nat.not_lt_zero _)
  readied promise h := absurd h not_mem_nil
  past promise h := absurd h not_mem_nil
  unsettled t m h := by
    rw [getSuspendedTaskMeta, SuspendedTasks.init, lookup_empty] at h
    cases h

theorem Looping.init (componentIdx : Int) : Looping (init componentIdx) where
  timers := rfl
  tickLoop t h := by
    rw [getSuspendedTaskMeta, SuspendedTasks.init, lookup_empty] at h
    cases h

theorem isSome_getSuspendedTaskMeta {t : Nat} :
    (s.getSuspendedTaskMeta t).isSome ↔ t ∈ s.suspendedTasksByTaskID := lookup_isSome

theorem Inv.kept (hinv : Inv s) (hloop : Looping s) : Kept s where
  sameIds t := by
    rw [← mem_live, hinv.ids, isSome_getSuspendedTaskMeta]
  readied := hinv.readied
  resumed := hinv.resumed
  scheduled t ht := by
    rw [hloop.timers, hloop.tickLoop t (isSome_getSuspendedTaskMeta.2 ht)]
    exact Nat.one_pos

/-! ### Resumption -/

variable {readied : List Nat}

theorem Resumed.waiting
    (hr : Resumed tasks s s' taskID m readied) (hinv : Inv s)
    (hget : s.getSuspendedTaskMeta taskID = some m) (promise : Nat) :
    s'.Waiting promise ↔ s.Waiting promise ∧ promise ≠ m.promise := by
  constructor
  · rintro ⟨t, m', hm', rfl⟩
    rw [hr.lookup] at hm'
    split at hm'
    case isTrue => cases hm'
    case isFalse hne =>
      exact ⟨⟨t, m', hm', rfl⟩, fun h => hne (hinv.promise_inj _ _ _ _ hm' hget h)⟩
  · rintro ⟨⟨t, m', hm', rfl⟩, hne⟩
    refine ⟨t, m', ?_, rfl⟩
    rw [hr.lookup, if_neg]
    · exact hm'
    · rintro rfl
      rw [hget] at hm'
      exact hne (congrArg _ (Option.some.inj hm').symm)

theorem Inv.resume (hinv : Inv s)
    (hget : s.getSuspendedTaskMeta taskID = some m) (hr : Resumed tasks s s' taskID m readied)
    (hready : ∀ p ∈ readied, p = m.promise) : Inv s' := by
  have hwaiting : s.Waiting m.promise := ⟨taskID, m, hget, rfl⟩
  have hlt := hinv.promise taskID m hget
  have hzero : s.resumed.count m.promise = 0 := by
    rcases hinv.resumed _ hlt with ⟨-, hnot⟩ | ⟨h, -⟩
    · exact absurd hwaiting hnot
    · exact h
  have hcount : ∀ p, s'.resumed.count p =
      s.resumed.count p + if p = m.promise then 1 else 0 := by
    intro p
    rw [hr.resumed, count_append, count_singleton]
    by_cases hp : p = m.promise
    · subst hp
      simp
    · simp [hp, Ne.symm hp]
  have hold : ∀ t m', s'.getSuspendedTaskMeta t = some m' →
      s.getSuspendedTaskMeta t = some m' := by
    intro t m' h
    rw [hr.lookup] at h
    split at h
    · cases h
    · exact h
  constructor
  case ids =>
    intro t
    rw [hr.live, hinv.nodup.mem_erase_iff, hinv.ids, hr.lookup]
    split
    case isTrue h => simp [h]
    case isFalse h => simp [h]
  case nodup =>
    rw [hr.live]
    exact hinv.nodup.erase _
  case own => exact fun t m' h => hinv.own t m' (hold t m' h)
  case promise =>
    intro t m' h
    rw [hr.promises]
    exact hinv.promise t m' (hold t m' h)
  case promise_inj =>
    exact fun t u m₁ m₂ h₁ h₂ => hinv.promise_inj t u m₁ m₂ (hold _ _ h₁) (hold _ _ h₂)
  case resumed =>
    intro p hp
    rw [hr.promises] at hp
    rw [hcount, hr.waiting hinv hget]
    by_cases hpm : p = m.promise
    · left
      subst hpm
      rw [if_pos rfl, hzero]
      exact ⟨rfl, fun h => h.2 rfl⟩
    · rw [if_neg hpm, Nat.add_zero]
      rcases hinv.resumed p hp with ⟨hone, hnot⟩ | ⟨hno, hwait⟩
      · exact .inl ⟨hone, fun h => hnot h.1⟩
      · exact .inr ⟨hno, hwait, hpm⟩
  case readied =>
    intro p hp
    rw [hr.readied, mem_append] at hp
    rw [hcount]
    rcases hp with hp | hp
    · -- what was resumed before is not resumed again
      have hone := hinv.readied p hp
      have hpm : p ≠ m.promise := by
        rintro rfl
        omega
      rw [if_neg hpm, hone]
    · rw [hready p hp, if_pos rfl, hzero]
  case past =>
    intro p hp
    rw [hr.resumed, mem_append, mem_singleton] at hp
    rw [hr.promises]
    rcases hp with hp | rfl
    · exact hinv.past p hp
    · exact hlt
  case unsettled =>
    intro t m' h
    have hne : m'.promise ≠ m.promise := by
      intro heq
      obtain rfl := hinv.promise_inj t taskID m' m (hold _ _ h) hget heq
      rw [hr.lookup, if_pos rfl] at h
      cases h
    rw [hr.settles, if_neg hne]
    exact hinv.unsettled t m' (hold _ _ h)

theorem Looping.resume
    (hloop : Looping s) (hr : Resumed tasks s s' taskID m readied) : Looping s' where
  timers := by rw [hr.timers, hr.tickLoop, hloop.timers]
  tickLoop t h := by
    rw [hr.lookup] at h
    split at h
    · cases h
    · rw [hr.tickLoop]
      exact hloop.tickLoop t h

/-! ### Suspension -/

theorem runTickLoop_eq (s : SuspendedTasks) : ∃ tickLoop timers,
    s.runTickLoop = { s with tickLoop := tickLoop, timers := timers } := by
  unfold runTickLoop
  split
  · exact ⟨s.tickLoop, s.timers, rfl⟩
  · exact ⟨_, _, rfl⟩

/-- The step from `s` to `s'` suspends the task under a new promise. -/
structure Suspended (s s' : SuspendedTasks) (taskID : Nat) (readyFn : Bool) : Prop where
  live : s'.live = s.live ++ [taskID]
  lookup : ∀ t, s'.getSuspendedTaskMeta t =
    if t = taskID then some ⟨taskID, readyFn, s.promises.length⟩ else s.getSuspendedTaskMeta t
  promises : s'.promises = s.promises ++ [none]
  resumed : s'.resumed = s.resumed
  readied : s'.readied = s.readied

theorem suspendTask_spec (s : SuspendedTasks) (taskID : Nat) (componentIdx : Int) (readyFn : Bool) :
    (s.suspendTask taskID componentIdx readyFn).2 = s ∨
      s.getSuspendedTaskMeta taskID = none ∧
      Suspended s (s.suspendTask taskID componentIdx readyFn).2 taskID readyFn ∧
      (Looping s → Looping (s.suspendTask taskID componentIdx readyFn).2) := by
  unfold suspendTask
  split
  · exact .inl rfl
  split
  · exact .inl rfl
  case isFalse _ hsome =>
  right
  have hnone : s.getSuspendedTaskMeta taskID = none := by simpa using hsome
  dsimp only
  obtain ⟨u, hu⟩ : ∃ u, u = addSuspendedTaskMeta { s with promises := s.promises ++ [none] }
    ⟨taskID, readyFn, s.promises.length⟩ := ⟨_, rfl⟩
  have hlookup : ∀ t, u.getSuspendedTaskMeta t =
      if t = taskID then some ⟨taskID, readyFn, s.promises.length⟩
      else s.getSuspendedTaskMeta t := by
    intro t
    subst hu
    unfold getSuspendedTaskMeta addSuspendedTaskMeta
    dsimp only
    by_cases ht : t = taskID
    · subst ht
      rw [if_pos rfl, lookup_insert]
    · rw [if_neg ht, lookup_insert_ne ht]
  have hlive : u.live = s.live ++ [taskID] := by
    subst hu
    exact live_addSuspendedTaskMeta _ _
  have hflags : u.tickLoop = s.tickLoop ∧ u.timers = s.timers := by
    subst hu
    exact ⟨rfl, rfl⟩
  have hpromises : u.promises = s.promises ++ [none] := by
    subst hu
    rfl
  have hhistory : u.resumed = s.resumed ∧ u.readied = s.readied := by
    subst hu
    exact ⟨rfl, rfl⟩
  rw [← hu]
  refine ⟨hnone, ?_, fun hloop => ?_⟩
  · obtain ⟨tickLoop, timers, hrun⟩ := u.runTickLoop_eq
    rw [hrun]
    exact ⟨hlive, hlookup, hpromises, hhistory.1, hhistory.2⟩
  · -- the flag is up after the call, with the timeout of an old or of a new loop
    unfold runTickLoop
    split
    case isTrue h =>
      refine ⟨?_, fun _ _ => h⟩
      rw [hflags.1, hflags.2]
      exact hloop.timers
    case isFalse h =>
      refine ⟨?_, fun _ _ => rfl⟩
      rw [hflags.1] at h
      have := hloop.timers
      rw [if_neg h] at this
      rw [if_pos rfl, hflags.2, this]

theorem Inv.suspend {readyFn : Bool} (hinv : Inv s)
    (hnone : s.getSuspendedTaskMeta taskID = none) (hs : Suspended s s' taskID readyFn) :
    Inv s' := by
  -- The one new entry is that of the task, under a promise that is new as well.
  have hcases : ∀ t m, s'.getSuspendedTaskMeta t = some m →
      t = taskID ∧ m = ⟨taskID, readyFn, s.promises.length⟩ ∨
        t ≠ taskID ∧ s.getSuspendedTaskMeta t = some m := by
    intro t m h
    rw [hs.lookup] at h
    split at h
    case isTrue ht => exact .inl ⟨ht, (Option.some.inj h).symm⟩
    case isFalse ht => exact .inr ⟨ht, h⟩
  have hwaiting : ∀ p, s'.Waiting p ↔ s.Waiting p ∨ p = s.promises.length := by
    intro p
    constructor
    · rintro ⟨t, m, hm, rfl⟩
      rcases hcases t m hm with ⟨-, rfl⟩ | ⟨-, h⟩
      · exact .inr rfl
      · exact .inl ⟨t, m, h, rfl⟩
    · rintro (⟨t, m, hm, rfl⟩ | rfl)
      · refine ⟨t, m, ?_, rfl⟩
        rw [hs.lookup, if_neg]
        · exact hm
        · rintro rfl
          rw [hnone] at hm
          cases hm
      · refine ⟨taskID, ⟨taskID, readyFn, s.promises.length⟩, ?_, rfl⟩
        rw [hs.lookup, if_pos rfl]
  have hlength : s'.promises.length = s.promises.length + 1 := by
    rw [hs.promises, length_append, length_singleton]
  have hnew : s.promises.length ∉ s.resumed := fun h => absurd (hinv.past _ h) (lt_irrefl _)
  constructor
  case ids =>
    intro t
    rw [hs.live, mem_append, mem_singleton, hinv.ids, hs.lookup]
    split
    case isTrue h => simp [h]
    case isFalse h => simp [h]
  case nodup =>
    rw [hs.live]
    refine hinv.nodup.append (nodup_singleton _) ?_
    rw [disjoint_singleton]
    intro h
    have := (hinv.ids _).1 h
    rw [hnone] at this
    cases this
  case own =>
    intro t m h
    rcases hcases t m h with ⟨rfl, rfl⟩ | ⟨-, h⟩
    · rfl
    · exact hinv.own t m h
  case promise =>
    intro t m h
    rw [hlength]
    rcases hcases t m h with ⟨-, rfl⟩ | ⟨-, h⟩
    · exact Nat.lt_succ_self _
    · exact Nat.lt_succ_of_lt (hinv.promise t m h)
  case promise_inj =>
    -- an old promise lies below the new one
    intro t u m m' h h' heq
    rcases hcases t m h with ⟨rfl, rfl⟩ | ⟨-, h⟩
    · rcases hcases u m' h' with ⟨rfl, -⟩ | ⟨-, h'⟩
      · rfl
      · exact absurd heq (Nat.ne_of_gt (hinv.promise u m' h'))
    · rcases hcases u m' h' with ⟨-, rfl⟩ | ⟨-, h'⟩
      · exact absurd heq (Nat.ne_of_lt (hinv.promise t m h))
      · exact hinv.promise_inj t u m m' h h' heq
  case resumed =>
    intro p hp
    rw [hlength] at hp
    -- the new promise waits, and nothing has resumed it
    rw [hs.resumed, hwaiting]
    rcases Nat.lt_succ_iff_lt_or_eq.1 hp with hlt | rfl
    · rcases hinv.resumed p hlt with ⟨hone, hnot⟩ | ⟨hzero, hwait⟩
      · refine .inl ⟨hone, ?_⟩
        rintro (h | rfl)
        · exact hnot h
        · exact lt_irrefl _ hlt
      · exact .inr ⟨hzero, .inl hwait⟩
    · exact .inr ⟨count_eq_zero.2 hnew, .inr rfl⟩
  case readied =>
    rw [hs.readied, hs.resumed]
    exact hinv.readied
  case past =>
    intro p hp
    rw [hs.resumed] at hp
    rw [hlength]
    exact Nat.lt_succ_of_lt (hinv.past p hp)
  case unsettled =>
    intro t m h
    rw [hs.promises]
    rcases hcases t m h with ⟨-, rfl⟩ | ⟨-, h⟩
    · exact List.getElem?_concat_length
    · rw [List.getElem?_append_left (hinv.promise t m h)]
      exact hinv.unsettled t m h

/-! ## Ticks -/

/-- What a loop over the ids of suspended tasks does, task by task. -/
inductive Ticked (tasks : Tasks) : List Nat → SuspendedTasks →
    Except JsError (Option Bool) → SuspendedTasks → Prop where
  | done (s : SuspendedTasks) : Ticked tasks [] s (.ok (some s.live.isEmpty)) s
  | throws {s : SuspendedTasks} {taskID : Nat} {ids : List Nat} {m : SuspendedTaskMeta}
      {err : JsError} (hget : s.getSuspendedTaskMeta taskID = some m)
      (hthrows : m.readyFn = false ∨
        tasks.isRejected taskID = false ∧ ∃ err, tasks.readyFn taskID = .throws err) :
      Ticked tasks (taskID :: ids) s (.error err) s
  | rejected {s s' : SuspendedTasks} {taskID : Nat} {ids : List Nat} {m : SuspendedTaskMeta}
      (hget : s.getSuspendedTaskMeta taskID = some m) (hfn : m.readyFn = true)
      (hrejected : tasks.isRejected taskID = true) (hr : Resumed tasks s s' taskID m []) :
      Ticked tasks (taskID :: ids) s (.ok none) s'
  | notReady {s s' : SuspendedTasks} {taskID : Nat} {ids : List Nat} {m : SuspendedTaskMeta}
      {result : Except JsError (Option Bool)}
      (hget : s.getSuspendedTaskMeta taskID = some m) (hfn : m.readyFn = true)
      (hrejected : tasks.isRejected taskID = false)
      (hready : tasks.readyFn taskID = .returns false) (hrest : Ticked tasks ids s result s') :
      Ticked tasks (taskID :: ids) s result s'
  | ready {s u s' : SuspendedTasks} {taskID : Nat} {ids : List Nat} {m : SuspendedTaskMeta}
      {result : Except JsError (Option Bool)}
      (hget : s.getSuspendedTaskMeta taskID = some m) (hfn : m.readyFn = true)
      (hrejected : tasks.isRejected taskID = false)
      (hready : tasks.readyFn taskID = .returns true) (hr : Resumed tasks s u taskID m [m.promise])
      (hrest : Ticked tasks ids u result s') :
      Ticked tasks (taskID :: ids) s result s'

theorem tickOver_ticked (tasks : Tasks) (ids : List Nat) (s : SuspendedTasks) (hinv : Inv s)
    (hnodup : ids.Nodup) (hids : ∀ t ∈ ids, (s.getSuspendedTaskMeta t).isSome) :
    Ticked tasks ids s (tickOver tasks ids s).1 (tickOver tasks ids s).2 := by
  induction ids generalizing s with
  | nil => exact .done s
  | cons taskID ids ih =>
    obtain ⟨hnot, hnodup⟩ := nodup_cons.1 hnodup
    have htail : ∀ t ∈ ids, (s.getSuspendedTaskMeta t).isSome :=
      fun t ht => hids t (mem_cons_of_mem _ ht)
    obtain ⟨m, hget⟩ := Option.isSome_iff_exists.1 (hids taskID mem_cons_self)
    have hid := hinv.own _ _ hget
    unfold tickOver
    rw [hget]
    dsimp only
    cases hfn : m.readyFn with
    | false => exact .throws hget (.inl hfn)
    | true =>
    rw [if_neg (by simp)]
    cases hrejected : tasks.isRejected taskID with
    | true =>
      rw [if_pos rfl]
      obtain ⟨u, heq, hr⟩ := resumeTaskByID_spec hget hid tasks []
      rw [append_nil] at heq
      change s.resumeTaskByID tasks taskID = _ at heq
      rw [heq]
      exact .rejected hget hfn hrejected hr
    | false =>
    rw [if_neg (by simp)]
    cases hready : tasks.readyFn taskID with
    | throws err => exact .throws hget (.inr ⟨hrejected, err, hready⟩)
    | returns b =>
    cases b with
    | false => exact .notReady hget hfn hrejected hready (ih s hinv hnodup htail)
    | true =>
      obtain ⟨u, heq, hr⟩ := resumeTaskByID_spec hget hid tasks [m.promise]
      rw [heq]
      refine .ready hget hfn hrejected hready hr (ih u ?_ hnodup ?_)
      · exact hinv.resume hget hr fun p hp => mem_singleton.1 hp
      · intro t ht
        rw [hr.lookup, if_neg]
        · exact htail t ht
        · rintro rfl
          exact hnot ht

theorem tick_ticked (hinv : Inv s) (tasks : Tasks) :
    Ticked tasks s.live s (s.tick tasks).1 (s.tick tasks).2 :=
  tickOver_ticked tasks s.live s hinv hinv.nodup fun t ht => (hinv.ids t).1 ht

namespace Ticked

variable {ids : List Nat} {result : Except JsError (Option Bool)}

theorem inv (h : Ticked tasks ids s result s') (hinv : Inv s) : Inv s' := by
  induction h with
  | done => exact hinv
  | throws => exact hinv
  | rejected hget _ _ hr => exact hinv.resume hget hr fun p hp => absurd hp not_mem_nil
  | notReady _ _ _ _ _ ih => exact ih hinv
  | ready hget _ _ _ hr _ ih =>
    exact ih (hinv.resume hget hr fun p hp => mem_singleton.1 hp)

theorem looping (h : Ticked tasks ids s result s') (hloop : Looping s) : Looping s' := by
  induction h with
  | done => exact hloop
  | throws => exact hloop
  | rejected _ _ _ hr => exact hloop.resume hr
  | notReady _ _ _ _ _ ih => exact ih hloop
  | ready _ _ _ _ hr _ ih => exact ih (hloop.resume hr)

/-- A finished loop tells whether a task is left. -/
theorem isEmpty {b : Bool} (h : Ticked tasks ids s (.ok (some b)) s') : s'.live.isEmpty = b := by
  generalize hresult : Except.ok (some b) = result at h
  induction h with
  | done =>
    cases hresult
    rfl
  | throws => cases hresult
  | rejected => cases hresult
  | notReady _ _ _ _ _ ih => exact ih hresult
  | ready _ _ _ _ _ _ ih => exact ih hresult

/-- What is thrown comes from a task that stays, before which none is rejected. -/
theorem of_error {err : JsError} (h : Ticked tasks ids s (.error err) s') :
    ∃ before taskID after m, ids = before ++ taskID :: after ∧
      s'.getSuspendedTaskMeta taskID = some m ∧ (∀ t ∈ before, tasks.isRejected t = false) ∧
      (m.readyFn = false ∨
        tasks.isRejected taskID = false ∧ ∃ err, tasks.readyFn taskID = .throws err) := by
  generalize hresult : Except.error err = result at h
  induction h with
  | done => cases hresult
  | throws hget hthrows =>
    exact ⟨[], _, _, _, rfl, hget, fun t ht => absurd ht not_mem_nil, hthrows⟩
  | rejected => cases hresult
  | notReady _ _ hrejected _ _ ih =>
    obtain ⟨before, t, after, m, rfl, hm, hbefore, hthrows⟩ := ih hresult
    exact ⟨_ :: before, t, after, m, rfl, hm, forall_mem_cons.2 ⟨hrejected, hbefore⟩, hthrows⟩
  | ready _ _ hrejected _ _ _ ih =>
    obtain ⟨before, t, after, m, rfl, hm, hbefore, hthrows⟩ := ih hresult
    exact ⟨_ :: before, t, after, m, rfl, hm, forall_mem_cons.2 ⟨hrejected, hbefore⟩, hthrows⟩

/-- The entries that a tick leaves are as they were. -/
theorem lookup (h : Ticked tasks ids s result s') {t : Nat} {m : SuspendedTaskMeta}
    (hm : s'.getSuspendedTaskMeta t = some m) : s.getSuspendedTaskMeta t = some m := by
  induction h with
  | done => exact hm
  | throws => exact hm
  | rejected _ _ _ hr =>
    rw [hr.lookup] at hm
    split at hm
    · cases hm
    · exact hm
  | notReady _ _ _ _ _ ih => exact ih hm
  | ready _ _ _ _ hr _ ih =>
    have hm := ih hm
    rw [hr.lookup] at hm
    split at hm
    · cases hm
    · exact hm

/-- A tick keeps the order of the tasks that it leaves. -/
theorem split (h : Ticked tasks ids s result s') {before after : List Nat} {t : Nat}
    (hsplit : s.live = before ++ t :: after) :
    s'.getSuspendedTaskMeta t = none ∨ ∃ before' after', s'.live = before' ++ t :: after' ∧
      before'.length ≤ before.length ∧ s'.getSuspendedTaskMeta t = s.getSuspendedTaskMeta t := by
  induction h generalizing before after with
  | done => exact .inr ⟨before, after, hsplit, le_rfl, rfl⟩
  | throws => exact .inr ⟨before, after, hsplit, le_rfl, rfl⟩
  | rejected _ _ _ hr =>
    rw [hr.live, hr.lookup]
    split
    · exact .inl rfl
    case isFalse hne =>
      obtain ⟨before', after', hsplit', hle, -⟩ := erase_split (Ne.symm hne) hsplit
      exact .inr ⟨before', after', hsplit', hle, rfl⟩
  | notReady _ _ _ _ _ ih => exact ih hsplit
  | @ready s u s' taskID ids m result _ _ _ _ hr hrest ih =>
    by_cases hne : t = taskID
    · left
      subst hne
      cases hm : s'.getSuspendedTaskMeta t with
      | none => rfl
      | some m' =>
        have := hrest.lookup hm
        rw [hr.lookup, if_pos rfl] at this
        cases this
    · obtain ⟨before', after', hsplit', hle, -⟩ := erase_split (Ne.symm hne) hsplit
      rw [← hr.live] at hsplit'
      rcases ih hsplit' with h | ⟨before₂, after₂, hsplit₂, hle₂, hget₂⟩
      · exact .inl h
      · rw [hr.lookup, if_neg hne] at hget₂
        exact .inr ⟨before₂, after₂, hsplit₂, hle₂.trans hle, hget₂⟩

/-- A tick that does not throw resumes a ready task, or one before it. -/
theorem progress (h : Ticked tasks ids s result s') (hok : ∀ err, result ≠ .error err)
    {before after past rest : List Nat} {t : Nat} (hready : tasks.readyFn t = .returns true)
    (hsplit : s.live = before ++ t :: after) (hids : ids = past ++ t :: rest)
    (hpast : ∀ u ∈ past, u ∈ before) (hnodup : ids.Nodup) :
    s'.getSuspendedTaskMeta t = none ∨ ∃ before' after', s'.live = before' ++ t :: after' ∧
      before'.length < before.length ∧ s'.getSuspendedTaskMeta t = s.getSuspendedTaskMeta t := by
  induction h generalizing before after past with
  | done => simp at hids
  | throws => exact absurd rfl (hok _)
  | @rejected s s' taskID ids m _ _ _ hr =>
    -- the tick ends here: the task is dropped or moves up
    rw [hr.live, hr.lookup]
    cases past with
    | nil =>
      cases hids
      exact .inl (if_pos rfl)
    | cons u past =>
      cases hids
      have hne : taskID ≠ t := by
        rintro rfl
        exact (nodup_cons.1 hnodup).1 (mem_append_right _ mem_cons_self)
      obtain ⟨before', after', hsplit', -, hlt, -⟩ := erase_split hne hsplit
      rw [if_neg (Ne.symm hne)]
      exact .inr ⟨before', after', hsplit', hlt (hpast _ mem_cons_self), rfl⟩
  | @notReady s s' taskID ids m result _ _ _ hnotReady _ ih =>
    -- the task is ready, so this is an earlier one
    cases past with
    | nil =>
      cases hids
      rw [hready] at hnotReady
      cases hnotReady
    | cons u past =>
      cases hids
      exact ih hok hsplit rfl (fun u hu => hpast u (mem_cons_of_mem _ hu))
        (nodup_cons.1 hnodup).2
  | @ready s u s' taskID ids m result _ _ _ _ hr hrest ih =>
    cases past with
    | nil =>
      obtain ⟨rfl, -⟩ := List.cons.inj hids
      left
      cases hm : s'.getSuspendedTaskMeta taskID with
      | none => rfl
      | some m' =>
        have := hrest.lookup hm
        rw [hr.lookup, if_pos rfl] at this
        cases this
    | cons v past =>
      cases hids
      obtain ⟨hnot, hnodup⟩ := nodup_cons.1 hnodup
      have hne : taskID ≠ t := by
        rintro rfl
        exact hnot (mem_append_right _ mem_cons_self)
      obtain ⟨before', after', hsplit', hle, -, hkeep⟩ := erase_split hne hsplit
      rw [← hr.live] at hsplit'
      have hpast' : ∀ w ∈ past, w ∈ before' := by
        intro w hw
        apply hkeep w (hpast w (mem_cons_of_mem _ hw))
        rintro rfl
        exact hnot (mem_append_left _ hw)
      rcases ih hok hsplit' rfl hpast' hnodup with h | ⟨before₂, after₂, hsplit₂, hlt, hget₂⟩
      · exact .inl h
      · rw [hr.lookup, if_neg (Ne.symm hne)] at hget₂
        exact .inr ⟨before₂, after₂, hsplit₂, hlt.trans_le hle, hget₂⟩

end Ticked

namespace Ticked

/-- A tick that comes to a throwing ready function throws. -/
theorem error {ids : List Nat} {result : Except JsError (Option Bool)}
    (h : Ticked tasks ids s result s') {before after : List Nat} {t : Nat} {m : SuspendedTaskMeta}
    (hids : ids = before ++ t :: after) (hnodup : ids.Nodup)
    (hm : s.getSuspendedTaskMeta t = some m) (hbefore : ∀ u ∈ before, tasks.isRejected u = false)
    (hthrows : m.readyFn = false ∨
      tasks.isRejected t = false ∧ ∃ err, tasks.readyFn t = .throws err) :
    ∃ err, result = .error err := by
  -- the tick stops at `t`, or goes past a task before it
  induction h generalizing before with
  | done => simp at hids
  | throws => exact ⟨_, rfl⟩
  | rejected hget hfn hrejected =>
    cases before with
    | nil =>
      cases hids
      cases hget.symm.trans hm
      rcases hthrows with h | ⟨h, -⟩
      · rw [hfn] at h
        cases h
      · rw [hrejected] at h
        cases h
    | cons u before =>
      cases hids
      rw [hbefore _ mem_cons_self] at hrejected
      cases hrejected
  | notReady hget hfn hrejected hready _ ih =>
    cases before with
    | nil =>
      cases hids
      cases hget.symm.trans hm
      rcases hthrows with h | ⟨-, err, h⟩
      · rw [hfn] at h
        cases h
      · rw [hready] at h
        cases h
    | cons u before =>
      cases hids
      exact ih rfl (nodup_cons.1 hnodup).2 hm
        fun v hv => hbefore v (mem_cons_of_mem _ hv)
  | ready hget hfn hrejected hready hr _ ih =>
    cases before with
    | nil =>
      cases hids
      cases hget.symm.trans hm
      rcases hthrows with h | ⟨-, err, h⟩
      · rw [hfn] at h
        cases h
      · rw [hready] at h
        cases h
    | cons u before =>
      cases hids
      obtain ⟨hnot, hnodup⟩ := nodup_cons.1 hnodup
      refine ih rfl hnodup ?_ fun v hv => hbefore v (mem_cons_of_mem _ hv)
      rw [hr.lookup, if_neg]
      · exact hm
      · rintro rfl
        exact hnot (mem_append_right _ mem_cons_self)

end Ticked

/-- A tick throws when it comes to a throwing ready function, and no other way. -/
theorem tick_error_iff (hinv : Inv s) : (∃ err, (s.tick tasks).1 = .error err) ↔ s.Throws tasks := by
  have hticked := tick_ticked hinv tasks
  constructor
  · rintro ⟨err, herr⟩
    rw [herr] at hticked
    obtain ⟨before, t, after, m, hlive, hm, hbefore, hthrows⟩ := hticked.of_error
    exact ⟨before, t, after, m, hlive, hticked.lookup hm, hbefore, hthrows⟩
  · rintro ⟨before, t, after, m, hlive, hm, hbefore, hthrows⟩
    exact hticked.error hlive hinv.nodup hm hbefore hthrows

/-! ## Steps -/

theorem loopTick_of_ok {done : Option Bool} {u : SuspendedTasks}
    (h : s.tick tasks = (.ok done, u)) : s.loopTick tasks =
      if done = some true then { u with tickLoop := false, timers := u.timers - 1 } else u := by
  unfold loopTick
  rw [h]

theorem loopTick_of_error {err : JsError} {u : SuspendedTasks}
    (h : s.tick tasks = (.error err, u)) : s.loopTick tasks = { u with timers := u.timers - 1 } := by
  unfold loopTick
  rw [h]

/-- Besides the loop itself, a tick of the loop does what a tick does. -/
theorem same_loopTick (s : SuspendedTasks) (tasks : Tasks) :
    Same (s.tick tasks).2 (s.loopTick tasks) := by
  obtain ⟨⟨result, u⟩, htick⟩ : ∃ r, s.tick tasks = r := ⟨_, rfl⟩
  cases result with
  | error err =>
    rw [htick, loopTick_of_error htick]
    exact ⟨rfl, fun _ => rfl, rfl, rfl, rfl⟩
  | ok done =>
    rw [htick, loopTick_of_ok htick]
    split
    · exact ⟨rfl, fun _ => rfl, rfl, rfl, rfl⟩
    · exact ⟨rfl, fun _ => rfl, rfl, rfl, rfl⟩

/-- What a call of `resumeTaskByID` does: it resumes the task, or there is none. -/
theorem resumeTaskByID_cases (hinv : Inv s) (tasks : Tasks) (taskID : Nat) :
    (∃ m, s.getSuspendedTaskMeta taskID = some m ∧
        Resumed tasks s (s.resumeTaskByID tasks taskID).2 taskID m []) ∨
      Same s (s.resumeTaskByID tasks taskID).2 ∧
        (s.resumeTaskByID tasks taskID).2.tickLoop = s.tickLoop ∧
        (s.resumeTaskByID tasks taskID).2.timers = s.timers := by
  cases hget : s.getSuspendedTaskMeta taskID with
  | none =>
    right
    apply resumeTaskByID_missing hget
    intro h
    have := (hinv.ids taskID).1 h
    rw [hget] at this
    cases this
  | some m =>
    left
    obtain ⟨u, heq, hr⟩ := resumeTaskByID_spec hget (hinv.own _ _ hget) tasks []
    rw [append_nil] at heq
    change s.resumeTaskByID tasks taskID = _ at heq
    rw [heq]
    exact ⟨m, rfl, hr⟩

variable {call : Call}

theorem next_inv (hstep : next call s s') (hinv : Inv s) : Inv s' := by
  cases call with
  | suspendTask taskID componentIdx readyFn =>
    rw [hstep]
    rcases suspendTask_spec s taskID componentIdx readyFn with heq | ⟨hnone, hs, -⟩
    · rw [heq]
      exact hinv
    · exact hinv.suspend hnone hs
  | resumeTaskByID tasks taskID =>
    rw [hstep]
    rcases resumeTaskByID_cases hinv tasks taskID with ⟨m, hget, hr⟩ | ⟨hsame, -⟩
    · exact hinv.resume hget hr fun p hp => absurd hp not_mem_nil
    · exact hinv.same hsame
  | tick tasks =>
    rw [hstep]
    exact (tick_ticked hinv tasks).inv hinv
  | loopTick tasks =>
    rw [hstep.2]
    exact ((tick_ticked hinv tasks).inv hinv).same (same_loopTick s tasks)

theorem next_looping (hstep : next call s s') (hsafe : Safe call s) (hinv : Inv s)
    (hloop : Looping s) : Looping s' := by
  cases call with
  | suspendTask taskID componentIdx readyFn =>
    rw [hstep]
    rcases suspendTask_spec s taskID componentIdx readyFn with heq | ⟨-, -, hlooping⟩
    · rw [heq]
      exact hloop
    · exact hlooping hloop
  | resumeTaskByID tasks taskID =>
    rw [hstep]
    rcases resumeTaskByID_cases hinv tasks taskID with ⟨m, hget, hr⟩ | ⟨hsame, hflag, htimers⟩
    · exact hloop.resume hr
    · refine ⟨by rw [htimers, hflag, hloop.timers], fun t ht => ?_⟩
      rw [hsame.lookup] at ht
      rw [hflag]
      exact hloop.tickLoop t ht
  | tick tasks =>
    rw [hstep]
    exact (tick_ticked hinv tasks).looping hloop
  | loopTick tasks =>
    rw [hstep.2]
    have hticked := tick_ticked hinv tasks
    obtain ⟨⟨result, u⟩, htick⟩ : ∃ r, s.tick tasks = r := ⟨_, rfl⟩
    rw [htick] at hticked
    cases result with
    | error err => exact absurd ((tick_error_iff hinv).1 ⟨err, by rw [htick]⟩) hsafe
    | ok done =>
      have hu := hticked.looping hloop
      rw [loopTick_of_ok htick]
      split
      case isFalse => exact hu
      case isTrue hdone =>
        subst hdone
        -- the loop ends, and leaves no task
        refine ⟨?_, fun t ht => ?_⟩
        · change u.timers - 1 = 0
          rw [hu.timers]
          split <;> rfl
        · have hmem := ((hticked.inv hinv).ids t).2 ht
          rw [isEmpty_iff.1 hticked.isEmpty] at hmem
          exact absurd hmem not_mem_nil

/-- A throw in the loop leaves its task without a loop. -/
theorem not_kept_of_throws (hinv : Inv s) (hloop : Looping s) (hthrows : s.Throws tasks) :
    ¬ Kept (s.loopTick tasks) := by
  intro hkept
  obtain ⟨err, herr⟩ := (tick_error_iff hinv).2 hthrows
  have hticked := tick_ticked hinv tasks
  obtain ⟨u, htick⟩ : ∃ u, s.tick tasks = (.error err, u) := ⟨_, Prod.ext herr rfl⟩
  rw [htick] at hticked
  obtain ⟨before, t, after, m, -, hm, -⟩ := hticked.of_error
  have htimers := (hticked.looping hloop).timers
  rw [loopTick_of_error htick] at hkept
  have hpos : 0 < u.timers - 1 :=
    hkept.scheduled t (isSome_getSuspendedTaskMeta.1 (Option.isSome_iff_exists.2 ⟨m, hm⟩))
  have hle : u.timers ≤ 1 := by
    rw [htimers]
    split
    · exact le_rfl
    · exact Nat.zero_le 1
  omega

/-! ## Progress -/

/-- The task waits for the promise, behind at most `k` others. -/
def Behind (s : SuspendedTasks) (taskID promise k : Nat) : Prop :=
  ∃ m before after, s.getSuspendedTaskMeta taskID = some m ∧ m.promise = promise ∧
    s.live = before ++ taskID :: after ∧ before.length ≤ k

/-- A promise that no task waits for. -/
def Past (s : SuspendedTasks) (promise : Nat) : Prop :=
  promise < s.promises.length ∧ ¬ s.Waiting promise

variable {promise : Nat}

theorem Inv.count_of_past (hinv : Inv s) (h : s.Past promise) :
    s.resumed.count promise = 1 := by
  rcases hinv.resumed promise h.1 with ⟨hone, -⟩ | ⟨-, hwait⟩
  · exact hone
  · exact absurd hwait h.2

theorem Inv.past_of_gone (hinv : Inv s)
    (hm : s.getSuspendedTaskMeta taskID = some m)
    (hlookup : ∀ t m, s'.getSuspendedTaskMeta t = some m → s.getSuspendedTaskMeta t = some m)
    (hpromises : s.promises.length ≤ s'.promises.length)
    (hgone : s'.getSuspendedTaskMeta taskID = none) : s'.Past m.promise := by
  refine ⟨(hinv.promise _ _ hm).trans_le hpromises, ?_⟩
  rintro ⟨t, m', hm', heq⟩
  obtain rfl := hinv.promise_inj t taskID m' m (hlookup _ _ hm') hm heq
  rw [hgone] at hm'
  cases hm'

theorem Ticked.promises {ids : List Nat} {result : Except JsError (Option Bool)}
    (h : Ticked tasks ids s result s') : s'.promises.length = s.promises.length := by
  induction h with
  | done => rfl
  | throws => rfl
  | rejected _ _ _ hr => exact hr.promises
  | notReady _ _ _ _ _ ih => exact ih
  | ready _ _ _ _ hr _ ih => exact ih.trans hr.promises

/-- What is known of an entry after a step: it is an old one, or a new one. -/
theorem next_lookup (hstep : next call s s') (hinv : Inv s) :
    s.promises.length ≤ s'.promises.length ∧ ∀ t m, s'.getSuspendedTaskMeta t = some m →
      s.getSuspendedTaskMeta t = some m ∨
        s.getSuspendedTaskMeta t = none ∧ m.promise = s.promises.length := by
  cases call with
  | suspendTask taskID componentIdx readyFn =>
    rw [hstep]
    rcases suspendTask_spec s taskID componentIdx readyFn with heq | ⟨hnone, hs, -⟩
    · rw [heq]
      exact ⟨le_rfl, fun t m hm => .inl hm⟩
    · refine ⟨?_, fun t m hm => ?_⟩
      · rw [hs.promises, length_append]
        exact Nat.le_add_right _ _
      rw [hs.lookup] at hm
      split at hm
      case isTrue ht =>
        cases hm
        exact .inr ⟨ht ▸ hnone, rfl⟩
      case isFalse => exact .inl hm
  | resumeTaskByID tasks taskID =>
    rw [hstep]
    rcases resumeTaskByID_cases hinv tasks taskID with ⟨m, hget, hr⟩ | ⟨hsame, -⟩
    · refine ⟨hr.promises.ge, fun t m hm => .inl ?_⟩
      rw [hr.lookup] at hm
      split at hm
      · cases hm
      · exact hm
    · exact ⟨(congrArg List.length hsame.promises).ge, fun t m hm => .inl (hsame.lookup t ▸ hm)⟩
  | tick tasks =>
    rw [hstep]
    have hticked := tick_ticked hinv tasks
    exact ⟨hticked.promises.ge, fun t m hm => .inl (hticked.lookup hm)⟩
  | loopTick tasks =>
    rw [hstep.2]
    have hticked := tick_ticked hinv tasks
    have hsame := same_loopTick s tasks
    refine ⟨((congrArg List.length hsame.promises).trans hticked.promises).ge, fun t m hm => .inl ?_⟩
    rw [hsame.lookup] at hm
    exact hticked.lookup hm

theorem next_past (hstep : next call s s') (hinv : Inv s)
    (h : s.Past promise) : s'.Past promise := by
  obtain ⟨hle, hlookup⟩ := next_lookup hstep hinv
  refine ⟨h.1.trans_le hle, ?_⟩
  rintro ⟨t, m, hm, rfl⟩
  rcases hlookup t m hm with hold | ⟨-, hnew⟩
  · exact h.2 ⟨t, m, hold, rfl⟩
  · exact absurd h.1 (by omega)

theorem next_behind (hstep : next call s s') (hinv : Inv s) {taskID promise k : Nat}
    (h : s.Behind taskID promise k) : s'.Past promise ∨ s'.Behind taskID promise k := by
  obtain ⟨m, before, after, hm, rfl, hsplit, hk⟩ := h
  cases call with
  | suspendTask u componentIdx readyFn =>
    rw [hstep]
    right
    rcases suspendTask_spec s u componentIdx readyFn with heq | ⟨hnone, hs, -⟩
    · rw [heq]
      exact ⟨m, before, after, hm, rfl, hsplit, hk⟩
    · refine ⟨m, before, after ++ [u], ?_, rfl, ?_, hk⟩
      · rw [hs.lookup, if_neg]
        · exact hm
        · rintro rfl
          rw [hnone] at hm
          cases hm
      · rw [hs.live, hsplit]
        simp
  | resumeTaskByID tasks u =>
    -- the task itself is resumed, or one before or behind it
    rw [hstep]
    rcases resumeTaskByID_cases hinv tasks u with ⟨m', hget, hr⟩ | ⟨hsame, -⟩
    · by_cases hu : u = taskID
      · subst hu
        left
        cases hget.symm.trans hm
        exact ⟨hr.promises ▸ hinv.promise _ _ hm, fun h => ((hr.waiting hinv hget _).1 h).2 rfl⟩
      · obtain ⟨before', after', hsplit', hle, -⟩ := erase_split hu hsplit
        right
        refine ⟨m, before', after', ?_, rfl, hr.live.trans hsplit', hle.trans hk⟩
        rw [hr.lookup, if_neg (Ne.symm hu)]
        exact hm
    · exact .inr ⟨m, before, after, (hsame.lookup _).trans hm, rfl, hsame.live.trans hsplit, hk⟩
  | tick tasks =>
    rw [hstep]
    have hticked := tick_ticked hinv tasks
    rcases hticked.split hsplit with hgone | ⟨before', after', hsplit', hle, hget⟩
    · exact .inl (hinv.past_of_gone hm (fun _ _ => hticked.lookup) hticked.promises.ge hgone)
    · exact .inr ⟨m, before', after', hget.trans hm, rfl, hsplit', hle.trans hk⟩
  | loopTick tasks =>
    rw [hstep.2]
    have hticked := tick_ticked hinv tasks
    have hsame := same_loopTick s tasks
    rcases hticked.split hsplit with hgone | ⟨before', after', hsplit', hle, hget⟩
    · left
      refine hinv.past_of_gone hm (fun t m h => ?_)
        ((congrArg List.length hsame.promises).trans hticked.promises).ge ?_
      · rw [hsame.lookup] at h
        exact hticked.lookup h
      · exact (hsame.lookup _).trans hgone
    · exact .inr ⟨m, before', after', (hsame.lookup _).trans (hget.trans hm), rfl,
        hsame.live.trans hsplit', hle.trans hk⟩

/-- A tick of the loop resumes a ready task, or one of those before it. -/
theorem loopTick_behind (hinv : Inv s) (hsafe : ¬ s.Throws tasks) {taskID promise k : Nat}
    (hready : tasks.readyFn taskID = .returns true) (h : s.Behind taskID promise k) :
    (s.loopTick tasks).Past promise ∨
      ∃ k', k = k' + 1 ∧ (s.loopTick tasks).Behind taskID promise k' := by
  obtain ⟨m, before, after, hm, rfl, hsplit, hk⟩ := h
  have hticked := tick_ticked hinv tasks
  have hsame := same_loopTick s tasks
  have hok : ∀ err, (s.tick tasks).1 ≠ .error err :=
    fun err h => hsafe ((tick_error_iff hinv).1 ⟨err, h⟩)
  rcases hticked.progress hok hready hsplit hsplit (fun u hu => hu) hinv.nodup with
    hgone | ⟨before', after', hsplit', hlt, hget⟩
  · left
    refine hinv.past_of_gone hm (fun t m h => ?_)
          ((congrArg List.length hsame.promises).trans hticked.promises).ge ?_
    · rw [hsame.lookup] at h
      exact hticked.lookup h
    · exact (hsame.lookup _).trans hgone
  · right
    obtain ⟨k', rfl⟩ : ∃ k', k = k' + 1 := ⟨k - 1, by omega⟩
    exact ⟨k', rfl, m, before', after', (hsame.lookup _).trans (hget.trans hm), rfl,
      hsame.live.trans hsplit', by omega⟩

/-! ## Promises -/

/-- A tick resolves with `true` the promises of the ready tasks that it comes to,
and no others. -/
theorem Ticked.settled {ids : List Nat} {result : Except JsError (Option Bool)}
    (h : Ticked tasks ids s result s') (hinv : Inv s) (hnodup : ids.Nodup)
    (hfns : ∀ t m, s.getSuspendedTaskMeta t = some m → m.readyFn = true)
    (hrejected : ∀ t, tasks.isRejected t = true → tasks.isCancelled t = true) (p : Nat) :
    s'.promises[p]? = some (some true) ↔ s.promises[p]? = some (some true) ∨
      ∃ t ∈ ids.takeWhile tasks.goesPast, ∃ m, s.getSuspendedTaskMeta t = some m ∧
        m.promise = p ∧ tasks.readyFn t = .returns true ∧ tasks.isCancelled t = false := by
  induction h with
  | done => simp
  | @throws s taskID ids m err hget hthrows =>
    have hpast : tasks.goesPast taskID = false := by
      unfold Tasks.goesPast
      rcases hthrows with hfn | ⟨-, err, hthrows⟩
      · rw [hfns _ _ hget] at hfn
        cases hfn
      · rw [hthrows, Bool.and_false]
    rw [takeWhile_cons_of_neg (by simp [hpast])]
    simp
  | @rejected s s' taskID ids m hget _ hrej hr =>
    have hpast : tasks.goesPast taskID = false := by
      unfold Tasks.goesPast
      rw [hrej, Bool.not_true, Bool.false_and]
    rw [takeWhile_cons_of_neg (by simp [hpast]), hr.settles]
    split
    case isTrue hp =>
      subst hp
      rw [hinv.unsettled _ _ hget, hrejected _ hrej]
      simp
    case isFalse => simp
  | @notReady s s' taskID ids m result hget hfn hrej hready _ ih =>
    have hpast : tasks.goesPast taskID = true := by
      unfold Tasks.goesPast
      rw [hrej, hready]
      rfl
    rw [ih hinv (nodup_cons.1 hnodup).2 hfns, takeWhile_cons_of_pos hpast]
    simp [hready]
  | @ready s u s' taskID ids m result hget hfn hrej hready hr _ ih =>
    obtain ⟨hnot, hnodup⟩ := nodup_cons.1 hnodup
    have hpast : tasks.goesPast taskID = true := by
      unfold Tasks.goesPast
      rw [hrej, hready]
      rfl
    have hinv' : Inv u := hinv.resume hget hr fun p hp => mem_singleton.1 hp
    have hlookup : ∀ t ∈ ids.takeWhile tasks.goesPast,
        u.getSuspendedTaskMeta t = s.getSuspendedTaskMeta t := by
      intro t ht
      rw [hr.lookup, if_neg]
      rintro rfl
      exact hnot ((List.takeWhile_prefix _).subset ht)
    have hfns' : ∀ t m, u.getSuspendedTaskMeta t = some m → m.readyFn = true := by
      intro t m' hm
      rw [hr.lookup] at hm
      split at hm
      · cases hm
      · exact hfns t m' hm
    rw [ih hinv' hnodup hfns', takeWhile_cons_of_pos hpast, hr.settles]
    -- the promise of the task itself, then those of the tasks after it
    have hself : (if p = m.promise then
        (s.promises[p]?).map fun v => some (v.getD (!tasks.isCancelled taskID))
        else s.promises[p]?) = some (some true) ↔
        s.promises[p]? = some (some true) ∨ m.promise = p ∧ tasks.isCancelled taskID = false := by
      by_cases hp : p = m.promise
      · subst hp
        rw [if_pos rfl, hinv.unsettled _ _ hget]
        simp
      · rw [if_neg hp]
        simp [Ne.symm hp]
    rw [hself]
    constructor
    · rintro ((h | ⟨hp, hc⟩) | ⟨t, ht, m', hm', hrest⟩)
      · exact .inl h
      · exact .inr ⟨taskID, mem_cons_self, m, hget, hp, hready, hc⟩
      · rw [hlookup t ht] at hm'
        exact .inr ⟨t, mem_cons_of_mem _ ht, m', hm', hrest⟩
    · rintro (h | ⟨t, ht, m', hm', hp, hr', hc⟩)
      · exact .inl (.inl h)
      · rcases mem_cons.1 ht with rfl | ht
        · cases hget.symm.trans hm'
          exact .inl (.inr ⟨hp, hc⟩)
        · refine .inr ⟨t, ht, m', ?_, hp, hr', hc⟩
          rw [hlookup t ht]
          exact hm'

/-! ## Runs -/

def Call.isLoopTick : Call → Bool
  | .loopTick _ => true
  | _ => false

variable {calls : List Call}

theorem Inv.run (hrun : Run (guarded Safe next) s calls s') (hinv : Inv s) :
    Inv s' := by
  have hstep : ∀ (call : Call) (t t' : SuspendedTasks), guarded Safe next call t t' →
      Inv t → Inv t' :=
    fun call t t' h hi => next_inv h.2 hi
  exact Run.invariant hstep hrun hinv

theorem past_run (hrun : Run (guarded Safe next) s calls s') (hinv : Inv s)
    (h : s.Past promise) : s'.Past promise := by
  induction hrun with
  | nil => exact h
  | cons hstep _ ih => exact ih (next_inv hstep.2 hinv) (next_past hstep.2 hinv h)

/-- A task that stays ready is resumed when the loop has ticked once more than
there are tasks before it. -/
theorem past_of_ticks (hrun : Run (guarded Safe next) s calls s')
    (hinv : Inv s) {taskID promise k : Nat} (h : s.Behind taskID promise k)
    (hready : ∀ tasks, .loopTick tasks ∈ calls → tasks.readyFn taskID = .returns true)
    (hticks : k < calls.countP Call.isLoopTick) : s'.Past promise := by
  induction hrun generalizing k with
  | nil => simp at hticks
  | @cons s u s' call calls hstep hrest ih =>
    have hinv' := next_inv hstep.2 hinv
    have hready' : ∀ tasks, .loopTick tasks ∈ calls → tasks.readyFn taskID = .returns true :=
      fun tasks ht => hready tasks (mem_cons_of_mem _ ht)
    by_cases hcall : call.isLoopTick = true
    · rw [countP_cons_of_pos hcall] at hticks
      cases call with
      | loopTick tasks =>
        obtain ⟨hsafe, -, rfl⟩ := hstep
        rcases loopTick_behind hinv hsafe (hready tasks mem_cons_self) h with
          hpast | ⟨k', rfl, hbehind⟩
        · exact past_run hrest hinv' hpast
        · exact ih hinv' hbehind hready' (by omega)
      | suspendTask => cases hcall
      | resumeTaskByID => cases hcall
      | tick => cases hcall
    · rw [countP_cons_of_neg hcall] at hticks
      rcases next_behind hstep.2 hinv h with hpast | hbehind
      · exact past_run hrest hinv' hpast
      · exact ih hinv' hbehind hready' hticks

/-- As long as no ready function throws in a tick of the loop, the bookkeeping is
in order, and a task that stays ready is resumed once, at the latest when the
loop has ticked once more than there are tasks before it in the list. The first
throw in the loop is the end of the order. -/
theorem suspendedTasks_kept {componentIdx : Int} {calls : List Call}
    (hrun : Run (guarded Safe next) (init componentIdx) calls s) :
    Kept s ∧ (∀ call s', next call s s' → (Kept s' ↔ Safe call s)) ∧
      ∀ taskID m calls' s', s.getSuspendedTaskMeta taskID = some m →
        Run (guarded Safe next) s calls' s' →
        (∀ tasks, .loopTick tasks ∈ calls' → tasks.readyFn taskID = .returns true) →
        s.live.idxOf taskID < calls'.countP Call.isLoopTick →
        s'.resumed.count m.promise = 1 := by
  have hstep : ∀ (call : Call) (t t' : SuspendedTasks), guarded Safe next call t t' →
      (Inv t ∧ Looping t) → Inv t' ∧ Looping t' :=
    fun call t t' h hi => ⟨next_inv h.2 hi.1, next_looping h.2 h.1 hi.1 hi.2⟩
  obtain ⟨hinv, hloop⟩ := Run.invariant hstep hrun ⟨.init componentIdx, .init componentIdx⟩
  refine ⟨hinv.kept hloop, fun call s' hnext => ⟨fun hkept => ?_, fun hsafe => ?_⟩, ?_⟩
  · cases call with
    | suspendTask => trivial
    | resumeTaskByID => trivial
    | tick => trivial
    | loopTick tasks =>
      intro hthrows
      obtain ⟨-, rfl⟩ := hnext
      exact not_kept_of_throws hinv hloop hthrows hkept
  · exact (next_inv hnext hinv).kept (next_looping hnext hsafe hinv hloop)
  · intro taskID m calls' s' hm hrun' hready hticks
    have hmem : taskID ∈ s.live := (hinv.ids taskID).2 (Option.isSome_iff_exists.2 ⟨m, hm⟩)
    have hlt := idxOf_lt_length_of_mem hmem
    have hsplit : s.live = s.live.take (s.live.idxOf taskID) ++
        taskID :: s.live.drop (s.live.idxOf taskID + 1) := by
      conv_lhs => rw [← take_append_drop (s.live.idxOf taskID) s.live]
      rw [drop_eq_getElem_cons hlt, getElem_idxOf hlt]
    have hbehind : s.Behind taskID m.promise (s.live.idxOf taskID) :=
      ⟨m, _, _, hm, rfl, hsplit, length_take_le _ _⟩
    exact (hinv.run hrun').count_of_past (past_of_ticks hrun' hinv hbehind hready hticks)

/-- No task is rejected or cancelled, and the first task has the ready function. -/
def firstTask (ready : Ready) : Tasks where
  isRejected _ := false
  isCancelled _ := false
  readyFn t := if t = 1 then ready else .returns false

/-- A task waits until it is ready, and the other one waits on. -/
def waitThenResume : List Call :=
  [.suspendTask 1 0 true, .suspendTask 2 0 true, .loopTick (firstTask (.returns false)),
    .loopTick (firstTask (.returns true))]

theorem Inv.not_throws (hinv : Inv s) {done : Option Bool} (htick : (s.tick tasks).1 = .ok done) :
    ¬ s.Throws tasks := by
  intro hthrows
  obtain ⟨err, herr⟩ := (tick_error_iff hinv).2 hthrows
  rw [herr] at htick
  cases htick

theorem waitThenResume_run : ∃ s, Run (guarded Safe next) (init 0) waitThenResume s ∧
    s.resumed = [0] ∧ s.live = [2] := by
  have hinit := Inv.init 0
  have h₂ : Run (guarded Safe next) (init 0) (waitThenResume.take 2) _ :=
    .cons ⟨trivial, rfl⟩ <| .cons ⟨trivial, rfl⟩ <| .nil _
  have h₃ : Run (guarded Safe next) (init 0) (waitThenResume.take 3) _ :=
    h₂.snoc ⟨(hinit.run h₂).not_throws rfl, Nat.one_pos, rfl⟩
  have h₄ : Run (guarded Safe next) (init 0) waitThenResume _ :=
    h₃.snoc ⟨(hinit.run h₃).not_throws rfl, Nat.one_pos, rfl⟩
  exact ⟨_, h₄, rfl, rfl⟩

theorem suspendedTasks_kept_waitThenResume :
    ∃ s, Run (guarded Safe next) (init 0) waitThenResume s ∧ Kept s := by
  obtain ⟨s, hrun, -⟩ := waitThenResume_run
  exact ⟨s, hrun, (suspendedTasks_kept hrun).1⟩

/-- A ready function throws in the loop. -/
def throwInLoop : List Call :=
  [.suspendTask 1 0 true, .suspendTask 2 0 true, .loopTick (firstTask (.throws .engine))]

/-- Both tasks are left, with the flag up and no timeout. -/
theorem throwInLoop_run : ∃ s, Run next (init 0) throwInLoop s ∧
    s.live = [1, 2] ∧ 2 ∈ s.suspendedTasksByTaskID ∧ s.timers = 0 ∧ s.tickLoop = true :=
  ⟨_, .cons rfl <| .cons rfl <| .cons ⟨Nat.one_pos, rfl⟩ <| .nil _, rfl,
    lookup_isSome.1 rfl, rfl, rfl⟩

theorem throwInLoop_not_kept : ¬ ∀ (calls : List Call) (s : SuspendedTasks),
    Run next (init 0) calls s → Kept s := by
  intro hall
  obtain ⟨s, hrun, -, hmem, htimers, -⟩ := throwInLoop_run
  have hpos := (hall _ s hrun).scheduled 2 hmem
  rw [htimers] at hpos
  exact lt_irrefl 0 hpos

end Jco.Component.SuspendedTasks

import Mathlib.Data.List.Basic
import Mathlib.Logic.Function.Basic
import Jco.Lib.Run

/-! # Dropping resources of the worker

The worker keeps for each resource a poll state, and in it the list of the
pollables that were made by `createPoll`. A drop goes through that list with
`verifyPollsDroppedForDrop`, for the kinds of resources that do so.

Besides the tables of the worker a state records for each pollable what it was
obtained from: `owner` and `kind` are read by no function of the worker, only by
what is promised of a drop. Resources are numbered through over all tables.
-/

namespace Jco.Preview2

open Jco.Lib

/-- The kinds of resources, as far as their drops differ. -/
inductive Kind where
  | inputStream
  | outputStream
  /-- Standard output and standard error, which the worker keeps. -/
  | stdio
  /-- The stream of an outgoing HTTP body. -/
  | outgoingBody
  /-- The future of an HTTP response. -/
  | httpResponse
  /-- The future of a name lookup. -/
  | nameLookup
  | tcpSocket
  | udpSocket
  | datagramStream
deriving DecidableEq, Repr

/-- A resource: where its poll state is, and for a datagram stream whether it is
active and its handlers are attached to the socket. -/
structure Resource where
  kind : Kind
  pollState : Nat
  active : Bool := true
  attached : Bool := true
deriving DecidableEq, Repr

/-- An entry of `polls`, with what it was obtained from. -/
structure Poll where
  pollState : Nat
  owner : Nat
  kind : Kind
deriving DecidableEq, Repr

/-- `children n` is the list `polls` of the poll state `n`. -/
structure State where
  resources : Nat → Option Resource
  polls : Nat → Option Poll
  children : Nat → List Nat
  resourceCnt : Nat
  pollStateCnt : Nat
  pollCnt : Nat

inductive Op where
  /-- A resource with a poll state of its own. -/
  | create (kind : Kind)
  /-- `SOCKET_TCP_ACCEPT` on a listening socket. -/
  | accept (listener : Nat)
  /-- The subscription of the resource's kind. -/
  | subscribe (resource : Nat)
  /-- `POLL_POLLABLE_DISPOSE` -/
  | dropPoll (poll : Nat)
  /-- `socketDatagramStreamClear`, when the socket is given new streams. -/
  | clear (stream : Nat)
  /-- The drop of the resource's kind. -/
  | drop (resource : Nat)
deriving DecidableEq, Repr

namespace State

def fresh : State where
  resources _ := none
  polls _ := none
  children _ := []
  resourceCnt := 0
  pollStateCnt := 0
  pollCnt := 0

/-- A new resource on a poll state. -/
def add (s : State) (kind : Kind) (pollState : Nat) : State :=
  { s with
    resources := Function.update s.resources s.resourceCnt (some { kind, pollState })
    resourceCnt := s.resourceCnt + 1 }

/-- A new poll state, not used yet. -/
def addPollState (s : State) : State := { s with pollStateCnt := s.pollStateCnt + 1 }

def create (s : State) (kind : Kind) : State := s.addPollState.add kind s.pollStateCnt

/-- The accepted socket and its input stream are given one poll state. -/
def socketTcpAccept (s : State) : State :=
  let pollState := s.pollStateCnt
  let s := (s.addPollState.add .tcpSocket pollState).add .inputStream pollState
  s.create .outputStream

/-- A pollable of a resource; `createPoll` lists it in the poll state,
`FUTURE_SUBSCRIBE` does not. -/
def subscribe (s : State) (id : Nat) (resource : Resource) : State :=
  let pollId := s.pollCnt + 1
  let poll := { pollState := resource.pollState, owner := id, kind := resource.kind }
  let s := { s with pollCnt := pollId, polls := Function.update s.polls pollId (some poll) }
  if resource.kind = .httpResponse then
    s
  else
    let listed := s.children resource.pollState ++ [pollId]
    { s with children := Function.update s.children resource.pollState listed }

/-- `verifyPollsDroppedForDrop` throws. -/
def childLeft (s : State) (pollState : Nat) : Bool :=
  (s.children pollState).any fun pollId => (s.polls pollId).isSome

def delete (s : State) (id : Nat) : State :=
  { s with resources := Function.update s.resources id none }

/-- `active = false` and the cleanup, for a stream and for its drop. -/
def clearStream (s : State) (id : Nat) (resource : Resource) : State :=
  let cleared := { resource with active := false, attached := false }
  { s with resources := Function.update s.resources id (some cleared) }

/-- Check, then delete. -/
def verifyAndDelete (s : State) (id : Nat) (resource : Resource) : Bool × State :=
  if s.childLeft resource.pollState then (true, s) else (false, s.delete id)

/-- `socketDatagramStreamDispose` -/
def socketDatagramStreamDispose (s : State) (id : Nat) (resource : Resource) : Bool × State :=
  let s := s.clearStream id resource
  if s.childLeft resource.pollState then (true, s) else (false, s.delete id)

/-- The drop of a resource: whether it traps, and the state it leaves. -/
def dispose (s : State) (id : Nat) (resource : Resource) : Bool × State :=
  match resource.kind with
  | .inputStream => s.verifyAndDelete id resource
  | .outputStream => s.verifyAndDelete id resource
  -- `OUTPUT_STREAM_DISPOSE | STDOUT`
  | .stdio => (false, s)
  -- `HTTP_OUTGOING_BODY_DISPOSE`
  | .outgoingBody => (false, s.delete id)
  | .httpResponse => s.verifyAndDelete id resource
  | .nameLookup => s.verifyAndDelete id resource
  | .tcpSocket => s.verifyAndDelete id resource
  -- `socketUdpDispose`
  | .udpSocket => (false, s.delete id)
  | .datagramStream => s.socketDatagramStreamDispose id resource

/-- One call; `none` where its resource is not there. -/
def perform (s : State) : Op → Option State
  | .create kind => some (s.create kind)
  | .accept listener =>
    match s.resources listener with
    | some ⟨.tcpSocket, _, _, _⟩ => some s.socketTcpAccept
    | _ => none
  | .subscribe id => (s.resources id).map fun resource => s.subscribe id resource
  | .dropPoll pollId =>
    if (s.polls pollId).isSome then
      some { s with polls := Function.update s.polls pollId none }
    else
      none
  | .clear id =>
    match s.resources id with
    | some ⟨.datagramStream, pollState, active, attached⟩ =>
      some (s.clearStream id ⟨.datagramStream, pollState, active, attached⟩)
    | _ => none
  | .drop id => (s.resources id).map fun resource => (s.dispose id resource).2

end State

def next : Action Op State := computed State.perform

/-! ## What is promised of a drop -/

/-- A pollable obtained from the resource has not been dropped. -/
def HasPollable (s : State) (id : Nat) : Prop :=
  ∃ pollId poll, s.polls pollId = some poll ∧ poll.owner = id

/-- The drop traps exactly while a pollable of the resource is left, and a drop
that traps changes nothing. -/
def Outlives (s : State) (id : Nat) (resource : Resource) : Prop :=
  ((s.dispose id resource).1 = true ↔ HasPollable s id) ∧
    ((s.dispose id resource).1 = true → (s.dispose id resource).2 = s)

/-- Some pollable of the poll state has not been dropped. -/
def PollStateUsed (s : State) (pollState : Nat) : Prop :=
  ∃ pollId poll, s.polls pollId = some poll ∧ poll.pollState = pollState

/-- When a drop is as promised. -/
def DropWhen (s : State) (id : Nat) (resource : Resource) : Prop :=
  match resource.kind with
  | .outputStream | .nameLookup => True
  -- the poll state may be shared
  | .inputStream | .tcpSocket => PollStateUsed s resource.pollState → HasPollable s id
  | .stdio | .outgoingBody | .httpResponse | .udpSocket => ¬ HasPollable s id
  | .datagramStream => HasPollable s id → resource.active = false

/-! ## The tables -/

/-- The kinds between which `socketTcpAccept` shares a poll state. -/
def Shareable (kind : Kind) : Prop := kind = .tcpSocket ∨ kind = .inputStream

/-- The tables belong together: a pollable is listed where it was obtained,
unless that was the future of a response, and a poll state is shared by an
accepted socket and its input stream only. -/
structure Inv (s : State) : Prop where
  poll_le : ∀ pollId poll, s.polls pollId = some poll → pollId ≤ s.pollCnt
  child_le : ∀ n, ∀ pollId ∈ s.children n, pollId ≤ s.pollCnt
  resource_lt : ∀ id r, s.resources id = some r →
    id < s.resourceCnt ∧ r.pollState < s.pollStateCnt
  owner_lt : ∀ pollId poll, s.polls pollId = some poll →
    poll.owner < s.resourceCnt ∧ poll.pollState < s.pollStateCnt
  listed : ∀ pollId poll, s.polls pollId = some poll → poll.kind ≠ .httpResponse →
    pollId ∈ s.children poll.pollState
  child : ∀ n, ∀ pollId ∈ s.children n, ∀ poll, s.polls pollId = some poll →
    poll.pollState = n ∧ poll.kind ≠ .httpResponse
  owned : ∀ pollId poll r, s.polls pollId = some poll → s.resources poll.owner = some r →
    poll.pollState = r.pollState ∧ poll.kind = r.kind
  shared : ∀ pollId poll id r, s.polls pollId = some poll → s.resources id = some r →
    poll.pollState = r.pollState → poll.owner = id ∨ Shareable poll.kind ∧ Shareable r.kind
  sharing : ∀ id r id' r', s.resources id = some r → s.resources id' = some r' →
    r.pollState = r'.pollState → id = id' ∨ Shareable r.kind ∧ Shareable r'.kind
  detached : ∀ id r, s.resources id = some r → r.active = false → r.attached = false

theorem fresh_inv : Inv .fresh where
  poll_le _ _ := nofun
  child_le _ _ := nofun
  resource_lt _ _ := nofun
  owner_lt _ _ := nofun
  listed _ _ := nofun
  child _ _ := nofun
  owned _ _ _ := nofun
  shared _ _ _ _ := nofun
  sharing _ _ _ _ := nofun
  detached _ _ := nofun

variable {s s' : State} {id : Nat} {r : Resource}

/-- What removes pollables and resources, or detaches a stream, keeps the tables
together. -/
theorem Inv.shrink (h : Inv s) (hcounts : s'.pollCnt = s.pollCnt ∧
      s'.resourceCnt = s.resourceCnt ∧ s'.pollStateCnt = s.pollStateCnt)
    (hchildren : s'.children = s.children)
    (hpolls : ∀ pollId poll, s'.polls pollId = some poll → s.polls pollId = some poll)
    (hresources : ∀ id r', s'.resources id = some r' →
      ∃ r, s.resources id = some r ∧ r'.kind = r.kind ∧ r'.pollState = r.pollState ∧
        (r'.active = false → r'.attached = false)) :
    Inv s' where
  poll_le pollId poll hpoll := by
    rw [hcounts.1]
    exact h.poll_le pollId poll (hpolls _ _ hpoll)
  child_le n pollId hmem := by
    rw [hcounts.1]
    rw [hchildren] at hmem
    exact h.child_le n pollId hmem
  resource_lt id r' hr' := by
    obtain ⟨r, hr, -, hstate, -⟩ := hresources id r' hr'
    rw [hcounts.2.1, hcounts.2.2, hstate]
    exact h.resource_lt id r hr
  owner_lt pollId poll hpoll := by
    rw [hcounts.2.1, hcounts.2.2]
    exact h.owner_lt pollId poll (hpolls _ _ hpoll)
  listed pollId poll hpoll hkind := by
    rw [hchildren]
    exact h.listed pollId poll (hpolls _ _ hpoll) hkind
  child n pollId hmem poll hpoll := by
    rw [hchildren] at hmem
    exact h.child n pollId hmem poll (hpolls _ _ hpoll)
  owned pollId poll r' hpoll hr' := by
    obtain ⟨r, hr, hkind, hstate, -⟩ := hresources _ r' hr'
    rw [hkind, hstate]
    exact h.owned pollId poll r (hpolls _ _ hpoll) hr
  shared pollId poll id r' hpoll hr' := by
    obtain ⟨r, hr, hkind, hstate, -⟩ := hresources _ r' hr'
    rw [hkind, hstate]
    exact h.shared pollId poll id r (hpolls _ _ hpoll) hr
  sharing id₁ r₁ id₂ r₂ hr₁ hr₂ := by
    obtain ⟨r₁', hr₁', hkind₁, hstate₁, -⟩ := hresources _ _ hr₁
    obtain ⟨r₂', hr₂', hkind₂, hstate₂, -⟩ := hresources _ _ hr₂
    rw [hkind₁, hstate₁, hkind₂, hstate₂]
    exact h.sharing id₁ r₁' id₂ r₂' hr₁' hr₂'
  detached id r' hr' hactive := by
    obtain ⟨-, -, -, -, hdetached⟩ := hresources _ r' hr'
    exact hdetached hactive

theorem Inv.delete (h : Inv s) (id : Nat) : Inv (s.delete id) := by
  refine h.shrink ⟨rfl, rfl, rfl⟩ rfl (fun _ _ hpoll => hpoll) fun other r hr => ?_
  by_cases hother : other = id
  · subst hother
    simp [State.delete] at hr
  · have hold : s.resources other = some r := by simpa [State.delete, hother] using hr
    exact ⟨r, hold, rfl, rfl, h.detached other r hold⟩

theorem Inv.clearStream (h : Inv s) (hr : s.resources id = some r) : Inv (s.clearStream id r) := by
  refine h.shrink ⟨rfl, rfl, rfl⟩ rfl (fun _ _ hpoll => hpoll) fun other r' hr' => ?_
  by_cases hother : other = id
  · subst hother
    have heq : { r with active := false, attached := false } = r' := by
      simpa [State.clearStream] using hr'
    subst heq
    exact ⟨r, hr, rfl, rfl, fun _ => rfl⟩
  · have hold : s.resources other = some r' := by simpa [State.clearStream, hother] using hr'
    exact ⟨r', hold, rfl, rfl, h.detached other r' hold⟩

theorem Inv.dropPoll (h : Inv s) (pollId : Nat) :
    Inv { s with polls := Function.update s.polls pollId none } := by
  refine h.shrink ⟨rfl, rfl, rfl⟩ rfl (fun other poll hpoll => ?_)
    fun id r hr => ⟨r, hr, rfl, rfl, h.detached id r hr⟩
  by_cases hother : other = pollId
  · subst hother
    simp at hpoll
  · simpa [hother] using hpoll

/-- A new poll state is used by nothing. -/
theorem Inv.addPollState (h : Inv s) : Inv s.addPollState :=
  { h with
    resource_lt := fun id r hr => ⟨(h.resource_lt id r hr).1,
      Nat.lt_succ_of_lt (h.resource_lt id r hr).2⟩
    owner_lt := fun pollId poll hpoll => ⟨(h.owner_lt pollId poll hpoll).1,
      Nat.lt_succ_of_lt (h.owner_lt pollId poll hpoll).2⟩ }

/-- A resource is added on a poll state without pollables, which only resources
that may share use. -/
theorem Inv.add (h : Inv s) {kind : Kind} {pollState : Nat} (hlt : pollState < s.pollStateCnt)
    (hpolls : ∀ pollId poll, s.polls pollId = some poll → poll.pollState ≠ pollState)
    (hresources : ∀ id r, s.resources id = some r → r.pollState = pollState →
      Shareable r.kind ∧ Shareable kind) : Inv (s.add kind pollState) := by
  have hcases : ∀ other r', (s.add kind pollState).resources other = some r' →
      s.resources other = some r' ∨ other = s.resourceCnt ∧ r' = { kind, pollState } := by
    intro other r' hr'
    by_cases hother : other = s.resourceCnt
    · subst hother
      exact Or.inr ⟨rfl, by simpa [State.add] using hr'.symm⟩
    · exact Or.inl (by simpa [State.add, hother] using hr')
  exact
    { h with
      resource_lt := by
        intro other r' hr'
        obtain hold | ⟨rfl, rfl⟩ := hcases other r' hr'
        · exact ⟨Nat.lt_succ_of_lt (h.resource_lt other r' hold).1,
            (h.resource_lt other r' hold).2⟩
        · exact ⟨Nat.lt_succ_self _, hlt⟩
      owner_lt := fun pollId poll hpoll => ⟨Nat.lt_succ_of_lt (h.owner_lt pollId poll hpoll).1,
        (h.owner_lt pollId poll hpoll).2⟩
      owned := by
        intro pollId poll r' hpoll hr'
        obtain hold | ⟨howner, -⟩ := hcases poll.owner r' hr'
        · exact h.owned pollId poll r' hpoll hold
        · -- no pollable was obtained from a resource that is new
          exact absurd howner (Nat.ne_of_lt (h.owner_lt pollId poll hpoll).1)
      shared := by
        intro pollId poll other r' hpoll hr' hstate
        obtain hold | ⟨-, rfl⟩ := hcases other r' hr'
        · exact h.shared pollId poll other r' hpoll hold hstate
        · exact absurd hstate (hpolls pollId poll hpoll)
      sharing := by
        intro id₁ r₁ id₂ r₂ hr₁ hr₂ hstate
        obtain hold₁ | ⟨rfl, rfl⟩ := hcases id₁ r₁ hr₁
        · obtain hold₂ | ⟨-, rfl⟩ := hcases id₂ r₂ hr₂
          · exact h.sharing id₁ r₁ id₂ r₂ hold₁ hold₂ hstate
          · exact Or.inr (hresources id₁ r₁ hold₁ hstate)
        · obtain hold₂ | ⟨rfl, -⟩ := hcases id₂ r₂ hr₂
          · exact Or.inr (hresources id₂ r₂ hold₂ hstate.symm).symm
          · exact Or.inl rfl
      detached := by
        intro other r' hr' hactive
        obtain hold | ⟨-, rfl⟩ := hcases other r' hr'
        · exact h.detached other r' hold hactive
        · exact absurd hactive nofun }

theorem Inv.create (h : Inv s) (kind : Kind) : Inv (s.create kind) := by
  refine h.addPollState.add (Nat.lt_succ_self _) (fun pollId poll hpoll => ?_)
    fun id r hr hstate => ?_
  · exact Nat.ne_of_lt (h.owner_lt pollId poll hpoll).2
  · exact absurd hstate (Nat.ne_of_lt (h.resource_lt id r hr).2)

/-- The input stream of an accepted socket is added to the poll state of the
socket, which is new. -/
theorem Inv.socketTcpAccept (h : Inv s) : Inv s.socketTcpAccept := by
  have hsocket : Inv (s.addPollState.add .tcpSocket s.pollStateCnt) := h.create .tcpSocket
  refine Inv.create (hsocket.add (Nat.lt_succ_self _) (fun pollId poll hpoll => ?_)
    fun id r hr hstate => ?_) .outputStream
  · exact Nat.ne_of_lt (h.owner_lt pollId poll hpoll).2
  · by_cases hnew : id = s.resourceCnt
    · have heq : { kind := .tcpSocket, pollState := s.pollStateCnt } = r := by
        simpa [hnew, State.add, State.addPollState] using hr
      subst heq
      exact ⟨Or.inl rfl, Or.inr rfl⟩
    · have hold : s.resources id = some r := by
        simpa [hnew, State.add, State.addPollState] using hr
      exact absurd hstate (Nat.ne_of_lt (h.resource_lt id r hold).2)

/-- The pollables after a subscription. -/
theorem subscribe_polls {pollId : Nat} {poll : Poll}
    (hpoll : (s.subscribe id r).polls pollId = some poll) :
    (pollId ≠ s.pollCnt + 1 ∧ s.polls pollId = some poll) ∨
      (pollId = s.pollCnt + 1 ∧
        poll = { pollState := r.pollState, owner := id, kind := r.kind }) := by
  have hupdate : (s.subscribe id r).polls = Function.update s.polls (s.pollCnt + 1)
      (some { pollState := r.pollState, owner := id, kind := r.kind }) := by
    unfold State.subscribe
    split <;> rfl
  rw [hupdate] at hpoll
  by_cases hnew : pollId = s.pollCnt + 1
  · subst hnew
    exact Or.inr ⟨rfl, by simpa using hpoll.symm⟩
  · exact Or.inl ⟨hnew, by simpa [hnew] using hpoll⟩

/-- The lists after a subscription: one has the new pollable at its end, unless
it was obtained from the future of a response. -/
theorem mem_subscribe_children {n pollId : Nat} :
    pollId ∈ (s.subscribe id r).children n ↔
      pollId ∈ s.children n ∨
        (r.kind ≠ .httpResponse ∧ n = r.pollState ∧ pollId = s.pollCnt + 1) := by
  unfold State.subscribe
  by_cases hkind : r.kind = .httpResponse
  · simp [hkind]
  · by_cases hn : n = r.pollState
    · subst hn
      simp [hkind]
    · simp [hkind, hn]

theorem subscribe_rest (s : State) (id : Nat) (r : Resource) :
    (s.subscribe id r).resources = s.resources ∧
    (s.subscribe id r).pollCnt = s.pollCnt + 1 ∧
    (s.subscribe id r).resourceCnt = s.resourceCnt ∧
    (s.subscribe id r).pollStateCnt = s.pollStateCnt := by
  unfold State.subscribe
  split <;> exact ⟨rfl, rfl, rfl, rfl⟩

theorem Inv.subscribe (h : Inv s) (hr : s.resources id = some r) : Inv (s.subscribe id r) := by
  obtain ⟨hresources, hpollCnt, hresourceCnt, hpollStateCnt⟩ := subscribe_rest s id r
  constructor
  case poll_le =>
    intro pollId poll hpoll
    rw [hpollCnt]
    obtain ⟨-, hold⟩ | ⟨rfl, -⟩ := subscribe_polls hpoll
    · exact Nat.le_succ_of_le (h.poll_le pollId poll hold)
    · exact Nat.le_refl _
  case child_le =>
    intro n pollId hmem
    rw [hpollCnt]
    obtain hold | ⟨-, -, rfl⟩ := mem_subscribe_children.1 hmem
    · exact Nat.le_succ_of_le (h.child_le n pollId hold)
    · exact Nat.le_refl _
  case resource_lt =>
    rw [hresources, hresourceCnt, hpollStateCnt]
    exact h.resource_lt
  case owner_lt =>
    intro pollId poll hpoll
    rw [hresourceCnt, hpollStateCnt]
    obtain ⟨-, hold⟩ | ⟨-, rfl⟩ := subscribe_polls hpoll
    · exact h.owner_lt pollId poll hold
    · exact h.resource_lt id r hr
  case listed =>
    intro pollId poll hpoll hkind
    obtain ⟨-, hold⟩ | ⟨rfl, rfl⟩ := subscribe_polls hpoll
    · exact mem_subscribe_children.2 (Or.inl (h.listed pollId poll hold hkind))
    · exact mem_subscribe_children.2 (Or.inr ⟨hkind, rfl, rfl⟩)
  case child =>
    intro n pollId hmem poll hpoll
    obtain ⟨hne, hold⟩ | ⟨rfl, rfl⟩ := subscribe_polls hpoll
    · obtain hmem | ⟨-, -, heq⟩ := mem_subscribe_children.1 hmem
      · exact h.child n pollId hmem poll hold
      · exact absurd heq hne
    · obtain hmem | ⟨hkind, rfl, -⟩ := mem_subscribe_children.1 hmem
      · -- the number is new, so no list has it
        exact absurd (h.child_le n _ hmem) (Nat.not_succ_le_self _)
      · exact ⟨rfl, hkind⟩
  case owned =>
    intro pollId poll r' hpoll hr'
    rw [hresources] at hr'
    obtain ⟨-, hold⟩ | ⟨-, rfl⟩ := subscribe_polls hpoll
    · exact h.owned pollId poll r' hold hr'
    · have heq : r = r' := Option.some.inj (hr.symm.trans hr')
      subst heq
      exact ⟨rfl, rfl⟩
  case shared =>
    intro pollId poll other r' hpoll hr' hstate
    rw [hresources] at hr'
    obtain ⟨-, hold⟩ | ⟨-, rfl⟩ := subscribe_polls hpoll
    · exact h.shared pollId poll other r' hold hr' hstate
    · exact h.sharing id r other r' hr hr' hstate
  case sharing =>
    rw [hresources]
    exact h.sharing
  case detached =>
    rw [hresources]
    exact h.detached

theorem Inv.dispose (h : Inv s) (hr : s.resources id = some r) : Inv (s.dispose id r).2 := by
  have hverify : Inv (s.verifyAndDelete id r).2 := by
    unfold State.verifyAndDelete
    split
    · exact h
    · exact h.delete id
  unfold State.dispose
  cases r.kind with
  | inputStream => exact hverify
  | outputStream => exact hverify
  | stdio => exact h
  | outgoingBody => exact h.delete id
  | httpResponse => exact hverify
  | nameLookup => exact hverify
  | tcpSocket => exact hverify
  | udpSocket => exact h.delete id
  | datagramStream =>
    have hclear := h.clearStream hr
    unfold State.socketDatagramStreamDispose
    dsimp only
    split
    · exact hclear
    · exact hclear.delete id

theorem step_inv (op : Op) (s s' : State) (hnext : next op s s') (h : Inv s) : Inv s' := by
  unfold next computed State.perform at hnext
  cases op with
  | create kind =>
    cases hnext
    exact h.create kind
  | accept listener =>
    dsimp only at hnext
    split at hnext
    · cases hnext
      exact h.socketTcpAccept
    · cases hnext
  | subscribe id =>
    obtain ⟨r, hr, rfl⟩ := Option.map_eq_some_iff.1 hnext
    exact h.subscribe hr
  | dropPoll pollId =>
    dsimp only at hnext
    split at hnext
    · cases hnext
      exact h.dropPoll pollId
    · cases hnext
  | clear id =>
    dsimp only at hnext
    split at hnext
    case h_1 hr =>
      cases hnext
      exact h.clearStream hr
    case h_2 => cases hnext
  | drop id =>
    obtain ⟨r, hr, rfl⟩ := Option.map_eq_some_iff.1 hnext
    exact h.dispose hr

/-! ## What a drop finds -/

/-- The check finds a pollable of the poll state, one that is listed. -/
theorem Inv.childLeft_iff (h : Inv s) (pollState : Nat) :
    s.childLeft pollState = true ↔ ∃ pollId poll, s.polls pollId = some poll ∧
      poll.pollState = pollState ∧ poll.kind ≠ .httpResponse := by
  unfold State.childLeft
  rw [List.any_eq_true]
  constructor
  · rintro ⟨pollId, hmem, hsome⟩
    obtain ⟨poll, hpoll⟩ := Option.isSome_iff_exists.1 hsome
    have hchild := h.child pollState pollId hmem poll hpoll
    exact ⟨pollId, poll, hpoll, hchild⟩
  · rintro ⟨pollId, poll, hpoll, rfl, hkind⟩
    exact ⟨pollId, h.listed pollId poll hpoll hkind, by rw [hpoll]; rfl⟩

/-- A pollable obtained from a resource whose kind is listed is found. -/
theorem Inv.childLeft_of_hasPollable (h : Inv s) (hr : s.resources id = some r)
    (hkind : r.kind ≠ .httpResponse) (hpoll : HasPollable s id) :
    s.childLeft r.pollState = true := by
  obtain ⟨pollId, poll, hpoll, rfl⟩ := hpoll
  have howned := h.owned pollId poll r hpoll hr
  exact (h.childLeft_iff _).2 ⟨pollId, poll, hpoll, howned.1, howned.2 ▸ hkind⟩

/-- Where nothing is shared, what is found was obtained from the resource. -/
theorem Inv.hasPollable_of_childLeft (h : Inv s) (hr : s.resources id = some r)
    (hkind : ¬ Shareable r.kind) (hleft : s.childLeft r.pollState = true) : HasPollable s id := by
  obtain ⟨pollId, poll, hpoll, hstate, -⟩ := (h.childLeft_iff _).1 hleft
  obtain howner | hshare := h.shared pollId poll id r hpoll hr hstate
  · exact ⟨pollId, poll, hpoll, howner⟩
  · exact absurd hshare.2 hkind

/-- The future of a response has no listed pollables. -/
theorem Inv.childLeft_httpResponse (h : Inv s) (hr : s.resources id = some r)
    (hkind : r.kind = .httpResponse) : s.childLeft r.pollState = false := by
  rw [Bool.eq_false_iff]
  intro hleft
  obtain ⟨pollId, poll, hpoll, hstate, hlisted⟩ := (h.childLeft_iff _).1 hleft
  obtain rfl | hshare := h.shared pollId poll id r hpoll hr hstate
  · exact hlisted ((h.owned pollId poll r hpoll hr).2.trans hkind)
  · rw [hkind] at hshare
    exact absurd hshare.2 (by simp [Shareable])

/-- A drop that checks and then deletes is as promised if it finds what it
should. -/
theorem verifyAndDelete_iff :
    (((s.verifyAndDelete id r).1 = true ↔ HasPollable s id) ∧
        ((s.verifyAndDelete id r).1 = true → (s.verifyAndDelete id r).2 = s)) ↔
      (s.childLeft r.pollState = true ↔ HasPollable s id) := by
  unfold State.verifyAndDelete
  cases s.childLeft r.pollState with
  | true => exact and_iff_left fun _ => rfl
  | false => exact and_iff_left nofun

/-- A drop that never traps is as promised while there is nothing to find. -/
theorem never_traps_iff (s' : State) :
    ((false = true ↔ HasPollable s id) ∧ (false = true → s' = s)) ↔
      ¬ HasPollable s id := by
  constructor
  · intro h hpoll
    exact absurd (h.1.2 hpoll) nofun
  · intro hnone
    exact ⟨iff_of_false nofun hnone, nofun⟩

/-- A stream that is inactive already has nothing more to lose. -/
theorem Inv.clearStream_eq (h : Inv s) (hr : s.resources id = some r) (hactive : r.active = false) :
    s.clearStream id r = s := by
  have hsame : { r with active := false, attached := false } = r := by
    have hattached := h.detached id r hr hactive
    cases r
    simp_all
  unfold State.clearStream
  dsimp only
  rw [hsame, ← hr, Function.update_eq_self]

/-- An active stream is changed by the drop. -/
theorem clearStream_ne (hr : s.resources id = some r) (hactive : r.active = true) :
    s.clearStream id r ≠ s := by
  intro heq
  have hat := congrArg (fun s => s.resources id) heq
  simp only [State.clearStream, Function.update_self] at hat
  rw [hr] at hat
  have hflag := congrArg Resource.active (Option.some.inj hat)
  rw [hactive] at hflag
  cases hflag

/-- A datagram stream traps as promised, but has been made inactive by then. -/
theorem Inv.datagramStream_iff (h : Inv s) (hr : s.resources id = some r)
    (hkind : r.kind = .datagramStream) :
    (((s.socketDatagramStreamDispose id r).1 = true ↔ HasPollable s id) ∧
        ((s.socketDatagramStreamDispose id r).1 = true →
          (s.socketDatagramStreamDispose id r).2 = s)) ↔
      (HasPollable s id → r.active = false) := by
  have hfound : s.childLeft r.pollState = true ↔ HasPollable s id :=
    ⟨h.hasPollable_of_childLeft hr (by simp [hkind, Shareable]),
      h.childLeft_of_hasPollable hr (by simp [hkind])⟩
  have hsame : (s.clearStream id r).childLeft r.pollState = s.childLeft r.pollState := rfl
  unfold State.socketDatagramStreamDispose
  dsimp only
  rw [hsame, ← hfound]
  cases s.childLeft r.pollState with
  | false => simp
  | true =>
    cases hactive : r.active with
    | true => simpa using clearStream_ne hr hactive
    | false => simpa using h.clearStream_eq hr hactive

theorem Inv.dropWhen_iff (h : Inv s) (hr : s.resources id = some r) :
    Outlives s id r ↔ DropWhen s id r := by
  unfold Outlives DropWhen State.dispose
  -- what a shared poll state is used for
  have hshared : r.kind ≠ .httpResponse → Shareable r.kind →
      ((s.childLeft r.pollState = true ↔ HasPollable s id) ↔
        (PollStateUsed s r.pollState → HasPollable s id)) := by
    intro hkind hshare
    have hused : s.childLeft r.pollState = true ↔ PollStateUsed s r.pollState := by
      rw [h.childLeft_iff]
      constructor
      · rintro ⟨pollId, poll, hpoll, hstate, -⟩
        exact ⟨pollId, poll, hpoll, hstate⟩
      · rintro ⟨pollId, poll, hpoll, hstate⟩
        refine ⟨pollId, poll, hpoll, hstate, ?_⟩
        obtain rfl | hshare := h.shared pollId poll id r hpoll hr hstate
        · exact (h.owned pollId poll r hpoll hr).2 ▸ hkind
        · rintro hhttp
          rw [hhttp] at hshare
          exact absurd hshare.1 (by simp [Shareable])
    rw [hused]
    exact ⟨Iff.mp, fun himp => ⟨himp, fun hpoll =>
      hused.1 (h.childLeft_of_hasPollable hr hkind hpoll)⟩⟩
  have halone : r.kind ≠ .httpResponse → ¬ Shareable r.kind →
      (s.childLeft r.pollState = true ↔ HasPollable s id) := fun hkind hshare =>
    ⟨h.hasPollable_of_childLeft hr hshare, h.childLeft_of_hasPollable hr hkind⟩
  cases hkind : r.kind with
  | inputStream =>
    exact verifyAndDelete_iff.trans (hshared (by simp [hkind]) (by simp [hkind, Shareable]))
  | tcpSocket =>
    exact verifyAndDelete_iff.trans (hshared (by simp [hkind]) (by simp [hkind, Shareable]))
  | outputStream =>
    exact verifyAndDelete_iff.trans
      (iff_of_true (halone (by simp [hkind]) (by simp [hkind, Shareable])) trivial)
  | nameLookup =>
    exact verifyAndDelete_iff.trans
      (iff_of_true (halone (by simp [hkind]) (by simp [hkind, Shareable])) trivial)
  | httpResponse =>
    refine verifyAndDelete_iff.trans ?_
    rw [h.childLeft_httpResponse hr hkind]
    simp
  | stdio => exact never_traps_iff s
  | outgoingBody => exact never_traps_iff _
  | udpSocket => exact never_traps_iff _
  | datagramStream => exact h.datagramStream_iff hr hkind

/-- In every state a run reaches, exactly which drops are as promised. -/
theorem outlives_iff {ops : List Op} (hrun : Run next .fresh ops s)
    (hr : s.resources id = some r) : Outlives s id r ↔ DropWhen s id r :=
  (hrun.invariant step_inv fresh_inv).dropWhen_iff hr

/-- A resource that was subscribed to once. -/
def subscribed (kind : Kind) : State :=
  (State.fresh.create kind).subscribe 0 ⟨kind, 0, true, true⟩

theorem subscribed_tcpSocket :
    Run next .fresh [.create .tcpSocket, .subscribe 0] (subscribed .tcpSocket) ∧
      (Outlives (subscribed .tcpSocket) 0 ⟨.tcpSocket, 0, true, true⟩ ↔
        DropWhen (subscribed .tcpSocket) 0 ⟨.tcpSocket, 0, true, true⟩) := by
  have hrun : Run next .fresh [.create .tcpSocket, .subscribe 0] (subscribed .tcpSocket) :=
    run_performAll rfl
  exact ⟨hrun, outlives_iff hrun rfl⟩

/-- A UDP socket is dropped while its pollable is left. -/
theorem subscribed_udpSocket :
    Run next .fresh [.create .udpSocket, .subscribe 0] (subscribed .udpSocket) ∧
      ¬ Outlives (subscribed .udpSocket) 0 ⟨.udpSocket, 0, true, true⟩ := by
  refine ⟨run_performAll rfl, fun houtlives => ?_⟩
  have htraps := houtlives.1.2 ⟨1, ⟨0, 0, .udpSocket⟩, rfl, rfl⟩
  cases htraps

end Jco.Preview2

import Jco.Lib.Run
import Jco.Sockets.Address

/-! # The state of a TCP socket

`TcpSocket` of the preview3 shim. `bind`, `listen` and dispose call the worker
with `runSync`, so each is one step with the worker's reply. `connect` sets the
state and awaits the worker; its reply is a step of its own, and any number of
them can be awaited at once. `send` and `receive` assign no state after their
awaits.

1. the socket and its operations, as the source has them;
2. `Follows`, what one step does when the socket follows its state machine, and
   `Kept`, the steps that do;
3. one lemma for each operation, from an invariant of the runs that follow.
-/

namespace Jco.Sockets.Tcp

open Jco.Lib

inductive State where
  | unbound
  | bound
  | listening
  | connecting
  | connected
  | closed
deriving DecidableEq

/-- A connect whose reply is awaited. -/
structure Connect where
  socketId : Option Nat
  /-- A later dispose, connect or listen has set the state since. -/
  superseded : Bool

structure TcpSocket where
  socketId : Option Nat
  family : IpAddressFamily
  state : State := .unbound
  sendStarted : Bool := false
  receiveStarted : Bool := false
  connects : List Connect := []
  /-- A `listen` of this socket has succeeded. -/
  hasListened : Bool := false
  /-- A `connect` of this socket has succeeded, or it was accepted by a listener. -/
  hasConnected : Bool := false

namespace TcpSocket

/-- A socket that is created, or one that a listener has accepted. -/
def create (accepted : Bool) (family : IpAddressFamily) (socketId : Nat) : TcpSocket :=
  if accepted then
    { socketId := some socketId, family, state := .connected, hasConnected := true }
  else
    { socketId := some socketId, family }

def isValidLocalAddress (s : TcpSocket) (localAddress : IpSocketAddress) : Bool :=
  s.family == localAddress.tag &&
    (isUnicastIpAddress localAddress || isWildcardIpAddress localAddress) &&
    !isIpv4MappedAddress localAddress

def isValidRemoteAddress (s : TcpSocket) (remoteAddress : IpSocketAddress) : Bool :=
  s.family == remoteAddress.tag && remoteAddress.port != 0 &&
    isUnicastIpAddress remoteAddress && !isWildcardIpAddress remoteAddress &&
    !isMulticastIpAddress remoteAddress && !isIpv4MappedAddress remoteAddress

/-- The connects that are awaited now were started before the newest state. -/
def supersede (s : TcpSocket) : TcpSocket :=
  { s with connects := s.connects.map fun c => { c with superseded := true } }

def bind (s : TcpSocket) (localAddress : IpSocketAddress) (interfaces : List Interface)
    (reply : Reply) : TcpSocket × Answer :=
  if s.state ≠ .unbound then
    (s, .throws .invalidState)
  else if !s.isValidLocalAddress localAddress then
    (s, .throws .invalidArgument)
  else if !isBindableIpAddress interfaces localAddress then
    (s, .throws .addressNotBindable)
  else
    match ask s.socketId reply with
    | .ok () => ({ s with state := .bound }, .done)
    | .error e => (s, .throws (socketErrorFrom e))

/-- `connect` up to its await. -/
def connect (s : TcpSocket) (remoteAddress : IpSocketAddress) : TcpSocket × Answer :=
  if s.state = .connecting ∨ s.state = .connected ∨ s.state = .listening then
    (s, .throws .invalidState)
  else if !s.isValidRemoteAddress remoteAddress then
    (s, .throws .invalidArgument)
  else
    ({ s with
      state := .connecting
      connects := s.supersede.connects ++ [⟨s.socketId, false⟩] }, .pending)

/-- `connect` from its await on. Which state the socket is in now is not looked at. -/
def connectReply (s : TcpSocket) (i : Nat) (reply : Reply) : Option (TcpSocket × Answer) :=
  match s.connects[i]? with
  | none => none
  | some c =>
    let rest := s.connects.eraseIdx i
    match ask c.socketId reply with
    | .ok () =>
      some ({ s with state := .connected, connects := rest, hasConnected := true }, .done)
    | .error e =>
      some ({ s with state := .closed, connects := rest }, .throws (socketErrorFrom e))

def listen (s : TcpSocket) (reply : Reply) : TcpSocket × Answer :=
  if s.state = .listening ∨ s.state = .connected then
    (s, .throws .invalidState)
  else
    match ask s.socketId reply with
    | .ok () => ({ s.supersede with state := .listening, hasListened := true }, .done)
    | .error e => ({ s.supersede with state := .closed }, .throws (socketErrorFrom e))

/-- `isReader`: the argument can be made a readable byte stream. -/
def send (s : TcpSocket) (isReader : Bool) : TcpSocket × Answer :=
  if s.state ≠ .connected then
    (s, .throws .invalidState)
  else if s.sendStarted then
    (s, .throws .invalidState)
  else if !isReader then
    (s, .throws .invalidArgument)
  else
    ({ s with sendStarted := true }, .pending)

/-- The error of `receive` is that of the future it returns. -/
def receive (s : TcpSocket) : TcpSocket × Answer :=
  if s.state ≠ .connected then
    (s, .throws .invalidState)
  else if s.receiveStarted then
    (s, .throws .invalidState)
  else
    ({ s with receiveStarted := true }, .pending)

/-- The worker is told only of an identifier that is truthy. -/
def dispose (s : TcpSocket) (reply : Reply) : TcpSocket × Answer :=
  match if truthyId s.socketId then ask s.socketId reply else .ok () with
  | .ok () => ({ s.supersede with socketId := none, state := .closed }, .done)
  | .error e => (s, .raises e)

end TcpSocket

inductive Event where
  | bind (localAddress : IpSocketAddress) (interfaces : List Interface) (reply : Reply)
  | connect (remoteAddress : IpSocketAddress)
  | connectReply (i : Nat) (reply : Reply)
  | listen (reply : Reply)
  | send (isReader : Bool)
  | receive
  | dispose (reply : Reply)

def perform (s : TcpSocket) : Event → Option (TcpSocket × Answer)
  | .bind localAddress interfaces reply => some (s.bind localAddress interfaces reply)
  | .connect remoteAddress => some (s.connect remoteAddress)
  | .connectReply i reply => s.connectReply i reply
  | .listen reply => some (s.listen reply)
  | .send isReader => some (s.send isReader)
  | .receive => some s.receive
  | .dispose reply => some (s.dispose reply)

/-- One operation, or one reply, with what it answers. -/
def next : Action (Event × Answer) TcpSocket :=
  fun l s s' => perform s l.1 = some (s', l.2)

/-! ## The state machine -/

def Event.starts : Event → Bool
  | .connect _ => true
  | .listen _ => true
  | _ => false

/-- The step follows the state machine. -/
structure Follows (l : Event × Answer) (s s' : TcpSocket) : Prop where
  closed : s.state = .closed → s'.state = .closed
  refused : l.1.starts = true → s.connects ≠ [] ∨ s.state = .closed →
    l.2 = .throws .invalidState
  exclusive : ¬ (s'.hasListened = true ∧ s'.hasConnected = true)
  newest : ∀ i reply c, l.1 = .connectReply i reply → s.connects[i]? = some c →
    c.superseded = true → s'.state = s.state

/-- The steps that follow it: no connect of a closed socket, no listen while a
connect is awaited or after the end unless the worker itself refuses it as an
invalid state, and no connect that comes through after the end. -/
def Kept : Event → TcpSocket → Prop
  | .connect _, s => s.state ≠ .closed
  | .connectReply i reply, s =>
    ∀ c, s.connects[i]? = some c → ask c.socketId reply = .ok () → s.state ≠ .closed
  | .listen reply, s =>
    s.state = .connecting ∨ s.state = .closed →
      ∃ e, ask s.socketId reply = .error e ∧ socketErrorFrom e = .invalidState
  | _, _ => True

/-- What holds as long as every step follows. -/
structure Inv (s : TcpSocket) : Prop where
  connecting : s.state = .connecting → ∃ socketId, s.connects = [⟨socketId, false⟩]
  closed : s.state = .closed → ∀ c ∈ s.connects, c.superseded = true
  idle : s.state ≠ .connecting → s.state ≠ .closed → s.connects = []
  listened : s.hasListened = true → s.state = .listening ∨ s.state = .closed
  reached : s.hasConnected = true → s.state = .connected ∨ s.state = .closed
  exclusive : ¬ (s.hasListened = true ∧ s.hasConnected = true)

theorem create_inv (accepted : Bool) (family : IpAddressFamily) (socketId : Nat) :
    Inv (.create accepted family socketId) := by
  cases accepted <;> constructor <;> simp [TcpSocket.create]

/-- What is shown of each step: it follows exactly where it is kept, and then the
invariant goes on. -/
def Lawful (l : Event × Answer) (s s' : TcpSocket) : Prop :=
  (Follows l s s' ↔ Kept l.1 s) ∧ (Kept l.1 s → Inv s')

namespace Inv

variable {s s' : TcpSocket} {a : Answer}

/-- A step that neither starts a connect or listen nor is a reply of one, and
that leaves a closed socket closed. -/
theorem quiet {e : Event} (hinv : Inv s') (hclosed : s.state = .closed → s'.state = .closed)
    (hstarts : e.starts = false) (hreply : ∀ i reply, e ≠ .connectReply i reply)
    (hkept : Kept e s) : Lawful (e, a) s s' := by
  have hfollows : Follows (e, a) s s' := by
    refine ⟨hclosed, ?_, hinv.exclusive, ?_⟩
    · intro h
      simp [hstarts] at h
    · intro i reply c h
      exact absurd h (hreply i reply)
  exact ⟨iff_of_true hfollows hkept, fun _ => hinv⟩

theorem bind (hinv : Inv s) {localAddress : IpSocketAddress} {interfaces : List Interface}
    {reply : Reply} (h : s.bind localAddress interfaces reply = (s', a)) :
    Lawful (.bind localAddress interfaces reply, a) s s' := by
  suffices hs : Inv s' ∧ (s.state = .closed → s'.state = .closed) from
    quiet hs.1 hs.2 rfl nofun trivial
  unfold TcpSocket.bind at h
  split at h
  · cases h
    exact ⟨hinv, id⟩
  · rename_i hunbound
    have hunbound : s.state = .unbound := by simpa using hunbound
    split at h
    · cases h
      exact ⟨hinv, id⟩
    split at h
    · cases h
      exact ⟨hinv, id⟩
    split at h
    · -- bound: nothing was awaited, and no connect or listen had come through
      cases h
      have hidle := hinv.idle (by simp [hunbound]) (by simp [hunbound])
      have hlistened := hinv.listened
      have hreached := hinv.reached
      refine ⟨⟨nofun, nofun, fun _ _ => hidle, ?_, ?_, hinv.exclusive⟩, ?_⟩ <;>
        simp_all
    · cases h
      exact ⟨hinv, id⟩

theorem send (hinv : Inv s) {isReader : Bool} (h : s.send isReader = (s', a)) :
    Lawful (.send isReader, a) s s' := by
  suffices hs : Inv s' ∧ (s.state = .closed → s'.state = .closed) from
    quiet hs.1 hs.2 rfl nofun trivial
  unfold TcpSocket.send at h
  split at h
  · cases h
    exact ⟨hinv, id⟩
  split at h
  · cases h
    exact ⟨hinv, id⟩
  split at h
  · cases h
    exact ⟨hinv, id⟩
  · cases h
    exact ⟨{ hinv with }, id⟩

theorem receive (hinv : Inv s) (h : s.receive = (s', a)) : Lawful (.receive, a) s s' := by
  suffices hs : Inv s' ∧ (s.state = .closed → s'.state = .closed) from
    quiet hs.1 hs.2 rfl nofun trivial
  unfold TcpSocket.receive at h
  split at h
  · cases h
    exact ⟨hinv, id⟩
  split at h
  · cases h
    exact ⟨hinv, id⟩
  · cases h
    exact ⟨{ hinv with }, id⟩

/-- A socket that is closed, with every awaited connect superseded. -/
theorem of_closed (hinv : Inv s) (hstate : s'.state = .closed)
    (hconnects : s'.connects = s.supersede.connects) (hlistened : s'.hasListened = s.hasListened)
    (hreached : s'.hasConnected = s.hasConnected) : Inv s' := by
  refine ⟨?_, ?_, ?_, fun _ => .inr hstate, fun _ => .inr hstate, ?_⟩
  · simp [hstate]
  · intro _ c hc
    rw [hconnects] at hc
    obtain ⟨c', _, rfl⟩ := List.mem_map.1 hc
    rfl
  · intro _ hopen
    exact absurd hstate hopen
  · rw [hlistened, hreached]
    exact hinv.exclusive

theorem dispose (hinv : Inv s) {reply : Reply} (h : s.dispose reply = (s', a)) :
    Lawful (.dispose reply, a) s s' := by
  suffices hs : Inv s' ∧ (s.state = .closed → s'.state = .closed) from
    quiet hs.1 hs.2 rfl nofun trivial
  unfold TcpSocket.dispose at h
  split at h
  · cases h
    exact ⟨hinv.of_closed rfl rfl rfl rfl, fun _ => rfl⟩
  · cases h
    exact ⟨hinv, id⟩

/-- A connect is awaited, or the socket is closed: then the state says so. -/
theorem busy (hinv : Inv s) (h : s.connects ≠ [] ∨ s.state = .closed) :
    s.state = .connecting ∨ s.state = .closed := by
  by_contra hstate
  obtain ⟨hconnecting, hclosed⟩ := not_or.1 hstate
  rcases h with h | h
  · exact h (hinv.idle hconnecting hclosed)
  · exact hclosed h

theorem connect (hinv : Inv s) {remoteAddress : IpSocketAddress}
    (h : s.connect remoteAddress = (s', a)) : Lawful (.connect remoteAddress, a) s s' := by
  unfold TcpSocket.connect at h
  split at h
  · -- refused as an invalid state, which no closed socket does
    rename_i hstate
    cases h
    have hopen : s.state ≠ .closed := by
      intro hclosed
      simp [hclosed] at hstate
    exact ⟨iff_of_true ⟨id, fun _ _ => rfl, hinv.exclusive, nofun⟩ hopen, fun _ => hinv⟩
  rename_i hstate
  obtain ⟨hconnecting, -, -⟩ : s.state ≠ .connecting ∧ s.state ≠ .connected ∧
      s.state ≠ .listening := by
    simpa using hstate
  have hbusy : s.state ≠ .closed → ¬ (s.connects ≠ [] ∨ s.state = .closed) := by
    intro hopen h
    rcases hinv.busy h with h | h
    · exact hconnecting h
    · exact hopen h
  split at h
  · -- an invalid address is not an invalid state
    cases h
    refine ⟨⟨?_, ?_⟩, fun _ => hinv⟩
    · intro hfollows hclosed
      cases hfollows.refused rfl (.inr hclosed)
    · intro hopen
      exact ⟨id, fun _ h => absurd h (hbusy hopen), hinv.exclusive, nofun⟩
  · cases h
    refine ⟨⟨?_, ?_⟩, ?_⟩
    · intro hfollows hclosed
      cases hfollows.closed hclosed
    · intro hopen
      exact ⟨fun h => absurd h hopen, fun _ h => absurd h (hbusy hopen), hinv.exclusive, nofun⟩
    · -- nothing else was awaited, so this connect is the only one
      intro hkept
      have hopen : s.state ≠ .closed := hkept
      have hidle := hinv.idle hconnecting hopen
      have hlistened := hinv.listened
      have hreached := hinv.reached
      refine ⟨fun _ => ⟨s.socketId, ?_⟩, nofun, fun h => absurd rfl h, ?_, ?_, hinv.exclusive⟩ <;>
        simp_all [TcpSocket.supersede]

theorem listen (hinv : Inv s) {reply : Reply} (h : s.listen reply = (s', a)) :
    Lawful (.listen reply, a) s s' := by
  unfold TcpSocket.listen at h
  split at h
  · rename_i hstate
    cases h
    have hkept : Kept (.listen reply) s := by
      intro hbusy
      rcases hstate with h | h <;> simp [h] at hbusy
    exact ⟨iff_of_true ⟨id, fun _ _ => rfl, hinv.exclusive, nofun⟩ hkept, fun _ => hinv⟩
  rename_i hstate
  obtain ⟨hlistening, hconnected⟩ := not_or.1 hstate
  split at h
  · -- the worker listens: to follow, no connect may be awaited and the socket be open
    rename_i hreply
    cases h
    have hkept : Kept (.listen reply) s ↔ ¬ (s.state = .connecting ∨ s.state = .closed) := by
      simp [Kept, hreply]
    have hopen : ¬ (s.state = .connecting ∨ s.state = .closed) →
        s.connects = [] ∧ ¬ s.hasConnected = true := by
      intro h
      obtain ⟨hconnecting, hclosed⟩ := not_or.1 h
      refine ⟨hinv.idle hconnecting hclosed, fun hreached => ?_⟩
      rcases hinv.reached hreached with h | h
      · exact hconnected h
      · exact hclosed h
    refine ⟨⟨?_, ?_⟩, ?_⟩
    · intro hfollows
      rw [hkept]
      rintro (hconnecting | hclosed)
      · obtain ⟨socketId, hconnects⟩ := hinv.connecting hconnecting
        cases hfollows.refused rfl (.inl (by simp [hconnects]))
      · cases hfollows.closed hclosed
    · intro h
      have hnot := hkept.1 h
      exact ⟨fun h => absurd (.inr h) hnot, fun _ h => absurd (hinv.busy h) hnot,
        fun h => (hopen hnot).2 h.2, nofun⟩
    · intro h
      have hopen := hopen (hkept.1 h)
      refine ⟨nofun, nofun, fun _ _ => ?_, fun _ => .inl rfl, fun h => absurd h hopen.2,
        fun h => hopen.2 h.2⟩
      simp [TcpSocket.supersede, hopen.1]
  · -- the worker refuses: the socket is closed, and only the tag is left to look at
    rename_i e hreply
    cases h
    refine ⟨⟨?_, ?_⟩, fun _ => hinv.of_closed rfl rfl rfl rfl⟩
    · intro hfollows hbusy
      refine ⟨e, hreply, ?_⟩
      have hawaited : s.connects ≠ [] ∨ s.state = .closed := by
        rcases hbusy with hconnecting | hclosed
        · obtain ⟨socketId, hconnects⟩ := hinv.connecting hconnecting
          exact .inl (by simp [hconnects])
        · exact .inr hclosed
      exact Answer.throws.inj (hfollows.refused rfl hawaited)
    · intro hkept
      refine ⟨fun _ => rfl, ?_, hinv.exclusive, nofun⟩
      intro _ hawaited
      obtain ⟨e', he', htag⟩ := hkept (hinv.busy hawaited)
      cases hreply.symm.trans he'
      exact congrArg Answer.throws htag

theorem connectReply (hinv : Inv s) {i : Nat} {reply : Reply}
    (h : s.connectReply i reply = some (s', a)) : Lawful (.connectReply i reply, a) s s' := by
  unfold TcpSocket.connectReply at h
  split at h
  · cases h
  rename_i c hc
  have hmem := List.mem_of_getElem? hc
  -- an awaited connect: the socket is connecting, or it is closed and this is an old one
  have hstate : s.state = .connecting ∨ s.state = .closed := by
    apply hinv.busy
    exact .inl (List.ne_nil_of_mem hmem)
  have hrest : s.state = .connecting → s.connects.eraseIdx i = [] := by
    intro hconnecting
    obtain ⟨socketId, hconnects⟩ := hinv.connecting hconnecting
    rw [hconnects] at hc ⊢
    cases i with
    | zero => rfl
    | succ i => simp at hc
  have hcurrent : s.state = .connecting → c.superseded = false := by
    intro hconnecting
    obtain ⟨socketId, hconnects⟩ := hinv.connecting hconnecting
    rw [hconnects, List.mem_singleton] at hmem
    rw [hmem]
  have hlisten : s.state = .connecting → ¬ s.hasListened = true := by
    intro hconnecting h
    simpa [hconnecting] using hinv.listened h
  split at h
  · rename_i hreply
    cases h
    refine ⟨⟨?_, ?_⟩, ?_⟩
    · intro hfollows c' hc' _ hclosed
      cases hfollows.closed hclosed
    · intro hkept
      have hopen := hkept c hc hreply
      have hconnecting := hstate.resolve_right hopen
      refine ⟨fun h => absurd h hopen, nofun, fun h => hlisten hconnecting h.1, ?_⟩
      intro i' reply' c' hi hc' hold
      cases hi
      cases hc.symm.trans hc'
      exact absurd hold (by simp [hcurrent hconnecting])
    · intro hkept
      have hconnecting := hstate.resolve_right (hkept c hc hreply)
      exact ⟨nofun, nofun, fun _ _ => hrest hconnecting, fun h => absurd h (hlisten hconnecting),
        fun _ => .inl rfl, fun h => hlisten hconnecting h.1⟩
  · -- it failed: the state is closed, which is new only for the connect that is current
    rename_i e hreply
    cases h
    have hinv' : Inv { s with state := .closed, connects := s.connects.eraseIdx i } := by
      refine ⟨nofun, ?_, fun _ h => absurd rfl h, fun _ => .inr rfl, fun _ => .inr rfl,
        hinv.exclusive⟩
      intro _ c' hc'
      rcases hstate with hconnecting | hclosed
      · simp [hrest hconnecting] at hc'
      · exact hinv.closed hclosed c' (List.mem_of_mem_eraseIdx hc')
    refine ⟨⟨?_, ?_⟩, fun _ => hinv'⟩
    · intro _ c' hc' hok
      cases hc.symm.trans hc'
      simp [hreply] at hok
    · intro _
      refine ⟨fun _ => rfl, nofun, hinv.exclusive, ?_⟩
      intro i' reply' c' hi hc' hold
      cases hi
      cases hc.symm.trans hc'
      rcases hstate with hconnecting | hclosed
      · exact absurd hold (by simp [hcurrent hconnecting])
      · exact hclosed.symm

/-- Every step of a run that has followed so far. -/
theorem lawful (hinv : Inv s) {l : Event × Answer} (h : next l s s') : Lawful l s s' := by
  obtain ⟨e, a⟩ := l
  cases e with
  | bind localAddress interfaces reply => exact hinv.bind (Option.some.inj h)
  | connect remoteAddress => exact hinv.connect (Option.some.inj h)
  | connectReply i reply => exact hinv.connectReply h
  | listen reply => exact hinv.listen (Option.some.inj h)
  | send isReader => exact hinv.send (Option.some.inj h)
  | receive => exact hinv.receive (Option.some.inj h)
  | dispose reply => exact hinv.dispose (Option.some.inj h)

end Inv

/-- A run whose steps all follow the state machine. -/
def following : Action (Event × Answer) TcpSocket := fun l s s' => next l s s' ∧ Follows l s s'

theorem following_run_iff (accepted : Bool) (family : IpAddressFamily) (socketId : Nat)
    (ls : List (Event × Answer)) (s : TcpSocket) :
    Run following (.create accepted family socketId) ls s ↔
      Run (guarded (fun l s => Kept l.1 s) next) (.create accepted family socketId) ls s := by
  refine Run.good_iff_guarded ?_ ?_ (create_inv accepted family socketId)
  · intro l s s' hinv hnext
    exact (hinv.lawful hnext).1
  · intro l s s' hinv hnext hfollows
    have hlawful := hinv.lawful hnext
    exact hlawful.2 (hlawful.1.1 hfollows)

end Jco.Sockets.Tcp

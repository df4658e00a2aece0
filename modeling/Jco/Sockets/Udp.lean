import Jco.Lib.Run
import Jco.Sockets.Address
import Jco.Sockets.Tcp

/-! # The state of a UDP socket

`UdpSocket` of the preview3 shim. Everything that sets the state calls the worker
with `runSync`, but for `send`, which binds the socket: it reads the state before
its await and sets it after. Last, both kinds of sockets: which runs follow their
state machine.
-/

namespace Jco.Sockets.Udp

open Jco.Lib

inductive State where
  | unbound
  | bound
  | connected
  | closed
deriving DecidableEq

/-- A send whose reply is awaited. -/
structure Send where
  socketId : Option Nat
  wasUnbound : Bool
  /-- A later connect or dispose has set the state since. -/
  superseded : Bool

structure UdpSocket where
  socketId : Option Nat
  family : IpAddressFamily
  state : State := .unbound
  remote : Option IpSocketAddress := none
  sends : List Send := []

namespace UdpSocket

def create (family : IpAddressFamily) (socketId : Nat) : UdpSocket :=
  { socketId := some socketId, family }

/-- The sends that are awaited now were started before the newest state. -/
def supersede (s : UdpSocket) : UdpSocket :=
  { s with sends := s.sends.map fun c => { c with superseded := true } }

/-- The check that `bind` makes of the address. -/
def refusesLocal (s : UdpSocket) (localAddress : IpSocketAddress) : Bool :=
  localAddress.tag != s.family ||
    (!isUnicastIpAddress localAddress && !isWildcardIpAddress localAddress) ||
    isIpv4MappedAddress localAddress

def bind (s : UdpSocket) (localAddress : IpSocketAddress) (interfaces : List Interface)
    (reply : Reply) : UdpSocket × Answer :=
  if s.state ≠ .unbound then
    (s, .throws .invalidState)
  else if s.refusesLocal localAddress then
    (s, .throws .invalidArgument)
  else if !isBindableIpAddress interfaces localAddress then
    (s, .throws .addressNotBindable)
  else
    match ask s.socketId reply with
    | .ok () => ({ s with state := .bound }, .done)
    | .error e => (s, .throws (socketErrorFrom e))

/-- The check that `connect` and `send` make of a peer's address. -/
def refusesPeer (s : UdpSocket) (peer : IpSocketAddress) : Bool :=
  peer.tag != s.family || peer.port == 0 || isWildcardIpAddress peer ||
    !isUnicastIpAddress peer || isIpv4MappedAddress peer

/-- The state is not looked at. -/
def connect (s : UdpSocket) (remoteAddress : IpSocketAddress) (reply : Reply) :
    UdpSocket × Answer :=
  if s.refusesPeer remoteAddress then
    (s, .throws .invalidArgument)
  else
    match ask s.socketId reply with
    | .ok () => ({ s.supersede with remote := some remoteAddress, state := .connected }, .done)
    | .error e => (s, .throws (socketErrorFrom e))

def disconnect (s : UdpSocket) (reply : Reply) : UdpSocket × Answer :=
  if s.state ≠ .connected then
    (s, .throws .invalidState)
  else
    match ask s.socketId reply with
    | .ok () => ({ s with remote := none, state := .bound }, .done)
    | .error e => (s, .throws (socketErrorFrom e))

/-- `send` past its checks, up to its await. -/
def awaitSend (s : UdpSocket) : UdpSocket × Answer :=
  let wasUnbound := decide (s.state = .unbound)
  ({ s with sends := s.sends ++ [⟨s.socketId, wasUnbound, false⟩] }, .pending)

/-- `isBytes`: the data is a `Uint8Array`. -/
def send (s : UdpSocket) (isBytes : Bool) (remoteAddress : Option IpSocketAddress) :
    UdpSocket × Answer :=
  if s.state = .closed then
    (s, .throws .invalidState)
  else if !isBytes then
    (s, .throws .invalidArgument)
  else
    match remoteAddress.or s.remote with
    | none => (s, .throws .invalidArgument)
    | some addr =>
      if s.refusesPeer addr then
        (s, .throws .invalidArgument)
      else if s.state = .connected ∧ remoteAddress.isSome then
        match s.remote with
        | none => (s, .raises (.error none (some "Cannot read properties of null (reading 'tag')")))
        | some remote =>
          if addr.tag != remote.tag || addr.port != remote.port ||
              addr.address.zipIdx.any fun (v, i) => some v != remote.address[i]? then
            (s, .throws .invalidArgument)
          else
            s.awaitSend
      else
        s.awaitSend

/-- `send` from its await on. Which state the socket is in now is not looked at. -/
def sendReply (s : UdpSocket) (i : Nat) (reply : Reply) : Option (UdpSocket × Answer) :=
  match s.sends[i]? with
  | none => none
  | some c =>
    let rest := { s with sends := s.sends.eraseIdx i }
    match ask c.socketId reply with
    | .ok () => some (if c.wasUnbound then { rest with state := .bound } else rest, .done)
    | .error e => some (rest, .throws (socketErrorFrom e))

/-- `receive` up to its await, which assigns nothing after it. -/
def receive (s : UdpSocket) : UdpSocket × Answer :=
  if s.state = .unbound then
    (s, .throws .invalidState)
  else
    (s, .pending)

/-- What the worker answers to dispose: it is told only of an identifier that is truthy. -/
def disposeReply (s : UdpSocket) (reply : Reply) : Reply :=
  if truthyId s.socketId then ask s.socketId reply else .ok ()

/-- The remote address stays. -/
def dispose (s : UdpSocket) (reply : Reply) : UdpSocket × Answer :=
  match s.disposeReply reply with
  | .ok () => ({ s.supersede with socketId := none, state := .closed }, .done)
  | .error e => (s, .raises e)

end UdpSocket

inductive Event where
  | bind (localAddress : IpSocketAddress) (interfaces : List Interface) (reply : Reply)
  | connect (remoteAddress : IpSocketAddress) (reply : Reply)
  | disconnect (reply : Reply)
  | send (isBytes : Bool) (remoteAddress : Option IpSocketAddress)
  | sendReply (i : Nat) (reply : Reply)
  | receive
  | dispose (reply : Reply)

def perform (s : UdpSocket) : Event → Option (UdpSocket × Answer)
  | .bind localAddress interfaces reply => some (s.bind localAddress interfaces reply)
  | .connect remoteAddress reply => some (s.connect remoteAddress reply)
  | .disconnect reply => some (s.disconnect reply)
  | .send isBytes remoteAddress => some (s.send isBytes remoteAddress)
  | .sendReply i reply => s.sendReply i reply
  | .receive => some s.receive
  | .dispose reply => some (s.dispose reply)

def next : Action (Event × Answer) UdpSocket :=
  fun l s s' => perform s l.1 = some (s', l.2)

/-! ## The state machine -/

/-- The step follows the state machine. No connect is ever in progress: it is one
step. -/
structure Follows (l : Event × Answer) (s s' : UdpSocket) : Prop where
  closed : s.state = .closed → s'.state = .closed
  refused : ∀ remoteAddress reply, l.1 = .connect remoteAddress reply → s.state = .closed →
    l.2 = .throws .invalidState
  newest : ∀ i reply c, l.1 = .sendReply i reply → s.sends[i]? = some c →
    c.superseded = true → s'.state = s.state
  remote : s'.remote.isSome = true ↔ s'.state = .connected

/-- The steps that follow it: no connect of a closed socket, no send that binds the
socket after it was connected or closed, no dispose of a connected socket. -/
def Kept : Event → UdpSocket → Prop
  | .connect _ _, s => s.state ≠ .closed
  | .sendReply i reply, s =>
    ∀ c, s.sends[i]? = some c → c.wasUnbound = true → ask c.socketId reply = .ok () →
      s.state ≠ .connected ∧ s.state ≠ .closed
  | .dispose reply, s => s.disposeReply reply = .ok () → s.state ≠ .connected
  | _, _ => True

/-- What holds as long as every step follows. -/
structure Inv (s : UdpSocket) : Prop where
  remote : s.remote.isSome = true ↔ s.state = .connected
  closed : s.state = .closed → s.socketId = none
  superseded : ∀ c ∈ s.sends, c.superseded = true → s.state ≠ .unbound

theorem create_inv (family : IpAddressFamily) (socketId : Nat) :
    Inv (.create family socketId) := by
  constructor <;> simp [UdpSocket.create]

/-- What is shown of each step: it follows exactly where it is kept, and then the
invariant goes on. -/
def Lawful (l : Event × Answer) (s s' : UdpSocket) : Prop :=
  (Follows l s s' ↔ Kept l.1 s) ∧ (Kept l.1 s → Inv s')

namespace Inv

variable {s s' : UdpSocket} {a : Answer}

/-- A step that neither connects nor is a reply, and that leaves a closed socket closed. -/
theorem quiet {e : Event} (hinv : Inv s') (hclosed : s.state = .closed → s'.state = .closed)
    (hconnect : ∀ remoteAddress reply, e ≠ .connect remoteAddress reply)
    (hreply : ∀ i reply, e ≠ .sendReply i reply) (hkept : Kept e s) : Lawful (e, a) s s' := by
  have hfollows : Follows (e, a) s s' := by
    refine ⟨hclosed, ?_, ?_, hinv.remote⟩
    · intro remoteAddress reply h
      exact absurd h (hconnect remoteAddress reply)
    · intro i reply c h
      exact absurd h (hreply i reply)
  exact ⟨iff_of_true hfollows hkept, fun _ => hinv⟩

theorem bind (hinv : Inv s) {localAddress : IpSocketAddress} {interfaces : List Interface}
    {reply : Reply} (h : s.bind localAddress interfaces reply = (s', a)) :
    Lawful (.bind localAddress interfaces reply, a) s s' := by
  suffices hs : Inv s' ∧ (s.state = .closed → s'.state = .closed) from
    quiet hs.1 hs.2 nofun nofun trivial
  unfold UdpSocket.bind at h
  split at h
  · cases h
    exact ⟨hinv, id⟩
  rename_i hunbound
  have hunbound : s.state = .unbound := by simpa using hunbound
  split at h
  · cases h
    exact ⟨hinv, id⟩
  split at h
  · cases h
    exact ⟨hinv, id⟩
  split at h
  · cases h
    have hremote := hinv.remote
    simp only [hunbound, reduceCtorEq, iff_false] at hremote
    exact ⟨⟨by simp [hremote], nofun, fun _ _ _ => nofun⟩, by simp [hunbound]⟩
  · cases h
    exact ⟨hinv, id⟩

theorem connect (hinv : Inv s) {remoteAddress : IpSocketAddress} {reply : Reply}
    (h : s.connect remoteAddress reply = (s', a)) :
    Lawful (.connect remoteAddress reply, a) s s' := by
  unfold UdpSocket.connect at h
  split at h
  · -- an invalid address is not an invalid state
    cases h
    refine ⟨⟨?_, ?_⟩, fun _ => hinv⟩
    · intro hfollows hclosed
      cases hfollows.refused _ _ rfl hclosed
    · intro hopen
      exact ⟨id, fun _ _ _ h => absurd h hopen, nofun, hinv.remote⟩
  split at h
  · cases h
    refine ⟨⟨?_, ?_⟩, fun _ => ⟨by simp, nofun, fun _ _ _ => nofun⟩⟩
    · intro hfollows hclosed
      cases hfollows.closed hclosed
    · intro hopen
      exact ⟨fun h => absurd h hopen, fun _ _ _ h => absurd h hopen, nofun, by simp⟩
  · rename_i e hreply
    cases h
    refine ⟨⟨?_, ?_⟩, fun _ => hinv⟩
    · -- a closed socket has no identifier, which the worker does not call an invalid state
      intro hfollows hclosed
      have htag := Answer.throws.inj (hfollows.refused _ _ rfl hclosed)
      rw [hinv.closed hclosed] at hreply
      cases hreply
      rw [socketErrorFrom_invalidSocketId] at htag
      cases htag
    · intro hopen
      exact ⟨id, fun _ _ _ h => absurd h hopen, nofun, hinv.remote⟩

theorem disconnect (hinv : Inv s) {reply : Reply} (h : s.disconnect reply = (s', a)) :
    Lawful (.disconnect reply, a) s s' := by
  suffices hs : Inv s' ∧ (s.state = .closed → s'.state = .closed) from
    quiet hs.1 hs.2 nofun nofun trivial
  unfold UdpSocket.disconnect at h
  split at h
  · cases h
    exact ⟨hinv, id⟩
  rename_i hconnected
  have hconnected : s.state = .connected := by simpa using hconnected
  split at h
  · cases h
    exact ⟨⟨by simp, nofun, fun _ _ _ => nofun⟩, by simp [hconnected]⟩
  · cases h
    exact ⟨hinv, id⟩

theorem awaitSend (hinv : Inv s) : Inv s.awaitSend.1 := by
  refine ⟨hinv.remote, hinv.closed, ?_⟩
  intro c hc hold
  rcases List.mem_append.1 hc with hc | hc
  · exact hinv.superseded c hc hold
  · rw [List.mem_singleton.1 hc] at hold
    cases hold

theorem send (hinv : Inv s) {isBytes : Bool} {remoteAddress : Option IpSocketAddress}
    (h : s.send isBytes remoteAddress = (s', a)) :
    Lawful (.send isBytes remoteAddress, a) s s' := by
  -- every refusal leaves the socket as it is; the rest is one more awaited send
  suffices hs : s' = s ∨ s' = s.awaitSend.1 by
    rcases hs with rfl | rfl
    · exact quiet hinv id nofun nofun trivial
    · exact quiet hinv.awaitSend id nofun nofun trivial
  unfold UdpSocket.send at h
  split at h
  · exact .inl (congrArg Prod.fst h).symm
  split at h
  · exact .inl (congrArg Prod.fst h).symm
  split at h
  · exact .inl (congrArg Prod.fst h).symm
  split at h
  · exact .inl (congrArg Prod.fst h).symm
  split at h
  · split at h
    · exact .inl (congrArg Prod.fst h).symm
    split at h
    · exact .inl (congrArg Prod.fst h).symm
    · exact .inr (congrArg Prod.fst h).symm
  · exact .inr (congrArg Prod.fst h).symm

/-- The invariant does not depend on a send that is no longer awaited. -/
theorem eraseSend (hinv : Inv s) (i : Nat) : Inv { s with sends := s.sends.eraseIdx i } :=
  ⟨hinv.remote, hinv.closed, fun c hc => hinv.superseded c (List.mem_of_mem_eraseIdx hc)⟩

theorem sendReply (hinv : Inv s) {i : Nat} {reply : Reply}
    (h : s.sendReply i reply = some (s', a)) : Lawful (.sendReply i reply, a) s s' := by
  unfold UdpSocket.sendReply at h
  split at h
  · cases h
  rename_i c hc
  have hmem := List.mem_of_getElem? hc
  have hrest := hinv.eraseSend i
  have hquiet : ∀ answer, s'.state = s.state → s'.remote = s.remote →
      Kept (.sendReply i reply) s → Inv s' → Lawful (.sendReply i reply, answer) s s' := by
    intro answer hstate hremote hkept hinv'
    refine ⟨iff_of_true ⟨?_, nofun, fun _ _ _ _ _ _ => hstate, hinv'.remote⟩ hkept, fun _ => hinv'⟩
    intro hclosed
    exact hstate.trans hclosed
  split at h
  · rename_i hreply
    split at h
    · rename_i hunbound
      cases h
      refine ⟨⟨?_, ?_⟩, ?_⟩
      · -- bound again: the remote address of a connected socket would stay
        intro hfollows c' hc' _ _
        refine ⟨fun hconnected => ?_, fun hclosed => ?_⟩
        · cases hfollows.remote.1 (hinv.remote.2 hconnected)
        · cases hfollows.closed hclosed
      · intro hkept
        obtain ⟨hconnected, hclosed⟩ := hkept c hc hunbound hreply
        refine ⟨fun h => absurd h hclosed, nofun, ?_, ?_⟩
        · intro i' reply' c' hi hc' hold
          cases hi
          cases hc.symm.trans hc'
          -- superseded, so not unbound: only bound is left, which is what is set
          have hbound := hinv.superseded c hmem hold
          cases hstate : s.state with
          | unbound => exact absurd hstate hbound
          | bound => rfl
          | connected => exact absurd hstate hconnected
          | closed => exact absurd hstate hclosed
        · simpa [hconnected] using hinv.remote
      · intro hkept
        obtain ⟨hconnected, -⟩ := hkept c hc hunbound hreply
        exact ⟨by simpa [hconnected] using hinv.remote, nofun, fun _ _ _ => nofun⟩
    · rename_i hbound
      cases h
      refine hquiet _ rfl rfl ?_ hrest
      intro c' hc' hunbound
      cases hc.symm.trans hc'
      exact absurd hunbound hbound
  · rename_i e hreply
    cases h
    refine hquiet _ rfl rfl ?_ hrest
    intro c' hc' _ hok
    cases hc.symm.trans hc'
    simp [hreply] at hok

theorem receive (hinv : Inv s) (h : s.receive = (s', a)) : Lawful (.receive, a) s s' := by
  unfold UdpSocket.receive at h
  split at h <;> cases h <;> exact quiet hinv id nofun nofun trivial

theorem dispose (hinv : Inv s) {reply : Reply} (h : s.dispose reply = (s', a)) :
    Lawful (.dispose reply, a) s s' := by
  unfold UdpSocket.dispose at h
  split at h
  · -- closed: the remote address stays, so there may be none
    rename_i hreply
    cases h
    have hremote : s.state ≠ .connected → ¬ s.remote.isSome = true := fun hopen h =>
      hopen (hinv.remote.1 h)
    refine ⟨⟨?_, ?_⟩, ?_⟩
    · intro hfollows _ hconnected
      cases hfollows.remote.1 (hinv.remote.2 hconnected)
    · intro hkept
      exact ⟨fun _ => rfl, nofun, nofun, iff_of_false (hremote (hkept hreply)) nofun⟩
    · intro hkept
      exact ⟨iff_of_false (hremote (hkept hreply)) nofun, fun _ => rfl, fun _ _ _ => nofun⟩
  · rename_i e hreply
    cases h
    refine quiet hinv id nofun nofun ?_
    intro hok
    simp [hreply] at hok

/-- Every step of a run that has followed so far. -/
theorem lawful (hinv : Inv s) {l : Event × Answer} (h : next l s s') : Lawful l s s' := by
  obtain ⟨e, a⟩ := l
  cases e with
  | bind localAddress interfaces reply => exact hinv.bind (Option.some.inj h)
  | connect remoteAddress reply => exact hinv.connect (Option.some.inj h)
  | disconnect reply => exact hinv.disconnect (Option.some.inj h)
  | send isBytes remoteAddress => exact hinv.send (Option.some.inj h)
  | sendReply i reply => exact hinv.sendReply h
  | receive => exact hinv.receive (Option.some.inj h)
  | dispose reply => exact hinv.dispose (Option.some.inj h)

end Inv

/-- A run whose steps all follow the state machine. -/
def following : Action (Event × Answer) UdpSocket := fun l s s' => next l s s' ∧ Follows l s s'

theorem following_run_iff (family : IpAddressFamily) (socketId : Nat)
    (ls : List (Event × Answer)) (s : UdpSocket) :
    Run following (.create family socketId) ls s ↔
      Run (guarded (fun l s => Kept l.1 s) next) (.create family socketId) ls s := by
  refine Run.good_iff_guarded ?_ ?_ (create_inv family socketId)
  · intro l s s' hinv hnext
    exact (hinv.lawful hnext).1
  · intro l s s' hinv hnext hfollows
    have hlawful := hinv.lawful hnext
    exact hlawful.2 (hlawful.1.1 hfollows)

end Jco.Sockets.Udp

namespace Jco.Sockets

open Jco.Lib

/-- The runs that follow the state machines, for a TCP socket that is created or
accepted and for a UDP socket: those whose steps are all kept. -/
theorem sockets_follow_iff (accepted : Bool) (family : IpAddressFamily) (socketId : Nat)
    (tcpCalls : List (Tcp.Event × Answer)) (tcp : Tcp.TcpSocket)
    (udpCalls : List (Udp.Event × Answer)) (udp : Udp.UdpSocket) :
    (Run Tcp.following (.create accepted family socketId) tcpCalls tcp ↔
      Run (guarded (fun l s => Tcp.Kept l.1 s) Tcp.next)
        (.create accepted family socketId) tcpCalls tcp) ∧
    (Run Udp.following (.create family socketId) udpCalls udp ↔
      Run (guarded (fun l s => Udp.Kept l.1 s) Udp.next) (.create family socketId) udpCalls udp) :=
  ⟨Tcp.following_run_iff accepted family socketId tcpCalls tcp,
    Udp.following_run_iff family socketId udpCalls udp⟩

/-- `127.0.0.1:80` -/
def loopback : IpSocketAddress := ⟨.ipv4, 80, [127, 0, 0, 1]⟩

/-- A TCP socket is disposed while its connect is awaited, and the reply makes it
connected. A UDP socket is disposed while it is connected, and keeps the address. -/
theorem disposed_not_following :
    (∃ s, Run Tcp.next (.create false .ipv4 1)
      [(.connect loopback, .pending), (.dispose (.ok ()), .done),
        (.connectReply 0 (.ok ()), .done)] s ∧ s.state = .connected ∧
      ¬ Run Tcp.following (.create false .ipv4 1)
        [(.connect loopback, .pending), (.dispose (.ok ()), .done),
          (.connectReply 0 (.ok ()), .done)] s) ∧
    (∃ s, Run Udp.next (.create .ipv4 1)
      [(.connect loopback (.ok ()), .done), (.dispose (.ok ()), .done)] s ∧
      s.state = .closed ∧ s.remote = some loopback ∧
      ¬ Run Udp.following (.create .ipv4 1)
        [(.connect loopback (.ok ()), .done), (.dispose (.ok ()), .done)] s) := by
  constructor
  · refine ⟨_, .cons rfl (.cons rfl (.cons rfl (.nil _))), rfl, ?_⟩
    intro hrun
    rcases hrun with _ | ⟨⟨h₁, -⟩, _ | ⟨⟨h₂, -⟩, _ | ⟨⟨h₃, hfollows⟩, -⟩⟩⟩
    cases h₁
    cases h₂
    cases h₃
    cases hfollows.closed rfl
  · refine ⟨_, .cons rfl (.cons rfl (.nil _)), rfl, rfl, ?_⟩
    intro hrun
    rcases hrun with _ | ⟨⟨h₁, -⟩, _ | ⟨⟨h₂, hfollows⟩, -⟩⟩
    cases h₁
    cases h₂
    cases hfollows.remote.1 rfl

end Jco.Sockets

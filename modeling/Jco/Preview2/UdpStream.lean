import Mathlib.Logic.Function.Basic
import Mathlib.Data.List.Basic
import Mathlib.Tactic.Common
import Jco.Lib.Run
import Jco.Sockets.Address

/-!
# The stream pairs of a UDP socket

`stream` of a preview2 UDP socket associates the socket with a peer, or with none, and
answers an incoming and an outgoing datagram stream. The streams listen to the host
socket: every incoming stream that listens queues each datagram that arrives.

Modelled are one socket of the io worker, its host socket as far as it is connected and
listened to, and all streams it ever had, by their numbers. The host answers whether a
`disconnect` and a `connect` succeed. The main thread waits for each call, so a call is
one step.
-/

namespace Jco.Preview2.UdpStream

open Jco.Lib
open Sockets (IpAddressFamily IpSocketAddress)

inductive SocketState where
  | init
  | bind
  | bound
  | connection
  | closed
deriving DecidableEq, Repr

/-- What a refused call throws. -/
inductive UdpError where
  | invalidState
  | invalidArgument
  | notInProgress
  /-- `convertSocketErrorCode` or `convertSocketError` of the host's error. -/
  | host
deriving DecidableEq, Repr

/-- `DatagramStreamRecord`, with the listeners that its `cleanup` takes off the host
socket. -/
structure DatagramStream (δ : Type*) where
  active : Bool
  error : Bool := false
  /-- An incoming stream has a queue. -/
  queue : Option (List δ)
  onMessage : Bool
  onError : Bool
  /-- The guest has dropped its handle. -/
  dropped : Bool := false
deriving DecidableEq, Repr

/-- `UdpSocketRecord` -/
structure UdpSocket (δ : Type*) where
  state : SocketState := .init
  remoteAddress : Option String := none
  remotePort : Option Nat := none
  incomingDatagramStream : Option Nat := none
  outgoingDatagramStream : Option Nat := none
  /-- The host socket has a peer. -/
  connected : Bool := false
  datagramStreamCnt : Nat := 0
  /-- A number that is not in use is that of a dropped stream. -/
  datagramStreams : Nat → DatagramStream δ :=
    fun _ => ⟨false, false, none, false, false, true⟩

/-- Whether the calls of the host succeed. -/
structure Host where
  disconnects : Bool
  connects : Bool
deriving DecidableEq, Repr

/-! ## Addresses -/

/-- `tupleToIpv4` and `tupleToIPv6` -/
def serializeIpAddress (addr : IpSocketAddress) : Option String :=
  match addr.tag with
  | .ipv4 =>
    if addr.address.length = 4 then
      some (String.intercalate "." (addr.address.map toString))
    else none
  | .ipv6 =>
    if addr.address.length = 8 then
      some (String.intercalate ":" (addr.address.map fun s => String.ofList (Nat.toDigits 16 s)))
    else none

def isWildcardAddress (addr : IpSocketAddress) : Bool :=
  match addr.tag with
  | .ipv4 => (List.range 4).all fun i => addr.address[i]? == some 0
  | .ipv6 => (List.range 8).all fun i => addr.address[i]? == some 0

def isIPv4MappedAddress (addr : IpSocketAddress) : Bool :=
  addr.tag == .ipv6 && addr.address[5]? == some 0xffff

/-- The addresses that `stream` refuses. -/
def refusesRemote (addr : IpSocketAddress) : Bool :=
  addr.port == 0 || isWildcardAddress addr ||
    (addr.tag == .ipv6 && isIPv4MappedAddress addr)

section Steps

variable {δ : Type*}

/-! ## The streams -/

namespace DatagramStream

/-- `socketDatagramStreamClear` -/
def clear (r : DatagramStream δ) : DatagramStream δ :=
  { r with active := false, onMessage := false, onError := false }

/-- `socketDatagramStreamDispose` -/
def dispose (r : DatagramStream δ) : DatagramStream δ := { r.clear with dropped := true }

/-- A datagram reaches the stream if it listens. -/
def message (d : δ) (r : DatagramStream δ) : DatagramStream δ :=
  if r.onMessage then { r with queue := r.queue.map fun q => q ++ [d] } else r

/-- An `error` event of the host socket. The incoming stream listens for one only. -/
def hostError (r : DatagramStream δ) : DatagramStream δ :=
  if r.onError then { r with error := true, onError := r.queue.isNone } else r

/-- `socketIncomingDatagramStreamReceive` on what is left behind. -/
def receive (maxResults : Nat) (r : DatagramStream δ) : DatagramStream δ :=
  if !r.active || r.error then r
  else { r with queue := r.queue.map fun q => q.drop maxResults }

end DatagramStream

namespace UdpSocket

def setStream (s : UdpSocket δ) (id : Nat) (r : DatagramStream δ) : UdpSocket δ :=
  { s with datagramStreams := Function.update s.datagramStreams id r }

/-- The record of `createIncomingDatagramStream`. -/
def incomingStream : DatagramStream δ :=
  { active := true, queue := some [], onMessage := true, onError := true }

/-- The record of `createOutgoingDatagramStream`. -/
def outgoingStream : DatagramStream δ :=
  { active := true, queue := none, onMessage := false, onError := true }

/-- Both streams are made and become those of the socket. -/
def createPair (s : UdpSocket δ) : UdpSocket δ × (Nat × Nat) :=
  let incoming := s.datagramStreamCnt + 1
  let outgoing := incoming + 1
  ({ (s.setStream incoming incomingStream).setStream outgoing outgoingStream with
      datagramStreamCnt := outgoing
      incomingDatagramStream := some incoming
      outgoingDatagramStream := some outgoing }, (incoming, outgoing))

/-- Both streams of the socket are cleared. -/
def clearPair (s : UdpSocket δ) : UdpSocket δ :=
  { s with datagramStreams := fun i =>
      if some i = s.incomingDatagramStream ∨ some i = s.outgoingDatagramStream then
        (s.datagramStreams i).clear
      else s.datagramStreams i }

/-- `udpSocket.disconnect()` -/
def disconnect (s : UdpSocket δ) (host : Host) : Option (UdpSocket δ) :=
  if s.connected && host.disconnects then some { s with connected := false } else none

/-- What `stream` does once the old association is gone. -/
def associate (s : UdpSocket δ) (remoteAddress : Option IpSocketAddress) (host : Host) :
    UdpSocket δ × Except UdpError (Nat × Nat) :=
  match remoteAddress with
  | some addr =>
    let s₁ := { s with
      remoteAddress := serializeIpAddress addr
      remotePort := some addr.port }
    if host.connects then
      let (s₂, pair) := createPair { s₁ with connected := true, state := .connection }
      (s₂, .ok pair)
    else
      -- `connectErr`, and the streams that listen for errors
      ({ s₁ with datagramStreams := fun i => (s.datagramStreams i).hostError }, .error .host)
  | none =>
    let (s₁, pair) :=
      createPair { s with state := .bound, remoteAddress := none, remotePort := none }
    (s₁, .ok pair)

/-- The calls that are refused at once. -/
def refuses (s : UdpSocket δ) (remoteAddress : Option IpSocketAddress) : Option UdpError :=
  if s.state ≠ .bound ∧ s.state ≠ .connection then some .invalidState
  else if remoteAddress.any refusesRemote then some .invalidArgument
  else none

/-- `socketUdpStream` -/
def socketUdpStream (s : UdpSocket δ) (remoteAddress : Option IpSocketAddress) (host : Host) :
    UdpSocket δ × Except UdpError (Nat × Nat) :=
  match s.refuses remoteAddress with
  | some e => (s, .error e)
  | none =>
    if s.state = .connection then
      match s.clearPair.disconnect host with
      | none => (s.clearPair, .error .host)
      | some s₁ => s₁.associate remoteAddress host
    else
      s.associate remoteAddress host

/-- `socketUdpBindStart` -/
def socketUdpBindStart (s : UdpSocket δ) (localAddress : IpSocketAddress)
    (family : IpAddressFamily) : UdpSocket δ :=
  if family ≠ localAddress.tag ∨ isIPv4MappedAddress localAddress then s
  else if s.state ≠ .init then s
  else { s with state := .bind }

/-- `socketUdpBindFinish`, when the host has answered. -/
def socketUdpBindFinish (s : UdpSocket δ) (ok : Bool) : UdpSocket δ :=
  if s.state ≠ .bind then s
  else { s with state := if ok then .bound else .closed }

end UdpSocket

inductive Event (δ : Type*) where
  | bindStart (localAddress : IpSocketAddress) (family : IpAddressFamily)
  | bindFinish (ok : Bool)
  | stream (remoteAddress : Option IpSocketAddress) (host : Host)
  /-- A datagram arrives at the host socket. -/
  | message (d : δ)
  | receive (id maxResults : Nat)
  /-- The guest drops a stream. -/
  | drop (id : Nat)

/-- One event; `none` where it cannot happen. -/
def UdpSocket.perform (s : UdpSocket δ) : Event δ → Option (UdpSocket δ)
  | .bindStart localAddress family => some (s.socketUdpBindStart localAddress family)
  | .bindFinish ok => some (s.socketUdpBindFinish ok)
  | .stream remoteAddress host => some (s.socketUdpStream remoteAddress host).1
  | .message d =>
    some { s with datagramStreams := fun i => (s.datagramStreams i).message d }
  | .receive id maxResults =>
    if (s.datagramStreams id).dropped then none
    else
      some (s.setStream id ((s.datagramStreams id).receive maxResults))
  | .drop id =>
    if (s.datagramStreams id).dropped then none
    else
      some (s.setStream id (s.datagramStreams id).dispose)

def next : Action (Event δ) (UdpSocket δ) := computed UdpSocket.perform

/-! ## What is promised -/

/-- Neither active nor listening. -/
structure DatagramStream.Quiet (r : DatagramStream δ) : Prop where
  active : r.active = false
  onMessage : r.onMessage = false
  onError : r.onError = false

/-- The pair is active and receives the datagrams, and every other stream is quiet. -/
structure OnlyPair (s : UdpSocket δ) (incoming outgoing : Nat) : Prop where
  incoming_live : (s.datagramStreams incoming).active = true ∧
    (s.datagramStreams incoming).onMessage = true
  outgoing_live : (s.datagramStreams outgoing).active = true
  others : ∀ i, i ≠ incoming → i ≠ outgoing → (s.datagramStreams i).Quiet

/-- The datagram is queued on the incoming stream of the pair, if the guest still has it,
and on no other stream. -/
structure QueuedOnce (d : δ) (s s' : UdpSocket δ) : Prop where
  queued : ∀ i, s.incomingDatagramStream = some i → (s.datagramStreams i).dropped = false →
    ∃ q, (s.datagramStreams i).queue = some q ∧ (s'.datagramStreams i).queue = some (q ++ [d])
  nowhere_else : ∀ i, s.incomingDatagramStream ≠ some i ∨ (s.datagramStreams i).dropped = true →
    (s'.datagramStreams i).queue = (s.datagramStreams i).queue

/-- State, association and streams are what they were. -/
structure AsBefore (s s' : UdpSocket δ) : Prop where
  state : s'.state = s.state
  remoteAddress : s'.remoteAddress = s.remoteAddress
  remotePort : s'.remotePort = s.remotePort
  datagramStreams : s'.datagramStreams = s.datagramStreams

/-- What a step is to do. -/
def Right (e : Event δ) (s s' : UdpSocket δ) : Prop :=
  (s'.state = .connection ↔ s'.connected = true) ∧
    match e with
    | .stream remoteAddress host =>
      match (s.socketUdpStream remoteAddress host).2 with
      | .ok (incoming, outgoing) => OnlyPair s' incoming outgoing
      | .error _ => AsBefore s s'
    | .message d => QueuedOnce d s s'
    | _ => True

/-- The guest has dropped the streams of the pair, or there is none. -/
def PairDropped (s : UdpSocket δ) : Prop :=
  ∀ i, some i = s.incomingDatagramStream ∨ some i = s.outgoingDatagramStream →
    (s.datagramStreams i).dropped = true

/-- The calls of `stream` that do what they are to do: those that are refused; on a
socket without a peer, those that find the streams of the pair before dropped, and do not
fail to connect; on one with a peer, those in which the host neither fails to disconnect
nor to connect, or fails to disconnect when there is no stream left to be cleared. -/
def Ok (e : Event δ) (s : UdpSocket δ) : Prop :=
  match e with
  | .stream remoteAddress host =>
    (s.refuses remoteAddress).isSome = true ∨
      (s.state = .bound ∧ PairDropped s ∧ (remoteAddress = none ∨ host.connects = true)) ∨
      (s.state = .connection ∧
        if host.disconnects then remoteAddress = none ∨ host.connects = true
        else PairDropped s)
  | _ => True

/-- What holds as long as every step does what it is to do. -/
structure Inv (s : UdpSocket δ) : Prop where
  host : s.state = .connection ↔ s.connected = true
  /-- The numbers to come. -/
  fresh : ∀ i, s.datagramStreamCnt < i → (s.datagramStreams i).dropped = true
  free : s.state ≠ .connection → s.remotePort = none
  /-- Streams that are not those of the socket, and those the guest has dropped. -/
  quiet : ∀ i, some i ≠ s.incomingDatagramStream ∧ some i ≠ s.outgoingDatagramStream ∨
    (s.datagramStreams i).dropped = true → (s.datagramStreams i).Quiet
  incoming : ∀ i, s.incomingDatagramStream = some i → (s.datagramStreams i).dropped = false →
    (s.datagramStreams i).active = true ∧ (s.datagramStreams i).onMessage = true ∧
      ∃ q, (s.datagramStreams i).queue = some q
  outgoing : ∀ i, s.outgoingDatagramStream = some i → (s.datagramStreams i).dropped = false →
    (s.datagramStreams i).active = true ∧ (s.datagramStreams i).onMessage = false

/-! ## Clearing and making streams -/

variable {s s' s₁ : UdpSocket δ} {r : DatagramStream δ}

namespace DatagramStream

theorem clear_quiet (r : DatagramStream δ) : r.clear.Quiet := ⟨rfl, rfl, rfl⟩

theorem dispose_quiet (r : DatagramStream δ) : r.dispose.Quiet := ⟨rfl, rfl, rfl⟩

theorem Quiet.clear_eq (h : r.Quiet) : r.clear = r := by
  rcases r with ⟨active, error, queue, onMessage, onError, dropped⟩
  rcases h with ⟨hactive, hmessage, herror⟩
  cases hactive
  cases hmessage
  cases herror
  rfl

end DatagramStream

/-- No stream is active or listens. -/
def AllQuiet (s : UdpSocket δ) : Prop := ∀ i, (s.datagramStreams i).Quiet

theorem Inv.allQuiet_iff (h : Inv s) : AllQuiet s ↔ PairDropped s := by
  constructor
  · intro hquiet i hi
    -- an undropped stream of the pair would be active
    by_contra hdropped
    have hundropped : (s.datagramStreams i).dropped = false := by simpa using hdropped
    have hactive : (s.datagramStreams i).active = true := by
      rcases hi with hi | hi
      · exact (h.incoming i hi.symm hundropped).1
      · exact (h.outgoing i hi.symm hundropped).1
    rw [(hquiet i).active] at hactive
    cases hactive
  · intro hpair i
    by_cases hi : some i = s.incomingDatagramStream ∨ some i = s.outgoingDatagramStream
    · exact h.quiet i (.inr (hpair i hi))
    · exact h.quiet i (.inl (not_or.1 hi))

namespace UdpSocket

theorem clearPair_allQuiet (h : Inv s) : AllQuiet s.clearPair := by
  intro i
  unfold clearPair
  by_cases hi : some i = s.incomingDatagramStream ∨ some i = s.outgoingDatagramStream
  · simp only [hi, if_true]
    exact DatagramStream.clear_quiet _
  · simp only [hi, if_false]
    exact h.quiet i (.inl (not_or.1 hi))

theorem clearPair_dropped (s : UdpSocket δ) (i : Nat) :
    (s.clearPair.datagramStreams i).dropped = (s.datagramStreams i).dropped := by
  unfold clearPair
  by_cases hi : some i = s.incomingDatagramStream ∨ some i = s.outgoingDatagramStream
  · simp only [hi, if_true, DatagramStream.clear]
  · simp only [hi, if_false]

/-- Clearing shows unless the guest has dropped both streams. -/
theorem clearPair_eq_iff (h : Inv s) :
    s.clearPair.datagramStreams = s.datagramStreams ↔ PairDropped s := by
  rw [← h.allQuiet_iff]
  constructor
  · intro heq
    have hquiet := clearPair_allQuiet h
    unfold AllQuiet at hquiet ⊢
    rwa [heq] at hquiet
  · intro hquiet
    funext i
    unfold clearPair
    by_cases hi : some i = s.incomingDatagramStream ∨ some i = s.outgoingDatagramStream
    · simp only [hi, if_true]
      exact (hquiet i).clear_eq
    · simp only [hi, if_false]

theorem createPair_streams (s : UdpSocket δ) :
    s.createPair.1.datagramStreams =
      Function.update (Function.update s.datagramStreams (s.datagramStreamCnt + 1) incomingStream)
        (s.datagramStreamCnt + 1 + 1) outgoingStream := rfl

@[simp] theorem createPair_incoming (s : UdpSocket δ) :
    s.createPair.1.datagramStreams (s.datagramStreamCnt + 1) = incomingStream := by
  rw [createPair_streams, Function.update_of_ne (by omega), Function.update_self]

@[simp] theorem createPair_outgoing (s : UdpSocket δ) :
    s.createPair.1.datagramStreams (s.datagramStreamCnt + 1 + 1) = outgoingStream := by
  rw [createPair_streams, Function.update_self]

theorem createPair_other (s : UdpSocket δ) {i : Nat} (hin : i ≠ s.datagramStreamCnt + 1)
    (hout : i ≠ s.datagramStreamCnt + 1 + 1) :
    s.createPair.1.datagramStreams i = s.datagramStreams i := by
  rw [createPair_streams, Function.update_of_ne hout, Function.update_of_ne hin]

/-- A new pair is the only live one if there was none before. -/
theorem createPair_onlyPair_iff (hfresh : ∀ i, s.datagramStreamCnt < i →
      (s.datagramStreams i).Quiet) :
    OnlyPair s.createPair.1 s.createPair.2.1 s.createPair.2.2 ↔ AllQuiet s := by
  constructor
  · intro h i
    by_cases hi : s.datagramStreamCnt < i
    · exact hfresh i hi
    · have hin : i ≠ s.datagramStreamCnt + 1 := by omega
      have hout : i ≠ s.datagramStreamCnt + 1 + 1 := by omega
      have hother := h.others i hin hout
      rwa [createPair_other s hin hout] at hother
  · intro hquiet
    refine ⟨⟨?_, ?_⟩, ?_, fun i hin hout => ?_⟩
    · exact congrArg DatagramStream.active (createPair_incoming s)
    · exact congrArg DatagramStream.onMessage (createPair_incoming s)
    · exact congrArg DatagramStream.active (createPair_outgoing s)
    · rw [createPair_other s hin hout]
      exact hquiet i

theorem createPair_inv (hquiet : AllQuiet s) (hhost : s.state = .connection ↔ s.connected = true)
    (hfree : s.state ≠ .connection → s.remotePort = none)
    (hfresh : ∀ i, s.datagramStreamCnt < i → (s.datagramStreams i).dropped = true) :
    Inv s.createPair.1 := by
  refine ⟨hhost, fun i hi => ?_, hfree, fun i hi => ?_, fun i hi _ => ?_, fun i hi _ => ?_⟩
  · have hlt : s.datagramStreamCnt + 1 + 1 < i := hi
    rw [createPair_other s (by omega) (by omega)]
    exact hfresh i (by omega)
  · by_cases hin : i = s.datagramStreamCnt + 1
    · -- a stream of the pair, and not dropped
      subst hin
      rcases hi with ⟨hne, -⟩ | hdropped
      · exact absurd rfl hne
      · rw [createPair_incoming] at hdropped
        cases hdropped
    · by_cases hout : i = s.datagramStreamCnt + 1 + 1
      · subst hout
        rcases hi with ⟨-, hne⟩ | hdropped
        · exact absurd rfl hne
        · rw [createPair_outgoing] at hdropped
          cases hdropped
      · rw [createPair_other s hin hout]
        exact hquiet i
  · cases hi
    rw [createPair_incoming]
    exact ⟨rfl, rfl, [], rfl⟩
  · cases hi
    rw [createPair_outgoing]
    exact ⟨rfl, rfl⟩

/-- An association that does not fail: the socket, prepared, is given a new pair. -/
theorem associate_ok (s : UdpSocket δ) (hconnected : s.connected = false)
    {remoteAddress : Option IpSocketAddress} {host : Host}
    (hassoc : remoteAddress = none ∨ host.connects = true) :
    ∃ s₁ : UdpSocket δ, s₁.datagramStreams = s.datagramStreams ∧
      s₁.datagramStreamCnt = s.datagramStreamCnt ∧
      (s₁.state = .connection ↔ s₁.connected = true) ∧
      (s₁.state ≠ .connection → s₁.remotePort = none) ∧
      s.associate remoteAddress host = (s₁.createPair.1, .ok s₁.createPair.2) := by
  cases remoteAddress with
  | none =>
    refine ⟨{ s with state := .bound, remoteAddress := none, remotePort := none }, rfl, rfl,
      ?_, fun _ => rfl, rfl⟩
    rw [hconnected]
    simp
  | some addr =>
    have hconnects : host.connects = true := by
      rcases hassoc with hnone | hconnects
      · cases hnone
      · exact hconnects
    refine ⟨{ s with
      remoteAddress := serializeIpAddress addr
      remotePort := some addr.port
      connected := true
      state := .connection }, rfl, rfl, ⟨fun _ => rfl, fun _ => rfl⟩, fun hne => absurd rfl hne, ?_⟩
    simp only [associate, hconnects, if_true]

theorem associate_fails (s : UdpSocket δ) (addr : IpSocketAddress) {host : Host}
    (hfails : host.connects = false) :
    (s.associate (some addr) host).2 = .error .host ∧
      (s.associate (some addr) host).1.remotePort = some addr.port ∧
      (s.associate (some addr) host).1.state = s.state ∧
      (s.associate (some addr) host).1.connected = s.connected := by
  simp [associate, hfails]

end UdpSocket

/-! ## One call of `stream` -/

section Call

variable {remoteAddress : Option IpSocketAddress} {host : Host} {pair : Nat × Nat} {e : UdpError}

theorem right_of_ok (hcall : s.socketUdpStream remoteAddress host = (s', .ok pair)) :
    Right (.stream remoteAddress host) s s' ↔
      (s'.state = .connection ↔ s'.connected = true) ∧ OnlyPair s' pair.1 pair.2 := by
  unfold Right
  simp only [hcall]

theorem right_of_error (hcall : s.socketUdpStream remoteAddress host = (s', .error e)) :
    Right (.stream remoteAddress host) s s' ↔
      (s'.state = .connection ↔ s'.connected = true) ∧ AsBefore s s' := by
  unfold Right
  simp only [hcall]

/-- The four ways of a call: it is refused, it associates a socket without a peer, or it
finds a peer and the host does not disconnect, or does. -/
theorem stream_cases (h : Inv s) (remoteAddress : Option IpSocketAddress) (host : Host) :
    (∃ e, s.refuses remoteAddress = some e ∧
      s.socketUdpStream remoteAddress host = (s, .error e)) ∨
    (s.refuses remoteAddress = none ∧ s.state = .bound ∧
      s.socketUdpStream remoteAddress host = s.associate remoteAddress host) ∨
    (s.refuses remoteAddress = none ∧ s.state = .connection ∧ host.disconnects = false ∧
      s.socketUdpStream remoteAddress host = (s.clearPair, .error .host)) ∨
    (s.refuses remoteAddress = none ∧ s.state = .connection ∧ host.disconnects = true ∧
      s.socketUdpStream remoteAddress host =
        ({ s.clearPair with connected := false } : UdpSocket δ).associate remoteAddress host) := by
  cases hrefuses : s.refuses remoteAddress with
  | some e =>
    left
    refine ⟨e, rfl, ?_⟩
    simp only [UdpSocket.socketUdpStream, hrefuses]
  | none =>
    right
    have hstate : s.state = .bound ∨ s.state = .connection := by
      by_contra hneither
      unfold UdpSocket.refuses at hrefuses
      rw [if_pos (not_or.1 hneither)] at hrefuses
      cases hrefuses
    rcases hstate with hbound | hconnection
    · left
      refine ⟨rfl, hbound, ?_⟩
      simp [UdpSocket.socketUdpStream, hrefuses, hbound]
    · right
      have hconnected : s.clearPair.connected = true := h.host.1 hconnection
      cases hdisconnects : host.disconnects with
      | false =>
        left
        refine ⟨rfl, hconnection, rfl, ?_⟩
        simp [UdpSocket.socketUdpStream, hrefuses, hconnection, UdpSocket.disconnect,
          hdisconnects]
      | true =>
        right
        refine ⟨rfl, hconnection, rfl, ?_⟩
        simp [UdpSocket.socketUdpStream, hrefuses, hconnection, UdpSocket.disconnect,
          hdisconnects, hconnected]

/-- A call that reaches the association with `s₁`, the host without a peer, and does not
fail to connect: the new pair is the only one if there was none. -/
theorem associate_right (hcall : s.socketUdpStream remoteAddress host =
      s₁.associate remoteAddress host) (hconnected : s₁.connected = false)
    (hassoc : remoteAddress = none ∨ host.connects = true)
    (hfresh : ∀ i, s₁.datagramStreamCnt < i →
      (s₁.datagramStreams i).dropped = true ∧ (s₁.datagramStreams i).Quiet) :
    (Right (.stream remoteAddress host) s (s.socketUdpStream remoteAddress host).1 ↔
        AllQuiet s₁) ∧
      (AllQuiet s₁ → Inv (s.socketUdpStream remoteAddress host).1) := by
  rcases UdpSocket.associate_ok s₁ hconnected hassoc with
    ⟨s₂, hstreams, hcnt, hhost, hfree, hassociate⟩
  have hall := hcall.trans hassociate
  have hquiet : AllQuiet s₂ ↔ AllQuiet s₁ := by
    unfold AllQuiet
    rw [hstreams]
  rw [hall, right_of_ok hall]
  constructor
  · rw [UdpSocket.createPair_onlyPair_iff, hquiet]
    · exact and_iff_right hhost
    · intro i hi
      rw [hcnt] at hi
      rw [hstreams]
      exact (hfresh i hi).2
  · intro hq
    refine UdpSocket.createPair_inv (hquiet.2 hq) hhost hfree fun i hi => ?_
    rw [hcnt] at hi
    rw [hstreams]
    exact (hfresh i hi).1

theorem ok_bound (hrefuses : s.refuses remoteAddress = none) (hbound : s.state = .bound) :
    Ok (.stream remoteAddress host) s ↔
      PairDropped s ∧ (remoteAddress = none ∨ host.connects = true) := by
  simp [Ok, hrefuses, hbound]

theorem ok_connection (hrefuses : s.refuses remoteAddress = none)
    (hconnection : s.state = .connection) :
    Ok (.stream remoteAddress host) s ↔
      if host.disconnects then remoteAddress = none ∨ host.connects = true
      else PairDropped s := by
  simp [Ok, hrefuses, hconnection]

theorem Inv.disconnected (h : Inv s) (hbound : s.state = .bound) : s.connected = false := by
  have hhost := h.host
  rw [hbound] at hhost
  simpa using hhost

theorem stream_right_iff (h : Inv s) (remoteAddress : Option IpSocketAddress) (host : Host) :
    Right (.stream remoteAddress host) s (s.socketUdpStream remoteAddress host).1 ↔
      Ok (.stream remoteAddress host) s := by
  have hfreshQuiet (i : Nat) (hi : s.datagramStreamCnt < i) :
      (s.datagramStreams i).dropped = true ∧ (s.datagramStreams i).Quiet :=
    ⟨h.fresh i hi, h.quiet i (.inr (h.fresh i hi))⟩
  rcases stream_cases h remoteAddress host with
    ⟨e, hrefused, hcall⟩ | ⟨hrefuses, hbound, hcall⟩ |
    ⟨hrefuses, hconnection, hdisconnects, hcall⟩ | ⟨hrefuses, hconnection, hdisconnects, hcall⟩
  · rw [hcall, right_of_error hcall]
    refine iff_of_true ⟨h.host, rfl, rfl, rfl, rfl⟩ (.inl ?_)
    rw [hrefused]
    rfl
  · rw [ok_bound hrefuses hbound]
    by_cases hassoc : remoteAddress = none ∨ host.connects = true
    · rw [and_iff_left hassoc, ← h.allQuiet_iff]
      exact (associate_right hcall (h.disconnected hbound) hassoc hfreshQuiet).1
    · -- the peer of the failed connect stays behind
      refine iff_of_false (fun hright => ?_) (fun hand => hassoc hand.2)
      rcases not_or.1 hassoc with ⟨hsome, hfails⟩
      rcases Option.ne_none_iff_exists'.1 hsome with ⟨addr, rfl⟩
      rcases UdpSocket.associate_fails s addr (by simpa using hfails : host.connects = false) with
        ⟨herror, hport, -, -⟩
      have hcall' : s.socketUdpStream (some addr) host =
          ((s.associate (some addr) host).1, .error .host) := by
        rw [hcall, ← herror]
      rw [hcall', right_of_error hcall'] at hright
      have hbefore := hright.2.remotePort
      rw [hport, h.free (by rw [hbound]; exact SocketState.noConfusion)] at hbefore
      cases hbefore
  · rw [ok_connection hrefuses hconnection, if_neg (by simp [hdisconnects]), hcall,
      right_of_error hcall, ← UdpSocket.clearPair_eq_iff h]
    constructor
    · rintro ⟨-, hbefore⟩
      exact hbefore.datagramStreams
    · intro hstreams
      exact ⟨h.host, rfl, rfl, rfl, hstreams⟩
  · rw [ok_connection hrefuses hconnection, if_pos hdisconnects]
    by_cases hassoc : remoteAddress = none ∨ host.connects = true
    · have hquiet := UdpSocket.clearPair_allQuiet h
      have hfresh (i : Nat) (hi : s.datagramStreamCnt < i) :
          (s.clearPair.datagramStreams i).dropped = true ∧
            (s.clearPair.datagramStreams i).Quiet := by
        rw [UdpSocket.clearPair_dropped]
        exact ⟨h.fresh i hi, hquiet i⟩
      exact iff_of_true ((associate_right hcall rfl hassoc hfresh).1.2 hquiet) hassoc
    · -- the host has no peer any more, and the state does not say so
      refine iff_of_false (fun hright => ?_) hassoc
      rcases not_or.1 hassoc with ⟨hsome, hfails⟩
      rcases Option.ne_none_iff_exists'.1 hsome with ⟨addr, rfl⟩
      rcases UdpSocket.associate_fails ({ s.clearPair with connected := false } : UdpSocket δ)
        addr (by simpa using hfails : host.connects = false) with ⟨-, -, hstate, hconnected⟩
      have hhost := hright.1
      rw [hcall, hstate, hconnected] at hhost
      cases hhost.1 hconnection

theorem stream_inv (h : Inv s) (hright : Right (.stream remoteAddress host) s
      (s.socketUdpStream remoteAddress host).1) :
    Inv (s.socketUdpStream remoteAddress host).1 := by
  have hfreshQuiet (i : Nat) (hi : s.datagramStreamCnt < i) :
      (s.datagramStreams i).dropped = true ∧ (s.datagramStreams i).Quiet :=
    ⟨h.fresh i hi, h.quiet i (.inr (h.fresh i hi))⟩
  have hok := (stream_right_iff h remoteAddress host).1 hright
  rcases stream_cases h remoteAddress host with
    ⟨e, -, hcall⟩ | ⟨hrefuses, hbound, hcall⟩ |
    ⟨-, -, -, hcall⟩ | ⟨hrefuses, hconnection, hdisconnects, hcall⟩
  · rw [hcall]
    exact h
  · have hassoc := ((ok_bound hrefuses hbound).1 hok).2
    have hassociate := associate_right hcall (h.disconnected hbound) hassoc hfreshQuiet
    exact hassociate.2 (hassociate.1.1 hright)
  · -- nothing was there to be cleared
    rw [hcall, right_of_error hcall] at hright
    rw [hcall]
    have hsame : s.clearPair = s :=
      calc s.clearPair = { s with datagramStreams := s.clearPair.datagramStreams } := rfl
        _ = s := by rw [hright.2.datagramStreams]
    rw [hsame]
    exact h
  · have hassoc : remoteAddress = none ∨ host.connects = true := by
      have hthen := (ok_connection hrefuses hconnection).1 hok
      rwa [if_pos hdisconnects] at hthen
    have hquiet := UdpSocket.clearPair_allQuiet h
    have hfresh (i : Nat) (hi : s.datagramStreamCnt < i) :
        (s.clearPair.datagramStreams i).dropped = true ∧
          (s.clearPair.datagramStreams i).Quiet := by
      rw [UdpSocket.clearPair_dropped]
      exact ⟨h.fresh i hi, hquiet i⟩
    exact (associate_right hcall rfl hassoc hfresh).2 hquiet

end Call

/-! ## The other events -/

/-- A change that leaves alone what the invariant looks at. -/
theorem Inv.streams (h : Inv s) {streams : Nat → DatagramStream δ}
    (hsame : ∀ i, (streams i).active = (s.datagramStreams i).active ∧
      (streams i).onMessage = (s.datagramStreams i).onMessage ∧
      (streams i).onError = (s.datagramStreams i).onError ∧
      (streams i).dropped = (s.datagramStreams i).dropped ∧
      (streams i).queue.isSome = (s.datagramStreams i).queue.isSome) :
    Inv { s with datagramStreams := streams } := by
  refine ⟨h.host, fun i hi => ?_, h.free, fun i hi => ?_, fun i hi hlive => ?_,
    fun i hi hlive => ?_⟩
  all_goals rcases hsame i with ⟨hactive, hmessage, herror, hdropped, hqueue⟩
  · exact hdropped.trans (h.fresh i hi)
  · have hquiet := h.quiet i (by rwa [← hdropped])
    exact ⟨hactive.trans hquiet.active, hmessage.trans hquiet.onMessage,
      herror.trans hquiet.onError⟩
  · have hin := h.incoming i hi (hdropped.symm.trans hlive)
    have hsome := hqueue.trans (Option.isSome_iff_exists.2 hin.2.2)
    exact ⟨hactive.trans hin.1, hmessage.trans hin.2.1, Option.isSome_iff_exists.1 hsome⟩
  · have hout := h.outgoing i hi (hdropped.symm.trans hlive)
    exact ⟨hactive.trans hout.1, hmessage.trans hout.2⟩

/-- A datagram reaches the incoming stream of the pair, if the guest has not dropped it. -/
theorem Inv.message (h : Inv s) (d : δ) :
    QueuedOnce d s { s with datagramStreams := fun i => (s.datagramStreams i).message d } := by
  constructor
  · intro i hi hlive
    rcases h.incoming i hi hlive with ⟨-, hlistens, q, hq⟩
    refine ⟨q, hq, ?_⟩
    simp [DatagramStream.message, hlistens, hq]
  · intro i hi
    show ((s.datagramStreams i).message d).queue = _
    have hdeaf : (s.datagramStreams i).onMessage = false := by
      by_cases hdropped : (s.datagramStreams i).dropped = true
      · exact (h.quiet i (.inr hdropped)).onMessage
      · -- the outgoing stream does not listen for datagrams
        have hne : some i ≠ s.incomingDatagramStream := by
          rcases hi with hne | hd
          · exact fun heq => hne heq.symm
          · exact absurd hd hdropped
        by_cases hout : s.outgoingDatagramStream = some i
        · exact (h.outgoing i hout (by simpa using hdropped)).2
        · exact (h.quiet i (.inl ⟨hne, fun heq => hout heq.symm⟩)).onMessage
    unfold DatagramStream.message
    rw [hdeaf]
    rfl

/-- Dropping a stream silences it. -/
theorem Inv.drop (h : Inv s) (id : Nat) :
    Inv (s.setStream id (s.datagramStreams id).dispose) := by
  have hat (i : Nat) : i = id ∨
      (s.setStream id (s.datagramStreams id).dispose).datagramStreams i = s.datagramStreams i := by
    by_cases hi : i = id
    · exact .inl hi
    · exact .inr (Function.update_of_ne hi _ _)
  have hself : (s.setStream id (s.datagramStreams id).dispose).datagramStreams id =
      (s.datagramStreams id).dispose := Function.update_self _ _ _
  refine ⟨h.host, fun i hi => ?_, h.free, fun i hi => ?_, fun i hi hlive => ?_,
    fun i hi hlive => ?_⟩
  · rcases hat i with rfl | hother
    · rw [hself]
      rfl
    · rw [hother]
      exact h.fresh i hi
  · rcases hat i with rfl | hother
    · rw [hself]
      exact DatagramStream.dispose_quiet _
    · rw [hother] at hi ⊢
      exact h.quiet i hi
  · rcases hat i with rfl | hother
    · rw [hself] at hlive
      cases hlive
    · rw [hother] at hlive ⊢
      exact h.incoming i hi hlive
  · rcases hat i with rfl | hother
    · rw [hself] at hlive
      cases hlive
    · rw [hother] at hlive ⊢
      exact h.outgoing i hi hlive

theorem Inv.bindStart (h : Inv s) (localAddress : IpSocketAddress) (family : IpAddressFamily) :
    Inv (s.socketUdpBindStart localAddress family) := by
  unfold UdpSocket.socketUdpBindStart
  split
  · exact h
  · split
    · exact h
    · rename_i hinit
      have hstate : s.state = .init := not_not.1 hinit
      have hhost := h.host
      rw [hstate] at hhost
      have hfree := h.free (by rw [hstate]; exact SocketState.noConfusion)
      refine ⟨?_, h.fresh, fun _ => hfree, h.quiet, h.incoming, h.outgoing⟩
      simpa using hhost

theorem Inv.bindFinish (h : Inv s) (ok : Bool) : Inv (s.socketUdpBindFinish ok) := by
  unfold UdpSocket.socketUdpBindFinish
  split
  · exact h
  · rename_i hbind
    have hstate : s.state = .bind := not_not.1 hbind
    have hhost := h.host
    rw [hstate] at hhost
    have hfree := h.free (by rw [hstate]; exact SocketState.noConfusion)
    refine ⟨?_, h.fresh, fun _ => hfree, h.quiet, h.incoming, h.outgoing⟩
    cases ok <;> simpa using hhost

namespace DatagramStream

/-- A receive and an arriving datagram change nothing but the queue. -/
theorem receive_fields (r : DatagramStream δ) (n : Nat) :
    (r.receive n).active = r.active ∧ (r.receive n).onMessage = r.onMessage ∧
      (r.receive n).onError = r.onError ∧ (r.receive n).dropped = r.dropped ∧
      (r.receive n).queue.isSome = r.queue.isSome := by
  unfold DatagramStream.receive
  split
  · exact ⟨rfl, rfl, rfl, rfl, rfl⟩
  · exact ⟨rfl, rfl, rfl, rfl, Option.isSome_map⟩

theorem message_fields (r : DatagramStream δ) (d : δ) :
    (r.message d).active = r.active ∧ (r.message d).onMessage = r.onMessage ∧
      (r.message d).onError = r.onError ∧ (r.message d).dropped = r.dropped ∧
      (r.message d).queue.isSome = r.queue.isSome := by
  unfold DatagramStream.message
  split
  · exact ⟨rfl, rfl, rfl, rfl, Option.isSome_map⟩
  · exact ⟨rfl, rfl, rfl, rfl, rfl⟩

end DatagramStream

theorem Inv.receive (h : Inv s) (id n : Nat) :
    Inv (s.setStream id ((s.datagramStreams id).receive n)) := by
  apply h.streams
  intro i
  by_cases hi : i = id
  · subst hi
    rw [Function.update_self]
    exact DatagramStream.receive_fields _ n
  · rw [Function.update_of_ne hi]
    exact ⟨rfl, rfl, rfl, rfl, rfl⟩

/-! ## Every run -/

/-- What a step that is not a call of `stream` does is right, and keeps the invariant. -/
theorem other_right (h : Inv s) {e : Event δ} (hnext : next e s s')
    (hother : ∀ remoteAddress host, e ≠ .stream remoteAddress host) :
    Right e s s' ∧ Inv s' := by
  unfold next computed UdpSocket.perform at hnext
  cases e with
  | stream remoteAddress host => exact absurd rfl (hother remoteAddress host)
  | bindStart localAddress family =>
    cases hnext
    have hinv := h.bindStart localAddress family
    exact ⟨⟨hinv.host, trivial⟩, hinv⟩
  | bindFinish ok =>
    cases hnext
    have hinv := h.bindFinish ok
    exact ⟨⟨hinv.host, trivial⟩, hinv⟩
  | message d =>
    cases hnext
    exact ⟨⟨h.host, h.message d⟩, h.streams fun i => DatagramStream.message_fields _ d⟩
  | receive id maxResults =>
    simp only at hnext
    split at hnext
    · cases hnext
    · cases hnext
      have hinv := h.receive id maxResults
      exact ⟨⟨hinv.host, trivial⟩, hinv⟩
  | drop id =>
    simp only at hnext
    split at hnext
    · cases hnext
    · cases hnext
      have hinv := h.drop id
      exact ⟨⟨hinv.host, trivial⟩, hinv⟩

theorem step_right_iff (e : Event δ) (s s' : UdpSocket δ) (h : Inv s) (hnext : next e s s') :
    Right e s s' ↔ Ok e s := by
  by_cases hstream : ∃ remoteAddress host, e = .stream remoteAddress host
  · rcases hstream with ⟨remoteAddress, host, rfl⟩
    cases hnext
    exact stream_right_iff h remoteAddress host
  · refine iff_of_true (other_right h hnext fun remoteAddress host heq =>
      hstream ⟨remoteAddress, host, heq⟩).1 ?_
    cases e with
    | stream remoteAddress host => exact absurd ⟨remoteAddress, host, rfl⟩ hstream
    | bindStart localAddress family => trivial
    | bindFinish ok => trivial
    | message d => trivial
    | receive id maxResults => trivial
    | drop id => trivial

theorem step_inv (e : Event δ) (s s' : UdpSocket δ) (h : Inv s) (hnext : next e s s')
    (hright : Right e s s') : Inv s' := by
  by_cases hstream : ∃ remoteAddress host, e = .stream remoteAddress host
  · rcases hstream with ⟨remoteAddress, host, rfl⟩
    cases hnext
    exact stream_inv h hright
  · exact (other_right h hnext fun remoteAddress host heq =>
      hstream ⟨remoteAddress, host, heq⟩).2

theorem inv_init : Inv ({} : UdpSocket δ) := by
  refine ⟨⟨SocketState.noConfusion, Bool.noConfusion⟩, fun _ _ => rfl, fun _ => rfl,
    fun _ _ => ⟨rfl, rfl, rfl⟩, ?_, ?_⟩
  · intro i hi
    cases hi
  · intro i hi
    cases hi

/-- The runs of a new socket in which every step does what it is to do are those whose
calls of `stream` all meet the condition. -/
theorem latest_pair_iff (es : List (Event δ)) (s' : UdpSocket δ) :
    Run (fun e s s' => next e s s' ∧ Right e s s') {} es s' ↔
      Run (guarded Ok next) ({} : UdpSocket δ) es s' :=
  Run.good_iff_guarded step_right_iff step_inv inv_init

end Steps

/-- `127.0.0.1:7` -/
def peer : IpSocketAddress := { tag := .ipv4, port := 7, address := [127, 0, 0, 1] }

/-- A bound socket is given a pair without a peer, and then one with a peer. -/
def twoPairs : List (Event Nat) :=
  [.bindStart peer .ipv4, .bindFinish true, .stream none ⟨true, true⟩,
    .stream (some peer) ⟨true, true⟩, .message 9]

/-- The streams `1` and `3` both queue the datagram. -/
theorem queued_twice : ∃ s' : UdpSocket Nat, Run next {} twoPairs s' ∧
    (s'.datagramStreams 1).queue = some [9] ∧ (s'.datagramStreams 3).queue = some [9] := by
  refine ⟨(performAll UdpSocket.perform {} twoPairs).get (by decide),
    run_performAll (Option.some_get _).symm, ?_, ?_⟩
  · decide
  · decide

end Jco.Preview2.UdpStream

import Jco.Preview2.UdpStream

/-!
# Sending a list of datagrams

`send` of an outgoing datagram stream of preview2: the datagrams go to a send queue, and
the queue to the host socket. The host is a function of the number of calls of
`udpSocket.send` before; what was sent is kept with the destination that it was sent to.
-/

namespace Jco.Preview2.UdpSend

open Sockets (IpSocketAddress)
open UdpStream (UdpSocket serializeIpAddress)

def UDP_BATCH_SENDS : Bool := false

variable {δ : Type*}

structure OutgoingDatagram (δ : Type*) where
  data : δ
  remoteAddress : Option IpSocketAddress

/-- What `udpSocket.send` does: its callback comes without an error or with one, or the call
itself throws, as it does for a bad port. -/
inductive Reply where
  | sent
  | failed
  | thrown
deriving DecidableEq, Repr

inductive Failure where
  | invalidArgument
  /-- `convertSocketError` of the host's error. -/
  | host
  | thrown
  | trap
deriving DecidableEq, Repr

/-- A datagram on its way to a destination. -/
structure Sent (δ : Type*) where
  data : δ
  address : Option String
  port : Option Nat
deriving DecidableEq, Repr

/-- The variables of the call, the calls of the host and what they sent. -/
structure Batch (δ : Type*) where
  sendQueue : List δ := []
  sendQueueAddress : Option String := none
  sendQueuePort : Option Nat := none
  datagramsSent : Nat := 0
  calls : Nat := 0
  sent : List (Sent δ) := []

/-! ## The function -/

/-- The destination of a datagram: its own or that of the socket. -/
def target (socket : UdpSocket δ) (d : OutgoingDatagram δ) : Sent δ where
  data := d.data
  address := match d.remoteAddress with
    | some remoteAddress => serializeIpAddress remoteAddress
    | none => socket.remoteAddress
  port := (d.remoteAddress.map IpSocketAddress.port).or socket.remotePort

/-- The address check of `doSendBatch`. -/
def accepts (socket : UdpSocket δ) (address : Option String) (port : Option Nat) : Bool :=
  if socket.remoteAddress.isSome then
    address == socket.remoteAddress && port == socket.remotePort
  else address.isSome

/-- Whether the batch resolves to an error, or why it rejects. -/
def doSendBatch (socket : UdpSocket δ) (host : Nat → Reply) (b : Batch δ) :
    Except Failure Bool × Batch δ :=
  if accepts socket b.sendQueueAddress b.sendQueuePort then
    let b' := { b with calls := b.calls + 1 }
    match host b.calls with
    | .sent =>
      (.ok false, { b' with
        datagramsSent := b.datagramsSent + b.sendQueue.length
        sent := b.sent ++ b.sendQueue.map fun data =>
          ⟨data, b.sendQueueAddress, b.sendQueuePort⟩ })
    | .failed => if b.datagramsSent > 0 then (.ok true, b') else (.error .host, b')
    | .thrown => (.error .thrown, b')
  else (.error .invalidArgument, b)

/-- The turn of the loop up to the send: the queue with the datagram, and `sendLastBatch`. -/
def enqueue (b : Batch δ) (t : Sent δ) : Batch δ × Bool :=
  if b.sendQueue ≠ [] then
    if b.sendQueueAddress = t.address ∧ b.sendQueuePort = t.port then
      ({ b with sendQueue := b.sendQueue ++ [t.data] }, !UDP_BATCH_SENDS)
    else (b, true)
  else
    ({ b with sendQueue := [t.data], sendQueueAddress := t.address, sendQueuePort := t.port },
      !UDP_BATCH_SENDS)

/-- The queue after a send that went well. -/
def requeue (b : Batch δ) (t : Sent δ) : Batch δ :=
  { b with
    sendQueue := if UDP_BATCH_SENDS then [t.data] else []
    sendQueueAddress := t.address
    sendQueuePort := t.port }

/-- The loop with the flush and the check behind it. -/
def sendAll (socket : UdpSocket δ) (host : Nat → Reply) (total : Nat) :
    List (OutgoingDatagram δ) → Batch δ → Except Failure Nat × Batch δ
  | [], b =>
    let check (b : Batch δ) : Except Failure Nat × Batch δ :=
      (if b.datagramsSent ≠ total then .error .trap else .ok b.datagramsSent, b)
    if b.sendQueue ≠ [] then
      match doSendBatch socket host b with
      | (.error e, b') => (.error e, b')
      | (.ok true, b') => (.ok b'.datagramsSent, b')
      | (.ok false, b') => check b'
    else check b
  | d :: datagrams, b =>
    let t := target socket d
    match enqueue b t with
    | (b₁, false) => sendAll socket host total datagrams b₁
    | (b₁, true) =>
      match doSendBatch socket host b₁ with
      | (.error e, b₂) => (.error e, b₂)
      | (.ok true, b₂) => (.ok b₂.datagramsSent, b₂)
      | (.ok false, b₂) => sendAll socket host total datagrams (requeue b₂ t)

def socketOutgoingDatagramStreamSend (socket : UdpSocket δ) (id : Nat) (host : Nat → Reply)
    (datagrams : List (OutgoingDatagram δ)) : Except Failure Nat × Batch δ :=
  if (socket.datagramStreams id).active then sendAll socket host datagrams.length datagrams {}
  else (.error .trap, {})

/-! ## What is to be reported -/

/-- Whether a datagram can be sent when the host is called for the `n`th time. -/
def Goes (socket : UdpSocket δ) (host : Nat → Reply) (n : Nat) (d : OutgoingDatagram δ) : Prop :=
  accepts socket (target socket d).address (target socket d).port = true ∧ host n = .sent

/-- From the `n`th call on, `k` datagrams can be sent and the next one, if there is one, cannot. -/
def Leading (socket : UdpSocket δ) (host : Nat → Reply) :
    Nat → List (OutgoingDatagram δ) → Nat → Prop
  | n, d :: datagrams, k + 1 => Goes socket host n d ∧ Leading socket host (n + 1) datagrams k
  | n, d :: _, 0 => ¬ Goes socket host n d
  | _, [], k => k = 0

/-- The count is reported if something was sent, and only a failure at the first datagram is a
failure. -/
def Reported (result : Except Failure Nat) (datagrams : List (OutgoingDatagram δ)) (k : Nat) :
    Prop :=
  (0 < k → result = .ok k) ∧ ∀ e, result = .error e → k = 0 ∧ datagrams ≠ []

/-- The datagram that fails behind others fails in the callback of the host. -/
def FailsInCallback (socket : UdpSocket δ) (host : Nat → Reply)
    (datagrams : List (OutgoingDatagram δ)) (k : Nat) : Prop :=
  ∀ d, datagrams[k]? = some d → 0 < k →
    accepts socket (target socket d).address (target socket d).port = true ∧ host k = .failed

section

variable {socket : UdpSocket δ} {host : Nat → Reply} {total n k : Nat} {b : Batch δ}
  {d : OutgoingDatagram δ} {datagrams : List (OutgoingDatagram δ)}

/-- Between two turns nothing is queued, and every call of the host sent a datagram. -/
structure Idle (b : Batch δ) (n : Nat) : Prop where
  queue : b.sendQueue = []
  count : b.datagramsSent = n
  calls : b.calls = n

/-- A turn either sends its datagram, or ends the call with nothing more sent. -/
theorem sendAll_turn (hb : Idle b n) :
    (Goes socket host n d → ∃ b', Idle b' (n + 1) ∧ b'.sent = b.sent ++ [target socket d] ∧
        sendAll socket host total (d :: datagrams) b = sendAll socket host total datagrams b') ∧
      (¬ Goes socket host n d →
        (sendAll socket host total (d :: datagrams) b).2.sent = b.sent ∧
        ((sendAll socket host total (d :: datagrams) b).1 = .ok n ∧ 0 < n ∧
            accepts socket (target socket d).address (target socket d).port = true ∧
            host n = .failed ∨
          (∃ e, (sendAll socket host total (d :: datagrams) b).1 = .error e) ∧
            ¬ (0 < n ∧ accepts socket (target socket d).address (target socket d).port = true ∧
              host n = .failed))) := by
  rcases b with ⟨queue, address, port, count, calls, sent⟩
  rcases hb with ⟨hqueue, hcount, hcalls⟩
  dsimp only at hqueue hcount hcalls
  subst hqueue hcount hcalls
  cases haccepts : accepts socket (target socket d).address (target socket d).port with
  | false => simp [sendAll, enqueue, doSendBatch, haccepts, UDP_BATCH_SENDS, Goes]
  | true =>
    cases hhost : host calls with
    | sent =>
      refine ⟨fun _ => ?_, fun hstops => absurd ⟨haccepts, hhost⟩ hstops⟩
      refine ⟨⟨[], (target socket d).address, (target socket d).port, calls + 1, calls + 1,
        sent ++ [target socket d]⟩, ⟨rfl, rfl, rfl⟩, rfl, ?_⟩
      simp [sendAll, enqueue, doSendBatch, haccepts, hhost, UDP_BATCH_SENDS, requeue]
    | failed =>
      by_cases hpos : 0 < calls <;>
        simp [sendAll, enqueue, doSendBatch, haccepts, hhost, UDP_BATCH_SENDS, Goes, hpos]
    | thrown => simp [sendAll, enqueue, doSendBatch, haccepts, hhost, UDP_BATCH_SENDS, Goes]

/-- The turns together, the induction being on the datagrams left. -/
theorem sendAll_run (hb : Idle b n) :
    ∃ k, Leading socket host n datagrams k ∧ k ≤ datagrams.length ∧
      (sendAll socket host total datagrams b).2.sent =
        b.sent ++ (datagrams.take k).map (target socket) ∧
      match datagrams[k]? with
      | none => k = datagrams.length ∧ (sendAll socket host total datagrams b).1 =
          if n + k ≠ total then .error .trap else .ok (n + k)
      | some d =>
        (sendAll socket host total datagrams b).1 = .ok (n + k) ∧ 0 < n + k ∧
            accepts socket (target socket d).address (target socket d).port = true ∧
            host (n + k) = .failed ∨
          (∃ e, (sendAll socket host total datagrams b).1 = .error e) ∧
            ¬ (0 < n + k ∧
              accepts socket (target socket d).address (target socket d).port = true ∧
              host (n + k) = .failed) := by
  induction datagrams generalizing b n with
  | nil =>
    refine ⟨0, rfl, Nat.le_refl _, by simp [sendAll, hb.queue], rfl, ?_⟩
    simp [sendAll, hb.queue, hb.count]
  | cons d datagrams ih =>
    rcases @sendAll_turn _ socket host total n b d datagrams hb with ⟨hgo, hstop⟩
    by_cases hgoes : Goes socket host n d
    · rcases hgo hgoes with ⟨b', hb', hsent, hrest⟩
      rcases ih hb' with ⟨k, hleading, hle, hall, hresult⟩
      refine ⟨k + 1, ⟨hgoes, hleading⟩, Nat.succ_le_succ hle, ?_, ?_⟩
      · rw [hrest, hall, hsent, List.take_succ_cons, List.map_cons, List.append_assoc]
        rfl
      · rw [hrest, List.getElem?_cons_succ, show n + (k + 1) = n + 1 + k by omega]
        cases hnext : datagrams[k]? with
        | none =>
          rw [hnext] at hresult
          exact ⟨congrArg Nat.succ hresult.1, hresult.2⟩
        | some d' =>
          rw [hnext] at hresult
          exact hresult
    · rcases hstop hgoes with ⟨hsent, hresult⟩
      refine ⟨0, hgoes, Nat.zero_le _, ?_, hresult⟩
      rw [hsent, List.take_zero, List.map_nil, List.append_nil]

end

/-- The datagrams before the first that cannot be sent are sent, each once and in order, and
none behind it; the count is reported exactly if a failure behind them comes in the
callback of the host. -/
theorem send_iff (socket : UdpSocket δ) (id : Nat) (host : Nat → Reply)
    (datagrams : List (OutgoingDatagram δ)) (hactive : (socket.datagramStreams id).active = true) :
    ∃ k, Leading socket host 0 datagrams k ∧
      (socketOutgoingDatagramStreamSend socket id host datagrams).2.sent =
        (datagrams.take k).map (target socket) ∧
      (Reported (socketOutgoingDatagramStreamSend socket id host datagrams).1 datagrams k ↔
        FailsInCallback socket host datagrams k) := by
  have hidle : Idle ({} : Batch δ) 0 := ⟨rfl, rfl, rfl⟩
  rcases @sendAll_run _ socket host datagrams.length 0 {} datagrams hidle with
    ⟨k, hleading, -, hsent, hresult⟩
  rw [socketOutgoingDatagramStreamSend, if_pos hactive]
  refine ⟨k, hleading, hsent, ?_⟩
  unfold Reported FailsInCallback
  generalize (sendAll socket host datagrams.length datagrams {}).1 = result at hresult ⊢
  rw [Nat.zero_add] at hresult
  cases hnext : datagrams[k]? with
  | none =>
    rw [hnext] at hresult
    rcases hresult with ⟨rfl, rfl⟩
    simp
  | some d =>
    have hne : datagrams ≠ [] := by
      rintro rfl
      cases hnext
    rw [hnext] at hresult
    rcases hresult with ⟨rfl, hpos, hcallback⟩ | ⟨⟨e, rfl⟩, hnot⟩
    · simp [hcallback]
    · -- a failure, which is right only before anything was sent
      refine ⟨fun hreported d' hd' hpos => absurd (hreported.1 hpos) (by simp), fun hcallback => ?_⟩
      have hzero : k = 0 := by
        by_contra hpos
        exact hnot ⟨Nat.pos_of_ne_zero hpos, hcallback d rfl (Nat.pos_of_ne_zero hpos)⟩
      exact ⟨fun hpos => absurd hzero (Nat.ne_of_gt hpos), fun e' _ => ⟨hzero, hne⟩⟩

/-- An active outgoing stream of a socket without a peer. -/
def unconnected : UdpSocket Nat where
  datagramStreams := fun _ => ⟨true, false, none, false, false, false⟩

def toPeer : OutgoingDatagram Nat := ⟨1, some UdpStream.peer⟩

theorem send_second_failed :
    ∃ k, Leading unconnected (fun n => if n = 0 then .sent else .failed) 0 [toPeer, toPeer] k ∧
      (socketOutgoingDatagramStreamSend unconnected 0
          (fun n => if n = 0 then .sent else .failed) [toPeer, toPeer]).2.sent =
        ([toPeer, toPeer].take k).map (target unconnected) ∧
      (Reported (socketOutgoingDatagramStreamSend unconnected 0
          (fun n => if n = 0 then .sent else .failed) [toPeer, toPeer]).1 [toPeer, toPeer] k ↔
        FailsInCallback unconnected (fun n => if n = 0 then .sent else .failed)
          [toPeer, toPeer] k) :=
  send_iff unconnected 0 _ [toPeer, toPeer] rfl

/-- The second datagram has no address: the first is sent, and the call fails. -/
theorem second_without_address :
    Leading unconnected (fun _ => .sent) 0 [toPeer, ⟨2, none⟩] 1 ∧
      ¬ Reported (socketOutgoingDatagramStreamSend unconnected 0 (fun _ => .sent)
        [toPeer, ⟨2, none⟩]).1 [toPeer, ⟨2, none⟩] 1 := by
  have hfirst : Goes unconnected (fun _ => Reply.sent) 0 toPeer := ⟨rfl, rfl⟩
  have hsecond : ¬ Goes unconnected (fun _ => Reply.sent) 1 ⟨2, none⟩ := by
    intro h
    exact absurd h.1 (by decide)
  refine ⟨⟨hfirst, hsecond⟩, fun h => ?_⟩
  have hresult : (socketOutgoingDatagramStreamSend unconnected 0 (fun _ => .sent)
      [toPeer, ⟨2, none⟩]).1 = .error .invalidArgument := rfl
  rw [hresult] at h
  exact absurd (h.1 Nat.one_pos) (by simp)

end Jco.Preview2.UdpSend

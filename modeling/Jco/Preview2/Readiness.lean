import Mathlib.Data.List.Basic
import Mathlib.Logic.Function.Basic
import Mathlib.Tactic.Common
import Jco.Lib.Run

/-! # The readiness of sockets

Each socket and each datagram stream of the worker has a poll state, whose
`ready` the handlers of network events and the operations set and clear on their
own. Modelled are a TCP socket through its life, the two kinds of datagram
streams, and any number of each under any interleaving; an accepted socket is
connected from the start and never listens, so it is left out.

A step is an operation of the guest or an event of the network. The microtask
that settles a future is part of the event that resolves its promise. Polls read
`ready` and leave it as it is: `pollStateCheck` returns at once for a poll state
without a parent stream.
-/

namespace Jco.Preview2.Readiness

open Jco.Lib

/-! ## TCP sockets -/

inductive SocketState where
  | init
  | bind
  | bound
  | connect
  | connection
  | listen
  | listener
  | closed
deriving DecidableEq, Repr

/-- The future of an operation in progress. -/
inductive Future where
  | pending
  | ok
  | err
deriving DecidableEq, Repr

/-- An entry of `pendingAccepts`. -/
inductive PendingAccept where
  | tcpSocket
  | err
deriving DecidableEq, Repr

structure Tcp where
  state : SocketState := .init
  ready : Bool := true
  future : Option Future := none
  /-- The handlers for connections and errors are attached to the server. -/
  serving : Bool := false
  pendingAccepts : List PendingAccept := []
deriving DecidableEq, Repr

/-- The operations with a start and a finish. -/
inductive Operation where
  | bind
  | connect
  | listen
deriving DecidableEq, Repr

def Operation.startsFrom : Operation → SocketState → Bool
  | .bind, state => state = .init
  | .connect, state => state = .init ∨ state = .bound
  | .listen, state => state = .bound

def Operation.inProgress : Operation → SocketState
  | .bind => .bind
  | .connect => .connect
  | .listen => .listen

def Operation.done : Operation → SocketState
  | .bind => .bound
  | .connect => .connection
  | .listen => .listener

inductive TcpEvent where
  | start (op : Operation)
  /-- The operation in progress succeeds or fails. -/
  | settle (succeeds : Bool)
  | finish (op : Operation)
  /-- A connection arrives, or the server reports an error. -/
  | arrive (pending : PendingAccept)
  | accept
deriving DecidableEq, Repr

namespace Tcp

/-- `socketTcpBindStart`, `socketTcpConnectStart`, `socketTcpListenStart`, each
with `createFuture` on the poll state of the socket. -/
def start (s : Tcp) (op : Operation) : Tcp :=
  if op.startsFrom s.state then
    { s with state := op.inProgress, ready := false, future := some .pending }
  else
    s

/-- The promise of the future is settled, after the handlers of a server that
listens have been attached. -/
def settle (s : Tcp) (succeeds : Bool) : Option Tcp :=
  match s.future with
  | some .pending =>
    some { s with
      ready := true
      future := some (if succeeds then .ok else .err)
      serving := s.serving || (succeeds && s.state = .listen) }
  | _ => none

/-- `socketTcpFinish` throws nothing. -/
def Finishes (s : Tcp) (op : Operation) : Prop :=
  s.state = op.inProgress ∧ s.ready = true ∧ s.future ≠ some .err

/-- `socketTcpFinish` -/
def finish (s : Tcp) (op : Operation) : Tcp :=
  if s.state ≠ op.inProgress then
    s
  else if s.ready = false then
    s
  else if s.future = some .err then
    { s with state := .closed, future := none }
  else
    let s := { s with state := op.done, future := none }
    -- for the listener, we must immediately transition back to unresolved
    if op.done = .listener then { s with ready := false } else s

/-- The server's `connection` and `error` handlers. -/
def arrive (s : Tcp) (pending : PendingAccept) : Option Tcp :=
  if s.serving then
    some { s with ready := true, pendingAccepts := s.pendingAccepts ++ [pending] }
  else
    none

inductive AcceptError where
  | invalidState
  | wouldBlock
  | socketError
deriving DecidableEq, Repr

/-- `socketTcpAccept`: what it throws, if anything, and the socket it leaves. -/
def socketTcpAccept (s : Tcp) : Option AcceptError × Tcp :=
  if s.state ≠ .listener then
    (some .invalidState, s)
  else
    match s.pendingAccepts with
    | [] => (some .wouldBlock, s)
    | .err :: rest => (some .socketError, { s with state := .closed, pendingAccepts := rest })
    | .tcpSocket :: rest =>
      (none, { s with pendingAccepts := rest, ready := if rest = [] then false else s.ready })

def perform (s : Tcp) : TcpEvent → Option Tcp
  | .start op => some (s.start op)
  | .settle succeeds => s.settle succeeds
  | .finish op => some (s.finish op)
  | .arrive pending => s.arrive pending
  | .accept => some s.socketTcpAccept.2

/-- A listening socket is ready exactly if an accept would not block. -/
def Truthful (s : Tcp) : Prop :=
  s.state = .listener → (s.ready = true ↔ s.socketTcpAccept.1 ≠ some .wouldBlock)

/-- A socket that listens has no operation in progress. -/
def Inv (s : Tcp) : Prop := s.state = .listener → s.future = none

/-- Listening is not finished while connections wait. -/
def Kept (s : Tcp) : TcpEvent → Prop
  | .finish .listen => s.Finishes .listen → s.pendingAccepts = []
  | _ => True

end Tcp

/-! ## Datagram streams -/

structure Incoming (δ : Type*) where
  socket : Nat
  active : Bool := true
  /-- The `message` and the `error` handler are attached. -/
  onMessage : Bool := true
  onError : Bool := true
  ready : Bool := false
  queue : List δ := []
  error : Bool := false
deriving DecidableEq, Repr

structure Outgoing where
  socket : Nat
  active : Bool := true
  onError : Bool := true
  ready : Bool := true
  error : Bool := false
  /-- What `checkSend` last computed for the stream. -/
  permit : Option Int := none
deriving DecidableEq, Repr

namespace Incoming

variable {δ : Type*} (s : Incoming δ)

/-- `onMessage` -/
def message (datagram : δ) : Incoming δ :=
  if s.onMessage then { s with queue := s.queue ++ [datagram], ready := true } else s

/-- `onError`, attached once. -/
def fail : Incoming δ :=
  if s.onError then { s with onError := false, error := true, ready := true } else s

/-- The datagrams a receive takes from the queue, where it answers any. -/
def taken (maxResults : Nat) : Nat :=
  if s.active = false then 0
  else if maxResults = 0 ∨ s.queue = [] then 0
  else if s.error then 0
  else maxResults

/-- `socketIncomingDatagramStreamReceive` -/
def receive (maxResults : Nat) : Incoming δ :=
  { s with queue := s.queue.drop (s.taken maxResults) }

/-- `active = false` and the cleanup. -/
def clear : Incoming δ := { s with active := false, onMessage := false, onError := false }

def Truthful : Prop := s.ready = true ↔ s.queue ≠ [] ∨ s.error = true

/-- A receive does not empty the queue. -/
def LeavesSome (maxResults : Nat) : Prop :=
  s.queue ≠ [] → s.error = false → s.queue.drop (s.taken maxResults) ≠ []

end Incoming

namespace Outgoing

variable (s : Outgoing)

/-- `onError` -/
def fail : Outgoing := if s.onError then { s with error := true, ready := true } else s

/-- `checkSend` for the stream, in the call or in the timer. Where nothing may be
sent, `pollSend` clears the `ready` of the socket, not of the stream. -/
def checked (remaining : Int) : Outgoing := { s with permit := some remaining }

def clear : Outgoing := { s with active := false, onError := false }

def Truthful : Prop := s.ready = true ↔ s.permit ≠ some 0 ∨ s.error = true

end Outgoing

/-! ## All sockets -/

structure Sockets (δ : Type*) where
  tcp : Nat → Tcp
  incoming : Nat → Option (Incoming δ)
  outgoing : Nat → Option Outgoing
  datagramStreamCnt : Nat
  /-- The `ready` of each UDP socket. -/
  udpReady : Nat → Bool
  /-- The timers of `pollSend`: the stream that was checked and its socket. -/
  timers : List (Nat × Nat)

inductive Event (δ : Type*) where
  | tcp (id : Nat) (e : TcpEvent)
  /-- `socketUdpStream` answers two new streams. -/
  | stream (socket : Nat)
  | message (socket : Nat) (datagram : δ)
  | error (socket : Nat)
  | receive (id maxResults : Nat)
  /-- The queue of the socket leaves room for `remaining` datagrams. -/
  | checkSend (id : Nat) (remaining : Int)
  | timer (id socket : Nat) (remaining : Int)
  | clear (id : Nat)
  | dispose (id : Nat)
  | poll

namespace Sockets

variable {δ : Type*}

def fresh : Sockets δ where
  tcp _ := {}
  incoming _ := none
  outgoing _ := none
  datagramStreamCnt := 0
  udpReady _ := true
  timers := []

/-- Change the incoming streams that are picked. -/
def mapIncoming (s : Sockets δ) (picked : Nat → Incoming δ → Bool)
    (f : Incoming δ → Incoming δ) : Sockets δ :=
  { s with incoming := fun j => (s.incoming j).map fun r => if picked j r then f r else r }

/-- Change the outgoing streams that are picked. -/
def mapOutgoing (s : Sockets δ) (picked : Nat → Outgoing → Bool) (f : Outgoing → Outgoing) :
    Sockets δ :=
  { s with outgoing := fun j => (s.outgoing j).map fun r => if picked j r then f r else r }

/-- `socketUdpStream` -/
def socketUdpStream (s : Sockets δ) (socket : Nat) : Sockets δ :=
  let i := s.datagramStreamCnt + 1
  let o := s.datagramStreamCnt + 2
  { s with
    incoming := Function.update s.incoming i (some { socket })
    outgoing := Function.update s.outgoing o (some { socket })
    datagramStreamCnt := o }

/-- `checkSend`, and where it is not positive `pollSend`. -/
def checked (s : Sockets δ) (id socket : Nat) (remaining : Int) : Sockets δ :=
  let s := s.mapOutgoing (fun j _ => j = id) fun stream => stream.checked remaining
  if remaining ≤ 0 then
    { s with
      udpReady := Function.update s.udpReady socket false
      timers := (id, socket) :: s.timers }
  else
    s

/-- The timer of `pollSend`. -/
def timer (s : Sockets δ) (id socket : Nat) (remaining : Int) : Sockets δ :=
  let s := { s with timers := s.timers.erase (id, socket) }
  let s := s.checked id socket remaining
  if remaining > 0 then
    { s with udpReady := Function.update s.udpReady socket true }
  else
    s

def perform (s : Sockets δ) : Event δ → Option (Sockets δ)
  | .tcp id e => ((s.tcp id).perform e).map fun t => { s with tcp := Function.update s.tcp id t }
  | .stream socket => some (s.socketUdpStream socket)
  | .message socket datagram =>
    some (s.mapIncoming (fun _ stream => stream.socket = socket) fun stream =>
      stream.message datagram)
  | .error socket =>
    some ((s.mapIncoming (fun _ stream => stream.socket = socket) Incoming.fail).mapOutgoing
      (fun _ stream => stream.socket = socket) Outgoing.fail)
  | .receive id maxResults =>
    some (s.mapIncoming (fun j _ => j = id) fun stream => stream.receive maxResults)
  | .checkSend id remaining =>
    (s.outgoing id).map fun stream =>
      if stream.active then s.checked id stream.socket remaining else s
  | .timer id socket remaining =>
    if (id, socket) ∈ s.timers then some (s.timer id socket remaining) else none
  | .clear id =>
    some ((s.mapIncoming (fun j _ => j = id) Incoming.clear).mapOutgoing (fun j _ => j = id)
      Outgoing.clear)
  | .dispose id =>
    some { s with
      incoming := Function.update s.incoming id none
      outgoing := Function.update s.outgoing id none }
  | .poll => some s

def next : Action (Event δ) (Sockets δ) := computed perform

/-- Every pollable tells the truth. -/
structure Truthful (s : Sockets δ) : Prop where
  tcp : ∀ id, (s.tcp id).Truthful
  incoming : ∀ id stream, s.incoming id = some stream → stream.Truthful
  outgoing : ∀ id stream, s.outgoing id = some stream → stream.Truthful

/-- If `remaining` is zero, the stream has its error set. -/
def PermitKept (s : Sockets δ) (id : Nat) (remaining : Int) : Prop :=
  ∀ stream, s.outgoing id = some stream → remaining = 0 → stream.error = true

/-- The steps that keep the pollables truthful. -/
def Kept : Event δ → Sockets δ → Prop
  | .tcp id e, s => (s.tcp id).Kept e
  | .receive id maxResults, s =>
    ∀ stream, s.incoming id = some stream → stream.LeavesSome maxResults
  | .checkSend id remaining, s =>
    (∃ stream, s.outgoing id = some stream ∧ stream.active = true) → s.PermitKept id remaining
  | .timer id _ remaining, s => s.PermitKept id remaining
  | _, _ => True

structure Inv (s : Sockets δ) : Prop where
  tcp : ∀ id, (s.tcp id).Inv
  /-- Nothing ever clears the `ready` of an outgoing stream. -/
  ready : ∀ id stream, s.outgoing id = some stream → stream.ready = true

end Sockets

/-! ## TCP sockets, step by step -/

namespace Tcp

variable {s s' : Tcp}

/-- On a listening socket only an empty list blocks. -/
theorem wouldBlock_iff (h : s.state = .listener) :
    s.socketTcpAccept.1 ≠ some .wouldBlock ↔ s.pendingAccepts ≠ [] := by
  unfold socketTcpAccept
  rw [if_neg (not_not.2 h)]
  cases s.pendingAccepts with
  | nil => simp
  | cons pending rest => cases pending <;> simp

theorem truthful_iff (h : s.state = .listener) :
    s.Truthful ↔ (s.ready = true ↔ s.pendingAccepts ≠ []) := by
  unfold Truthful
  rw [wouldBlock_iff h]
  exact ⟨fun himp => himp h, fun hiff _ => hiff⟩

/-- A socket that does not listen promises nothing. -/
theorem truthful_of_ne (h : s.state ≠ .listener) : s.Truthful := fun hlistens => absurd hlistens h

theorem inv_of_ne (h : s.state ≠ .listener) : s.Inv := fun hlistens => absurd hlistens h

theorem start_truthful (op : Operation) (hinv : s.Inv) (htrue : s.Truthful) :
    (s.start op).Inv ∧ (s.start op).Truthful := by
  unfold start
  split
  · have hne : op.inProgress ≠ .listener := by cases op <;> exact nofun
    exact ⟨inv_of_ne hne, truthful_of_ne hne⟩
  · exact ⟨hinv, htrue⟩

/-- Nothing is in progress while a socket listens, so nothing is settled. -/
theorem settle_truthful {succeeds : Bool} (h : s.settle succeeds = some s') (hinv : s.Inv) :
    s'.Inv ∧ s'.Truthful := by
  unfold settle at h
  split at h
  case h_1 hpending =>
    cases h
    have hne : s.state ≠ .listener := fun hlistens => by
      rw [hinv hlistens] at hpending
      cases hpending
    exact ⟨inv_of_ne hne, truthful_of_ne hne⟩
  case h_2 => cases h

theorem finish_inv (op : Operation) (hinv : s.Inv) : (s.finish op).Inv := by
  unfold finish
  split_ifs
  · exact hinv
  · exact hinv
  · exact fun _ => rfl
  · exact fun _ => rfl
  · exact fun _ => rfl

/-- Finishing a listen clears `ready`, whatever has arrived by then. -/
theorem finish_listen_iff (htrue : s.Truthful) :
    (s.finish .listen).Truthful ↔ s.Kept (.finish .listen) := by
  show _ ↔ (s.Finishes .listen → s.pendingAccepts = [])
  unfold finish
  by_cases hstate : s.state = Operation.listen.inProgress
  · rw [if_neg (not_not.2 hstate)]
    cases hready : s.ready with
    | false =>
      rw [if_pos rfl]
      exact iff_of_true htrue fun hfinishes => absurd (hready.symm.trans hfinishes.2.1) nofun
    | true =>
      rw [if_neg nofun]
      by_cases herr : s.future = some .err
      · rw [if_pos herr]
        exact iff_of_true (truthful_of_ne nofun) fun hfinishes => absurd herr hfinishes.2.2
      · rw [if_neg herr]
        have hfinishes : s.Finishes .listen := ⟨hstate, hready, herr⟩
        refine (truthful_iff rfl).trans ?_
        show (false = true ↔ s.pendingAccepts ≠ []) ↔ _
        simp [hfinishes]
  · rw [if_pos hstate]
    exact iff_of_true htrue fun hfinishes => absurd hfinishes.1 hstate

theorem finish_truthful {op : Operation} (hop : op ≠ .listen) (htrue : s.Truthful) :
    (s.finish op).Truthful := by
  have hdone : op.done ≠ .listener := by
    cases op with
    | bind => exact nofun
    | connect => exact nofun
    | listen => exact absurd rfl hop
  unfold finish
  split_ifs
  · exact htrue
  · exact htrue
  · exact truthful_of_ne nofun
  · exact truthful_of_ne hdone

theorem arrive_truthful {pending : PendingAccept} (h : s.arrive pending = some s') (hinv : s.Inv) :
    s'.Inv ∧ s'.Truthful := by
  rcases Option.ite_none_right_eq_some.1 h with ⟨-, h⟩
  cases h
  refine ⟨hinv, fun hlistens => ?_⟩
  rw [wouldBlock_iff hlistens]
  simp

/-- An accept clears `ready` with the last entry. -/
theorem accept_truthful (hinv : s.Inv) (htrue : s.Truthful) :
    s.socketTcpAccept.2.Inv ∧ s.socketTcpAccept.2.Truthful := by
  by_cases hstate : s.state = .listener
  · have hready := (truthful_iff hstate).1 htrue
    unfold socketTcpAccept
    rw [if_neg (not_not.2 hstate)]
    cases hpending : s.pendingAccepts with
    | nil => exact ⟨hinv, htrue⟩
    | cons pending rest =>
      cases pending with
      | err => exact ⟨inv_of_ne nofun, truthful_of_ne nofun⟩
      | tcpSocket =>
        let left : Tcp :=
          { s with pendingAccepts := rest, ready := if rest = [] then false else s.ready }
        refine ⟨hinv, (truthful_iff (s := left) hstate).2 ?_⟩
        show (if rest = [] then false else s.ready) = true ↔ rest ≠ []
        by_cases hrest : rest = []
        · simp [hrest]
        · simp [hrest, hready, hpending]
  · unfold socketTcpAccept
    rw [if_pos hstate]
    exact ⟨hinv, htrue⟩

/-- One step of a TCP socket: it stays truthful exactly if listening is not
finished while connections wait. -/
theorem perform_truthful {e : TcpEvent} (h : s.perform e = some s') (hinv : s.Inv)
    (htrue : s.Truthful) : s'.Inv ∧ (s'.Truthful ↔ s.Kept e) := by
  cases e with
  | start op =>
    cases h
    have hstart := start_truthful op hinv htrue
    exact ⟨hstart.1, iff_of_true hstart.2 trivial⟩
  | settle succeeds =>
    have hsettle := settle_truthful h hinv
    exact ⟨hsettle.1, iff_of_true hsettle.2 trivial⟩
  | finish op =>
    cases h
    refine ⟨finish_inv op hinv, ?_⟩
    cases op with
    | bind => exact iff_of_true (finish_truthful nofun htrue) trivial
    | connect => exact iff_of_true (finish_truthful nofun htrue) trivial
    | listen => exact finish_listen_iff htrue
  | arrive pending =>
    have harrive := arrive_truthful h hinv
    exact ⟨harrive.1, iff_of_true harrive.2 trivial⟩
  | accept =>
    cases h
    have haccept := accept_truthful hinv htrue
    exact ⟨haccept.1, iff_of_true haccept.2 trivial⟩

end Tcp

/-! ## Datagram streams, step by step -/

namespace Incoming

variable {δ : Type*} {s : Incoming δ}

theorem message_truthful (datagram : δ) (h : s.Truthful) : (s.message datagram).Truthful := by
  unfold message
  split
  · simp [Truthful]
  · exact h

theorem fail_truthful (h : s.Truthful) : s.fail.Truthful := by
  unfold fail
  split
  · simp [Truthful]
  · exact h

/-- A receive leaves `ready` as it is, so it must leave a datagram. -/
theorem receive_truthful (maxResults : Nat) (h : s.Truthful) :
    (s.receive maxResults).Truthful ↔ s.LeavesSome maxResults := by
  show (s.ready = true ↔ s.queue.drop (s.taken maxResults) ≠ [] ∨ s.error = true) ↔ _
  unfold Truthful at h
  unfold LeavesSome
  rw [h]
  cases s.error with
  | true => simp
  | false =>
    cases hqueue : s.queue with
    | nil => simp
    | cons datagram queue => simp

end Incoming

namespace Outgoing

variable {s : Outgoing}

theorem fail_truthful (h : s.Truthful) : s.fail.Truthful := by
  unfold fail
  split
  · simp [Truthful]
  · exact h

theorem fail_ready (h : s.ready = true) : s.fail.ready = true := by
  unfold fail
  split
  · rfl
  · exact h

/-- A stream that is always ready tells the truth until its permit is zero. -/
theorem checked_truthful (remaining : Int) (h : s.ready = true) :
    (s.checked remaining).Truthful ↔ (remaining = 0 → s.error = true) := by
  show (s.ready = true ↔ some remaining ≠ some 0 ∨ s.error = true) ↔ _
  rw [h]
  by_cases hzero : remaining = 0
  · simp [hzero]
  · simp [hzero]

end Outgoing

/-! ## All sockets, step by step -/

namespace Sockets

variable {δ : Type*} {s s' : Sockets δ}

/-- What holds of the entries of a table holds after a change that keeps it. -/
theorem forall_map {α : Type*} {t : Nat → Option α} {f : Nat → α → α} {P : α → Prop}
    (h : ∀ j r, t j = some r → P (f j r)) : ∀ j r, (t j).map (f j) = some r → P r := by
  intro j r hr
  obtain ⟨r₀, hr₀, rfl⟩ := Option.map_eq_some_iff.1 hr
  exact h j r₀ hr₀

/-- What holds of the streams that are picked after the change holds of all. -/
theorem forall_picked {α : Type*} {t : Nat → Option α} {picked : Nat → α → Bool} {f : α → α}
    {P : α → Prop} (h : ∀ j r, t j = some r → P r) (hf : ∀ r, P r → P (f r)) :
    ∀ j r, ((t j).map fun r => if picked j r then f r else r) = some r → P r := by
  refine forall_map (f := fun j r => if picked j r then f r else r) fun j r hr => ?_
  split
  · exact hf r (h j r hr)
  · exact h j r hr

/-- An entry that is put in a table, beside entries for which it holds. -/
theorem forall_update {α : Type*} {t : Nat → Option α} {i : Nat} {new : Option α} {P : α → Prop}
    (h : ∀ j r, t j = some r → P r) (hnew : ∀ r, new = some r → P r) :
    ∀ j r, Function.update t i new j = some r → P r := by
  intro j r hr
  by_cases hj : j = i
  · subst hj
    rw [Function.update_self] at hr
    exact hnew r hr
  · rw [Function.update_of_ne hj] at hr
    exact h j r hr

theorem step_tcp {id : Nat} {e : TcpEvent} {t : Tcp} (h : (s.tcp id).perform e = some t)
    (hinv : s.Inv) (htrue : s.Truthful) :
    Inv { s with tcp := Function.update s.tcp id t } ∧
      (Truthful { s with tcp := Function.update s.tcp id t } ↔ (s.tcp id).Kept e) := by
  obtain ⟨hinv', hiff⟩ := Tcp.perform_truthful h (hinv.tcp id) (htrue.tcp id)
  refine ⟨⟨fun j => ?_, hinv.ready⟩, ⟨fun htrue' => ?_, fun hkept => ⟨fun j => ?_, htrue.incoming,
    htrue.outgoing⟩⟩⟩
  · by_cases hj : j = id
    · subst hj
      simpa using hinv'
    · simpa [hj] using hinv.tcp j
  · have hid := htrue'.tcp id
    simp only [Function.update_self] at hid
    exact hiff.1 hid
  · by_cases hj : j = id
    · subst hj
      simpa using hiff.2 hkept
    · simpa [hj] using htrue.tcp j

theorem step_stream (socket : Nat) (hinv : s.Inv) (htrue : s.Truthful) :
    (s.socketUdpStream socket).Inv ∧ (s.socketUdpStream socket).Truthful := by
  refine ⟨⟨hinv.tcp, forall_update hinv.ready fun r hr => ?_⟩, ⟨htrue.tcp,
    forall_update htrue.incoming fun r hr => ?_, forall_update htrue.outgoing fun r hr => ?_⟩⟩
  · rw [← Option.some.inj hr]
  · rw [← Option.some.inj hr]
    simp [Incoming.Truthful]
  · rw [← Option.some.inj hr]
    simp [Outgoing.Truthful]

/-- The incoming streams that are picked are changed. -/
theorem step_mapIncoming (picked : Nat → Incoming δ → Bool) {f : Incoming δ → Incoming δ}
    (hf : ∀ r, r.Truthful → (f r).Truthful) (hinv : s.Inv) (htrue : s.Truthful) :
    (s.mapIncoming picked f).Inv ∧ (s.mapIncoming picked f).Truthful :=
  ⟨⟨hinv.tcp, hinv.ready⟩, ⟨htrue.tcp, forall_picked htrue.incoming hf, htrue.outgoing⟩⟩

theorem step_mapOutgoing (picked : Nat → Outgoing → Bool) {f : Outgoing → Outgoing}
    (hf : ∀ r, r.Truthful → (f r).Truthful) (hready : ∀ r, r.ready = true → (f r).ready = true)
    (hinv : s.Inv) (htrue : s.Truthful) :
    (s.mapOutgoing picked f).Inv ∧ (s.mapOutgoing picked f).Truthful :=
  ⟨⟨hinv.tcp, forall_picked hinv.ready hready⟩,
    ⟨htrue.tcp, htrue.incoming, forall_picked htrue.outgoing hf⟩⟩

theorem step_receive (id maxResults : Nat) (hinv : s.Inv) (htrue : s.Truthful) :
    Inv (s.mapIncoming (fun j _ => j = id) fun stream => stream.receive maxResults) ∧
      (Truthful (s.mapIncoming (fun j _ => j = id) fun stream => stream.receive maxResults) ↔
        ∀ stream, s.incoming id = some stream → stream.LeavesSome maxResults) := by
  refine ⟨⟨hinv.tcp, hinv.ready⟩, ⟨fun htrue' stream hstream => ?_, fun hkept => ⟨htrue.tcp, ?_,
    htrue.outgoing⟩⟩⟩
  · have hat := htrue'.incoming id (stream.receive maxResults) (by simp [mapIncoming, hstream])
    exact (Incoming.receive_truthful maxResults (htrue.incoming id stream hstream)).1 hat
  · refine forall_map fun j stream hstream => ?_
    have hbefore := htrue.incoming j stream hstream
    by_cases hj : j = id
    · subst hj
      simpa using (Incoming.receive_truthful maxResults hbefore).2 (hkept stream hstream)
    · simpa [hj] using hbefore

/-- The check of a stream, by a call or by the timer. -/
theorem step_checked (id socket : Nat) (remaining : Int) (hinv : s.Inv) (htrue : s.Truthful) :
    (s.checked id socket remaining).Inv ∧
      ((s.checked id socket remaining).Truthful ↔ s.PermitKept id remaining) := by
  have houtgoing : (s.checked id socket remaining).outgoing =
      fun j => (s.outgoing j).map fun r => if j = id then r.checked remaining else r := by
    unfold checked mapOutgoing
    split <;> simp
  have hrest : (s.checked id socket remaining).tcp = s.tcp ∧
      (s.checked id socket remaining).incoming = s.incoming := by
    unfold checked mapOutgoing
    split <;> exact ⟨rfl, rfl⟩
  refine ⟨⟨hrest.1 ▸ hinv.tcp, ?_⟩, ⟨fun htrue' stream hstream => ?_, fun hkept =>
    ⟨hrest.1 ▸ htrue.tcp, hrest.2 ▸ htrue.incoming, ?_⟩⟩⟩
  · rw [houtgoing]
    refine forall_map (f := fun j (r : Outgoing) => if j = id then r.checked remaining else r)
      fun j stream hstream => ?_
    split <;> exact hinv.ready j stream hstream
  · have hat := htrue'.outgoing id (stream.checked remaining) (by simp [houtgoing, hstream])
    exact (Outgoing.checked_truthful remaining (hinv.ready id stream hstream)).1 hat
  · rw [houtgoing]
    refine forall_map (f := fun j (r : Outgoing) => if j = id then r.checked remaining else r)
      fun j stream hstream => ?_
    by_cases hj : j = id
    · subst hj
      simpa using (Outgoing.checked_truthful remaining (hinv.ready j stream hstream)).2
        (hkept stream hstream)
    · simpa [hj] using htrue.outgoing j stream hstream

theorem step_timer (id socket : Nat) (remaining : Int) (hinv : s.Inv) (htrue : s.Truthful) :
    (s.timer id socket remaining).Inv ∧
      ((s.timer id socket remaining).Truthful ↔ s.PermitKept id remaining) := by
  have hchecked := step_checked (s := { s with timers := s.timers.erase (id, socket) }) id socket
    remaining ⟨hinv.tcp, hinv.ready⟩ ⟨htrue.tcp, htrue.incoming, htrue.outgoing⟩
  unfold timer
  dsimp only
  split
  · refine ⟨⟨hchecked.1.tcp, hchecked.1.ready⟩, Iff.trans ?_ hchecked.2⟩
    exact ⟨fun h => ⟨h.tcp, h.incoming, h.outgoing⟩, fun h => ⟨h.tcp, h.incoming, h.outgoing⟩⟩
  · exact hchecked

/-- One step: all stay truthful exactly if the step is kept. -/
theorem step_truthful {e : Event δ} (h : s.perform e = some s') (hinv : s.Inv)
    (htrue : s.Truthful) : s'.Inv ∧ (s'.Truthful ↔ Kept e s) := by
  cases e with
  | tcp id e =>
    obtain ⟨t, ht, rfl⟩ := Option.map_eq_some_iff.1 h
    exact step_tcp ht hinv htrue
  | stream socket =>
    cases h
    have hstep := step_stream socket hinv htrue
    exact ⟨hstep.1, iff_of_true hstep.2 trivial⟩
  | message socket datagram =>
    cases h
    have hstep := step_mapIncoming (fun _ r => decide (r.socket = socket))
      (fun r => Incoming.message_truthful datagram) hinv htrue
    exact ⟨hstep.1, iff_of_true hstep.2 trivial⟩
  | error socket =>
    cases h
    -- the incoming streams first, then the outgoing ones
    have hfirst := step_mapIncoming (fun _ r => decide (r.socket = socket))
      (fun r => Incoming.fail_truthful) hinv htrue
    have hstep := step_mapOutgoing (fun _ r => decide (r.socket = socket))
      (fun r => Outgoing.fail_truthful) (fun r => Outgoing.fail_ready) hfirst.1 hfirst.2
    exact ⟨hstep.1, iff_of_true hstep.2 trivial⟩
  | receive id maxResults =>
    cases h
    exact step_receive id maxResults hinv htrue
  | checkSend id remaining =>
    obtain ⟨stream, hstream, rfl⟩ := Option.map_eq_some_iff.1 h
    cases hactive : stream.active with
    | true =>
      rw [if_pos rfl]
      have hstep := step_checked id stream.socket remaining hinv htrue
      refine ⟨hstep.1, hstep.2.trans ⟨fun hkept _ => hkept, fun hkept => ?_⟩⟩
      exact hkept ⟨stream, hstream, hactive⟩
    | false =>
      rw [if_neg nofun]
      refine ⟨hinv, iff_of_true htrue ?_⟩
      rintro ⟨other, hother, hactive'⟩
      rw [hstream] at hother
      rw [← Option.some.inj hother, hactive] at hactive'
      cases hactive'
  | timer id socket remaining =>
    rcases Option.ite_none_right_eq_some.1 h with ⟨-, h⟩
    cases h
    exact step_timer id socket remaining hinv htrue
  | clear id =>
    cases h
    have hfirst := step_mapIncoming (fun j _ => decide (j = id)) (f := Incoming.clear)
      (fun r hr => hr) hinv htrue
    have hstep := step_mapOutgoing (fun j _ => decide (j = id)) (f := Outgoing.clear)
      (fun r hr => hr) (fun r hr => hr) hfirst.1 hfirst.2
    exact ⟨hstep.1, iff_of_true hstep.2 trivial⟩
  | dispose id =>
    cases h
    have hstep : Inv { s with incoming := Function.update s.incoming id none
                              outgoing := Function.update s.outgoing id none } ∧
        Truthful { s with incoming := Function.update s.incoming id none
                          outgoing := Function.update s.outgoing id none } :=
      ⟨⟨hinv.tcp, forall_update hinv.ready nofun⟩, ⟨htrue.tcp,
        forall_update htrue.incoming nofun, forall_update htrue.outgoing nofun⟩⟩
    exact ⟨hstep.1, iff_of_true hstep.2 trivial⟩
  | poll =>
    cases h
    exact ⟨hinv, iff_of_true htrue trivial⟩

theorem fresh_inv : (fresh : Sockets δ).Inv := ⟨fun _ _ => rfl, fun _ _ => nofun⟩

theorem fresh_truthful : (fresh : Sockets δ).Truthful :=
  ⟨fun _ => nofun, fun _ _ => nofun, fun _ _ => nofun⟩

/-- The steps after which every pollable tells the truth. -/
def truthfully : Action (Event δ) (Sockets δ) := fun e s s' => next e s s' ∧ s'.Truthful

/-- In a run from the start every state is truthful exactly if its steps are kept. -/
theorem truthful_run_iff {es : List (Event δ)} :
    Run truthfully fresh es s ↔ Run (guarded Kept next) fresh es s := by
  have hiff : ∀ (e : Event δ) (s s' : Sockets δ), s.Inv ∧ s.Truthful →
      (truthfully e s s' ↔ guarded Kept next e s s') := by
    intro e s s' hs
    constructor
    · intro hstep
      exact ⟨(step_truthful hstep.1 hs.1 hs.2).2.1 hstep.2, hstep.1⟩
    · intro hstep
      exact ⟨hstep.2, (step_truthful hstep.2 hs.1 hs.2).2.2 hstep.1⟩
  have hkeep : ∀ (e : Event δ) (s s' : Sockets δ), truthfully e s s' → s.Inv ∧ s.Truthful →
      s'.Inv ∧ s'.Truthful := by
    intro e s s' hstep hs
    exact ⟨(step_truthful hstep.1 hs.1 hs.2).1, hstep.2⟩
  exact Run.iff_of_invariant hiff hkeep ⟨fresh_inv, fresh_truthful⟩

/-- A connection arrives after listening has completed and before it is
finished. -/
def earlyConnection : List (Event Unit) :=
  [.tcp 0 (.start .bind), .tcp 0 (.settle true), .tcp 0 (.finish .bind), .tcp 0 (.start .listen),
    .tcp 0 (.settle true), .tcp 0 (.arrive .tcpSocket), .tcp 0 (.finish .listen)]

theorem earlyConnection_blocks :
    ∃ s : Sockets Unit, Run next fresh earlyConnection s ∧ ¬ s.Truthful := by
  refine ⟨_, run_performAll rfl, fun htrue => ?_⟩
  have hready := (htrue.tcp 0 rfl).2 nofun
  cases hready

end Sockets

end Jco.Preview2.Readiness

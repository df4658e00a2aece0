import Mathlib.Logic.Function.Basic
import Jco.Js.Number
import Jco.Lib.Run

/-!
# Options of a socket that are set early

Node sets the options of a UDP socket only once it is bound, and takes the backlog of a TCP
socket only when it listens. The worker keeps what is set before and applies it then.
Modelled is one socket of each kind, from the methods of the shim over the dispatcher to the
host socket, with the values that were last set successfully beside it.

The other options of a TCP socket stay in the shim and are not deferred.
-/

namespace Jco.Preview2.SocketOptions

open Jco.Lib Function
open Jco.Js (roundNat)

inductive SocketState where
  | init
  | bind
  | bound
  | connect
  | connection
  | listen
  | listener
  | closed
deriving DecidableEq, Repr

/-! ## UDP -/

inductive Direction where
  | receive
  | send
deriving DecidableEq, Repr

/-- `UdpSocketRecord`; `ttl` and `hostSize` are the options of the host socket as far as it was
told, `lastHop` and `last` what the setters were last given when they did not throw. -/
structure UdpSocket where
  state : SocketState := .init
  future : Bool := false
  unicastHopLimit : Nat := 64
  bufferSize : Direction → Option Nat := fun _ => none
  ttl : Option Nat := none
  hostSize : Direction → Option Nat := fun _ => none
  lastHop : Option Nat := none
  last : Direction → Option Nat := fun _ => none

namespace UdpSocket

/-- A socket of the host takes sizes of 32 bits, if it takes them. -/
def takesSize (reply : Bool) (size : Nat) : Bool := reply && size < 2 ^ 32

/-- `socket.state !== SOCKET_STATE_INIT && socket.state !== SOCKET_STATE_BIND` -/
def asksHost (s : UdpSocket) : Bool := s.state != .init && s.state != .bind

/-- A setter of a buffer size; `reply` is what the host says if it is asked, and the second
part whether nothing was thrown. -/
def setBufferSize (d : Direction) (s : UdpSocket) (value : Nat) (reply : Bool) :
    UdpSocket × Bool :=
  if value = 0 then (s, false)
  else
    let buf := roundNat value
    let stored := { s with
      bufferSize := Function.update s.bufferSize d (some buf)
      last := Function.update s.last d (some value) }
    if s.asksHost then
      if takesSize reply buf then
        ({ stored with hostSize := Function.update s.hostSize d (some buf) }, true)
      else (s, false)
    else (stored, true)

def socketUdpSetReceiveBufferSize := setBufferSize .receive

def socketUdpSetSendBufferSize := setBufferSize .send

def socketUdpSetUnicastHopLimit (s : UdpSocket) (value : Nat) (reply : Bool) : UdpSocket × Bool :=
  if value < 1 then (s, false)
  else
    let stored := { s with unicastHopLimit := value, lastHop := some value }
    if s.asksHost then if reply then ({ stored with ttl := some value }, true) else (s, false)
    else (stored, true)

/-- A getter of a buffer size; the host, or for an unbound socket the default, is asked for what
is not stored. -/
def getBufferSize (d : Direction) (s : UdpSocket) (answer : Option Nat) :
    UdpSocket × Option Nat :=
  match (s.bufferSize d).filter (· ≠ 0), answer with
  | some size, _ => (s, some size)
  | none, none => (s, none)
  | none, some size =>
    ({ s with bufferSize := Function.update s.bufferSize d (some (roundNat size)) }, some size)

def bindStart (s : UdpSocket) (accepted : Bool) : UdpSocket :=
  if accepted && s.state = .init then { s with state := .bind, future := true } else s

/-- `if (size) socket.udpSocket.set…BufferSize(size)` -/
def applySize (d : Direction) (size : Option Nat) (reply : Bool) (s : UdpSocket) :
    UdpSocket × Bool :=
  match size.filter (· ≠ 0) with
  | none => (s, true)
  | some n =>
    if takesSize reply n then
      ({ s with hostSize := Function.update s.hostSize d (some n) }, true)
    else (s, false)

/-- What has become of the bind, and how the host takes the options. -/
inductive BindReply where
  | pending
  | failed
  | ok (ttl receive send : Bool)
deriving DecidableEq, Repr

/-- A call of the host that throws leaves the function, and the socket without a future. -/
def socketUdpBindFinish (s : UdpSocket) (reply : BindReply) : UdpSocket :=
  if s.state ≠ .bind ∨ s.future = false then s
  else
    match reply with
    | .pending => s
    | .failed => { s with state := .closed, future := false }
    | .ok ttl receive send =>
      let taken := { s with future := false }
      if ttl then
        match applySize .receive (s.bufferSize .send) receive
            { taken with ttl := some s.unicastHopLimit } with
        | (s₁, false) => s₁
        | (s₁, true) =>
          match applySize .send (s.bufferSize .receive) send s₁ with
          | (s₂, false) => s₂
          | (s₂, true) => { s₂ with state := .bound }
      else taken

/-- `stream`, of a bound socket. -/
def stream (s : UdpSocket) (connects : Bool) : UdpSocket :=
  if s.state = .bound ∨ s.state = .connection then
    { s with state := if connects then .connection else .bound }
  else s

/-- The socket is bound, whether it has a peer or not. -/
def Bound (s : UdpSocket) : Prop := s.state = .bound ∨ s.state = .connection

end UdpSocket

inductive UdpEvent where
  | setBufferSize (d : Direction) (value : Nat) (reply : Bool)
  | setUnicastHopLimit (value : Nat) (reply : Bool)
  | getBufferSize (d : Direction) (answer : Option Nat)
  | bindStart (accepted : Bool)
  | bindFinish (reply : UdpSocket.BindReply)
  | stream (connects : Bool)
deriving DecidableEq, Repr

def udpPerform (s : UdpSocket) : UdpEvent → Option UdpSocket
  | .setBufferSize d value reply => some (s.setBufferSize d value reply).1
  | .setUnicastHopLimit value reply => some (s.socketUdpSetUnicastHopLimit value reply).1
  | .getBufferSize d answer => some (s.getBufferSize d answer).1
  | .bindStart accepted => some (s.bindStart accepted)
  | .bindFinish reply => some (s.socketUdpBindFinish reply)
  | .stream connects => some (s.stream connects)

def udpNext : Action UdpEvent UdpSocket := computed udpPerform

/-! ## TCP -/

/-- `TcpSocketRecord`; the size is `NaN` where there is none, `backlog` is what `server.listen` was
given. -/
structure TcpSocket where
  state : SocketState := .init
  listenBacklogSize : Option Nat := some 128
  backlog : Option (Option Nat) := none
  last : Option Nat := none
deriving DecidableEq, Repr

namespace TcpSocket

/-- `Number(undefined)` is `NaN`. -/
def socketTcpSetListenBacklogSize (s : TcpSocket) (backlogSize : Option Nat) : TcpSocket × Bool :=
  if s.state = .init ∨ s.state = .bind ∨ s.state = .bound then
    ({ s with listenBacklogSize := backlogSize.map roundNat }, true)
  else (s, false)

/-- The method of the shim; the dispatcher calls the worker with `undefined`. -/
def setListenBacklogSize (s : TcpSocket) (value : Nat) : TcpSocket × Bool :=
  if value = 0 then (s, false)
  else
    match s.socketTcpSetListenBacklogSize none with
    | (s', true) => ({ s' with last := some value }, true)
    | (_, false) => (s, false)

/-- The starts that are not refused. -/
def start (s : TcpSocket) (target : SocketState) : TcpSocket :=
  match s.state, target with
  | .init, .bind => { s with state := .bind }
  | .init, .connect | .bound, .connect => { s with state := .connect }
  | .bound, .listen => { s with state := .listen, backlog := some s.listenBacklogSize }
  | _, _ => s

/-- `socketTcpFinish` -/
def finish (s : TcpSocket) (ok : Bool) : TcpSocket :=
  match s.state with
  | .bind => { s with state := if ok then .bound else .closed }
  | .connect => { s with state := if ok then .connection else .closed }
  | .listen => { s with state := if ok then .listener else .closed }
  | _ => s

def Listening (s : TcpSocket) : Prop := s.state = .listen ∨ s.state = .listener

end TcpSocket

inductive TcpEvent where
  | setListenBacklogSize (value : Nat)
  | start (target : SocketState)
  | finish (ok : Bool)
deriving DecidableEq, Repr

def tcpPerform (s : TcpSocket) : TcpEvent → Option TcpSocket
  | .setListenBacklogSize value => some (s.setListenBacklogSize value).1
  | .start target => some (s.start target)
  | .finish ok => some (s.finish ok)

def tcpNext : Action TcpEvent TcpSocket := computed tcpPerform

/-! ## What is to hold -/

/-- Once the socket is bound, the host has what was last set, and the getters answer it. -/
structure UdpRight (s : UdpSocket) : Prop where
  size : s.Bound → ∀ d v, s.last d = some v →
    s.hostSize d = some v ∧ ∀ answer, (s.getBufferSize d answer).2 = some v
  hop : s.Bound → ∀ v, s.lastHop = some v → s.ttl = some v ∧ s.unicastHopLimit = v

def TcpRight (s : TcpSocket) : Prop :=
  s.Listening → ∀ v, s.last = some v → s.backlog = some (some v)

/-- A bind that ends well finds the two sizes equal, if one of them was set. -/
def Ok (e : UdpEvent) (s : UdpSocket) : Prop :=
  ∀ ttl receive send, e = .bindFinish (.ok ttl receive send) →
    (∃ d v, s.last d = some v) → s.bufferSize .send = s.bufferSize .receive

structure UdpInv (s : UdpSocket) : Prop where
  stored : ∀ d v, s.last d = some v → v ≠ 0 ∧ s.bufferSize d = some (roundNat v)
  hop : ∀ v, s.lastHop = some v → s.unicastHopLimit = v
  size : s.Bound → ∀ d v, s.last d = some v → s.hostSize d = some v ∧ roundNat v = v
  ttl : s.Bound → ∀ v, s.lastHop = some v → s.ttl = some v

structure TcpInv (s : TcpSocket) : Prop where
  /-- What was set has become `NaN`. -/
  lost : s.last ≠ none → s.listenBacklogSize = none
  given : s.Listening → s.backlog = some s.listenBacklogSize

section

variable {s s' : UdpSocket} {d : Direction} {value v n : Nat} {reply : Bool}

theorem roundNat_ne_zero (hv : v ≠ 0) : roundNat v ≠ 0 := by
  intro hzero
  rcases Nat.le_total v (2 ^ 53) with hle | hge
  · exact hv (Js.roundNat_of_le hle ▸ hzero)
  · have hlarge := Js.le_roundNat hge
    omega

/-- What the host takes is exact. -/
theorem roundNat_of_takesSize (htakes : UdpSocket.takesSize reply (roundNat v) = true) :
    roundNat v = v := by
  have hsmall : roundNat v < 2 ^ 32 := of_decide_eq_true (Bool.and_eq_true _ _ ▸ htakes).2
  rcases Nat.le_total v (2 ^ 53) with hle | hge
  · exact Js.roundNat_of_le hle
  · have hlarge := Js.le_roundNat hge
    omega

theorem not_bound_of_asksHost (hasks : s.asksHost = false) : ¬ s.Bound := by
  rintro (hstate | hstate) <;> simp [UdpSocket.asksHost, hstate] at hasks

/-- What a setter stores is what it was given. -/
theorem stored_update (hinv : UdpInv s) (hvalue : value ≠ 0) (d' : Direction) (v : Nat)
    (hlast : update s.last d (some value) d' = some v) :
    v ≠ 0 ∧ update s.bufferSize d (some (roundNat value)) d' = some (roundNat v) := by
  by_cases hd : d' = d
  · subst hd
    rw [update_self] at hlast ⊢
    cases hlast
    exact ⟨hvalue, rfl⟩
  · rw [update_of_ne hd] at hlast ⊢
    exact hinv.stored d' v hlast

theorem setBufferSize_inv (hinv : UdpInv s) : UdpInv (s.setBufferSize d value reply).1 := by
  unfold UdpSocket.setBufferSize
  by_cases hvalue : value = 0
  · rw [if_pos hvalue]
    exact hinv
  rw [if_neg hvalue]
  cases hasks : s.asksHost with
  | false =>
    -- stored for later
    have hnot := not_bound_of_asksHost hasks
    exact ⟨stored_update hinv hvalue, hinv.hop, fun hb => absurd hb hnot, fun hb => absurd hb hnot⟩
  | true =>
    rw [if_pos rfl]
    cases htakes : UdpSocket.takesSize reply (roundNat value) with
    | false => exact hinv
    | true =>
      have hexact := roundNat_of_takesSize htakes
      refine ⟨stored_update hinv hvalue, hinv.hop, fun hb d' v hlast => ?_, hinv.ttl⟩
      change update s.last d (some value) d' = some v at hlast
      change update s.hostSize d (some (roundNat value)) d' = some v ∧ _
      by_cases hd : d' = d
      · subst hd
        rw [update_self] at hlast ⊢
        cases hlast
        exact ⟨congrArg some hexact, hexact⟩
      · rw [update_of_ne hd] at hlast ⊢
        exact hinv.size hb d' v hlast

theorem setUnicastHopLimit_inv (hinv : UdpInv s) :
    UdpInv (s.socketUdpSetUnicastHopLimit value reply).1 := by
  unfold UdpSocket.socketUdpSetUnicastHopLimit
  by_cases hvalue : value < 1
  · rw [if_pos hvalue]
    exact hinv
  rw [if_neg hvalue]
  cases hasks : s.asksHost with
  | false =>
    have hnot := not_bound_of_asksHost hasks
    exact ⟨hinv.stored, fun v hlast => Option.some.inj hlast, fun hb => absurd hb hnot,
      fun hb => absurd hb hnot⟩
  | true =>
    cases reply with
    | false => exact hinv
    | true => exact ⟨hinv.stored, fun v hlast => Option.some.inj hlast, hinv.size,
        fun _ v hlast => hlast⟩

/-- A getter stores something only where no setter did. -/
theorem getBufferSize_inv {answer : Option Nat} (hinv : UdpInv s) :
    UdpInv (s.getBufferSize d answer).1 := by
  unfold UdpSocket.getBufferSize
  cases hsize : (s.bufferSize d).filter (· ≠ 0) with
  | some size => exact hinv
  | none =>
    cases answer with
    | none => exact hinv
    | some size =>
      refine { hinv with stored := fun d' v hlast => ?_ }
      have hstored := hinv.stored d' v hlast
      by_cases hd : d' = d
      · subst hd
        rw [hstored.2] at hsize
        simp [roundNat_ne_zero hstored.1] at hsize
      · exact ⟨hstored.1, (update_of_ne hd _ _).trans hstored.2⟩

theorem applySize_cases (d : Direction) (size : Option Nat) (reply : Bool) (s : UdpSocket) :
    ∃ hostSize, (UdpSocket.applySize d size reply s).1 = { s with hostSize := hostSize } ∧
      ((UdpSocket.applySize d size reply s).2 = true → ∀ n, n ≠ 0 → size = some n →
        UdpSocket.takesSize reply n = true ∧
          hostSize = update s.hostSize d (some n)) := by
  unfold UdpSocket.applySize
  cases hfilter : size.filter (· ≠ 0) with
  | none =>
    refine ⟨s.hostSize, rfl, fun _ n hn hsize => ?_⟩
    rw [hsize] at hfilter
    simp [hn] at hfilter
  | some m =>
    cases htakes : UdpSocket.takesSize reply m with
    | false =>
      refine ⟨s.hostSize, by simp [htakes], fun hfalse => ?_⟩
      simp [htakes] at hfalse
    | true =>
      refine ⟨update s.hostSize d (some m), by simp [htakes], fun _ n hn hsize => ?_⟩
      rw [hsize, Option.filter_some_pos (by simpa using hn)] at hfilter
      cases hfilter
      exact ⟨htakes, rfl⟩

/-- A socket that is not bound, with the same stored. -/
theorem UdpInv.unbound {state : SocketState} {future : Bool} {ttl : Option Nat}
    {hostSize : Direction → Option Nat} (hinv : UdpInv s)
    (hstate : state = .bind ∨ state = .closed) :
    UdpInv { s with state := state, future := future, ttl := ttl, hostSize := hostSize } := by
  have hnot : ∀ t : UdpSocket, t.state = state → ¬ t.Bound := by
    rintro t ht (hb | hb) <;> rcases hstate with hs | hs <;> rw [ht, hs] at hb <;> cases hb
  exact ⟨hinv.stored, hinv.hop, fun hb => absurd hb (hnot _ rfl), fun hb => absurd hb (hnot _ rfl)⟩

/-- A bind that ends well gives each of the two sizes to the host under the other's name. -/
theorem socketUdpBindFinish_inv {bind : UdpSocket.BindReply} (hinv : UdpInv s)
    (hok : Ok (.bindFinish bind) s) : UdpInv (s.socketUdpBindFinish bind) := by
  unfold UdpSocket.socketUdpBindFinish
  by_cases hprogress : s.state ≠ .bind ∨ s.future = false
  · rw [if_pos hprogress]
    exact hinv
  rw [if_neg hprogress]
  have hbind : s.state = .bind := by
    by_contra hne
    exact hprogress (.inl hne)
  cases bind with
  | pending => exact hinv
  | failed => exact hinv.unbound (.inr rfl)
  | ok ttl receive send =>
    cases ttl with
    | false => exact hinv.unbound (.inl hbind)
    | true =>
      have hequal := hok true receive send rfl
      dsimp only
      rw [if_pos rfl]
      -- each size is set from the other one, which is right if they are equal
      rcases applySize_cases .receive (s.bufferSize .send) receive
        { s with future := false, ttl := some s.unicastHopLimit } with ⟨h₁, heq₁, htaken₁⟩
      rcases hfirst : UdpSocket.applySize .receive (s.bufferSize .send) receive
        { s with future := false, ttl := some s.unicastHopLimit } with ⟨s₁, ok₁⟩
      rw [hfirst] at heq₁ htaken₁
      dsimp only at heq₁ htaken₁ ⊢
      subst heq₁
      cases ok₁ with
      | false => exact hinv.unbound (.inl hbind)
      | true =>
        dsimp only
        rcases applySize_cases .send (s.bufferSize .receive) send
          { s with future := false, ttl := some s.unicastHopLimit, hostSize := h₁ } with
          ⟨h₂, heq₂, htaken₂⟩
        rcases hsecond : UdpSocket.applySize .send (s.bufferSize .receive) send
          { s with future := false, ttl := some s.unicastHopLimit, hostSize := h₁ } with ⟨s₂, ok₂⟩
        rw [hsecond] at heq₂ htaken₂
        dsimp only at heq₂ htaken₂ ⊢
        subst heq₂
        cases ok₂ with
        | false => exact hinv.unbound (.inl hbind)
        | true =>
          refine ⟨hinv.stored, hinv.hop, fun _ d v hlast => ?_, fun _ v hlast => ?_⟩
          · have hstored := hinv.stored d v hlast
            have hne := roundNat_ne_zero hstored.1
            have hsame := hequal ⟨d, v, hlast⟩
            have hboth : ∀ d, s.bufferSize d = some (roundNat v) := by
              intro d'
              cases d <;> cases d' <;> simp_all
            rcases htaken₁ rfl _ hne (hboth _) with ⟨htakes, rfl⟩
            rcases htaken₂ rfl _ hne (hboth _) with ⟨-, rfl⟩
            have hexact := roundNat_of_takesSize htakes
            refine ⟨?_, hexact⟩
            cases d <;> simp [update, hexact]
          · exact congrArg some (hinv.hop v hlast)

theorem udp_step {e : UdpEvent} (hnext : udpNext e s s') (hok : Ok e s) (hinv : UdpInv s) :
    UdpInv s' := by
  cases e with
  | setBufferSize d value reply =>
    cases hnext
    exact setBufferSize_inv hinv
  | setUnicastHopLimit value reply =>
    cases hnext
    exact setUnicastHopLimit_inv hinv
  | getBufferSize d answer =>
    cases hnext
    exact getBufferSize_inv hinv
  | bindStart accepted =>
    cases hnext
    unfold UdpSocket.bindStart
    by_cases hinit : (accepted && decide (s.state = .init)) = true
    · rw [if_pos hinit]
      exact hinv.unbound (.inl rfl)
    · rw [if_neg hinit]
      exact hinv
  | bindFinish reply =>
    cases hnext
    exact socketUdpBindFinish_inv hinv hok
  | stream connects =>
    cases hnext
    unfold UdpSocket.stream
    by_cases hbound : s.state = .bound ∨ s.state = .connection
    · rw [if_pos hbound]
      exact ⟨hinv.stored, hinv.hop, fun _ => hinv.size hbound, fun _ => hinv.ttl hbound⟩
    · rw [if_neg hbound]
      exact hinv

theorem UdpInv.right (hinv : UdpInv s) : UdpRight s where
  size hb d v hlast := by
    rcases hinv.size hb d v hlast with ⟨hhost, hexact⟩
    rcases hinv.stored d v hlast with ⟨hne, hstored⟩
    refine ⟨hhost, fun answer => ?_⟩
    rw [hexact] at hstored
    have hfilter : (s.bufferSize d).filter (· ≠ 0) = some v := by
      rw [hstored, Option.filter_some_pos (by simpa using hne)]
    unfold UdpSocket.getBufferSize
    rw [hfilter]
  hop hb v hlast := ⟨hinv.ttl hb v hlast, hinv.hop v hlast⟩

theorem tcp_step {t t' : TcpSocket} {e : TcpEvent} (hnext : tcpNext e t t') (hinv : TcpInv t) :
    TcpInv t' := by
  rcases t with ⟨state, size, backlog, last⟩
  rcases hinv with ⟨hlost, hgiven⟩
  cases e with
  | setListenBacklogSize value =>
    cases hnext
    unfold TcpSocket.setListenBacklogSize TcpSocket.socketTcpSetListenBacklogSize
    by_cases hvalue : value = 0
    · rw [if_pos hvalue]
      exact ⟨hlost, hgiven⟩
    · rw [if_neg hvalue]
      cases state <;> exact ⟨by simp_all, by simp_all [TcpSocket.Listening]⟩
  | start target =>
    cases hnext
    cases state <;> cases target <;>
      exact ⟨by simp_all [TcpSocket.start], by simp_all [TcpSocket.start, TcpSocket.Listening]⟩
  | finish ok =>
    cases hnext
    cases state <;> cases ok <;>
      exact ⟨by simp_all [TcpSocket.finish], by simp_all [TcpSocket.finish, TcpSocket.Listening]⟩

/-- A setter that throws changes nothing. -/
theorem failed_setter (s : UdpSocket) (value : Nat) (reply : Bool) :
    (∀ d, (s.setBufferSize d value reply).2 = false → (s.setBufferSize d value reply).1 = s) ∧
      ((s.socketUdpSetUnicastHopLimit value reply).2 = false →
        (s.socketUdpSetUnicastHopLimit value reply).1 = s) := by
  constructor
  · intro d
    unfold UdpSocket.setBufferSize
    by_cases hvalue : value = 0
    · simp [hvalue]
    · cases hasks : s.asksHost <;>
        cases htakes : UdpSocket.takesSize reply (roundNat value) <;> simp [hvalue, htakes]
  · unfold UdpSocket.socketUdpSetUnicastHopLimit
    by_cases hvalue : value < 1
    · simp [hvalue]
    · cases hasks : s.asksHost <;> cases reply <;> simp [hvalue]

theorem failed_backlog (t : TcpSocket) (value : Nat)
    (hfailed : (t.setListenBacklogSize value).2 = false) :
    (t.setListenBacklogSize value).1 = t := by
  unfold TcpSocket.setListenBacklogSize TcpSocket.socketTcpSetListenBacklogSize at hfailed ⊢
  by_cases hvalue : value = 0
  · simp [hvalue]
  · by_cases hstate : t.state = .init ∨ t.state = .bind ∨ t.state = .bound <;>
      simp_all

end

/-- A bound UDP socket has its options in every run whose binds find equal sizes if one was set, a
listening TCP socket has its backlog exactly if none was set, and setters that fail change
nothing. -/
theorem options_iff (us : List UdpEvent) (s : UdpSocket) (ts : List TcpEvent) (t : TcpSocket)
    (value : Nat) (reply : Bool) :
    (Run (guarded Ok udpNext) {} us s → UdpRight s) ∧
      (Run tcpNext {} ts t → t.Listening → (TcpRight t ↔ t.last = none)) ∧
      ((∀ d, (s.setBufferSize d value reply).2 = false → (s.setBufferSize d value reply).1 = s) ∧
        ((s.socketUdpSetUnicastHopLimit value reply).2 = false →
          (s.socketUdpSetUnicastHopLimit value reply).1 = s)) ∧
      ((t.setListenBacklogSize value).2 = false → (t.setListenBacklogSize value).1 = t) := by
  refine ⟨fun hrun => ?_, fun hrun hlistening => ?_, failed_setter s value reply,
    failed_backlog t value⟩
  · have hstart : UdpInv {} := by
      refine ⟨fun d v h => ?_, fun v h => ?_, fun h => ?_, fun h => ?_⟩
      · cases h
      · cases h
      · rcases h with h | h <;> cases h
      · rcases h with h | h <;> cases h
    have hstep : ∀ e s s', guarded Ok udpNext e s s' → UdpInv s → UdpInv s' :=
      fun e s s' hnext hinv => udp_step hnext.2 hnext.1 hinv
    exact (hrun.invariant hstep hstart).right
  · have hstart : TcpInv {} := by
      refine ⟨fun h => absurd rfl h, fun h => ?_⟩
      rcases h with h | h <;> cases h
    have hstep : ∀ e t t', tcpNext e t t' → TcpInv t → TcpInv t' :=
      fun e t t' hnext hinv => tcp_step hnext hinv
    have hinv := hrun.invariant hstep hstart
    constructor
    · intro hright
      by_contra hset
      rcases Option.ne_none_iff_exists'.1 hset with ⟨v, hv⟩
      have hbacklog := hright hlistening v hv
      rw [hinv.given hlistening, hinv.lost hset] at hbacklog
      cases hbacklog
    · intro hnone _ v hv
      rw [hnone] at hv
      cases hv

/-- A receive buffer size set before the bind is the host's send buffer size after it, and a
backlog that was set is not what the server listens with. -/
theorem receive_size_swapped :
    (∃ s, Run udpNext {} [.setBufferSize .receive 4096 true, .bindStart true,
        .bindFinish (.ok true true true)] s ∧ s.hostSize .send = some 4096 ∧ ¬ UdpRight s) ∧
      ∃ t, Run tcpNext {} [.setListenBacklogSize 16, .start .bind, .finish true, .start .listen] t ∧
        ¬ TcpRight t := by
  refine ⟨⟨_, .cons rfl (.cons rfl (.cons rfl (.nil _))), by decide, fun h => ?_⟩,
    _, .cons rfl (.cons rfl (.cons rfl (.cons rfl (.nil _)))), fun h => ?_⟩
  · exact absurd (h.size (.inl (by decide)) .receive 4096 (by decide)).1 (by decide)
  · exact absurd (h (.inl (by decide)) 16 (by decide)) (by decide)

end Jco.Preview2.SocketOptions

import Mathlib.Data.List.Basic
import Mathlib.Tactic.Common
import Jco.Lib.Run

/-!
# Datagrams and their receivers

The UDP worker of the preview3 shim keeps one queue of datagrams for a socket. The host
socket under it is replaced by a second `udp-connect`: the old one is closed, a new one is
made, and both feed the same queue. A receive that finds the queue empty waits for the
`message` event of the host socket that is there now, and takes the head of the queue when
it is woken.

A host socket is named by the number of those before it. What is received, arrived and
failed is kept as history.
-/

namespace Jco.Sockets.UdpReceive

open Jco.Lib List

/-- A receive that waits: its number among the receives, and the host socket whose event
it waits for. -/
structure Waiter where
  receive : Nat
  udp : Nat
deriving DecidableEq

structure State (δ : Type*) where
  udp : Nat := 0
  /-- The host socket has been closed and not been replaced yet. -/
  closed : Bool := false
  receiveQueue : List δ := []
  /-- In the order in which they have begun to wait. -/
  waiters : List Waiter := []
  receives : Nat := 0
  arrived : List δ := []
  /-- What was returned, and to which receive. -/
  returned : List (Nat × δ) := []
  /-- The receives that were woken and found the queue empty: a `TypeError`. -/
  robbed : List Nat := []
  /-- The receives that failed with an error of the host socket. -/
  errored : List Nat := []
deriving DecidableEq

inductive Event (δ : Type*) where
  /-- `udp-receive` -/
  | receive
  /-- A datagram arrives at the host socket. -/
  | message (d : δ)
  /-- The host socket reports an error. -/
  | error
  /-- `udp-connect` closes the host socket of a connected socket. -/
  | close
  /-- `createSocket`, once it is closed. -/
  | replace

section Steps

variable {δ : Type*}

namespace State

/-- `socket.receiveQueue.shift()` and the return. -/
def shift (s : State δ) (receive : Nat) : State δ :=
  match s.receiveQueue with
  | [] => { s with robbed := s.robbed ++ [receive] }
  | d :: rest => { s with receiveQueue := rest, returned := s.returned ++ [(receive, d)] }

/-- The waiters of one event resume one after the other. -/
def resume : State δ → List Waiter → State δ
  | s, [] => s
  | s, w :: ws => resume (s.shift w.receive) ws

/-- The waiters that the event of the host socket wakes. -/
def woken (s : State δ) : List Waiter := s.waiters.filter fun w => w.udp = s.udp

/-- The waiters it does not wake: theirs has been replaced. -/
def stranded (s : State δ) : List Waiter := s.waiters.filter fun w => w.udp ≠ s.udp

/-- One event; `none` where it cannot happen. -/
def perform (s : State δ) : Event δ → Option (State δ)
  | .receive =>
    let s₁ := { s with receives := s.receives + 1 }
    if s.receiveQueue.isEmpty then
      some { s₁ with waiters := s.waiters ++ [{ receive := s.receives, udp := s.udp }] }
    else
      some (s₁.shift s.receives)
  | .message d =>
    if s.closed then none
    else
      some (resume { s with
        receiveQueue := s.receiveQueue ++ [d]
        arrived := s.arrived ++ [d]
        waiters := s.stranded } s.woken)
  | .error =>
    if s.closed then none
    else
      some { s with
        waiters := s.stranded
        errored := s.errored ++ s.woken.map Waiter.receive }
  | .close => if s.closed then none else some { s with closed := true }
  | .replace => if s.closed then some { s with udp := s.udp + 1, closed := false } else none

end State

def next : Action (Event δ) (State δ) := computed State.perform

/-! ## What is promised -/

/-- Datagrams are returned once each and in the order of their arrival, no receive waits
while there is one, and none fails because another has taken its datagram. -/
structure Exact (s : State δ) : Prop where
  order : s.returned.map Prod.snd ++ s.receiveQueue = s.arrived
  prompt : s.receiveQueue ≠ [] → s.waiters = []
  unrobbed : s.robbed = []

/-- When a datagram arrives no receive waits, or exactly one of those that wait waits on
the host socket that is there now. -/
def Single : Event δ → State δ → Prop
  | .message _, s => s.waiters = [] ∨ s.woken.length = 1
  | _, _ => True

/-! ## One event -/

variable {s s' : State δ} {e : Event δ}

namespace State

/-- Those that are woken after the queue has run empty find nothing. -/
theorem resume_empty (s : State δ) (ws : List Waiter) (hempty : s.receiveQueue = []) :
    (s.resume ws).robbed = s.robbed ++ ws.map Waiter.receive := by
  induction ws generalizing s with
  | nil => exact (append_nil _).symm
  | cons w ws ih =>
    have hshift : s.shift w.receive = { s with robbed := s.robbed ++ [w.receive] } := by
      unfold shift
      rw [hempty]
    unfold resume
    rw [hshift, ih]
    · simp
    · exact hempty

/-- The first takes the one datagram, the others are robbed. -/
theorem resume_cons (s : State δ) (w : Waiter) (ws : List Waiter) {d : δ}
    (hone : s.receiveQueue = [d]) :
    s.resume (w :: ws) =
      ({ s with receiveQueue := [], returned := s.returned ++ [(w.receive, d)] } :
        State δ).resume ws := by
  have hshift : s.shift w.receive =
      { s with receiveQueue := [], returned := s.returned ++ [(w.receive, d)] } := by
    unfold shift
    rw [hone]
  rw [resume, hshift]

end State

/-- A receive takes the oldest datagram, or waits because there is none. -/
theorem Exact.receive (h : Exact s) (hnext : next .receive s s') : Exact s' := by
  unfold next computed State.perform at hnext
  cases hempty : s.receiveQueue.isEmpty with
  | true =>
    have hqueue : s.receiveQueue = [] := isEmpty_iff.1 hempty
    simp only [hempty, if_true] at hnext
    cases hnext
    exact ⟨h.order, fun hne => absurd hqueue hne, h.unrobbed⟩
  | false =>
    have hne : s.receiveQueue ≠ [] := by simpa using hempty
    rcases exists_cons_of_ne_nil hne with ⟨d, rest, hqueue⟩
    have horder := h.order
    rw [hqueue] at horder
    simp only [State.shift, hqueue] at hnext
    cases hnext
    refine ⟨?_, fun _ => h.prompt hne, h.unrobbed⟩
    rw [map_append, append_assoc]
    exact horder

/-- An arriving datagram is handled as it should be exactly where nobody waits or one
receive alone is woken. -/
theorem message_exact_iff (h : Exact s) {d : δ} (hnext : next (.message d) s s') :
    Exact s' ↔ Single (.message d) s := by
  unfold next computed State.perform at hnext
  cases hclosed : s.closed with
  | true =>
    rw [hclosed] at hnext
    cases hnext
  | false =>
    rw [hclosed] at hnext
    cases hnext
    cases hwoken : s.woken with
    | nil =>
      -- the datagram stays in the queue
      have hstay : s.stranded = s.waiters := by
        apply filter_eq_self.2
        intro w hw
        have hnot := filter_eq_nil_iff.1 hwoken w hw
        simpa using hnot
      constructor
      · intro hexact
        have hnone := hexact.prompt (by simp [State.resume])
        exact .inl (hstay.symm.trans hnone)
      · intro hsingle
        have hnone : s.waiters = [] := by
          rcases hsingle with hnone | hone
          · exact hnone
          · rw [hwoken] at hone
            cases hone
        refine ⟨?_, fun _ => hstay.trans hnone, h.unrobbed⟩
        show s.returned.map Prod.snd ++ (s.receiveQueue ++ [d]) = s.arrived ++ [d]
        rw [← append_assoc, h.order]
    | cons w ws =>
      -- somebody waited, so the queue was empty
      have hsome : s.waiters ≠ [] := by
        intro hnone
        unfold State.woken at hwoken
        rw [hnone] at hwoken
        cases hwoken
      have hempty : s.receiveQueue = [] := by
        by_contra hne
        exact hsome (h.prompt hne)
      have hone : s.receiveQueue ++ [d] = [d] := by rw [hempty, nil_append]
      rw [State.resume_cons _ w ws hone]
      cases ws with
      | nil =>
        refine iff_of_true ⟨?_, fun hne => absurd rfl hne, h.unrobbed⟩ (.inr (by rw [hwoken]; rfl))
        show (s.returned ++ [(w.receive, d)]).map Prod.snd ++ [] = s.arrived ++ [d]
        have horder := h.order
        rw [hempty, append_nil] at horder
        rw [append_nil, map_append, horder]
        rfl
      | cons w' ws =>
        refine iff_of_false ?_ ?_
        · intro hexact
          have hrobbed := hexact.unrobbed
          rw [State.resume_empty _ _ rfl] at hrobbed
          simp at hrobbed
        · rintro (hnone | hone')
          · exact hsome hnone
          · rw [hwoken] at hone'
            simp at hone'

theorem step_exact_iff (e : Event δ) (s s' : State δ) (h : Exact s) (hnext : next e s s') :
    Exact s' ↔ Single e s := by
  cases e with
  | message d => exact message_exact_iff h hnext
  | receive => exact iff_of_true (h.receive hnext) trivial
  | error =>
    refine iff_of_true ?_ trivial
    unfold next computed State.perform at hnext
    simp only at hnext
    split at hnext
    · cases hnext
    · cases hnext
      refine ⟨h.order, fun hne => ?_, h.unrobbed⟩
      unfold State.stranded
      rw [h.prompt hne]
      rfl
  | close =>
    refine iff_of_true ?_ trivial
    unfold next computed State.perform at hnext
    simp only at hnext
    split at hnext
    · cases hnext
    · cases hnext
      exact ⟨h.order, h.prompt, h.unrobbed⟩
  | replace =>
    refine iff_of_true ?_ trivial
    unfold next computed State.perform at hnext
    simp only at hnext
    split at hnext
    · cases hnext
      exact ⟨h.order, h.prompt, h.unrobbed⟩
    · cases hnext

theorem exact_init : Exact ({} : State δ) := ⟨rfl, fun hne => absurd rfl hne, rfl⟩

/-! ## Every run -/

/-- The runs in which every state is as it should be are those in which each arriving
datagram finds no waiting receive, or exactly one that waits on the present host
socket. -/
theorem receives_exact_iff (es : List (Event δ)) (s' : State δ) :
    Run (fun e s s' => next e s s' ∧ Exact s') {} es s' ↔
      Run (guarded Single next) ({} : State δ) es s' :=
  Run.good_iff_guarded step_exact_iff (fun _ _ _ _ _ hexact => hexact) exact_init

end Steps

/-- Two receives wait when the one datagram arrives. -/
theorem second_receive_robbed :
    ∃ s' : State Nat, Run next {} [.receive, .receive, .message 7] s' ∧ ¬ Exact s' := by
  refine ⟨{ receives := 2, arrived := [7], returned := [(0, 7)], robbed := [1] },
    run_performAll (by decide), fun hexact => ?_⟩
  cases hexact.unrobbed

end Jco.Sockets.UdpReceive

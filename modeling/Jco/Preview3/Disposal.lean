import Jco.Http.ServerRelease
import Jco.Sockets.Release

/-! # Disposal over all workers

The TCP sockets, the UDP sockets and the HTTP servers of the preview3 shim, each in
a worker of its own: creations, uses and disposals in any order, from fresh workers.
-/

namespace Jco.Preview3.Disposal

open Jco.Lib
open Jco.Http (Servers ServerEvent)
open Jco.Sockets (Slot SlotEvent)

structure Workers where
  tcp : List Slot
  udp : List Slot
  http : Servers

def Workers.fresh : Workers := ⟨[], [], Servers.fresh⟩

inductive Event where
  | tcp (e : PoolEvent SlotEvent)
  | udp (e : PoolEvent SlotEvent)
  | http (e : ServerEvent)

def perform (s : Workers) : Event → Option Workers
  | .tcp e => (Sockets.TcpWorker.pool.perform s.tcp e).map fun tcp => { s with tcp }
  | .udp e => (Sockets.UdpWorker.pool.perform s.udp e).map fun udp => { s with udp }
  | .http e => (s.http.perform e).map fun http => { s with http }

/-- Every socket and server is released as it should be. -/
structure Released (s : Workers) : Prop where
  tcp : Each (fun _ => Sockets.Released) s.tcp
  udp : Each (fun _ => Sockets.Released) s.udp
  http : s.http.Released

/-- The steps that keep it so: the sockets of the first identifier are not left
disposed and idle, a UDP socket is disposed only when nothing is under way on it, and
the servers step as `Servers.Kept` says. -/
def Kept : Event → Workers → Prop
  | .tcp e, s => Pool.lift (fun i e m => ¬ Sockets.Abandons i m e) e s.tcp
  | .udp e, s =>
    Pool.lift (fun i e m => ¬ (Sockets.Abandons i m e ∨ Sockets.Interrupts i m e)) e s.udp
  | .http e, s => Servers.Kept e s.http

structure Inv (s : Workers) : Prop where
  tcp : Each Sockets.TcpWorker.Inv s.tcp
  udp : Each Sockets.UdpWorker.Inv s.udp
  http : s.http.Inv

theorem fresh_inv : Inv Workers.fresh := ⟨Each.nil, Each.nil, Servers.fresh_inv⟩

namespace Inv

variable {s s' : Workers}

theorem released (hinv : Inv s) : Released s :=
  ⟨hinv.tcp.imp fun _ _ h => h.released, hinv.udp.imp fun _ _ h => h.released,
    hinv.http.released⟩

/-- A step of one worker, the others as they were. -/
theorem step (hinv : Inv s) {e : Event} (h : perform s e = some s') :
    (Released s' ↔ Kept e s) ∧ (Released s' → Inv s') := by
  have hreleased := hinv.released
  cases e with
  | tcp e =>
    obtain ⟨tcp, htcp, rfl⟩ := Option.map_eq_some_iff.1 h
    have hstep := Pool.step_each (fun _ _ h => h.released) Sockets.TcpWorker.create_inv
      (fun _ _ _ _ => Sockets.TcpWorker.step_released) hinv.tcp htcp
    refine ⟨Iff.trans ⟨fun h => h.tcp, fun h => ⟨h, hreleased.udp, hreleased.http⟩⟩ hstep.1, ?_⟩
    intro h
    exact ⟨hstep.2 h.tcp, hinv.udp, hinv.http⟩
  | udp e =>
    obtain ⟨udp, hudp, rfl⟩ := Option.map_eq_some_iff.1 h
    have hstep := Pool.step_each (fun _ _ h => h.released) Sockets.UdpWorker.create_inv
      (fun _ _ _ _ => Sockets.UdpWorker.step_released) hinv.udp hudp
    refine ⟨Iff.trans ⟨fun h => h.udp, fun h => ⟨hreleased.tcp, h, hreleased.http⟩⟩ hstep.1, ?_⟩
    intro h
    exact ⟨hinv.tcp, hstep.2 h.udp, hinv.http⟩
  | http e =>
    obtain ⟨http, hhttp, rfl⟩ := Option.map_eq_some_iff.1 h
    have hstep := hinv.http.step hhttp
    refine ⟨⟨fun h => hstep.1 h.http, fun hkept => ?_⟩, ?_⟩
    · exact ⟨hreleased.tcp, hreleased.udp, (hstep.2 hkept).released⟩
    · intro h
      exact ⟨hinv.tcp, hinv.udp, hstep.2 (hstep.1 h.http)⟩

end Inv

/-- The runs in which everything is released as it should be, in every state: those
whose steps are all kept. -/
theorem released_run_iff (es : List Event) (s : Workers) :
    Run (fun e s s' => computed perform e s s' ∧ Released s') .fresh es s ↔
      Run (guarded Kept (computed perform)) .fresh es s := by
  refine Run.good_iff_guarded ?_ ?_ fresh_inv
  · intro e s s' hinv hstep
    exact (hinv.step hstep).1
  · intro e s s' hinv hstep hreleased
    exact (hinv.step hstep).2 hreleased

/-- The first socket of each kind and the first server, disposed of with nothing under
way: none is released. -/
theorem first_not_released :
    (∃ s, Run (computed perform) .fresh [.tcp .create, .tcp (.on 0 .dispose)] s ∧
      ¬ Released s) ∧
    (∃ s, Run (computed perform) .fresh [.udp .create, .udp (.on 0 .dispose)] s ∧
      ¬ Released s) ∧
    (∃ s, Run (computed perform) .fresh
      [.http (.listen 0), .http (.settle 0 true), .http (.close 0)] s ∧ ¬ Released s) := by
  refine ⟨⟨_, run_performAll rfl, ?_⟩, ⟨_, run_performAll rfl, ?_⟩, ⟨_, run_performAll rfl, ?_⟩⟩
  · intro h
    exact (h.tcp 0 _ rfl).removed.1 rfl ⟨rfl, rfl⟩
  · intro h
    exact (h.udp 0 _ rfl).removed.1 rfl ⟨rfl, rfl⟩
  · intro h
    have hclosed := h.http.closed ⟨.close, 0, some 0, .resolved⟩ (.tail _ (.head _)) rfl rfl 0 rfl
    cases hclosed

end Jco.Preview3.Disposal

import Mathlib.Logic.Function.Basic
import Jco.Lib.Pool

/-! # Releasing HTTP servers

`HttpServer` of the preview3 shim and the part of its worker that starts, stops and
closes servers. `listen`, `stop` and `close` are asynchronous, so any number of calls
can be under way on the same object: a call is where it stands, and a step takes one
call to its next await. The worker hands out identifiers from `0n` on.

What the worker answers at once (that it knows the server, or not) is decided in the
step; that a server begins to listen, that the loop of an object ends and that Node
calls back from `server.close` come from outside.
-/

namespace Jco.Http

open Jco.Lib

/-- An identifier of the worker's, and what became of the server. -/
structure Server where
  /-- The object and the call of `listen` that it was handed out for. -/
  owner : Nat := 0
  call : Nat := 0
  /-- It listened. -/
  started : Bool := false
  /-- It is in the worker's map. -/
  inTable : Bool := false
  /-- How often `server.close` was called. -/
  closes : Nat := 0

inductive ServerOp where
  | listen
  | stop
  | close
deriving DecidableEq

/-- What a call awaits. -/
inductive Phase where
  /-- `server-start` -/
  | starting (serverId : Nat)
  /-- `server-stop` -/
  | stopping (serverId : Nat)
  /-- `this.#shutdown` -/
  | draining
  /-- `server-close`, which the worker has not begun. -/
  | closing (serverId : Option Nat)
  /-- `server-close`: Node has to call back. -/
  | ending (serverId : Nat)
  /-- `server-close`: the server is removed, the reply is on its way. -/
  | ended (serverId : Nat)
  | resolved
  | rejected

structure ServerCall where
  op : ServerOp
  /-- The object. -/
  server : Nat
  /-- `#serverId` of the object when it was called. -/
  target : Option Nat
  phase : Phase

structure Servers where
  nextServerId : Nat
  servers : Nat → Server
  /-- `#serverId` of each object. -/
  serverId : Nat → Option Nat
  calls : List ServerCall

inductive ServerEvent where
  | listen (k : Nat)
  | stop (k : Nat)
  | close (k : Nat)
  /-- What call `i` awaits is there; `ok`: it did not fail. -/
  | settle (i : Nat) (ok : Bool)

namespace Servers

def fresh : Servers where
  nextServerId := 0
  servers _ := {}
  serverId _ := none
  calls := []

def setServer (s : Servers) (serverId : Nat) (server : Server) : Servers :=
  { s with servers := Function.update s.servers serverId server }

def setId (s : Servers) (k : Nat) (serverId : Option Nat) : Servers :=
  { s with serverId := Function.update s.serverId k serverId }

def setPhase (s : Servers) (i : Nat) (c : ServerCall) (phase : Phase) : Servers :=
  { s with calls := s.calls.set i { c with phase } }

/-- `server-start` takes an identifier and then awaits the listening. -/
def listen (s : Servers) (k : Nat) : Servers :=
  { s.setServer s.nextServerId { owner := k, call := s.calls.length } with
    nextServerId := s.nextServerId + 1
    calls := s.calls ++ [⟨.listen, k, s.serverId k, .starting s.nextServerId⟩] }

/-- `stop` and `close` begin alike: `if (!this.#serverId) return`, then `server-stop`. -/
def stopOrClose (s : Servers) (op : ServerOp) (k : Nat) : Servers :=
  let phase := match s.serverId k with
    | none => .resolved
    | some 0 => .resolved
    | some serverId => .stopping serverId
  { s with calls := s.calls ++ [⟨op, k, s.serverId k, phase⟩] }

/-- A call goes on. -/
def settle (s : Servers) (i : Nat) (c : ServerCall) (ok : Bool) : Option Servers :=
  match c.phase with
  | .starting serverId =>
    if ok then
      some (((s.setServer serverId { s.servers serverId with started := true, inTable := true }
        ).setId c.server (some serverId)).setPhase i c .resolved)
    else
      some (s.setPhase i c .rejected)
  | .stopping serverId =>
    some (s.setPhase i c (if (s.servers serverId).inTable then .draining else .rejected))
  | .draining =>
    if !ok then
      some (s.setPhase i c .rejected)
    else if c.op = .close then
      -- `#serverId` is read again
      some (s.setPhase i c (.closing (s.serverId c.server)))
    else
      some (s.setPhase i c .resolved)
  | .closing none => some (s.setPhase i c .rejected)
  | .closing (some serverId) =>
    let server := s.servers serverId
    if server.inTable then
      some ((s.setServer serverId { server with closes := server.closes + 1 }).setPhase i c
        (.ending serverId))
    else
      some (s.setPhase i c .rejected)
  | .ending serverId =>
    some ((s.setServer serverId { s.servers serverId with inTable := false }).setPhase i c
      (.ended serverId))
  | .ended _ => some ((s.setId c.server none).setPhase i c .resolved)
  | .resolved => none
  | .rejected => none

def perform (s : Servers) : ServerEvent → Option Servers
  | .listen k => some (s.listen k)
  | .stop k => some (s.stopOrClose .stop k)
  | .close k => some (s.stopOrClose .close k)
  | .settle i ok =>
    match s.calls[i]? with
    | none => none
    | some c => s.settle i c ok

/-! ## What should hold -/

/-- No server is closed twice, and none is removed but by closing it. A `close` that
resolves has removed the server that its object had, and closes no other. A server
that nobody closes is held by its object. -/
structure Released (s : Servers) : Prop where
  once : ∀ n, (s.servers n).closes ≤ 1
  removed : ∀ n, (s.servers n).started = true → (s.servers n).inTable = false →
    (s.servers n).closes = 1
  closed : ∀ c ∈ s.calls, c.op = .close → c.phase = .resolved →
    ∀ n, c.target = some n → (s.servers n).inTable = false
  wanted : ∀ c ∈ s.calls, ∀ n, c.phase = .ending n ∨ c.phase = .ended n → c.target = some n
  held : ∀ n, (s.servers n).inTable = true → (s.servers n).closes = 0 →
    s.serverId (s.servers n).owner = some n

/-- The object has a server that nobody closes. -/
def Live (s : Servers) (k : Nat) : Prop :=
  ∃ n, s.serverId k = some n ∧ (s.servers n).inTable = true ∧ (s.servers n).closes = 0

def KeptCall (s : Servers) (c : ServerCall) (ok : Bool) : Prop :=
  match c.phase with
  | .starting _ => ok = true → ¬ s.Live c.server
  | .closing (some n) =>
    (s.servers n).inTable = true → (s.servers n).closes = 0 ∧ c.target = some n
  | .ended _ => ¬ s.Live c.server
  | _ => True

/-- The steps that keep it: no close of an object whose identifier is `0n`; no listening
that replaces a live server and no reply of a close that forgets one; and a close that
has drained finds the server it was called for, which nobody else has begun to close. -/
def Kept : ServerEvent → Servers → Prop
  | .close k, s => s.serverId k ≠ some 0
  | .settle i ok, s => ∀ c, s.calls[i]? = some c → s.KeptCall c ok
  | _, _ => True

end Servers

/-! ## The invariant -/

/-- The server was closed and removed. -/
def Server.Gone (server : Server) : Prop := server.inTable = false ∧ server.closes = 1

/-- What holds of call `i`. -/
def CallOk (s : Servers) (i : Nat) (c : ServerCall) : Prop :=
  match c.phase with
  | .starting n => c.op = .listen ∧ n < s.nextServerId ∧
      s.servers n = { owner := c.server, call := i }
  | .stopping _ => c.op = .close → c.target ≠ some 0
  | .draining => c.op = .close → c.target ≠ some 0
  | .closing _ => c.target ≠ some 0
  | .ending n => c.target = some n ∧ (s.servers n).closes = 1
  | .ended n => c.target = some n ∧ (s.servers n).Gone
  | .resolved => c.op = .close → ∀ n, c.target = some n → (s.servers n).Gone
  | .rejected => True

namespace Servers

structure Inv (s : Servers) : Prop where
  once : ∀ n, (s.servers n).closes ≤ 1
  removed : ∀ n, (s.servers n).started = true → (s.servers n).inTable = false →
    (s.servers n).closes = 1
  held : ∀ n, (s.servers n).inTable = true → (s.servers n).closes = 0 →
    s.serverId (s.servers n).owner = some n
  own : ∀ k n, s.serverId k = some n → (s.servers n).owner = k ∧ (s.servers n).started = true
  beyond : ∀ n, s.nextServerId ≤ n → s.servers n = {}
  zero : (s.servers 0).closes = 0
  calls : Each (CallOk s) s.calls

theorem fresh_inv : Inv fresh := by
  constructor <;> simp [fresh, Each]

namespace Inv

variable {s s' : Servers}

theorem released (hinv : Inv s) : Released s := by
  refine ⟨hinv.once, hinv.removed, ?_, ?_, hinv.held⟩
  · intro c hc hop hphase n hn
    obtain ⟨i, hi⟩ := List.getElem?_of_mem hc
    have hcall := hinv.calls i c hi
    simp only [CallOk, hphase] at hcall
    exact (hcall hop n hn).1
  · intro c hc n hphase
    obtain ⟨i, hi⟩ := List.getElem?_of_mem hc
    have hcall := hinv.calls i c hi
    rcases hphase with hphase | hphase <;> simp only [CallOk, hphase] at hcall <;>
      exact hcall.1

end Inv

/-- The servers move on under the calls other than `i`: what is closed stays closed,
what is gone stays gone, and an identifier that another call waits for is left alone. -/
structure Advances (s s' : Servers) (i : Nat) : Prop where
  next : s.nextServerId ≤ s'.nextServerId
  closes : ∀ n, (s.servers n).closes = 1 → (s'.servers n).closes = 1
  gone : ∀ n, (s.servers n).Gone → (s'.servers n).Gone
  awaited : ∀ j k n, j ≠ i → n < s.nextServerId → s.servers n = { owner := k, call := j } →
    s'.servers n = s.servers n

theorem Advances.callOk {i j : Nat} {c : ServerCall} (hadv : Advances s s' i) (hj : j ≠ i)
    (h : CallOk s j c) : CallOk s' j c := by
  unfold CallOk at h ⊢
  split <;> rename_i hphase <;> simp only [hphase] at h
  · obtain ⟨hop, hlt, hserver⟩ := h
    exact ⟨hop, Nat.lt_of_lt_of_le hlt hadv.next, (hadv.awaited j _ _ hj hlt hserver).trans hserver⟩
  · exact h
  · exact h
  · exact h
  · exact ⟨h.1, hadv.closes _ h.2⟩
  · exact ⟨h.1, hadv.gone _ h.2⟩
  · exact fun hop n hn => hadv.gone n (h hop n hn)
  · trivial

theorem Advances.setId {i : Nat} (h : Advances s s' i) (k : Nat) (serverId : Option Nat) :
    Advances s (s'.setId k serverId) i :=
  { h with }

theorem Advances.setPhase {i : Nat} (h : Advances s s' i) (j : Nat) (c : ServerCall)
    (phase : Phase) : Advances s (s'.setPhase j c phase) i :=
  { h with }

/-- One server changes, which is none that another call waits for. -/
theorem advances_setServer (i n : Nat) (server : Server)
    (hcloses : (s.servers n).closes = 1 → server.closes = 1)
    (hgone : (s.servers n).Gone → server.Gone)
    (hawaited : ∀ j k, j ≠ i → s.servers n ≠ { owner := k, call := j }) :
    Advances s (s.setServer n server) i := by
  refine ⟨Nat.le_refl _, ?_, ?_, ?_⟩
  · intro m hm
    by_cases hmn : m = n
    · cases hmn
      simpa [setServer] using hcloses hm
    · simpa [setServer, hmn] using hm
  · intro m hm
    by_cases hmn : m = n
    · cases hmn
      simpa [setServer] using hgone hm
    · simpa [setServer, hmn] using hm
  · intro j k m hj _ hm
    have hmn : m ≠ n := by
      rintro rfl
      exact hawaited j k hj hm
    simp [setServer, hmn]

namespace Inv

variable {c : ServerCall} {i : Nat} {phase : Phase}

theorem setPhase (hinv : Inv s)
    (hcall : CallOk s i { c with phase }) : Inv (s.setPhase i c phase) := by
  refine ⟨hinv.once, hinv.removed, hinv.held, hinv.own, hinv.beyond, hinv.zero, ?_⟩
  exact Each.set (fun j d _ hd => hinv.calls j d hd) hcall

/-- The calls that are not `i` go on, and `i` takes its step. -/
theorem calls_setPhase (hinv : Inv s)
    (hadv : Advances s s' i) (hcall : CallOk s' i { c with phase }) :
    Each (CallOk s') (s.calls.set i { c with phase }) :=
  Each.set (fun j d hj hd => hadv.callOk hj (hinv.calls j d hd)) hcall

/-- A call is added, and the servers move on under the others. -/
theorem calls_append (hinv : Inv s) (hadv : Advances s s' s.calls.length)
    (hcall : CallOk s' s.calls.length c) : Each (CallOk s') (s.calls ++ [c]) := by
  refine Each.append (fun j d hd => ?_) hcall
  have hlt := (List.getElem?_eq_some_iff.1 hd).1
  exact hadv.callOk (Nat.ne_of_lt hlt) (hinv.calls j d hd)

theorem listen (hinv : Inv s) (k : Nat) : Inv (s.listen k) := by
  have hnext : s.servers s.nextServerId = {} := hinv.beyond _ (Nat.le_refl _)
  have hold : ∀ n, (s.servers n).started = true ∨ (s.servers n).inTable = true →
      n ≠ s.nextServerId := by
    rintro n h rfl
    simp [hnext] at h
  have hservers : ∀ n, (s.listen k).servers n =
      if n = s.nextServerId then { owner := k, call := s.calls.length } else s.servers n := by
    intro n
    simp [Servers.listen, setServer, Function.update_apply]
  -- the new server is none of those that had started or had gone
  have hadv : Advances s (s.listen k) s.calls.length := by
    refine ⟨Nat.le_succ _, ?_, ?_, ?_⟩ <;> simp only [hservers]
    · intro n hn
      have hne : n ≠ s.nextServerId := by
        rintro rfl
        simp [hnext] at hn
      simpa [hne] using hn
    · intro n hn
      have hne : n ≠ s.nextServerId := by
        rintro rfl
        simp [hnext, Server.Gone] at hn
      simpa [hne] using hn
    · intro j k n _ hlt _
      simp [Nat.ne_of_lt hlt]
  refine ⟨?_, ?_, ?_, ?_, ?_, ?_, hinv.calls_append hadv ?_⟩
  · intro n
    rw [hservers]
    split
    · exact Nat.zero_le _
    · exact hinv.once n
  · intro n hstarted
    rw [hservers] at hstarted ⊢
    split at hstarted
    · cases hstarted
    · rename_i hne
      rw [if_neg hne]
      exact hinv.removed n hstarted
  · intro n hin
    rw [hservers] at hin ⊢
    split at hin
    · cases hin
    · rename_i hne
      rw [if_neg hne]
      exact hinv.held n hin
  · intro k' n hid
    have hown := hinv.own k' n hid
    rw [hservers, if_neg (hold n (.inl hown.2))]
    exact hown
  · intro n hn
    have hlt : s.nextServerId < n := hn
    rw [hservers, if_neg (Nat.ne_of_gt hlt)]
    exact hinv.beyond n (Nat.le_of_lt hlt)
  · rw [hservers]
    split
    · rfl
    · exact hinv.zero
  · refine ⟨rfl, Nat.lt_succ_self _, ?_⟩
    rw [hservers, if_pos rfl]

theorem stopOrClose (hinv : Inv s) {op : ServerOp} {k : Nat}
    (hkept : op = .close → s.serverId k ≠ some 0) : Inv (s.stopOrClose op k) := by
  refine ⟨hinv.once, hinv.removed, hinv.held, hinv.own, hinv.beyond, hinv.zero, ?_⟩
  refine Each.append (fun j d hd => hinv.calls j d hd) ?_
  cases hid : s.serverId k with
  | none => exact fun _ n hn => nomatch hn
  | some n =>
    cases n with
    | zero => exact fun hop => absurd hid (hkept hop)
    | succ n =>
      intro _
      simp

/-- The server listens and its object holds it. -/
theorem start (hinv : Inv s) {i n : Nat} (hc : CallOk s i c)
    (hphase : c.phase = .starting n) (hlive : ¬ s.Live c.server) :
    Inv (((s.setServer n { s.servers n with started := true, inTable := true }).setId c.server
      (some n)).setPhase i c .resolved) := by
  simp only [CallOk, hphase] at hc
  obtain ⟨hop, hlt, hserver⟩ := hc
  rw [hserver]
  have hadv := advances_setServer (s := s) i n
    { owner := c.server, call := i, started := true, inTable := true }
    (by simp [hserver]) (by simp [hserver, Server.Gone]) (by
      intro j k hj h
      rw [hserver] at h
      exact hj (Server.mk.inj h).2.1.symm)
  refine ⟨?_, ?_, ?_, ?_, ?_, ?_, hinv.calls_setPhase ((hadv.setId _ _).setPhase _ _ _) ?_⟩ <;>
    simp only [Servers.setPhase, setId, setServer, Function.update_apply]
  · intro m
    split
    · exact Nat.zero_le _
    · exact hinv.once m
  · intro m
    split
    · exact fun _ => nofun
    · exact hinv.removed m
  · -- another live server of the object would be replaced
    intro m hin hopen
    by_cases hm : m = n
    · simp [hm]
    · simp only [if_neg hm] at hin hopen ⊢
      have hheld := hinv.held m hin hopen
      have howner : (s.servers m).owner ≠ c.server := by
        intro howner
        exact hlive ⟨m, howner ▸ hheld, hin, hopen⟩
      rw [if_neg howner]
      exact hheld
  · intro k m hid
    split at hid
    · rename_i hk
      cases hid
      simp [hk]
    · rename_i hk
      have hown := hinv.own k m hid
      have hm : m ≠ n := by
        rintro rfl
        rw [hserver] at hown
        exact hk hown.1.symm
      rw [if_neg hm]
      exact hown
  · intro m hm
    have hne : m ≠ n := Nat.ne_of_gt (Nat.lt_of_lt_of_le hlt hm)
    rw [if_neg hne]
    exact hinv.beyond m hm
  · split
    · rfl
    · exact hinv.zero
  · intro hclose
    cases hop.symm.trans hclose

/-- The worker closes the server that the call was made for. -/
theorem beginClose (hinv : Inv s) {i n : Nat} (hzero : c.target ≠ some 0)
    (hin : (s.servers n).inTable = true) (hopen : (s.servers n).closes = 0)
    (htarget : c.target = some n) :
    Inv ((s.setServer n { s.servers n with closes := (s.servers n).closes + 1 }).setPhase i c
      (.ending n)) := by
  rw [hopen]
  have hadv := advances_setServer (s := s) i n { s.servers n with closes := 0 + 1 }
    (fun _ => rfl) (by simp [Server.Gone, hin]) (by
      intro j k _ h
      simp [h] at hin)
  refine ⟨?_, ?_, ?_, ?_, ?_, ?_, hinv.calls_setPhase (hadv.setPhase _ _ _) ?_⟩ <;>
    simp only [Servers.setPhase, setServer, Function.update_apply]
  · intro m
    split
    · exact Nat.le_refl _
    · exact hinv.once m
  · intro m
    split
    · exact fun _ _ => rfl
    · exact hinv.removed m
  · intro m
    split
    · exact fun _ => nofun
    · exact hinv.held m
  · intro k m hid
    split
    · rename_i hm
      cases hm
      exact hinv.own k _ hid
    · exact hinv.own k m hid
  · intro m hm
    have hne : m ≠ n := by
      rintro rfl
      simp [hinv.beyond m hm] at hin
    rw [if_neg hne]
    exact hinv.beyond m hm
  · have hne : 0 ≠ n := by
      rintro rfl
      exact hzero htarget
    rw [if_neg hne]
    exact hinv.zero
  · exact ⟨htarget, by simp⟩

/-- Node calls back and the worker removes the server. -/
theorem remove (hinv : Inv s) {i n : Nat} (hc : CallOk s i c)
    (hphase : c.phase = .ending n) :
    Inv ((s.setServer n { s.servers n with inTable := false }).setPhase i c (.ended n)) := by
  simp only [CallOk, hphase] at hc
  obtain ⟨htarget, hcloses⟩ := hc
  have hadv := advances_setServer (s := s) i n { s.servers n with inTable := false } id
    (fun h => ⟨rfl, h.2⟩) (by
      intro j k _ h
      simp [h] at hcloses)
  refine ⟨?_, ?_, ?_, ?_, ?_, ?_, hinv.calls_setPhase (hadv.setPhase _ _ _) ?_⟩ <;>
    simp only [Servers.setPhase, setServer, Function.update_apply]
  · intro m
    split
    · exact Nat.le_of_eq hcloses
    · exact hinv.once m
  · intro m
    split
    · exact fun _ _ => hcloses
    · exact hinv.removed m
  · intro m
    split
    · exact nofun
    · exact hinv.held m
  · intro k m hid
    split
    · rename_i hm
      cases hm
      exact hinv.own k _ hid
    · exact hinv.own k m hid
  · intro m hm
    have hne : m ≠ n := by
      rintro rfl
      simp [hinv.beyond m hm] at hcloses
    rw [if_neg hne]
    exact hinv.beyond m hm
  · split
    · rename_i hm
      cases hm
      exact hinv.zero
    · exact hinv.zero
  · exact ⟨htarget, by simp [Server.Gone, hcloses]⟩

/-- The reply of a close: the object forgets its identifier. -/
theorem forget (hinv : Inv s) {i n : Nat} (hc : CallOk s i c)
    (hphase : c.phase = .ended n) (hlive : ¬ s.Live c.server) :
    Inv ((s.setId c.server none).setPhase i c .resolved) := by
  simp only [CallOk, hphase] at hc
  refine ⟨hinv.once, hinv.removed, ?_, ?_, hinv.beyond, hinv.zero,
    Each.set (fun j d _ hd => hinv.calls j d hd) ?_⟩ <;>
    simp only [Servers.setPhase, setId, Function.update_apply]
  · intro m hin hopen
    have hheld := hinv.held m hin hopen
    have howner : (s.servers m).owner ≠ c.server := by
      intro howner
      exact hlive ⟨m, howner ▸ hheld, hin, hopen⟩
    rw [if_neg howner]
    exact hheld
  · intro k m hid
    split at hid
    · cases hid
    · exact hinv.own k m hid
  · intro _ m hm
    cases hc.1.symm.trans hm
    exact hc.2

/-- The changed call is among the calls. -/
theorem mem_setPhase {s : Servers} (hc : s.calls[i]? = some c) (phase : Phase) :
    { c with phase } ∈ s.calls.set i { c with phase } := by
  have hlt := (List.getElem?_eq_some_iff.1 hc).1
  exact List.mem_of_getElem? (List.getElem?_set_self hlt)

/-- A step that only moves the call on. -/
theorem quiet (hinv : Inv s) {ok : Bool}
    (hcall : CallOk s i { c with phase }) (hkept : s.KeptCall c ok) :
    (Released (s.setPhase i c phase) → s.KeptCall c ok) ∧
      (s.KeptCall c ok → Inv (s.setPhase i c phase)) :=
  ⟨fun _ => hkept, fun _ => hinv.setPhase hcall⟩

theorem settle (hinv : Inv s) {ok : Bool}
    (hc : s.calls[i]? = some c) (h : s.settle i c ok = some s') :
    (Released s' → s.KeptCall c ok) ∧ (s.KeptCall c ok → Inv s') := by
  have hcall := hinv.calls i c hc
  unfold Servers.settle at h
  split at h <;> rename_i hphase
  · split at h <;> cases h
    · rename_i n hok
      refine ⟨?_, fun hkept => hinv.start hcall hphase ?_⟩
      · -- the live server would be held by nobody
        rintro hreleased
        simp only [KeptCall, hphase]
        rintro - ⟨m, hid, hin, hopen⟩
        simp only [CallOk, hphase] at hcall
        have hm : m ≠ n := by
          rintro rfl
          simp [hcall.2.2] at hin
        have hheld := hreleased.held m
        simp only [Servers.setPhase, setId, setServer, Function.update_apply, if_neg hm,
          (hinv.own _ m hid).1, if_true] at hheld
        exact hm (Option.some.inj (hheld hin hopen)).symm
      · simp only [KeptCall, hphase] at hkept
        exact hkept hok
    · rename_i hok
      refine hinv.quiet trivial ?_
      simp only [KeptCall, hphase]
      exact fun h => absurd h hok
  · -- `server-stop`
    cases h
    have hkept : s.KeptCall c ok := by simp only [KeptCall, hphase]
    simp only [CallOk, hphase] at hcall
    refine hinv.quiet ?_ hkept
    split
    · exact hcall
    · trivial
  · have hkept : s.KeptCall c ok := by simp only [KeptCall, hphase]
    simp only [CallOk, hphase] at hcall
    split at h
    · cases h
      exact hinv.quiet trivial hkept
    split at h <;> cases h <;> rename_i hop
    · exact hinv.quiet (hcall hop) hkept
    · exact hinv.quiet (fun h => absurd h hop) hkept
  · cases h
    exact hinv.quiet trivial (by simp only [KeptCall, hphase])
  · simp only at h
    split at h <;> cases h
    · rename_i n hin
      simp only [CallOk, hphase] at hcall
      simp only [KeptCall, hphase]
      refine ⟨?_, fun hkept => hinv.beginClose hcall hin (hkept hin).1 (hkept hin).2⟩
      -- it was not closed before, and it is the server the call was made for
      intro hreleased _
      have honce := hreleased.once n
      simp only [Servers.setPhase, setServer, Function.update_self] at honce
      exact ⟨by omega, hreleased.wanted _ (mem_setPhase hc _) n (.inl rfl)⟩
    · rename_i hout
      refine hinv.quiet trivial ?_
      simp only [KeptCall, hphase]
      exact fun h => absurd h hout
  · cases h
    exact ⟨fun _ => by simp only [KeptCall, hphase], fun _ => hinv.remove hcall hphase⟩
  · cases h
    simp only [KeptCall, hphase]
    refine ⟨?_, fun hlive => hinv.forget hcall hphase hlive⟩
    rintro hreleased ⟨m, hid, hin, hopen⟩
    have hheld := hreleased.held m hin hopen
    simp [Servers.setPhase, setId, (hinv.own _ m hid).1] at hheld
  · cases h
  · cases h

/-- One step: where the servers are still released as they should be, the step was
kept, and after a kept step the invariant goes on. -/
theorem step (hinv : Inv s) {e : ServerEvent} (h : s.perform e = some s') :
    (Released s' → Kept e s) ∧ (Kept e s → Inv s') := by
  cases e with
  | listen k =>
    cases h
    exact ⟨fun _ => trivial, fun _ => hinv.listen k⟩
  | stop k =>
    cases h
    exact ⟨fun _ => trivial, fun _ => hinv.stopOrClose nofun⟩
  | close k =>
    cases h
    refine ⟨?_, fun hkept => hinv.stopOrClose fun _ => hkept⟩
    -- the call resolves at once and the first server stays where it is
    intro hreleased hzero
    have hgone := hreleased.closed ⟨.close, k, some 0, .resolved⟩
      (by simp [Servers.stopOrClose, hzero]) rfl rfl 0 rfl
    have hcloses := hinv.removed 0 (hinv.own k 0 hzero).2 hgone
    rw [hinv.zero] at hcloses
    cases hcloses
  | settle i ok =>
    simp only [perform] at h
    split at h
    · cases h
    rename_i c hc
    have hstep := hinv.settle hc h
    refine ⟨?_, fun hkept => hstep.2 (hkept c hc)⟩
    intro hreleased c' hc'
    cases hc.symm.trans hc'
    exact hstep.1 hreleased

end Inv

end Servers

end Jco.Http

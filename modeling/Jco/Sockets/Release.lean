import Jco.Lib.Pool
import Jco.Sockets.Address

/-! # Releasing sockets

The TCP and the UDP worker of the preview3 shim keep their sockets in a map; the
main thread holds an object for each, with its identifier. Identifiers are bigints
handed out from `0n` on, so a member of the pool is the socket of that identifier:
the object, what the map has for it, and what is under way on it.

One pass of the worker that closes what a TCP socket owns (its listener, its
`net.Socket` and the handle below both, which Node closes once) counts as one
release. Which states allow a send or receive is left to the state machine; here
they start as they like.
-/

namespace Jco.Sockets

open Jco.Lib

/-- A socket of a worker. -/
structure Slot where
  /-- `#socketId` of the object on the main thread. -/
  socketId : Option Nat
  /-- The worker's map has the identifier. -/
  inTable : Bool := true
  disposed : Bool := false
  activeStreams : Nat := 0
  /-- The sends and receives that have begun and not ended. -/
  streams : Nat := 0
  /-- How often the worker has closed the socket. -/
  releases : Nat := 0

inductive SlotEvent where
  /-- A send or receive is called. -/
  | start
  /-- One that has begun ends. -/
  | finish
  | dispose

/-- A new socket, or one that a listener accepted. -/
def Slot.create (i : Nat) : Slot := { socketId := some i }

/-- The worker is asked and knows the identifier. -/
def Slot.known (m : Slot) : Bool := m.socketId.isSome && m.inTable

/-- The socket is in the map until it is disposed and nothing is under way on it;
then it has been closed, once. -/
structure Released (m : Slot) : Prop where
  removed : m.inTable = true ↔ ¬ (m.socketId = none ∧ m.streams = 0)
  once : m.releases = if m.inTable then 0 else 1

namespace TcpWorker

def cleanupDisposedSocket (m : Slot) : Slot :=
  if m.disposed = false ∨ m.activeStreams > 0 then
    m
  else
    { m with inTable := false, releases := m.releases + 1 }

/-- `handleTcpSend` and `handleTcpReceive` up to their await. -/
def handleStream (m : Slot) : Slot :=
  { m with activeStreams := m.activeStreams + 1, streams := m.streams + 1 }

/-- Their `finally`. -/
def endStream (m : Slot) : Slot :=
  cleanupDisposedSocket
    { m with activeStreams := m.activeStreams - 1, streams := m.streams - 1 }

def handleTcpDispose (m : Slot) : Slot := cleanupDisposedSocket { m with disposed := true }

/-- `TcpSocket[Symbol.dispose]` with the worker's part. -/
def disposeSlot (m : Slot) : Slot :=
  if truthyId m.socketId then
    -- an identifier that the worker does not know throws
    if m.inTable then { handleTcpDispose m with socketId := none } else m
  else
    { m with socketId := none }

def step (_ : Nat) (m : Slot) : SlotEvent → Option Slot
  | .start => some (if m.known then handleStream m else m)
  | .finish => if m.streams = 0 then none else some (endStream m)
  | .dispose => some (disposeSlot m)

def pool : Pool Slot SlotEvent := ⟨Slot.create, step⟩

end TcpWorker

namespace UdpWorker

/-- `handleDispose` -/
def handleDispose (m : Slot) : Slot := { m with inTable := false, releases := m.releases + 1 }

/-- `UdpSocket[Symbol.dispose]` with the worker's part. -/
def disposeSlot (m : Slot) : Slot :=
  if truthyId m.socketId then
    -- an identifier that the worker does not know throws
    if m.inTable then { handleDispose m with socketId := none } else m
  else
    { m with socketId := none }

/-- The UDP worker does not count what is under way. -/
def step (_ : Nat) (m : Slot) : SlotEvent → Option Slot
  | .start => some (if m.known then { m with streams := m.streams + 1 } else m)
  | .finish => if m.streams = 0 then none else some { m with streams := m.streams - 1 }
  | .dispose => some (disposeSlot m)

def pool : Pool Slot SlotEvent := ⟨Slot.create, step⟩

end UdpWorker

/-! ## When they are released -/

/-- The step after which the object of the first identifier is disposed with
nothing under way on it. -/
def Abandons (i : Nat) (m : Slot) : SlotEvent → Prop
  | .start => False
  | .finish => i = 0 ∧ m.socketId = none ∧ m.streams = 1
  | .dispose => i = 0 ∧ m.streams = 0

/-- A dispose that finds a send or receive under way. -/
def Interrupts (i : Nat) (m : Slot) : SlotEvent → Prop
  | .dispose => i ≠ 0 ∧ m.socketId ≠ none ∧ m.streams ≠ 0
  | _ => False

namespace Slot

/-- What holds of a socket in runs that release every socket: its object holds no
other identifier, and the first identifier stays in the map. -/
structure Kept (i : Nat) (m : Slot) : Prop where
  released : Released m
  own : ∀ n, m.socketId = some n → n = i
  gone : m.inTable = false → i ≠ 0

theorem create_released (i : Nat) : Released (create i) := ⟨by simp [create], rfl⟩

theorem create_kept (i : Nat) : Kept i (create i) := by
  refine ⟨create_released i, ?_, nofun⟩
  intro n hn
  exact (Option.some.inj hn).symm

namespace Kept

variable {i : Nat} {m : Slot}

/-- What is held or used is in the map. -/
theorem inTable (h : Kept i m) (hused : m.socketId ≠ none ∨ m.streams ≠ 0) :
    m.inTable = true := by
  refine h.released.removed.2 ?_
  rintro ⟨hnone, hidle⟩
  exact hused.elim (absurd hnone) (absurd hidle)

/-- The worker is told of the dispose of any identifier but the first. -/
theorem truthy_iff (h : Kept i m) :
    truthyId m.socketId = true ↔ m.socketId ≠ none ∧ i ≠ 0 := by
  cases hid : m.socketId with
  | none => simp [truthyId]
  | some n => simp [truthyId, h.own n hid]

end Kept

end Slot

open Slot (Kept)

namespace TcpWorker

/-- The worker was told of the dispose of every identifier but the first, and its
counter is right. -/
structure Inv (i : Nat) (m : Slot) : Prop extends Kept i m where
  counter : m.activeStreams = m.streams
  told : m.disposed = true ↔ m.socketId = none ∧ i ≠ 0

theorem create_inv (i : Nat) : Inv i (.create i) :=
  ⟨Slot.create_kept i, rfl, by simp [Slot.create]⟩

theorem cleanup_released {m : Slot} (hin : m.inTable = true) (hreleases : m.releases = 0) :
    Released (cleanupDisposedSocket m) ↔
      (m.disposed = true ∧ m.activeStreams = 0 ↔ m.socketId = none ∧ m.streams = 0) := by
  unfold cleanupDisposedSocket
  split
  · rename_i hkept
    have hkept : ¬ (m.disposed = true ∧ m.activeStreams = 0) := by
      rintro ⟨hdisposed, hidle⟩
      simp [hdisposed, hidle] at hkept
    constructor
    · intro h
      exact iff_of_false hkept (h.removed.1 hin)
    · intro h
      exact ⟨iff_of_true hin (h.not.1 hkept), by simp [hin, hreleases]⟩
  · rename_i hgone
    have hgone : m.disposed = true ∧ m.activeStreams = 0 := by simpa using hgone
    constructor
    · intro h
      refine iff_of_true hgone ?_
      simpa using h.removed
    · intro h
      exact ⟨by simpa using h.1 hgone, by simp [hreleases]⟩

/-- What the worker does not change when it cleans up. -/
theorem cleanup_inv {i : Nat} {m : Slot} (hreleased : Released (cleanupDisposedSocket m))
    (hown : ∀ n, m.socketId = some n → n = i) (hgone : m.inTable = false → i ≠ 0)
    (hcounter : m.activeStreams = m.streams)
    (htold : m.disposed = true ↔ m.socketId = none ∧ i ≠ 0) :
    Inv i (cleanupDisposedSocket m) := by
  unfold cleanupDisposedSocket at hreleased ⊢
  split
  · rename_i hkept
    rw [if_pos hkept] at hreleased
    exact ⟨⟨hreleased, hown, hgone⟩, hcounter, htold⟩
  · rename_i hdisposed
    rw [if_neg hdisposed] at hreleased
    have hdisposed : m.disposed = true ∧ m.activeStreams = 0 := by simpa using hdisposed
    exact ⟨⟨hreleased, hown, fun _ => (htold.1 hdisposed.1).2⟩, hcounter, htold⟩

theorem cleanup_socketId (m : Slot) :
    { cleanupDisposedSocket m with socketId := none } =
      cleanupDisposedSocket { m with socketId := none } := by
  unfold cleanupDisposedSocket
  split <;> rfl

/-- One step of one socket: it is released as it should exactly where the step does not
abandon it, and then the invariant goes on. -/
theorem step_released {i : Nat} {m m' : Slot} {e : SlotEvent} (hinv : Inv i m)
    (h : step i m e = some m') :
    (Released m' ↔ ¬ Abandons i m e) ∧ (Released m' → Inv i m') := by
  have hkept := hinv.toKept
  cases e with
  | start =>
    cases h
    refine ⟨iff_of_true ?_ id, ?_⟩ <;> split
    · rename_i hknown
      obtain ⟨hid, hin⟩ : m.socketId.isSome = true ∧ m.inTable = true := by
        simpa [Slot.known] using hknown
      have hid : m.socketId ≠ none := Option.isSome_iff_ne_none.1 hid
      exact ⟨iff_of_true hin fun h => hid h.1, hkept.released.once⟩
    · exact hkept.released
    · intro hreleased
      exact ⟨⟨hreleased, hkept.own, hkept.gone⟩, congrArg (· + 1) hinv.counter, hinv.told⟩
    · exact fun _ => hinv
  | finish =>
    simp only [step] at h
    split at h
    · cases h
    rename_i hbusy
    cases h
    have hin := hkept.inTable (.inr hbusy)
    have hreleases : m.releases = 0 := by simpa [hin] using hkept.released.once
    constructor
    · refine (cleanup_released ?_ ?_).trans ?_
      · exact hin
      · exact hreleases
      have hlast : m.streams - 1 = 0 ↔ m.streams = 1 := by omega
      have htold := hinv.told
      simp only [Abandons, hinv.counter, hlast, htold]
      tauto
    · intro hreleased
      exact cleanup_inv hreleased hkept.own hkept.gone (congrArg (· - 1) hinv.counter) hinv.told
  | dispose =>
    cases h
    unfold disposeSlot
    split
    · -- told: the worker removes it now, or when the last stream ends
      rename_i htold
      obtain ⟨hheld, hi⟩ := hkept.truthy_iff.1 htold
      have hin := hkept.inTable (.inl hheld)
      have hreleases : m.releases = 0 := by simpa [hin] using hkept.released.once
      rw [if_pos hin]
      have hreleased : Released
          (cleanupDisposedSocket { m with disposed := true, socketId := none }) := by
        refine (cleanup_released ?_ ?_).2 ?_
        · exact hin
        · exact hreleases
        · simp [hinv.counter]
      simp only [handleTcpDispose, cleanup_socketId]
      refine ⟨iff_of_true hreleased (fun h => hi h.1), fun _ => ?_⟩
      exact cleanup_inv hreleased nofun hkept.gone hinv.counter (by simp [hi])
    · -- not told: disposed before, or the first identifier
      rename_i htold
      have hnot := hkept.truthy_iff.not.1 htold
      by_cases hheld : m.socketId = none
      · have hsame : { m with socketId := none } = m := by rw [← hheld]
        simp only [hsame]
        refine ⟨iff_of_true hkept.released ?_, fun _ => hinv⟩
        rintro ⟨hi, hidle⟩
        refine hkept.gone ?_ hi
        simpa [hheld, hidle] using hkept.released.removed
      · have hi : i = 0 := by
          by_contra hi
          exact hnot ⟨hheld, hi⟩
        have hin := hkept.inTable (.inl hheld)
        refine ⟨⟨?_, ?_⟩, ?_⟩
        · intro hreleased habandons
          exact hreleased.removed.1 hin ⟨rfl, habandons.2⟩
        · intro hbusy
          exact ⟨iff_of_true hin fun h => hbusy ⟨hi, h.2⟩, hkept.released.once⟩
        · intro hreleased
          refine ⟨⟨hreleased, nofun, hkept.gone⟩, hinv.counter, ?_⟩
          simp [hinv.told, hheld, hi]

end TcpWorker

namespace UdpWorker

/-- The worker was told of the dispose of every identifier but the first. -/
structure Inv (i : Nat) (m : Slot) : Prop extends Kept i m where
  told : m.socketId = none → m.inTable = true → i = 0

theorem create_inv (i : Nat) : Inv i (.create i) := ⟨Slot.create_kept i, nofun⟩

theorem step_released {i : Nat} {m m' : Slot} {e : SlotEvent} (hinv : Inv i m)
    (h : step i m e = some m') :
    (Released m' ↔ ¬ (Abandons i m e ∨ Interrupts i m e)) ∧ (Released m' → Inv i m') := by
  have hkept := hinv.toKept
  cases e with
  | start =>
    cases h
    refine ⟨iff_of_true ?_ (by simp [Abandons, Interrupts]), ?_⟩ <;> split
    · rename_i hknown
      obtain ⟨hid, hin⟩ : m.socketId.isSome = true ∧ m.inTable = true := by
        simpa [Slot.known] using hknown
      have hid : m.socketId ≠ none := Option.isSome_iff_ne_none.1 hid
      exact ⟨iff_of_true hin fun h => hid h.1, hkept.released.once⟩
    · exact hkept.released
    · intro hreleased
      exact ⟨⟨hreleased, hkept.own, hkept.gone⟩, hinv.told⟩
    · exact fun _ => hinv
  | finish =>
    simp only [step] at h
    split at h
    · cases h
    rename_i hbusy
    cases h
    have hin := hkept.inTable (.inr hbusy)
    constructor
    · -- only the first identifier is still in the map once it is disposed
      constructor
      · rintro hreleased (⟨-, hnone, hlast⟩ | hinterrupts)
        · exact hreleased.removed.1 hin ⟨hnone, by simp [hlast]⟩
        · exact hinterrupts
      · intro hnot
        refine ⟨iff_of_true hin ?_, hkept.released.once⟩
        rintro ⟨hnone, hidle⟩
        have hidle : m.streams - 1 = 0 := hidle
        exact hnot (.inl ⟨hinv.told hnone hin, hnone, by omega⟩)
    · intro hreleased
      exact ⟨⟨hreleased, hkept.own, hkept.gone⟩, hinv.told⟩
  | dispose =>
    cases h
    unfold disposeSlot
    split
    · -- told: the worker removes it now, whatever is under way
      rename_i htold
      obtain ⟨hheld, hi⟩ := hkept.truthy_iff.1 htold
      have hin := hkept.inTable (.inl hheld)
      have hreleases : m.releases = 0 := by simpa [hin] using hkept.released.once
      rw [if_pos hin]
      refine ⟨⟨?_, ?_⟩, ?_⟩
      · rintro hreleased (⟨hi', -⟩ | ⟨-, -, hbusy⟩)
        · exact hi hi'
        · have hidle : m.streams = 0 := by simpa [handleDispose] using hreleased.removed
          exact hbusy hidle
      · intro hnot
        have hidle : m.streams = 0 := by
          by_contra hbusy
          exact hnot (.inr ⟨hi, hheld, hbusy⟩)
        exact ⟨by simp [handleDispose, hidle], by simp [handleDispose, hreleases]⟩
      · intro hreleased
        exact ⟨⟨hreleased, nofun, fun _ => hi⟩, fun _ => nofun⟩
    · rename_i htold
      have hnot := hkept.truthy_iff.not.1 htold
      by_cases hheld : m.socketId = none
      · have hsame : { m with socketId := none } = m := by rw [← hheld]
        simp only [hsame]
        refine ⟨iff_of_true hkept.released ?_, fun _ => hinv⟩
        rintro (⟨hi, hidle⟩ | ⟨-, h, -⟩)
        · refine hkept.gone ?_ hi
          simpa [hheld, hidle] using hkept.released.removed
        · exact h hheld
      · have hi : i = 0 := by
          by_contra hi
          exact hnot ⟨hheld, hi⟩
        have hin := hkept.inTable (.inl hheld)
        refine ⟨⟨?_, ?_⟩, ?_⟩
        · rintro hreleased (habandons | hinterrupts)
          · exact hreleased.removed.1 hin ⟨rfl, habandons.2⟩
          · exact hinterrupts.1 hi
        · intro hbusy
          exact ⟨iff_of_true hin fun h => hbusy (.inl ⟨hi, h.2⟩), hkept.released.once⟩
        · intro hreleased
          exact ⟨⟨hreleased, nofun, hkept.gone⟩, fun _ _ => hi⟩

end UdpWorker

end Jco.Sockets

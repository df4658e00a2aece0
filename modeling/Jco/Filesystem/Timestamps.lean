import Mathlib.Algebra.Order.Floor.Semifield
import Mathlib.Data.Rat.Floor
import Mathlib.Logic.Function.Basic
import Mathlib.Tactic.Ring
import Jco.Lib.Rounding

/-!
# The timestamps of a file

`set-times` and `set-times-at` hand the host two numbers of seconds, the new access and
modification times. The shims get to the numbers in ways of their own: preview2 goes through
milliseconds, preview3 through seconds, and a time that is not to change is read from an
object first.

The numbers are doubles, and what the host keeps of one is its own affair: an instant is
kept up to the resolution if it is kept as one of the numbers next to it is. Objects are
named by numbers, and a path comes with what the host finds at it.
-/

namespace Jco.Filesystem.Timestamps

open Lib.Rounding

structure Timestamp where
  seconds : Nat
  nanoseconds : Nat
deriving DecidableEq, Repr

/-- The instant, in nanoseconds. -/
def Timestamp.toNs (t : Timestamp) : Nat := t.seconds * 10 ^ 9 + t.nanoseconds

def nsToDateTime (ns : Nat) : Timestamp := ⟨ns / 10 ^ 9, ns % 10 ^ 9⟩

inductive NewTimestamp where
  | noChange
  | now
  | timestamp (val : Timestamp)
deriving DecidableEq, Repr

/-- What a file system keeps, in nanoseconds. -/
structure Times where
  atime : Nat
  mtime : Nat
deriving DecidableEq, Repr

structure Stat where
  dataAccessTimestamp : Timestamp
  dataModificationTimestamp : Timestamp
deriving DecidableEq, Repr

def stat (times : Times) : Stat := ⟨nsToDateTime times.atime, nsToDateTime times.mtime⟩

inductive FsError where
  | invalid
  | badDescriptor
  | unsupported
  | noEntry
  /-- The path is refused before the host sees it. -/
  | path
  /-- A plain `Error` or `TypeError`. -/
  | thrown
  | host
deriving DecidableEq, Repr

structure Host where
  /-- What is kept of a number of seconds, in nanoseconds. -/
  store : ℚ → Nat
  /-- There is a call for the times of a link. -/
  lutimes : Bool
  refuses : Nat → Bool

/-- The object whose times are changed, and its new times. -/
abbrev Change := Nat × Times

/-- One of the `utimes` calls, on the object that it finds. -/
def Host.utimes (host : Host) (object : Option Nat) (atime mtime : ℚ) : Except FsError Change :=
  match object with
  | none => .error .noEntry
  | some i =>
    if host.refuses i then .error .host
    else .ok (i, ⟨host.store atime, host.store mtime⟩)

/-- What the host finds at a path: the object itself, and the one behind its links. -/
structure Found where
  node : Nat
  target : Option Nat
deriving DecidableEq, Repr

structure Descriptor where
  hostPreopen : Bool
  /-- The object that it is open on. -/
  node : Nat
deriving DecidableEq, Repr

structure World where
  /-- `Date.now()` -/
  clock : Nat
  times : Nat → Times

def World.apply (w : World) (c : Change) : World :=
  { w with times := Function.update w.times c.1 c.2 }

/-- One of the two is not to change: there is something to look up. -/
def needsStat (a m : NewTimestamp) : Bool := a = .noChange ∨ m = .noChange

/-- `Math.floor(Date.now() / 1e3)` -/
def wholeSeconds (w : World) : ℚ := ⌊toDouble (w.clock / 1000)⌋₊

section Numbers

variable (convert : Timestamp → Except FsError ℚ) (w : World)

/-- `#getNewTimestamp`: the number of a new timestamp. `old` is what was looked up, if
anything was. -/
def newNumber (newTimestamp : NewTimestamp) (old : Option Timestamp) : Except FsError ℚ :=
  match newTimestamp with
  | .noChange =>
    match old with
    | none => .error .thrown
    | some timestamp => convert timestamp
  | .timestamp val => convert val
  | .now => .ok (wholeSeconds w)

/-- Both numbers. -/
def newNumbers (stats : Option Stat) (a m : NewTimestamp) : Except FsError (ℚ × ℚ) := do
  let atime ← newNumber convert w a (stats.map Stat.dataAccessTimestamp)
  let mtime ← newNumber convert w m (stats.map Stat.dataModificationTimestamp)
  return (atime, mtime)

end Numbers

def maxSafeInteger : Nat := 2 ^ 53 - 1

namespace Preview2

/-- The milliseconds of a timestamp that is small enough. -/
def millis (timestamp : Timestamp) : ℚ :=
  let secondsInMillis := timestamp.seconds * 1000
  let remainderFractionalMillis := toDouble (timestamp.nanoseconds / 1000000)
  toDouble (toDouble secondsInMillis + remainderFractionalMillis)

def timestampToMs (timestamp : Timestamp) : Except FsError ℚ :=
  if maxSafeInteger < timestamp.seconds * 1000 then .error .thrown
  else if maxSafeInteger < timestamp.nanoseconds then .error .thrown
  else .ok (millis timestamp)

/-- The descriptor's own stat, where one is needed. -/
def stats (w : World) (d : Descriptor) (a m : NewTimestamp) : Except FsError (Option Stat) :=
  if needsStat a m then
    if d.hostPreopen then .error .invalid else .ok (some (stat (w.times d.node)))
  else .ok none

def setTimes (host : Host) (w : World) (d : Descriptor) (a m : NewTimestamp) :
    Except FsError Change := do
  if d.hostPreopen then
    throw .invalid
  let stats ← stats w d a m
  let (atime, mtime) ← newNumbers timestampToMs w stats a m
  host.utimes (some d.node) atime mtime

/-- `metadataSetFn`: the call for links where they are to be followed, and the other one
where they are not. -/
def metadataSetFn (host : Host) (symlinkFollow : Bool) (found : Found) (atime mtime : ℚ) :
    Except FsError Change :=
  if symlinkFollow then
    if host.lutimes then host.utimes (some found.node) atime mtime else .error .thrown
  else host.utimes found.target atime mtime

def setTimesAt (host : Host) (w : World) (d : Descriptor) (symlinkFollow : Bool)
    (path : Option Found) (a m : NewTimestamp) : Except FsError Change :=
  match path with
  | none => .error .path
  | some found => do
    let stats ← stats w d a m
    let (atime, mtime) ← newNumbers timestampToMs w stats a m
    if !symlinkFollow && !host.lutimes then
      throw .thrown
    metadataSetFn host symlinkFollow found (toDouble (atime / 1000)) (toDouble (mtime / 1000))

end Preview2

namespace Preview3

def timestampToSec (timestamp : Timestamp) : ℚ :=
  toDouble (toDouble timestamp.seconds + toDouble (timestamp.nanoseconds / 10 ^ 9))

/-- `#computeTimestamps`: what is looked up is what a stat that follows links finds. -/
def computeTimestamps (w : World) (object : Option Nat) (a m : NewTimestamp) :
    Except FsError (ℚ × ℚ) :=
  if needsStat a m then
    match object with
    | none => .error .noEntry
    | some i => newNumbers (fun t => .ok (timestampToSec t)) w (some (stat (w.times i))) a m
  else newNumbers (fun t => .ok (timestampToSec t)) w none a m

def setTimes (host : Host) (w : World) (d : Descriptor) (a m : NewTimestamp) :
    Except FsError Change := do
  if d.hostPreopen then
    throw .badDescriptor
  let (atime, mtime) ← computeTimestamps w (some d.node) a m
  host.utimes (some d.node) atime mtime

def setTimesAt (host : Host) (w : World) (symlinkFollow : Bool) (path : Option Found)
    (a m : NewTimestamp) : Except FsError Change :=
  match path with
  | none => .error .path
  | some found => do
    let (atime, mtime) ← computeTimestamps w found.target a m
    if !symlinkFollow && !host.lutimes then
      throw .unsupported
    host.utimes (if symlinkFollow then found.target else some found.node) atime mtime

end Preview3

/-! ## What is promised -/

inductive Shim where
  | preview2
  | preview3
deriving DecidableEq, Repr

inductive Op where
  | setTimes
  | setTimesAt (symlinkFollow : Bool) (path : Option Found)
deriving DecidableEq, Repr

def perform (shim : Shim) (host : Host) (w : World) (d : Descriptor) (op : Op)
    (a m : NewTimestamp) : Except FsError Change :=
  match shim, op with
  | .preview2, .setTimes => Preview2.setTimes host w d a m
  | .preview2, .setTimesAt symlinkFollow path =>
    Preview2.setTimesAt host w d symlinkFollow path a m
  | .preview3, .setTimes => Preview3.setTimes host w d a m
  | .preview3, .setTimesAt symlinkFollow path => Preview3.setTimesAt host w symlinkFollow path a m

/-- The object that is to be changed. -/
def selected (d : Descriptor) : Op → Option Nat
  | .setTimes => some d.node
  | .setTimesAt symlinkFollow path =>
    path.bind fun found => if symlinkFollow then found.target else some found.node

/-- The instant that is to be reported, for an object that had `old`. -/
def given (w : World) (newTimestamp : NewTimestamp) (old : Nat) : Nat :=
  match newTimestamp with
  | .noChange => old
  | .now => w.clock * 10 ^ 6
  | .timestamp val => val.toNs

/-- The numbers of seconds next to an instant: those that are off it by the share that a few
roundings come to. -/
def Near (seconds : ℚ) (ns : Nat) : Prop := Off (4 * unit) seconds ((ns : ℚ) / 10 ^ 9)

/-- The instant, up to the resolution of the host. -/
def Host.Keeps (host : Host) (stored ns : Nat) : Prop :=
  ∃ seconds, Near seconds ns ∧ stored = host.store seconds

/-- The object that was changed is the selected one, and its stat reports the given instants
up to the resolution. -/
def Right (host : Host) (w : World) (d : Descriptor) (op : Op) (a m : NewTimestamp)
    (c : Change) : Prop :=
  selected d op = some c.1 ∧
    host.Keeps (stat ((w.apply c).times c.1)).dataAccessTimestamp.toNs
      (given w a (w.times c.1).atime) ∧
    host.Keeps (stat ((w.apply c).times c.1)).dataModificationTimestamp.toNs
      (given w m (w.times c.1).mtime)

/-- The host does not tell a number of seconds from an instant. -/
def Host.Alike (host : Host) (seconds : ℚ) (ns : Nat) : Prop := host.Keeps (host.store seconds) ns

/-- A field that goes well where a timestamp is converted to its `number` of seconds: `now`
is the number for the current time, and what was looked up is what the object has. -/
def FieldOk (host : Host) (w : World) (number : Timestamp → ℚ) (now : ℚ)
    (newTimestamp : NewTimestamp) (seen old : Nat) : Prop :=
  match newTimestamp with
  | .noChange => seen = old ∨ host.Alike (number (nsToDateTime seen)) old
  | .now => host.Alike now (w.clock * 10 ^ 6)
  | .timestamp _ => True

/-- The same for the `set-times` of preview2: the milliseconds are taken for seconds. -/
def FieldOkMs (host : Host) (w : World) (newTimestamp : NewTimestamp) (old : Nat) : Prop :=
  match newTimestamp with
  | .noChange => host.Alike (Preview2.millis (nsToDateTime old)) old
  | .now => host.Alike (wholeSeconds w) (w.clock * 10 ^ 6)
  | .timestamp val => host.Alike (Preview2.millis val) val.toNs

/-- The seconds that `set-times-at` of preview2 gets to from the milliseconds. -/
def secondsAt (timestamp : Timestamp) : ℚ := toDouble (Preview2.millis timestamp / 1000)

/-- When it goes as promised. In preview2 the path is no link, and what is looked up is the
directory; in preview3 it is the object behind the links. -/
def Ok (shim : Shim) (host : Host) (w : World) (d : Descriptor) (op : Op) (a m : NewTimestamp) :
    Prop :=
  match shim, op with
  | .preview2, .setTimes =>
    FieldOkMs host w a (w.times d.node).atime ∧ FieldOkMs host w m (w.times d.node).mtime
  | .preview2, .setTimesAt _ path =>
    let field := FieldOk host w secondsAt (toDouble (wholeSeconds w / 1000))
    ∀ found, path = some found → found.target = some found.node ∧
      field a (w.times d.node).atime (w.times found.node).atime ∧
      field m (w.times d.node).mtime (w.times found.node).mtime
  | .preview3, .setTimes =>
    (a = .now ∨ m = .now) → host.Alike (wholeSeconds w) (w.clock * 10 ^ 6)
  | .preview3, .setTimesAt symlinkFollow path =>
    let field := FieldOk host w Preview3.timestampToSec (wholeSeconds w)
    ∀ found, path = some found →
      let target := found.target.getD found.node
      let object := if symlinkFollow then target else found.node
      field a (w.times target).atime (w.times object).atime ∧
        field m (w.times target).mtime (w.times object).mtime

/-! ## The numbers next to an instant -/

section Numbers

variable {convert : Timestamp → Except FsError ℚ} {w : World} {host : Host} {n a m : NewTimestamp}
  {old : Option Timestamp} {stats : Option Stat} {seen : Nat} {x y : ℚ} {c : Change}

/-- The number of a field, where `seen` was looked up and `now` is that of the current time. -/
def handed (number : Timestamp → ℚ) (now : ℚ) (n : NewTimestamp) (seen : Nat) : ℚ :=
  match n with
  | .noChange => number (nsToDateTime seen)
  | .now => now
  | .timestamp val => number val

end Numbers

/-! ## Each operation -/

section Operations

variable {host : Host} {w : World} {d : Descriptor} {op : Op} {a m n : NewTimestamp} {c : Change}
  {seen old : Nat} {x y : ℚ} {symlinkFollow : Bool} {path : Option Found}

end Operations

end Jco.Filesystem.Timestamps

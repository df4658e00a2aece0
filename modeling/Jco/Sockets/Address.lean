import Mathlib.Data.List.Basic

/-! # Socket addresses and socket errors

What the preview3 sockets check of an address, and how an error of the worker
becomes a `SocketError`.
-/

namespace Jco.Sockets

inductive IpAddressFamily where
  | ipv4
  | ipv6
deriving DecidableEq

structure IpSocketAddress where
  tag : IpAddressFamily
  port : Nat
  /-- Four octets or eight groups. -/
  address : List Nat
deriving DecidableEq

/-- An address of a network interface of the host. -/
structure Interface where
  family : IpAddressFamily
  address : List Nat

def isMulticastIpAddress (a : IpSocketAddress) : Bool :=
  match a.tag with
  | .ipv4 => a.address[0]?.any fun octet => 0xe0 ≤ octet && octet ≤ 0xef
  | .ipv6 => a.address[0]?.any fun group => group &&& 0xff00 == 0xff00

def isIpv4MappedAddress (a : IpSocketAddress) : Bool :=
  a.tag == .ipv6 && a.address.take 6 == [0, 0, 0, 0, 0, 0xffff]

def isWildcardIpAddress (a : IpSocketAddress) : Bool := a.address.all (· == 0)

def isBroadcastIpAddress (a : IpSocketAddress) : Bool :=
  a.tag == .ipv4 && a.address.all (· == 0xff)

def isUnicastIpAddress (a : IpSocketAddress) : Bool :=
  !isMulticastIpAddress a && !isBroadcastIpAddress a && !isWildcardIpAddress a

/-- A wildcard, or an address of one of the interfaces. -/
def isBindableIpAddress (interfaces : List Interface) (a : IpSocketAddress) : Bool :=
  isWildcardIpAddress a ||
    interfaces.any fun iface =>
      iface.family == a.tag &&
        a.address.zipIdx.all fun (segment, idx) => iface.address[idx]? == some segment

/-! ## Errors -/

inductive ErrorCode where
  | accessDenied
  | notSupported
  | invalidArgument
  | outOfMemory
  | timeout
  | addressInUse
  | addressNotBindable
  | remoteUnreachable
  | connectionRefused
  | connectionBroken
  | connectionReset
  | connectionAborted
  | datagramTooLarge
  | invalidState
  | other
deriving DecidableEq

def errorMap : List (String × ErrorCode) := [
  ("EACCES", .accessDenied),
  ("EPERM", .accessDenied),
  ("EOPNOTSUPP", .notSupported),
  ("ENOPROTOOPT", .notSupported),
  ("EPFNOSUPPORT", .notSupported),
  ("EPROTONOSUPPORT", .notSupported),
  ("ESOCKTNOSUPPORT", .notSupported),
  ("EINVAL", .invalidArgument),
  ("EAFNOSUPPORT", .invalidArgument),
  ("ENOMEM", .outOfMemory),
  ("ENOBUFS", .outOfMemory),
  ("ETIMEDOUT", .timeout),
  ("EADDRINUSE", .addressInUse),
  ("EADDRNOTAVAIL", .addressNotBindable),
  ("EHOSTUNREACH", .remoteUnreachable),
  ("EHOSTDOWN", .remoteUnreachable),
  ("ENETUNREACH", .remoteUnreachable),
  ("ENETDOWN", .remoteUnreachable),
  ("ENONET", .remoteUnreachable),
  ("ECONNREFUSED", .connectionRefused),
  ("EPIPE", .connectionBroken),
  ("ECONNRESET", .connectionReset),
  ("ECONNABORTED", .connectionAborted),
  ("EMSGSIZE", .datagramTooLarge),
  ("ENOTCONN", .invalidState),
  ("EISCONN", .invalidState),
  ("EALREADY", .invalidState),
  ("EDESTADDRREQ", .invalidArgument)]

/-- The entries of `CODE_MAP` that a number can hit. -/
def codeMap : List (Int × ErrorCode) := [
  (4053, .invalidState),
  (4083, .invalidState),
  (4090, .addressNotBindable),
  (4091, .addressInUse)]

/-- A thrown value, as far as `SocketError.from` looks at it. -/
inductive Thrown where
  | socketError (tag : ErrorCode)
  | number (n : Int)
  | string (s : String)
  | error (code message : Option String)
deriving DecidableEq

/-- The tag of `SocketError.from(err)`. -/
def socketErrorFrom : Thrown → ErrorCode
  | .socketError tag => tag
  | .number n => (codeMap.lookup n).getD .other
  | .string s => (errorMap.lookup s).getD .other
  | .error (some code) _ => (errorMap.lookup code).getD .other
  | .error none (some message) => (errorMap.lookup message).getD .other
  | .error none none => .other

/-- What an operation of a socket answers: it is over, it waits for the worker,
it throws a `SocketError` of that tag, or it throws something else. -/
inductive Answer where
  | done
  | pending
  | throws (tag : ErrorCode)
  | raises (e : Thrown)
deriving DecidableEq

/-- A reply of the worker. -/
abbrev Reply := Except Thrown Unit

/-- The check before every handler of the workers: a socket without an identifier
is not in their table. -/
def ask (socketId : Option Nat) (reply : Reply) : Reply :=
  match socketId with
  | none => .error (.error none (some "Invalid socket ID"))
  | some _ => reply

/-- `if (this.#socketId)`, of a bigint or null: `0n` is falsy. -/
def truthyId (socketId : Option Nat) : Bool := socketId.any (· != 0)

theorem socketErrorFrom_invalidSocketId :
    socketErrorFrom (.error none (some "Invalid socket ID")) = .other := by
  decide

end Jco.Sockets

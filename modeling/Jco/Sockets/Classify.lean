import Mathlib
import Jco.Preview2.UdpStream
import Jco.Sockets.Udp

/-!
# Classes of addresses

The predicates on socket addresses of both shims beside the ranges that they are named
after, and what `start-bind` and `start-connect` make of them; a UDP socket of the preview2 shim
has no `start-connect`. An address is read as the number that its segments spell, the ranges as
intervals of these numbers.
-/

namespace Jco.Sockets

/-! ## The ranges -/

namespace IpSocketAddress

variable (a : IpSocketAddress)

/-- The number that the segments spell. -/
def value : Nat :=
  match a.tag with
  | .ipv4 => a.address.foldl (fun v octet => v * 256 + octet) 0
  | .ipv6 => a.address.foldl (fun v group => v * 65536 + group) 0

/-- Four octets, or eight groups. -/
def WellFormed : Prop :=
  match a.tag with
  | .ipv4 => a.address.length = 4 ∧ ∀ segment ∈ a.address, segment < 256
  | .ipv6 => a.address.length = 8 ∧ ∀ segment ∈ a.address, segment < 65536

/-- 224.0.0.0/4 and ff00::/8 -/
def Multicast : Prop :=
  match a.tag with
  | .ipv4 => a.value / 2 ^ 28 = 0xe
  | .ipv6 => a.value / 2 ^ 120 = 0xff

/-- 255.255.255.255 -/
def Broadcast : Prop := a.tag = .ipv4 ∧ a.value = 2 ^ 32 - 1

/-- The unspecified address -/
def Unspecified : Prop := a.value = 0

/-- ::ffff:0:0/96 -/
def Mapped : Prop := a.tag = .ipv6 ∧ a.value / 2 ^ 32 = 0xffff

end IpSocketAddress

/-! ## The predicates of the preview2 shim -/

namespace Preview2

open Jco.Preview2.UdpStream

def isMulticastIpAddress (a : IpSocketAddress) : Bool :=
  a.tag == .ipv4 && a.address[0]? == some 0xe0 || a.tag == .ipv6 && a.address[0]? == some 0xff00

def isBroadcastIpAddress (a : IpSocketAddress) : Bool :=
  a.tag == .ipv4 && a.address[0]? == some 0xff && a.address[1]? == some 0xff &&
    a.address[2]? == some 0xff && a.address[3]? == some 0xff

def isUnicastIpAddress (a : IpSocketAddress) : Bool :=
  !isMulticastIpAddress a && !isBroadcastIpAddress a

/-- The check of `socketTcpBindStart` that throws `invalid-argument` -/
def bindRejects (family : IpAddressFamily) (localAddress : IpSocketAddress) : Bool :=
  family != localAddress.tag || !isUnicastIpAddress localAddress ||
    isIPv4MappedAddress localAddress

/-- The check of `socketTcpConnectStart` that throws `invalid-argument` -/
def connectRejects (family : IpAddressFamily) (remoteAddress : IpSocketAddress) : Bool :=
  isWildcardAddress remoteAddress || family != remoteAddress.tag ||
    !isUnicastIpAddress remoteAddress || isMulticastIpAddress remoteAddress ||
    remoteAddress.port == 0 || isIPv4MappedAddress remoteAddress

/-- The check of `socketUdpBindStart` that throws `invalid-argument` -/
def udpBindRejects (family : IpAddressFamily) (localAddress : IpSocketAddress) : Bool :=
  family != localAddress.tag || isIPv4MappedAddress localAddress

end Preview2

/-! ## What is promised -/

/-- The predicates of both shims hold exactly on their ranges. -/
structure Exact (a : IpSocketAddress) : Prop where
  multicast : (Preview2.isMulticastIpAddress a = true ↔ a.Multicast) ∧
    (isMulticastIpAddress a = true ↔ a.Multicast)
  broadcast : (Preview2.isBroadcastIpAddress a = true ↔ a.Broadcast) ∧
    (isBroadcastIpAddress a = true ↔ a.Broadcast)
  wildcard : (Jco.Preview2.UdpStream.isWildcardAddress a = true ↔ a.Unspecified) ∧
    (isWildcardIpAddress a = true ↔ a.Unspecified)
  mapped : (Jco.Preview2.UdpStream.isIPv4MappedAddress a = true ↔ a.Mapped) ∧
    (isIpv4MappedAddress a = true ↔ a.Mapped)

/-- The predicates are exact, and the shims accept the same addresses, whatever the socket. -/
structure Classified (a : IpSocketAddress) : Prop extends Exact a where
  bind : ∀ s : Tcp.TcpSocket, Preview2.bindRejects s.family a = !s.isValidLocalAddress a
  connect : ∀ s : Tcp.TcpSocket, Preview2.connectRejects s.family a = !s.isValidRemoteAddress a
  udpBind : ∀ s : Udp.UdpSocket, Preview2.udpBindRejects s.family a = s.refusesLocal a

/-- The addresses that the preview2 shim misreads: multicast blocks other than the first, and
groups `ffff` in the sixth place of addresses that are not mapped. -/
def Misread (a : IpSocketAddress) : Prop :=
  match a.tag with
  | .ipv4 => a.Multicast ∧ a.address[0]? ≠ some 0xe0
  | .ipv6 => a.Multicast ∧ a.address[0]? ≠ some 0xff00 ∨ a.address[5]? = some 0xffff ∧ ¬ a.Mapped

/-- The addresses that a UDP socket binds to in the preview2 shim only. -/
def UdpOnly (a : IpSocketAddress) : Prop := a.Multicast ∨ a.Broadcast

/-! ## One address -/

section Addresses

variable {port x₀ x₁ x₂ x₃ x₄ x₅ x₆ x₇ : Nat}

theorem land_ff00 {group : Nat} (h : group < 65536) :
    (group &&& 0xff00 == 0xff00) = true ↔ 0xff00 ≤ group := by
  rw [beq_iff_eq]
  constructor
  · intro hland
    rw [← hland]
    exact Nat.and_le_left
  · intro hle
    have hlow : ∀ r : Fin 256, (0xff00 + r.val) &&& 0xff00 = 0xff00 := by decide +kernel
    have hgroup := hlow ⟨group - 0xff00, by omega⟩
    rwa [show 0xff00 + (group - 0xff00) = group by omega] at hgroup

/-- An IPv4 address is its octets. -/
theorem octets {a : IpSocketAddress} (htag : a.tag = .ipv4) (h : a.WellFormed) :
    ∃ port x₀ x₁ x₂ x₃, a = ⟨.ipv4, port, [x₀, x₁, x₂, x₃]⟩ ∧
      x₀ < 256 ∧ x₁ < 256 ∧ x₂ < 256 ∧ x₃ < 256 := by
  rcases a with ⟨tag, port, address⟩
  cases htag
  rcases h with ⟨hlength, hbound⟩
  match address, hlength with
  | [x₀, x₁, x₂, x₃], _ =>
    refine ⟨port, x₀, x₁, x₂, x₃, rfl, ?_, ?_, ?_, ?_⟩ <;> exact hbound _ (by simp)

/-- An IPv6 address is its groups. -/
theorem groups {a : IpSocketAddress} (htag : a.tag = .ipv6) (h : a.WellFormed) :
    ∃ port x₀ x₁ x₂ x₃ x₄ x₅ x₆ x₇, a = ⟨.ipv6, port, [x₀, x₁, x₂, x₃, x₄, x₅, x₆, x₇]⟩ ∧
      x₀ < 65536 ∧ x₁ < 65536 ∧ x₂ < 65536 ∧ x₃ < 65536 ∧ x₄ < 65536 ∧ x₅ < 65536 ∧
      x₆ < 65536 ∧ x₇ < 65536 := by
  rcases a with ⟨tag, port, address⟩
  cases htag
  rcases h with ⟨hlength, hbound⟩
  match address, hlength with
  | [x₀, x₁, x₂, x₃, x₄, x₅, x₆, x₇], _ =>
    refine ⟨port, x₀, x₁, x₂, x₃, x₄, x₅, x₆, x₇, rfl, ?_, ?_, ?_, ?_, ?_, ?_, ?_, ?_⟩ <;>
      exact hbound _ (by simp)

/-- The classes by the octets. -/
theorem classes_ipv4 (h₀ : x₀ < 256) (h₁ : x₁ < 256) (h₂ : x₂ < 256) (h₃ : x₃ < 256) :
    ((⟨.ipv4, port, [x₀, x₁, x₂, x₃]⟩ : IpSocketAddress).Multicast ↔ 0xe0 ≤ x₀ ∧ x₀ ≤ 0xef) ∧
      ((⟨.ipv4, port, [x₀, x₁, x₂, x₃]⟩ : IpSocketAddress).Broadcast ↔
        x₀ = 255 ∧ x₁ = 255 ∧ x₂ = 255 ∧ x₃ = 255) ∧
      ((⟨.ipv4, port, [x₀, x₁, x₂, x₃]⟩ : IpSocketAddress).Unspecified ↔
        x₀ = 0 ∧ x₁ = 0 ∧ x₂ = 0 ∧ x₃ = 0) := by
  have hvalue : (⟨.ipv4, port, [x₀, x₁, x₂, x₃]⟩ : IpSocketAddress).value =
      ((x₀ * 256 + x₁) * 256 + x₂) * 256 + x₃ := by
    simp [IpSocketAddress.value]
  unfold IpSocketAddress.Multicast IpSocketAddress.Broadcast IpSocketAddress.Unspecified
  simp only [hvalue, true_and]
  refine ⟨?_, ?_, ?_⟩ <;> omega

/-- The classes by the groups. -/
theorem classes_ipv6 (h₀ : x₀ < 65536) (h₁ : x₁ < 65536) (h₂ : x₂ < 65536) (h₃ : x₃ < 65536)
    (h₄ : x₄ < 65536) (h₅ : x₅ < 65536) (h₆ : x₆ < 65536) (h₇ : x₇ < 65536) :
    ((⟨.ipv6, port, [x₀, x₁, x₂, x₃, x₄, x₅, x₆, x₇]⟩ : IpSocketAddress).Multicast ↔
        0xff00 ≤ x₀) ∧
      ((⟨.ipv6, port, [x₀, x₁, x₂, x₃, x₄, x₅, x₆, x₇]⟩ : IpSocketAddress).Unspecified ↔
        x₀ = 0 ∧ x₁ = 0 ∧ x₂ = 0 ∧ x₃ = 0 ∧ x₄ = 0 ∧ x₅ = 0 ∧ x₆ = 0 ∧ x₇ = 0) ∧
      ((⟨.ipv6, port, [x₀, x₁, x₂, x₃, x₄, x₅, x₆, x₇]⟩ : IpSocketAddress).Mapped ↔
        x₀ = 0 ∧ x₁ = 0 ∧ x₂ = 0 ∧ x₃ = 0 ∧ x₄ = 0 ∧ x₅ = 0xffff) := by
  have hvalue : (⟨.ipv6, port, [x₀, x₁, x₂, x₃, x₄, x₅, x₆, x₇]⟩ : IpSocketAddress).value =
      ((((((x₀ * 65536 + x₁) * 65536 + x₂) * 65536 + x₃) * 65536 + x₄) * 65536 + x₅) * 65536
        + x₆) * 65536 + x₇ := by
    simp [IpSocketAddress.value]
  unfold IpSocketAddress.Multicast IpSocketAddress.Unspecified IpSocketAddress.Mapped
  simp only [hvalue, true_and]
  refine ⟨?_, ?_, ?_⟩ <;> omega

theorem exact_ipv4 (h₀ : x₀ < 256) (h₁ : x₁ < 256) (h₂ : x₂ < 256) (h₃ : x₃ < 256) :
    Exact ⟨.ipv4, port, [x₀, x₁, x₂, x₃]⟩ ↔ ¬ Misread ⟨.ipv4, port, [x₀, x₁, x₂, x₃]⟩ := by
  rcases @classes_ipv4 port x₀ x₁ x₂ x₃ h₀ h₁ h₂ h₃ with ⟨hmulticast, hbroadcast, hunspecified⟩
  constructor
  · rintro hexact ⟨hyes, hfirst⟩
    have hseen := hexact.multicast.1.2 hyes
    simp [Preview2.isMulticastIpAddress] at hseen
    exact hfirst (congrArg some hseen)
  · intro hread
    have hfirst : 0xe0 ≤ x₀ ∧ x₀ ≤ 0xef → x₀ = 0xe0 := by
      intro hrange
      by_contra hne
      exact hread ⟨hmulticast.2 hrange, by simpa using hne⟩
    constructor
    case multicast =>
      rw [hmulticast]
      simp only [Preview2.isMulticastIpAddress, isMulticastIpAddress]
      simp
      omega
    case broadcast =>
      rw [hbroadcast]
      simp [Preview2.isBroadcastIpAddress, isBroadcastIpAddress, and_assoc]
    case wildcard =>
      rw [hunspecified]
      simp [Jco.Preview2.UdpStream.isWildcardAddress, isWildcardIpAddress, List.range_succ]
    case mapped =>
      simp [Jco.Preview2.UdpStream.isIPv4MappedAddress, isIpv4MappedAddress,
        IpSocketAddress.Mapped]

theorem exact_ipv6 (h₀ : x₀ < 65536) (h₁ : x₁ < 65536) (h₂ : x₂ < 65536) (h₃ : x₃ < 65536)
    (h₄ : x₄ < 65536) (h₅ : x₅ < 65536) (h₆ : x₆ < 65536) (h₇ : x₇ < 65536) :
    Exact ⟨.ipv6, port, [x₀, x₁, x₂, x₃, x₄, x₅, x₆, x₇]⟩ ↔
      ¬ Misread ⟨.ipv6, port, [x₀, x₁, x₂, x₃, x₄, x₅, x₆, x₇]⟩ := by
  rcases @classes_ipv6 port x₀ x₁ x₂ x₃ x₄ x₅ x₆ x₇ h₀ h₁ h₂ h₃ h₄ h₅ h₆ h₇ with
    ⟨hmulticast, hunspecified, hmapped⟩
  constructor
  · rintro hexact (⟨hyes, hfirst⟩ | ⟨hsixth, hno⟩)
    · have hseen := hexact.multicast.1.2 hyes
      simp [Preview2.isMulticastIpAddress] at hseen
      exact hfirst (congrArg some hseen)
    · refine hno (hexact.mapped.1.1 ?_)
      simpa [Jco.Preview2.UdpStream.isIPv4MappedAddress] using hsixth
  · intro hread
    -- each range comes down to the one segment that preview2 looks at
    have hfirst : 0xff00 ≤ x₀ → x₀ = 0xff00 := by
      intro hrange
      by_contra hne
      exact hread (.inl ⟨hmulticast.2 hrange, by simpa using hne⟩)
    have hsixth : x₅ = 0xffff → x₀ = 0 ∧ x₁ = 0 ∧ x₂ = 0 ∧ x₃ = 0 ∧ x₄ = 0 ∧ x₅ = 0xffff := by
      intro heq
      by_contra hno
      exact hread (.inr ⟨congrArg some heq, fun hyes => hno (hmapped.1 hyes)⟩)
    constructor
    case multicast =>
      rw [hmulticast, ← land_ff00 h₀]
      refine ⟨?_, by simp [isMulticastIpAddress]⟩
      rw [land_ff00 h₀]
      simp only [Preview2.isMulticastIpAddress]
      simp
      omega
    case broadcast =>
      simp [Preview2.isBroadcastIpAddress, isBroadcastIpAddress, IpSocketAddress.Broadcast]
    case wildcard =>
      rw [hunspecified]
      simp [Jco.Preview2.UdpStream.isWildcardAddress, isWildcardIpAddress, List.range_succ]
    case mapped =>
      rw [hmapped]
      refine ⟨?_, by simp [isIpv4MappedAddress]⟩
      simp only [Jco.Preview2.UdpStream.isIPv4MappedAddress]
      simp
      omega

end Addresses

section Accepts

variable {a : IpSocketAddress}

/-- The unspecified address is in no other range. -/
theorem unspecified_alone (h : a.Unspecified) : ¬ a.Multicast ∧ ¬ a.Broadcast := by
  unfold IpSocketAddress.Multicast IpSocketAddress.Broadcast
  rw [h]
  cases a.tag <;> simp

theorem udpOnly_not_mapped (h : UdpOnly a) : ¬ a.Mapped := by
  rintro ⟨htag, hvalue⟩
  rcases h with hmulticast | ⟨htag', -⟩
  · unfold IpSocketAddress.Multicast at hmulticast
    rw [htag] at hmulticast
    dsimp only at hmulticast
    omega
  · rw [htag] at htag'
    cases htag'

/-- Multicast and broadcast addresses are refused by one of the shims only. -/
theorem Classified.not_udpOnly (h : Classified a) : ¬ UdpOnly a := by
  intro honly
  have hmapped : Preview2.UdpStream.isIPv4MappedAddress a = false :=
    Bool.eq_false_iff.2 (mt h.mapped.1.1 (udpOnly_not_mapped honly))
  have hwildcard : isWildcardIpAddress a = false := by
    refine Bool.eq_false_iff.2 fun hyes => ?_
    rcases unspecified_alone (h.wildcard.2.1 hyes) with ⟨hno, hno'⟩
    exact honly.elim hno hno'
  have hsame := h.udpBind (.create a.tag 0)
  have hunicast : isUnicastIpAddress a = false := by
    unfold isUnicastIpAddress
    rcases honly with hyes | hyes
    · simp [h.multicast.2.2 hyes]
    · simp [h.broadcast.2.2 hyes]
  simp [Preview2.udpBindRejects, Udp.UdpSocket.refusesLocal, Udp.UdpSocket.create, hmapped,
    hwildcard, hunicast] at hsame

/-- Where the predicates are exact the shims accept the same addresses, but for a UDP socket that
is bound to a multicast or the broadcast address. -/
theorem Exact.classified (h : Exact a) (honly : ¬ UdpOnly a) : Classified a := by
  have hmulticast := Bool.eq_iff_iff.2 (h.multicast.1.trans h.multicast.2.symm)
  have hbroadcast := Bool.eq_iff_iff.2 (h.broadcast.1.trans h.broadcast.2.symm)
  have hwildcard := Bool.eq_iff_iff.2 (h.wildcard.1.trans h.wildcard.2.symm)
  have hmapped := Bool.eq_iff_iff.2 (h.mapped.1.trans h.mapped.2.symm)
  have halone : isWildcardIpAddress a = true →
      isMulticastIpAddress a = false ∧ isBroadcastIpAddress a = false := by
    intro hyes
    rcases unspecified_alone (h.wildcard.2.1 hyes) with ⟨hno, hno'⟩
    exact ⟨Bool.eq_false_iff.2 (mt h.multicast.2.1 hno),
      Bool.eq_false_iff.2 (mt h.broadcast.2.1 hno')⟩
  refine ⟨h, fun s => ?_, fun s => ?_, fun s => ?_⟩
  · unfold Preview2.bindRejects Preview2.isUnicastIpAddress Tcp.TcpSocket.isValidLocalAddress
      isUnicastIpAddress
    rw [hmulticast, hbroadcast, hmapped]
    cases hw : isWildcardIpAddress a with
    | false => simp [bne]
    | true =>
      rw [(halone hw).1, (halone hw).2]
      simp [bne]
  · unfold Preview2.connectRejects Preview2.isUnicastIpAddress
      Tcp.TcpSocket.isValidRemoteAddress isUnicastIpAddress
    rw [hmulticast, hbroadcast, hwildcard, hmapped]
    cases isWildcardIpAddress a <;> cases isMulticastIpAddress a <;>
      cases isBroadcastIpAddress a <;> simp [bne, Bool.or_comm]
  · -- an address that is not for UDP only is unicast or unspecified
    have hno : isMulticastIpAddress a = false :=
      Bool.eq_false_iff.2 fun hyes => honly (.inl (h.multicast.2.1 hyes))
    have hno' : isBroadcastIpAddress a = false :=
      Bool.eq_false_iff.2 fun hyes => honly (.inr (h.broadcast.2.1 hyes))
    unfold Preview2.udpBindRejects Udp.UdpSocket.refusesLocal isUnicastIpAddress
    rw [hmapped, hno, hno']
    simp [bne, Bool.beq_comm]

/-- The shims classify an address as its range says, and accept the same addresses, exactly
where the preview2 shim does not misread it and it is neither multicast nor the broadcast
address. -/
theorem classified_iff (h : a.WellFormed) : Classified a ↔ ¬ Misread a ∧ ¬ UdpOnly a := by
  suffices hexact : Exact a ↔ ¬ Misread a from
    ⟨fun hall => ⟨hexact.1 hall.toExact, hall.not_udpOnly⟩,
      fun hread => (hexact.2 hread.1).classified hread.2⟩
  cases htag : a.tag with
  | ipv4 =>
    rcases octets htag h with ⟨port, x₀, x₁, x₂, x₃, rfl, h₀, h₁, h₂, h₃⟩
    exact exact_ipv4 h₀ h₁ h₂ h₃
  | ipv6 =>
    rcases groups htag h with
      ⟨port, x₀, x₁, x₂, x₃, x₄, x₅, x₆, x₇, rfl, h₀, h₁, h₂, h₃, h₄, h₅, h₆, h₇⟩
    exact exact_ipv6 h₀ h₁ h₂ h₃ h₄ h₅ h₆ h₇

/-- The global unicast address 2001:db8::ffff:0:1. -/
def documentation : IpSocketAddress := ⟨.ipv6, 80, [0x2001, 0xdb8, 0, 0, 0, 0xffff, 0, 1]⟩

theorem loopback_classified : Classified ⟨.ipv4, 80, [127, 0, 0, 1]⟩ := by
  refine (classified_iff ?_).2 ?_
  · exact ⟨rfl, by decide⟩
  · constructor
    · rintro ⟨hmulticast, -⟩
      cases hmulticast
    · rintro (hmulticast | ⟨-, hbroadcast⟩)
      · cases hmulticast
      · cases hbroadcast

/-- A group `ffff` in an ordinary address makes the preview2 shim reject it. -/
theorem documentation_rejected : documentation.WellFormed ∧ ¬ Classified documentation := by
  refine ⟨⟨rfl, by decide⟩, fun hall => ?_⟩
  have hmapped : documentation.Mapped := hall.mapped.1.1 rfl
  cases hmapped.2

end Accepts

end Jco.Sockets

import Dataplane.Enumerated

/-!
# Header kinds and the groups they belong to

A frame holds at most one entry per group, and the groups follow each other on the wire in the
order in which they are listed. Each kind of header belongs to one group; the kind `none`, which
ends parsing, belongs to none.
-/

namespace Dataplane

/-- The layer a header lives in, outermost first. -/
inductive HeaderGroup where
  /-- Metadata, never on the wire. -/
  | packet
  /-- Ethernet. -/
  | l2
  /-- IP and GRE chains, ARP, label stacks. -/
  | l3
  /-- TCP, UDP, ICMP. -/
  | l4
  /-- Whatever follows the headers. -/
  | payload
  deriving DecidableEq

namespace HeaderGroup

instance : Enumerated HeaderGroup where
  all := [packet, l2, l3, l4, payload]
  name
    | packet => "Packet"
    | l2 => "L2"
    | l3 => "L3"
    | l4 => "L4"
    | payload => "Payload"

/-- The groups in wire order. -/
def all : List HeaderGroup := Enumerated.all

/-- The place of a group in wire order. -/
def index : HeaderGroup → Nat
  | packet => 0
  | l2 => 1
  | l3 => 2
  | l4 => 3
  | payload => 4

/-- The group next outside. -/
def outer? : HeaderGroup → Option HeaderGroup
  | packet => none
  | l2 => some packet
  | l3 => some l2
  | l4 => some l3
  | payload => some l4

/-- The group next inside. -/
def inner? : HeaderGroup → Option HeaderGroup
  | packet => some l2
  | l2 => some l3
  | l3 => some l4
  | l4 => some payload
  | payload => none

/-- The groups outside `g`, nearest first. -/
def outside : HeaderGroup → List HeaderGroup
  | packet => []
  | l2 => [packet]
  | l3 => [l2, packet]
  | l4 => [l3, l2, packet]
  | payload => [l4, l3, l2, packet]

/-- The groups inside `g`, nearest first. -/
def inside : HeaderGroup → List HeaderGroup
  | packet => [l2, l3, l4, payload]
  | l2 => [l3, l4, payload]
  | l3 => [l4, payload]
  | l4 => [payload]
  | payload => []

/-- The display text of a group. -/
def text : HeaderGroup → String
  | packet => "PACKET"
  | l2 => "L2"
  | l3 => "L3"
  | l4 => "L4"
  | payload => "PAYLOAD"

end HeaderGroup

/-- A kind of header. -/
inductive HeaderKind where
  /-- Nothing follows. -/
  | none
  /-- The remaining bytes have no further structure. -/
  | payload
  /-- Per-packet metadata. -/
  | metadata
  /-- Ethernet without tags. -/
  | eth
  /-- Ethernet with one tag. -/
  | ethVlan
  /-- Ethernet with two stacked tags. -/
  | ethStacked
  /-- IPv4. -/
  | ip4
  /-- IPv6. -/
  | ip6
  /-- Generic routing encapsulation. -/
  | gre
  /-- IPv6 in IPv4, the outer destination taken from a 6to4 address. -/
  | sixToFourAuto
  /-- As `sixToFourAuto`, the outer source taken from a 6to4 address too. -/
  | sixToFourSecure
  /-- Address resolution for IPv4 over Ethernet. -/
  | arp
  /-- A label stack. -/
  | mpls
  /-- TCP. -/
  | tcp
  /-- UDP. -/
  | udp
  /-- ICMP for IPv4. -/
  | icmp4
  /-- ICMP for IPv6. -/
  | icmp6
  deriving DecidableEq

namespace HeaderKind

instance : Enumerated HeaderKind where
  all := [none, payload, metadata, eth, ethVlan, ethStacked, ip4, ip6, gre, sixToFourAuto,
    sixToFourSecure, arp, mpls, tcp, udp, icmp4, icmp6]
  name
    | none => "None"
    | payload => "Opaque"
    | metadata => "Metadata"
    | eth => "Eth"
    | ethVlan => "EthVlan"
    | ethStacked => "Eth1Q"
    | ip4 => "Ip4"
    | ip6 => "Ip6"
    | gre => "Gre"
    | sixToFourAuto => "SixToFourAuto"
    | sixToFourSecure => "SixToFourSecure"
    | arp => "Arp"
    | mpls => "Mpls"
    | tcp => "Tcp"
    | udp => "Udp"
    | icmp4 => "Icmp4"
    | icmp6 => "Icmp6"

/-- The group a header of this kind is placed in. -/
def group? : HeaderKind → Option HeaderGroup
  | none => .none
  | payload => some .payload
  | metadata => some .packet
  | eth | ethVlan | ethStacked => some .l2
  | ip4 | ip6 | gre | sixToFourAuto | sixToFourSecure | arp | mpls => some .l3
  | tcp | udp | icmp4 | icmp6 => some .l4

/-- Is this an IP header? -/
def isIp : HeaderKind → Bool
  | ip4 | ip6 => true
  | _ => false

/-- The display text of a kind. -/
def text : HeaderKind → String
  | none => "NONE"
  | payload => "OPAQUE"
  | metadata => "METADATA"
  | eth => "ETH"
  | ethVlan => "ETH_VLAN"
  | ethStacked => "ETH_1Q"
  | ip4 => "IP4"
  | ip6 => "IP6"
  | gre => "GRE"
  | sixToFourAuto => "6TO4_AUTO"
  | sixToFourSecure => "6TO4_SECURE"
  | arp => "ARP"
  | mpls => "MPLS"
  | tcp => "TCP"
  | udp => "UDP"
  | icmp4 => "ICMP4"
  | icmp6 => "ICMP6"

/-- The kind a display text names, letters of either case allowed. -/
def ofText (s : String) : Except String HeaderKind :=
  match (Enumerated.all : List HeaderKind).find? (·.text == s.map Char.toUpper) with
  | some k => .ok k
  | .none => .error s!"unknown header kind: {s}"

end HeaderKind

end Dataplane

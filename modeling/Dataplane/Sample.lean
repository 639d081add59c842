import Dataplane.Header.Ethernet
import Dataplane.Header.Transport

/-!
# Sample frames

Complete frames, checksums included, between a guest and a remote host behind a gateway. They are
written byte by byte, so that a parser can be tried on frames that no header of the engine built.
-/

namespace Dataplane.Sample

def guestMac : Bytes := [0xA8, 0x40, 0x25, 0xF7, 0x00, 0x01]
def gatewayMac : Bytes := [0xA8, 0x40, 0x25, 0xFF, 0x77, 0x77]
def guestIp : Bytes := [10, 0, 0, 5]
def remoteIp : Bytes := [52, 10, 128, 69]

/-- The type of frames without known content. -/
def experimentalType : Nat := 0x88B5

/-- The addresses of the guest and the remote host. -/
def addrs : IpAddrs := .v4 guestIp remoteIp

/-- An untagged Ethernet header. -/
def ethernet (dst src : Bytes) (type : Nat) : Bytes := dst ++ src ++ Bytes.ofNat 2 type

/-- An IPv4 header from the guest to the remote host, followed by `body`. -/
def ipv4 (proto : UInt8) (body : Bytes) : Bytes :=
  let front := [0x45, 0] ++ Bytes.ofNat 2 (20 + body.length) ++ [0x12, 0x34, 0x40, 0, 64, proto]
  let back := guestIp ++ remoteIp
  front ++ Checksum.ofBytes (front ++ [0, 0] ++ back) ++ back ++ body

/-- The checksum of an upper-layer packet whose checksum field is zero. -/
def checksum (proto : UInt8) (b : Bytes) : Bytes :=
  ((addrs.pseudoHeader proto b.length).add b).header

/-- A TCP header with the push flag, followed by `payload`. -/
def tcp (payload : Bytes) : Bytes :=
  let front := Bytes.ofNat 2 44490 ++ Bytes.ofNat 2 80 ++ Bytes.ofNat 4 4224936861 ++
    [0, 0, 0, 0, 0x50, 0x08] ++ Bytes.ofNat 2 64240
  let back := [0, 0] ++ payload
  front ++ checksum IpProtocol.tcp (front ++ [0, 0] ++ back) ++ back

/-- A UDP header, followed by `payload`. -/
def udp (srcPort dstPort : Nat) (payload : Bytes) : Bytes :=
  let front := Bytes.ofNat 2 srcPort ++ Bytes.ofNat 2 dstPort ++ Bytes.ofNat 2 (8 + payload.length)
  let sum := checksum IpProtocol.udp (front ++ [0, 0] ++ payload)
  front ++ (if sum = [0, 0] then [0xFF, 0xFF] else sum) ++ payload

/-- A TCP segment in an untagged frame. -/
def tcpFrame (payload : Bytes) : Bytes :=
  ethernet gatewayMac guestMac EtherType.ip4 ++ ipv4 IpProtocol.tcp (tcp payload)

/-- A UDP datagram in an untagged frame. -/
def udpFrame (srcPort dstPort : Nat) (payload : Bytes) : Bytes :=
  ethernet gatewayMac guestMac EtherType.ip4 ++ ipv4 IpProtocol.udp (udp srcPort dstPort payload)

/-- A TCP segment in a frame with one tag, which carries the low 12 bits of `vlan`. -/
def taggedTcpFrame (vlan : Nat) (payload : Bytes) : Bytes :=
  ethernet gatewayMac guestMac EtherType.vlan ++ Bytes.ofNat 2 (vlan % 4096) ++
    Bytes.ofNat 2 EtherType.ip4 ++ ipv4 IpProtocol.tcp (tcp payload)

/-- A frame without known content, padded to `len` bytes. -/
def rawFrame (dst : Bytes) (len : Nat) : Bytes :=
  ethernet dst guestMac experimentalType ++ (List.range (len - 14)).map UInt8.ofNat

/-- An IPv4 packet with the largest time to live, around a TCP segment without a checksum. -/
def fullTtlPacket : Bytes :=
  [0x45, 0x01, 0x00, 0x2C, 0, 0, 0, 0, 0xFF, 0x06, 0xA1, 0xAD, 1, 2, 3, 4, 10, 11, 12, 13,
    0x04, 0x00, 0x00, 0x50, 0, 0, 0, 1, 0, 0, 0, 0, 0x50, 0x10, 0xFF, 0xFF, 0, 0, 0, 0,
    0xDE, 0xAD, 0xBE, 0xEF]

end Dataplane.Sample

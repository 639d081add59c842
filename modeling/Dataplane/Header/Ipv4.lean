import Dataplane.Header.Error
import Dataplane.Header.Surroundings

/-!
# IPv4 headers

An IPv4 header is a fixed part of twenty bytes followed by options. Its checksum covers both.

## The model

Every update but one leaves the checksum to the next rebuild and reports the header dirty. A
decrement of the time to live adjusts the checksum at once, by taking the old word that holds it
out of the sum and adding the new one, and leaves the header clean. A rebuild stamps the length and
the protocol, and computes the checksum only if one of them changed or the header is dirty.
-/

namespace Dataplane

namespace IpProtocol

def icmp4 : UInt8 := 1
def ip4 : UInt8 := 4
def tcp : UInt8 := 6
def udp : UInt8 := 17
def ip6 : UInt8 := 41
def gre : UInt8 := 47
def icmp6 : UInt8 := 58

/-- The kind of header a protocol number announces. -/
def kind (proto : UInt8) : HeaderKind :=
  if proto = icmp4 then .icmp4
  else if proto = ip4 then .ip4
  else if proto = tcp then .tcp
  else if proto = udp then .udp
  else if proto = ip6 then .ip6
  else if proto = gre then .gre
  else if proto = icmp6 then .icmp6
  else .payload

/-- The protocol number that announces a kind, if there is one. -/
def ofKind? : HeaderKind → Option UInt8
  | .icmp4 => some icmp4
  | .ip4 => some ip4
  | .tcp => some tcp
  | .udp => some udp
  | .ip6 => some ip6
  | .gre => some gre
  | .icmp6 => some icmp6
  | _ => none

end IpProtocol

/-- An IPv4 header. -/
structure Ipv4 where
  /-- The fixed part. -/
  base : Block 20
  /-- The options. -/
  options : Bytes
  deriving DecidableEq

namespace Ipv4

def firstSlot : Slot 20 := .of 0 1
def qosSlot : Slot 20 := .of 1 1
def totalLenSlot : Slot 20 := .of 2 2
def fragmentSlot : Slot 20 := .of 6 2
def ttlSlot : Slot 20 := .of 8 1
def protoSlot : Slot 20 := .of 9 1
def ttlWordSlot : Slot 20 := .of 8 2
def checksumSlot : Slot 20 := .of 10 2
def srcSlot : Slot 20 := .of 12 4
def dstSlot : Slot 20 := .of 16 4
def versionBits : BitRange := ⟨4, 4⟩

/-- The header that encapsulation adds: no options, "do not fragment", and a time to live of 64. -/
def fresh : Ipv4 :=
  ⟨⟨[0x45, 0, 0, 0, 0, 0, 0x40, 0, 64, 0xFF, 0, 0, 0, 0, 0, 0, 0, 0, 0, 0], by decide⟩, []⟩

/-- A fresh header between the given addresses. -/
def between (src dst : Bytes) : Ipv4 :=
  { fresh with base := (fresh.base.set srcSlot src).set dstSlot dst }

/-! ### What the header says -/

/-- The length of the header. -/
def wireLen (h : Ipv4) : Nat := 20 + h.options.length

/-- The length the header claims for itself and everything inside. -/
def totalLen (h : Ipv4) : Nat := h.base.num totalLenSlot

/-- The number of bytes the header claims to follow it. -/
def payloadLen (h : Ipv4) : Nat := h.totalLen - h.wireLen

def proto (h : Ipv4) : UInt8 := h.base.byte 9
def ttl (h : Ipv4) : UInt8 := h.base.byte 8
def src (h : Ipv4) : Bytes := h.base.get srcSlot
def dst (h : Ipv4) : Bytes := h.base.get dstSlot
def checksum (h : Ipv4) : Bytes := h.base.get checksumSlot

/-- Is this a fragment, and not a whole datagram? More fragments follow, or the offset is not
zero. -/
def isFragment (h : Ipv4) : Bool := h.base.num fragmentSlot % 0x4000 ≠ 0

/-- The kind of what follows. The content of a fragment is not looked into. -/
def nextKind (h : Ipv4) : HeaderKind :=
  if h.isFragment then .payload else IpProtocol.kind h.proto

/-! ### The wire form -/

/-- The bytes on the wire. -/
def emit (h : Ipv4) : Bytes := h.base.bytes ++ h.options

/-- Reads a header. -/
def read (f : Frame) : Except ParseError (Ipv4 × Frame) := do
  let first ← ParseError.ofRead (f.peek 0 1)
  let headerLen := first.toNat % 16 * 4
  if first.toNat / 16 ≠ 4 then throw (.badHeader .ip4 .versionNot4)
  if headerLen < 20 then throw (.badHeader .ip4 .headerLengthTooSmall)
  let _ ← ParseError.ofRead (f.peek 0 headerLen)
  let (base, f) ← ParseError.ofRead (f.readBlock 20)
  let (options, f) ← ParseError.ofRead (f.read (headerLen - 20))
  if base.num totalLenSlot < headerLen then throw (.badHeader .ip4 .totalLengthTooSmall)
  return (⟨base, options⟩, f)

/-- The header that `b` writes, if it is as long as this one. -/
def reload? (h : Ipv4) (b : Bytes) : Option Ipv4 :=
  match Block.ofBytes? 20 (b.take 20) with
  | some base => if b.length = h.wireLen then some ⟨base, b.drop 20⟩ else none
  | none => none

/-! ### Fields -/

/-- The slot of a field that is a whole number of bytes. -/
def slot? : FieldNum → Option (Slot 20)
  | .ipAddrSrc => some srcSlot
  | .ipAddrDst => some dstSlot
  | .ipHop => some ttlSlot
  | .ipProtocol => some protoSlot
  | .ipQos => some qosSlot
  | _ => none

/-- The value of a field. -/
def get? (h : Ipv4) (num : FieldNum) : Option Bytes :=
  if num = .ipVersion then some (h.base.getBits firstSlot versionBits 1)
  else (slot? num).map h.base.get

/-- The header with the time to live decremented by `arg` and the checksum adjusted. -/
def decrementTtl (h : Ipv4) (arg : Bytes) : Ipv4 :=
  let base := h.base.update ttlSlot .dec arg
  let sum := Checksum.ofHeader (h.base.byte 10) (h.base.byte 11)
  let sum := (sum.sub (h.base.get ttlWordSlot)).add (base.get ttlWordSlot)
  { h with base := base.set checksumSlot sum.header }

/-- The header after an operation on a field, and whether it is now dirty. -/
def update? (h : Ipv4) (num : FieldNum) (op : FieldOp) (arg : Bytes) : Option (Ipv4 × Bool) :=
  if num = .ipHop ∧ op = .dec then some (h.decrementTtl arg, false)
  else if num = .ipVersion then
    some ({ h with base := h.base.updateBits firstSlot versionBits 1 op arg }, true)
  else (slot? num).map fun s => ({ h with base := h.base.update s op arg }, true)

/-! ### Derived fields -/

/-- The header with its checksum computed. -/
def computeChecksum (h : Ipv4) : Ipv4 :=
  let base := h.base.setNum checksumSlot 0
  { h with base := base.set checksumSlot ((Checksum.compute base.bytes).add h.options).header }

/-- Stamps the length and, if given, the protocol of what is inside. -/
def rebuild (h : Ipv4) (innerLen : Nat) (proto : Option UInt8) (dirty : Bool) : Ipv4 :=
  let total := min (h.wireLen + innerLen) 65535
  let proto := proto.getD h.proto
  let base := (h.base.setNum totalLenSlot total).set protoSlot [proto]
  if total ≠ h.totalLen ∨ proto ≠ h.proto ∨ dirty then
    computeChecksum { h with base }
  else { h with base }

end Ipv4

end Dataplane

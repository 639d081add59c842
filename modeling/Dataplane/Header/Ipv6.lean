import Dataplane.Header.Ipv4

/-!
# IPv6 headers

An IPv6 header is forty bytes. Extension headers are not walked: a next header that is no header
of the engine leaves the rest of the frame without structure.

## The model

There is no header checksum, so a change of the hop limit leaves the header clean. A rebuild stamps
the payload length and, where it is known, the next header.
-/

namespace Dataplane

/-- An IPv6 header. -/
structure Ipv6 where
  /-- The bytes of the header. -/
  base : Block 40
  deriving DecidableEq

namespace Ipv6

def wordSlot : Slot 40 := .of 0 4
def payloadLenSlot : Slot 40 := .of 4 2
def nextHeaderSlot : Slot 40 := .of 6 1
def hopLimitSlot : Slot 40 := .of 7 1
def srcSlot : Slot 40 := .of 8 16
def dstSlot : Slot 40 := .of 24 16
def versionBits : BitRange := ⟨28, 4⟩
def trafficClassBits : BitRange := ⟨20, 8⟩
def flowLabelBits : BitRange := ⟨0, 20⟩

/-- The header that encapsulation adds, with a hop limit of 64. -/
def fresh : Ipv6 :=
  ⟨(((Block.zero 40).setBits wordSlot versionBits 6).set nextHeaderSlot [0xFF]).set
    hopLimitSlot [64]⟩

/-! ### What the header says -/

/-- The number of bytes the header claims to follow it. -/
def payloadLen (h : Ipv6) : Nat := h.base.num payloadLenSlot

def nextHeader (h : Ipv6) : UInt8 := h.base.byte 6
def hopLimit (h : Ipv6) : UInt8 := h.base.byte 7
def src (h : Ipv6) : Bytes := h.base.get srcSlot
def dst (h : Ipv6) : Bytes := h.base.get dstSlot

/-- The kind of what follows. ICMP for IPv4 is not looked for in here. -/
def nextKind (h : Ipv6) : HeaderKind :=
  match IpProtocol.kind h.nextHeader with
  | .icmp4 => .payload
  | k => k

/-! ### The wire form -/

/-- The bytes on the wire. -/
def emit (h : Ipv6) : Bytes := h.base.bytes

/-- Reads a header. -/
def read (f : Frame) : Except ParseError (Ipv6 × Frame) := do
  let (base, f) ← ParseError.ofRead (f.readBlock 40)
  if base.bits wordSlot versionBits ≠ 6 then throw (.badHeader .ip6 .versionNot6)
  return (⟨base⟩, f)

/-- The header that `b` writes, if it is as long as a header. -/
def reload? (b : Bytes) : Option Ipv6 := (Block.ofBytes? 40 b).map .mk

/-! ### Fields -/

/-- The bit range of a field in the first word, and the width of its value. -/
def bitField? : FieldNum → Option (BitRange × Nat)
  | .ipVersion => some (versionBits, 1)
  | .ipQos => some (trafficClassBits, 1)
  | .ipFlowLabel => some (flowLabelBits, 4)
  | _ => none

/-- The slot of a field that is a whole number of bytes. -/
def slot? : FieldNum → Option (Slot 40)
  | .ipAddrSrc => some srcSlot
  | .ipAddrDst => some dstSlot
  | .ipHop => some hopLimitSlot
  | .ipProtocol => some nextHeaderSlot
  | _ => none

/-- The value of a field. -/
def get? (h : Ipv6) (num : FieldNum) : Option Bytes :=
  match bitField? num with
  | some (r, width) => some (h.base.getBits wordSlot r width)
  | none => (slot? num).map h.base.get

/-- The header after an operation on a field, and whether it is now dirty. -/
def update? (h : Ipv6) (num : FieldNum) (op : FieldOp) (arg : Bytes) : Option (Ipv6 × Bool) :=
  match bitField? num with
  | some (r, width) => some (⟨h.base.updateBits wordSlot r width op arg⟩, true)
  | none => (slot? num).map fun s => (⟨h.base.update s op arg⟩, num ≠ .ipHop)

/-! ### Derived fields -/

/-- Stamps the length and, if given, the protocol of what is inside. -/
def rebuild (h : Ipv6) (innerLen : Nat) (next : Option UInt8) : Ipv6 :=
  let base := h.base.setNum payloadLenSlot (min innerLen 65535)
  match next with
  | some p => ⟨base.set nextHeaderSlot [p]⟩
  | none => ⟨base⟩

end Ipv6

end Dataplane

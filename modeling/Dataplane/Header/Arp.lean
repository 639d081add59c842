import Dataplane.Header.Ethernet

/-!
# Address resolution

An ARP header for IPv4 over Ethernet: twenty-eight bytes, of which the first six say that the
addresses are Ethernet and IPv4 ones. A header that says anything else is refused, also when it is
overwritten.
-/

namespace Dataplane

/-- An ARP header. -/
structure Arp where
  /-- The bytes of the header. -/
  base : Block 28
  deriving DecidableEq

namespace Arp

def hardwareSlot : Slot 28 := .of 0 2
def protocolSlot : Slot 28 := .of 2 2
def opSlot : Slot 28 := .of 6 2
def shaSlot : Slot 28 := .of 8 6
def spaSlot : Slot 28 := .of 14 4
def thaSlot : Slot 28 := .of 18 6
def tpaSlot : Slot 28 := .of 24 4

/-- What keeps a header from being one for IPv4 over Ethernet. -/
def fault? (b : Block 28) : Option HeaderFault :=
  if b.num hardwareSlot ≠ 1 then some .hardwareNotEthernet
  else if b.num protocolSlot ≠ EtherType.ip4 then some .protocolNotIpv4
  else if b.byte 4 ≠ 6 ∨ b.byte 5 ≠ 4 then some .badAddressLength
  else none

/-- Reads a header. -/
def read (f : Frame) : Except ParseError (Arp × Frame) := do
  let (base, f) ← ParseError.ofRead (f.readBlock 28)
  match fault? base with
  | some fault => throw (.badHeader .arp fault)
  | none => return (⟨base⟩, f)

/-- The bytes on the wire. -/
def emit (h : Arp) : Bytes := h.base.bytes

/-- The header that `b` writes, if it is one. -/
def reload? (b : Bytes) : Option Arp :=
  match Block.ofBytes? 28 b with
  | some base => if fault? base = none then some ⟨base⟩ else none
  | none => none

/-- The slot of a field. -/
def slot? : FieldNum → Option (Slot 28)
  | .arpOp => some opSlot
  | .arpSha => some shaSlot
  | .arpSpa => some spaSlot
  | .arpTha => some thaSlot
  | .arpTpa => some tpaSlot
  | _ => none

/-- The value of a field. -/
def get? (h : Arp) (num : FieldNum) : Option Bytes := (slot? num).map h.base.get

/-- The header after an operation on a field. -/
def update? (h : Arp) (num : FieldNum) (op : FieldOp) (arg : Bytes) : Option Arp :=
  (slot? num).map fun s => ⟨h.base.update s op arg⟩

end Arp

end Dataplane

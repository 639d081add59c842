import Dataplane.Header.Ipv4

/-!
# TCP and UDP

Both checksums cover the header, everything inside it, and the pseudo-header of the innermost IP
header.

## The model

A checksum is computed again only when `PseudoHeader.stale?` says so, and never without an IP
header. UDP over IPv4 is sent without a checksum; over IPv6 a computed zero is sent as all ones. A
UDP rebuild also stamps the length, and a change of length makes the checksum stale.
-/

namespace Dataplane

/-- A TCP header. -/
structure Tcp where
  /-- The fixed part. -/
  base : Block 20
  /-- The options. -/
  options : Bytes
  /-- The addresses the checksum was last computed over. -/
  pseudo : PseudoHeader
  deriving DecidableEq

namespace Tcp

def srcPortSlot : Slot 20 := .of 0 2
def dstPortSlot : Slot 20 := .of 2 2
def seqSlot : Slot 20 := .of 4 4
def ackSlot : Slot 20 := .of 8 4
def offsetSlot : Slot 20 := .of 12 1
def flagsSlot : Slot 20 := .of 13 1
def checksumSlot : Slot 20 := .of 16 2

/-- A header without options. -/
def fresh : Tcp := ⟨(Block.zero 20).set offsetSlot [0x50], [], .unseen⟩

/-- The number of bytes on the wire. -/
def wireLen (h : Tcp) : Nat := 20 + h.options.length

/-- The bytes on the wire. -/
def emit (h : Tcp) : Bytes := h.base.bytes ++ h.options

/-- Reads a header. -/
def read (f : Frame) : Except ParseError (Tcp × Frame) := do
  let (base, f) ← ParseError.ofRead (f.readBlock 20)
  let headerLen := (base.byte 12).toNat / 16 * 4
  if headerLen < 20 then throw (.badHeader .tcp .dataOffsetTooSmall)
  let (options, f) ← ParseError.ofRead (f.read (headerLen - 20))
  return (⟨base, options, .unseen⟩, f)

/-- The header that `b` writes, if it is one. The memory of the checksum stays. -/
def reload? (h : Tcp) (b : Bytes) : Option Tcp :=
  match read (.ofBytes b) with
  | .ok (h', f) => if f.unread = [] then some { h' with pseudo := h.pseudo } else none
  | .error _ => none

/-- The slot of a field. -/
def slot? : FieldNum → Option (Slot 20)
  | .l4PortSrc => some srcPortSlot
  | .l4PortDst => some dstPortSlot
  | .tcpSeq => some seqSlot
  | .tcpAck => some ackSlot
  | .tcpFlags => some flagsSlot
  | _ => none

/-- The value of a field. -/
def get? (h : Tcp) (num : FieldNum) : Option Bytes := (slot? num).map h.base.get

/-- The header after an operation on a field. -/
def update? (h : Tcp) (num : FieldNum) (op : FieldOp) (arg : Bytes) : Option Tcp :=
  (slot? num).map fun s => { h with base := h.base.update s op arg }

/-- Remembers the addresses the parsed checksum stands for. -/
def attach (h : Tcp) (around : Surroundings) : Tcp := { h with pseudo := .attach around }

/-- Computes the checksum if it is stale. -/
def rebuild (h : Tcp) (around : Surroundings) (dirty : Bool) : Tcp :=
  match h.pseudo.stale? around dirty with
  | (pseudo, none) => { h with pseudo }
  | (pseudo, some addrs) =>
    let cleared := h.base.setNum checksumSlot 0
    let sum := upperLayerChecksum addrs IpProtocol.tcp (cleared.bytes ++ h.options) around
    { h with base := cleared.set checksumSlot sum, pseudo }

end Tcp

/-- A UDP header. -/
structure Udp where
  /-- The bytes of the header. -/
  base : Block 8
  /-- The addresses the checksum was last computed over. -/
  pseudo : PseudoHeader
  deriving DecidableEq

namespace Udp

def srcPortSlot : Slot 8 := .of 0 2
def dstPortSlot : Slot 8 := .of 2 2
def lengthSlot : Slot 8 := .of 4 2
def checksumSlot : Slot 8 := .of 6 2

/-- A header whose fields are all zero. -/
def fresh : Udp := ⟨.zero 8, .unseen⟩

/-- The bytes on the wire. -/
def emit (h : Udp) : Bytes := h.base.bytes

/-- Reads a header. -/
def read (f : Frame) : Except ParseError (Udp × Frame) := do
  let (base, f) ← ParseError.ofRead (f.readBlock 8)
  return (⟨base, .unseen⟩, f)

/-- The header that `b` writes, if it has the right length. The memory of the checksum stays. -/
def reload? (h : Udp) (b : Bytes) : Option Udp :=
  (Block.ofBytes? 8 b).map fun base => { h with base }

/-- The slot of a field. -/
def slot? : FieldNum → Option (Slot 8)
  | .l4PortSrc => some srcPortSlot
  | .l4PortDst => some dstPortSlot
  | _ => none

/-- The value of a field. -/
def get? (h : Udp) (num : FieldNum) : Option Bytes := (slot? num).map h.base.get

/-- The header after an operation on a field. -/
def update? (h : Udp) (num : FieldNum) (op : FieldOp) (arg : Bytes) : Option Udp :=
  (slot? num).map fun s => { h with base := h.base.update s op arg }

/-- Remembers the addresses the parsed checksum stands for. -/
def attach (h : Udp) (around : Surroundings) : Udp := { h with pseudo := .attach around }

/-- The checksum of a header whose checksum field is zero. -/
def freshChecksum (addrs : IpAddrs) (base : Block 8) (around : Surroundings) : Bytes :=
  if addrs.isV4 then [0, 0]
  else
    let sum := upperLayerChecksum addrs IpProtocol.udp base.bytes around
    if sum = [0, 0] then [0xFF, 0xFF] else sum

/-- Stamps the length, and computes the checksum if it is stale. -/
def rebuild (h : Udp) (around : Surroundings) (dirty : Bool) : Udp :=
  let len := min (8 + around.innerLen) 65535
  let resized : Bool := len ≠ h.base.num lengthSlot
  let base := h.base.setNum lengthSlot len
  match h.pseudo.stale? around (dirty || resized) with
  | (pseudo, none) => ⟨base, pseudo⟩
  | (pseudo, some addrs) =>
    let cleared := base.setNum checksumSlot 0
    ⟨cleared.set checksumSlot (freshChecksum addrs cleared around), pseudo⟩

end Udp

end Dataplane

import Dataplane.Header.Ipv4

/-!
# ICMP for IPv4 and IPv6

Both versions share a header of eight bytes: type, code, checksum, and four bytes that depend on
the type.

## The model

The checksum of the IPv4 version covers the message alone; that of the IPv6 version also covers the
pseudo-header. For the neighbor discovery messages of IPv6 the type-specific *body* and the options
after it are part of the header. An option is a record of type, length and data; the length counts
units of eight bytes, type and length included, and is never zero.
-/

namespace Dataplane

namespace Icmp

def typeSlot : Slot 8 := .of 0 1
def codeSlot : Slot 8 := .of 1 1
def checksumSlot : Slot 8 := .of 2 2

/-- The slot of a field both versions have. -/
def slot? : FieldNum → Option (Slot 8)
  | .icmpType => some typeSlot
  | .icmpCode => some codeSlot
  | _ => none

end Icmp

/-- An ICMP header for IPv4. -/
structure Icmp4 where
  /-- The bytes of the header. -/
  base : Block 8
  deriving DecidableEq

namespace Icmp4

/-- A header whose fields are all zero. -/
def fresh : Icmp4 := ⟨.zero 8⟩

/-- The bytes on the wire. -/
def emit (h : Icmp4) : Bytes := h.base.bytes

/-- Reads a header. -/
def read (f : Frame) : Except ParseError (Icmp4 × Frame) := do
  let (base, f) ← ParseError.ofRead (f.readBlock 8)
  return (⟨base⟩, f)

/-- The header that `b` writes, if it has the right length. -/
def reload? (b : Bytes) : Option Icmp4 := (Block.ofBytes? 8 b).map .mk

/-- The value of a field. -/
def get? (h : Icmp4) (num : FieldNum) : Option Bytes := (Icmp.slot? num).map h.base.get

/-- The header after an operation on a field. -/
def update? (h : Icmp4) (num : FieldNum) (op : FieldOp) (arg : Bytes) : Option Icmp4 :=
  (Icmp.slot? num).map fun s => ⟨h.base.update s op arg⟩

/-- Computes the checksum if the header or anything inside is dirty. -/
def rebuild (h : Icmp4) (around : Surroundings) (dirty : Bool) : Icmp4 :=
  if dirty || around.innerDirty then
    let cleared := h.base.setNum Icmp.checksumSlot 0
    ⟨cleared.set Icmp.checksumSlot (Checksum.ofBytes (cleared.bytes ++ around.inner))⟩
  else h

end Icmp4

/-- An option of a neighbor discovery message. -/
structure NdOption where
  /-- The type. -/
  kind : UInt8
  /-- The bytes after type and length. -/
  data : Bytes
  deriving DecidableEq

namespace NdOption

/-- The number of bytes on the wire. -/
def wireLen (o : NdOption) : Nat := 2 + o.data.length

/-- The length byte: the number of units of eight bytes. -/
def units (o : NdOption) : UInt8 :=
  if o.wireLen / 8 < 256 then UInt8.ofNat (o.wireLen / 8) else 0

/-- The bytes on the wire. -/
def emit (o : NdOption) : Bytes := o.kind :: o.units :: o.data

/-- Reads options up to the end of the frame, at most `fuel` of them. -/
def readAll : (fuel : Nat) → Frame → Except ParseError (List NdOption × Frame)
  | 0, f => .ok ([], f)
  | fuel + 1, f =>
    match f.unread with
    | [] => .ok ([], f)
    | [_] => .error (.malformedOption .icmp6 .truncated)
    | kind :: units :: _ =>
      let len := units.toNat * 8
      if len = 0 then .error (.malformedOption .icmp6 .zeroLength)
      else if !f.unread.reaches len then .error (.malformedOption .icmp6 .overrunsFrame)
      else do
        let (bytes, f) ← ParseError.ofRead (f.read len)
        let (opts, f) ← readAll fuel f
        return (⟨kind, bytes.drop 2⟩ :: opts, f)

end NdOption

/-- An ICMP header for IPv6. -/
structure Icmp6 where
  /-- The fixed part. -/
  base : Block 8
  /-- The type-specific body of a neighbor discovery message. -/
  body : Bytes
  /-- The options of a neighbor discovery message. -/
  options : List NdOption
  /-- The addresses the checksum was last computed over. -/
  pseudo : PseudoHeader
  deriving DecidableEq

namespace Icmp6

/-- A header whose fields are all zero. -/
def fresh : Icmp6 := ⟨.zero 8, [], [], .unseen⟩

/-- The length of the body of a neighbor discovery message: router solicitation and advertisement,
neighbor solicitation and advertisement, redirect. Other messages have none. -/
def bodyLen? (type : UInt8) : Option Nat :=
  if type = 133 then some 0
  else if type = 134 then some 8
  else if type = 135 ∨ type = 136 then some 16
  else if type = 137 then some 32
  else none

/-- The message type. -/
def type (h : Icmp6) : UInt8 := h.base.byte 0

/-! ### The wire form -/

/-- The number of bytes on the wire. -/
def wireLen (h : Icmp6) : Nat := 8 + h.body.length + h.options.foldr (·.wireLen + ·) 0

/-- The bytes on the wire. -/
def emit (h : Icmp6) : Bytes := h.base.bytes ++ h.body ++ h.options.flatMap (·.emit)

/-- Reads a header. -/
def read (f : Frame) : Except ParseError (Icmp6 × Frame) := do
  let (base, f) ← ParseError.ofRead (f.readBlock 8)
  match bodyLen? (base.byte 0) with
  | none => return (⟨base, [], [], .unseen⟩, f)
  | some len =>
    let (body, f) ← ParseError.ofRead (f.read len)
    let (options, f) ← NdOption.readAll (f.length + 1) f
    return (⟨base, body, options, .unseen⟩, f)

/-- The header that `b` writes, if it is one and as long as this one. The memory of the checksum
stays. -/
def reload? (h : Icmp6) (b : Bytes) : Option Icmp6 :=
  match read (.ofBytes b) with
  | .ok (h', f) =>
    if f.unread = [] ∧ h'.wireLen = h.wireLen then some { h' with pseudo := h.pseudo } else none
  | .error _ => none

/-! ### Fields -/

/-- Does a message of this type name a target address? -/
def hasTarget (type : UInt8) : Bool := type = 135 ∨ type = 136 ∨ type = 137

/-- The type of the option that carries a link-layer address field. -/
def linkOption? : FieldNum → Option UInt8
  | .ndSll => some 1
  | .ndTll => some 2
  | _ => none

/-- The place of the first option of a type, if it is long enough for a link-layer address. -/
def linkPlace? (h : Icmp6) (kind : UInt8) : Option Nat := do
  let i ← h.options.findIdx? (·.kind = kind)
  let o ← h.options[i]?
  if 6 ≤ o.data.length then some i else none

/-- The value of a field. -/
def get? (h : Icmp6) (num : FieldNum) : Option Bytes :=
  match Icmp.slot? num, linkOption? num with
  | some s, _ => some (h.base.get s)
  | none, some kind => do
    let i ← h.linkPlace? kind
    let o ← h.options[i]?
    return o.data.take 6
  | none, none =>
    if num = .ndTarget ∧ hasTarget h.type ∧ 16 ≤ h.body.length then some (h.body.take 16) else none

/-- The first `n` bytes of `b` after an operation, and the rest of `b`. -/
def updateFront (n : Nat) (b : Bytes) (op : FieldOp) (arg : Bytes) : Bytes :=
  op.apply (b.take n) arg ++ b.drop n

/-- The header after an operation on a field. -/
def update? (h : Icmp6) (num : FieldNum) (op : FieldOp) (arg : Bytes) : Option Icmp6 :=
  match Icmp.slot? num, linkOption? num with
  | some s, _ => some { h with base := h.base.update s op arg }
  | none, some kind => do
    let i ← h.linkPlace? kind
    let set (o : NdOption) : NdOption := { o with data := updateFront 6 o.data op arg }
    return { h with options := h.options.modify i set }
  | none, none =>
    if num = .ndTarget ∧ hasTarget h.type ∧ 16 ≤ h.body.length then
      some { h with body := updateFront 16 h.body op arg }
    else none

/-! ### Derived fields -/

/-- Remembers the addresses the parsed checksum stands for. -/
def attach (h : Icmp6) (around : Surroundings) : Icmp6 := { h with pseudo := .attach around }

/-- Computes the checksum if it is stale. -/
def rebuild (h : Icmp6) (around : Surroundings) (dirty : Bool) : Icmp6 :=
  match h.pseudo.stale? around dirty with
  | (pseudo, none) => { h with pseudo }
  | (pseudo, some addrs) =>
    let cleared := { h with base := h.base.setNum Icmp.checksumSlot 0 }
    let sum := upperLayerChecksum addrs IpProtocol.icmp6 cleared.emit around
    { h with base := cleared.base.set Icmp.checksumSlot sum, pseudo }

end Icmp6

end Dataplane

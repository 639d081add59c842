import Dataplane.Header.Error
import Dataplane.Header.Surroundings

/-!
# Ethernet

An Ethernet header holds two addresses, at most two VLAN tags, and the type of what follows.

## The model

A tag is four bytes: its protocol identifier and a word whose low 12 bits are the VLAN identifier
and whose high 4 bits are the priority. Tags are pushed only onto an untagged header, one or two at
a time; the outermost tag, or both together, can be popped. Rebuilding stamps the type of an
IPv4, IPv6, ARP or MPLS header that follows and leaves every other type alone.
-/

namespace Dataplane

namespace EtherType

def ip4 : Nat := 0x0800
def arp : Nat := 0x0806
def vlan : Nat := 0x8100
def ip6 : Nat := 0x86DD
def mpls : Nat := 0x8847
def stackedVlan : Nat := 0x88A8
def oldStackedVlan : Nat := 0x9100

/-- Does the type announce a VLAN tag? -/
def isTag (t : Nat) : Bool :=
  t = vlan ∨ t = stackedVlan ∨ t = oldStackedVlan

/-- The kind of header a type announces. -/
def kind (t : Nat) : HeaderKind :=
  if t = ip4 then .ip4
  else if t = ip6 then .ip6
  else if t = arp then .arp
  else if t = mpls then .mpls
  else .payload

/-- The type that announces a kind, if rebuilding stamps one. -/
def ofKind? : HeaderKind → Option Nat
  | .ip4 => some ip4
  | .ip6 => some ip6
  | .arp => some arp
  | .mpls => some mpls
  | _ => none

end EtherType

/-- An Ethernet header. -/
structure Ethernet where
  /-- Destination and source address. -/
  addrs : Block 12
  /-- The VLAN tags, outermost first. -/
  tags : List (Block 4)
  /-- The type of what follows. -/
  typeWord : Block 2
  deriving DecidableEq

namespace Ethernet

def dstSlot : Slot 12 := .of 0 6
def srcSlot : Slot 12 := .of 6 6
def typeSlot : Slot 2 := .of 0 2
def tagProtocolSlot : Slot 4 := .of 0 2
def tagControlSlot : Slot 4 := .of 2 2
def vlanIdBits : BitRange := ⟨0, 12⟩
def priorityBits : BitRange := ⟨12, 4⟩

/-- The largest number of tags. -/
def maxTags : Nat := 2

/-- A tag with the given protocol identifier and an empty control word. -/
def freshTag (protocol : Nat) : Block 4 := (Block.zero 4).setNum tagProtocolSlot protocol

/-- The tags of a fresh header of a kind. -/
def freshTags? : HeaderKind → Option (List (Block 4))
  | .eth => some []
  | .ethVlan => some [freshTag EtherType.vlan]
  | .ethStacked => some [freshTag EtherType.stackedVlan, freshTag EtherType.vlan]
  | _ => none

/-- A fresh header of a kind. -/
def fresh (kind : HeaderKind) : Except HeaderError Ethernet :=
  match freshTags? kind with
  | some tags => .ok ⟨.zero 12, tags, .zero 2⟩
  | none => .error (.noSynthesis kind)

/-- The type of what follows. -/
def etherType (e : Ethernet) : Nat := e.typeWord.num typeSlot

/-- The offset of the type from the start of the frame. -/
def typeOffset (e : Ethernet) : Nat := 12 + 4 * e.tags.length

/-- The kind the number of tags gives. -/
def kind (e : Ethernet) : HeaderKind :=
  match e.tags.length with
  | 0 => .eth
  | 1 => .ethVlan
  | _ => .ethStacked

/-- The kind of what follows. -/
def nextKind (e : Ethernet) : HeaderKind := EtherType.kind e.etherType

/-! ### The wire form -/

/-- The number of bytes on the wire. -/
def wireLen (e : Ethernet) : Nat := 14 + 4 * e.tags.length

/-- The bytes on the wire. -/
def emit (e : Ethernet) : Bytes :=
  e.addrs.bytes ++ e.tags.flatMap (·.bytes) ++ e.typeWord.bytes

/-- Reads at most `n` tags. -/
def readTags : Nat → Frame → Except ReadError (List (Block 4) × Frame)
  | 0, f => .ok ([], f)
  | n + 1, f => do
    let next ← f.peek 0 2
    if EtherType.isTag next.toNat then
      let (tag, f) ← f.readBlock 4
      let (tags, f) ← readTags n f
      return (tag :: tags, f)
    else
      return ([], f)

/-- Reads a header. -/
def read (f : Frame) : Except ReadError (Ethernet × Frame) := do
  let (addrs, f) ← f.readBlock 12
  let (tags, f) ← readTags maxTags f
  let (typeWord, f) ← f.readBlock 2
  return (⟨addrs, tags, typeWord⟩, f)

/-- The header that `b` writes, if it has as many tags as this one. -/
def reload? (e : Ethernet) (b : Bytes) : Option Ethernet :=
  match read (.ofBytes b) with
  | .ok (e', f) => if e'.tags.length = e.tags.length ∧ f.unread = [] then some e' else none
  | .error _ => none

/-! ### Fields -/

/-- The bit range of a tag field and the width of its value. -/
def tagField? : FieldNum → Option (BitRange × Nat)
  | .vlanId => some (vlanIdBits, 2)
  | .vlanPriority => some (priorityBits, 1)
  | _ => none

/-- The value of a field. -/
def get (e : Ethernet) (num : FieldNum) (inst : Instance) : Except FieldError Bytes :=
  let absent := Except.error (.noSuchField (.field num inst))
  match tagField? num with
  | some (r, width) =>
    match inst.resolve e.tags.length >>= (e.tags[·]?) with
    | some tag => .ok (tag.getBits tagControlSlot r width)
    | none => absent
  | none =>
    if inst.isSole then
      match num with
      | .etherMacDst => .ok (e.addrs.get dstSlot)
      | .etherMacSrc => .ok (e.addrs.get srcSlot)
      | .etherType => .ok (e.typeWord.get typeSlot)
      | _ => absent
    else absent

/-- The header after an operation on a field. -/
def update (e : Ethernet) (num : FieldNum) (inst : Instance) (op : FieldOp) (arg : Bytes) :
    Except FieldError Ethernet :=
  let absent := Except.error (.noSuchField (.field num inst))
  match tagField? num with
  | some (r, width) =>
    match inst.resolve e.tags.length with
    | some i => .ok { e with tags := e.tags.modify i (·.updateBits tagControlSlot r width op arg) }
    | none => absent
  | none =>
    if inst.isSole then
      match num with
      | .etherMacDst => .ok { e with addrs := e.addrs.update dstSlot op arg }
      | .etherMacSrc => .ok { e with addrs := e.addrs.update srcSlot op arg }
      | .etherType => .ok { e with typeWord := e.typeWord.update typeSlot op arg }
      | _ => absent
    else absent

/-! ### Adding and removing tags -/

/-- Tags an untagged header. -/
def push (e : Ethernet) (kind : HeaderKind) : Except HeaderError Ethernet :=
  if e.tags ≠ [] ∨ kind = .eth then .error (.doubleEncap kind)
  else match freshTags? kind with
    | some tags => .ok { e with tags }
    | none => .error (.doubleEncap kind)

/-- Removes the outermost tag, both tags or the whole header; also says whether nothing is left. -/
def pop (e : Ethernet) (kind : HeaderKind) : Except HeaderError (Ethernet × Bool) :=
  match kind, e.tags with
  | .eth, _ => .ok (e, true)
  | .ethVlan, _ :: tags => .ok ({ e with tags }, false)
  | .ethStacked, [_, _] => .ok ({ e with tags := [] }, false)
  | _, _ => .error (.wrongOutermost kind e.kind)

/-! ### Derived fields -/

/-- Stamps the type of the header that follows. -/
def rebuild (e : Ethernet) (around : Surroundings) : Ethernet :=
  match around.innerKind >>= EtherType.ofKind? with
  | some t => { e with typeWord := e.typeWord.setNum typeSlot t }
  | none => e

end Ethernet

end Dataplane

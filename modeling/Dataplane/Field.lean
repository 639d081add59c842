import Dataplane.Bytes.Block
import Dataplane.Header.Kind

/-!
# Packet fields

A field of a packet is either a well-known one, picked out of its repeated occurrences by an
instance, or a user-defined range of header bytes measured from the start of a group.

## The model

`FieldNum.widths` lists the widths a field's value reads back at. An operand of any non-zero
length up to the widest of them may be applied; it is then padded or cut to the field.
`FieldOp.apply` is the one way in which an operand meets the bytes of a field.
-/

namespace Dataplane

/-- A well-known packet field. -/
inductive FieldNum where
  | inputPort | outputPort | vrf | packetLength | nexthopId | nexthopGroupId | trapId | tunnelId
  | policerId | packetAction | attribute8 | attribute16 | attribute24 | attribute32
  | etherMacDst | etherMacSrc | etherType | vlanId | vlanPriority
  | ipVersion | ipAddrSrc | ipAddrDst | ipHop | ipProtocol | ipQos | ipFlowLabel
  | greProtocol | greKey | greSeq
  | arpOp | arpSha | arpSpa | arpTha | arpTpa
  | mplsLabel | mplsTc | mplsTtl
  | l4PortSrc | l4PortDst | tcpFlags | tcpSeq | tcpAck | icmpType | icmpCode
  | ndTarget | ndSll | ndTll
  deriving DecidableEq

namespace FieldNum

instance : Enumerated FieldNum where
  all := [inputPort, outputPort, vrf, packetLength, nexthopId, nexthopGroupId, trapId, tunnelId,
    policerId, packetAction, attribute8, attribute16, attribute24, attribute32, etherMacDst,
    etherMacSrc, etherType, vlanId, vlanPriority, ipVersion, ipAddrSrc, ipAddrDst, ipHop,
    ipProtocol, ipQos, ipFlowLabel, greProtocol, greKey, greSeq, arpOp, arpSha, arpSpa, arpTha,
    arpTpa, mplsLabel, mplsTc, mplsTtl, l4PortSrc, l4PortDst, tcpFlags, tcpSeq, tcpAck, icmpType,
    icmpCode, ndTarget, ndSll, ndTll]
  name
    | inputPort => "InputPort"
    | outputPort => "OutputPort"
    | vrf => "Vrf"
    | packetLength => "PacketLength"
    | nexthopId => "NexthopId"
    | nexthopGroupId => "NexthopGroupId"
    | trapId => "TrapId"
    | tunnelId => "TunnelId"
    | policerId => "PolicerId"
    | packetAction => "PacketAction"
    | attribute8 => "Attribute8"
    | attribute16 => "Attribute16"
    | attribute24 => "Attribute24"
    | attribute32 => "Attribute32"
    | etherMacDst => "EtherMacDst"
    | etherMacSrc => "EtherMacSrc"
    | etherType => "EtherType"
    | vlanId => "VlanId"
    | vlanPriority => "VlanPriority"
    | ipVersion => "IpVersion"
    | ipAddrSrc => "IpAddrSrc"
    | ipAddrDst => "IpAddrDst"
    | ipHop => "IpHop"
    | ipProtocol => "IpProtocol"
    | ipQos => "IpQos"
    | ipFlowLabel => "IpFlowLabel"
    | greProtocol => "GreProtocol"
    | greKey => "GreKey"
    | greSeq => "GreSeq"
    | arpOp => "ArpOp"
    | arpSha => "ArpSha"
    | arpSpa => "ArpSpa"
    | arpTha => "ArpTha"
    | arpTpa => "ArpTpa"
    | mplsLabel => "MplsLabel"
    | mplsTc => "MplsTc"
    | mplsTtl => "MplsTtl"
    | l4PortSrc => "L4PortSrc"
    | l4PortDst => "L4PortDst"
    | tcpFlags => "TcpFlags"
    | tcpSeq => "TcpSeq"
    | tcpAck => "TcpAck"
    | icmpType => "IcmpType"
    | icmpCode => "IcmpCode"
    | ndTarget => "NdTarget"
    | ndSll => "NdSll"
    | ndTll => "NdTll"

/-- The display text of a field is its name. -/
def text (num : FieldNum) : String := Enumerated.name num

/-- The group whose header holds the field. -/
def group : FieldNum → HeaderGroup
  | inputPort | outputPort | vrf | packetLength | nexthopId | nexthopGroupId | trapId | tunnelId
  | policerId | packetAction | attribute8 | attribute16 | attribute24 | attribute32 => .packet
  | etherMacDst | etherMacSrc | etherType | vlanId | vlanPriority => .l2
  | ipVersion | ipAddrSrc | ipAddrDst | ipHop | ipProtocol | ipQos | ipFlowLabel
  | greProtocol | greKey | greSeq | arpOp | arpSha | arpSpa | arpTha | arpTpa
  | mplsLabel | mplsTc | mplsTtl => .l3
  | l4PortSrc | l4PortDst | tcpFlags | tcpSeq | tcpAck | icmpType | icmpCode
  | ndTarget | ndSll | ndTll => .l4

/-- The widths a field's value reads back at, the width of a fresh field first. Addresses have the
width of the header that holds them. -/
def widths : FieldNum → List Nat
  | inputPort | outputPort | vrf | nexthopId | nexthopGroupId | trapId | tunnelId
  | policerId => [8]
  | packetLength => [4]
  | packetAction | attribute8 => [1]
  | attribute16 => [2]
  | attribute24 => [3]
  | attribute32 => [4]
  | etherMacDst | etherMacSrc => [6]
  | etherType | vlanId => [2]
  | vlanPriority => [1]
  | ipVersion | ipHop | ipProtocol | ipQos => [1]
  | ipAddrSrc | ipAddrDst => [4, 16]
  | ipFlowLabel => [4]
  | greProtocol => [2]
  | greKey | greSeq => [4]
  | arpOp => [2]
  | arpSha | arpTha => [6]
  | arpSpa | arpTpa => [4]
  | mplsLabel => [4]
  | mplsTc | mplsTtl => [1]
  | l4PortSrc | l4PortDst => [2]
  | tcpFlags => [1]
  | tcpSeq | tcpAck => [4]
  | icmpType | icmpCode => [1]
  | ndTarget => [16]
  | ndSll | ndTll => [6]

/-- The width of a fresh field. -/
def defaultWidth (num : FieldNum) : Nat := num.widths.headD 0

/-- The widest value of a field. -/
def maxWidth (num : FieldNum) : Nat := num.widths.foldl max 0

/-- Can an operand of `len` bytes be applied to the field? -/
def accepts (num : FieldNum) (len : Nat) : Bool :=
  0 < len ∧ len ≤ num.maxWidth

end FieldNum

/-- Which of several occurrences of a field is meant: 0 is the outermost one, and 255 is the
innermost, however many there are. -/
structure Instance where
  /-- The number of the occurrence. -/
  val : UInt8
  deriving DecidableEq

namespace Instance

/-- The outermost occurrence. -/
def first : Instance := ⟨0⟩

/-- The innermost occurrence. -/
def last : Instance := ⟨255⟩

/-- Is this the innermost occurrence whatever their number? -/
def isLast (i : Instance) : Bool := i = last

/-- The place of the occurrence among `count`, if there is one. -/
def resolve (i : Instance) (count : Nat) : Option Nat :=
  if count = 0 then none
  else if i.isLast then some (count - 1)
  else if i.val.toNat < count then some i.val.toNat
  else none

/-- Does the instance select the sole occurrence of a field that occurs once? -/
def isSole (i : Instance) : Bool := i.resolve 1 = some 0

/-- The display text of an instance. -/
def text (i : Instance) : String :=
  if i.isLast then "last" else toString i.val.toNat

end Instance

/-- Identifies a packet field. -/
inductive FieldId where
  /-- A well-known field. -/
  | field (num : FieldNum) (inst : Instance)
  /-- The `size` header bytes from `offset` on, measured from the start of `group`. An offset past
  the end of one header continues into the next one inside. -/
  | udf (group : HeaderGroup) (offset size : UInt16) (inst : Instance)
  deriving DecidableEq

namespace FieldId

/-- The outermost occurrence of a well-known field. -/
def first (num : FieldNum) : FieldId := field num .first

/-- The group in which the search for the field starts. -/
def group : FieldId → HeaderGroup
  | field num _ => num.group
  | udf group _ _ _ => group

/-- The occurrence asked for. -/
def inst : FieldId → Instance
  | field _ i => i
  | udf _ _ _ i => i

/-- The display text of a field identifier. -/
def text : FieldId → String
  | field num i => s!"{num.text}[{i.text}]"
  | udf g offset size i => s!"UDF({g.text}+{offset.toNat}:{size.toNat})[{i.text}]"

end FieldId

/-- What is done to a field. -/
inductive FieldOp where
  /-- Overwrite. -/
  | set
  /-- Add, wrapping at the width of the field. -/
  | inc
  /-- Subtract, wrapping at the width of the field. -/
  | dec
  deriving DecidableEq

namespace FieldOp

instance : Enumerated FieldOp where
  all := [set, inc, dec]
  name
    | set => "Set"
    | inc => "Inc"
    | dec => "Dec"

/-- The display text of an operation. -/
def text : FieldOp → String
  | set => "SET"
  | inc => "INC"
  | dec => "DEC"

/-- The bytes of a field after the operation. -/
def apply (op : FieldOp) (field arg : Bytes) : Bytes :=
  match op with
  | set => arg.resize field.length
  | inc => field.add arg
  | dec => field.sub arg

@[simp] theorem length_apply (op : FieldOp) (field arg : Bytes) :
    (op.apply field arg).length = field.length := by
  cases op <;> simp [apply]

end FieldOp

/-! ### Fields inside blocks -/

namespace Block

variable {n : Nat}

/-- The block after an operation on a slot. -/
def update (b : Block n) (s : Slot n) (op : FieldOp) (arg : Bytes) : Block n :=
  b.set s (op.apply (b.get s) arg)

/-- The value of a bit range of a slot, as `width` bytes. -/
def getBits (b : Block n) (s : Slot n) (r : BitRange) (width : Nat) : Bytes :=
  Bytes.ofNat width (b.bits s r)

/-- The block after an operation on a bit range of a slot whose value is `width` bytes wide. -/
def updateBits (b : Block n) (s : Slot n) (r : BitRange) (width : Nat) (op : FieldOp)
    (arg : Bytes) : Block n :=
  b.setBits s r (op.apply (b.getBits s r width) arg).toNat

end Block

end Dataplane

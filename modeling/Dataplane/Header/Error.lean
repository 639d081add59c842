import Dataplane.Frame
import Dataplane.Field

/-!
# Why an operation on headers is refused

Three families of errors: a frame that does not parse, a field that cannot be read or updated, and
a header that cannot be added or removed. Each error is a cause; its wording is in `message`.
-/

namespace Dataplane

/-- What is wrong with the fixed part of a header. -/
inductive HeaderFault where
  | versionNot4
  | headerLengthTooSmall
  | totalLengthTooSmall
  | versionNot6
  | unsupportedVersion
  | unsupportedFlags
  | lengthExceedsFrame
  | hardwareNotEthernet
  | protocolNotIpv4
  | badAddressLength
  | dataOffsetTooSmall
  deriving DecidableEq

/-- The wording of a header fault. -/
def HeaderFault.message : HeaderFault → String
  | versionNot4 => "version is not 4"
  | headerLengthTooSmall => "header length below minimum"
  | totalLengthTooSmall => "total length below header length"
  | versionNot6 => "version is not 6"
  | unsupportedVersion => "unsupported version"
  | unsupportedFlags => "unsupported flags"
  | lengthExceedsFrame => "length exceeds frame"
  | hardwareNotEthernet => "hardware type is not Ethernet"
  | protocolNotIpv4 => "protocol type is not IPv4"
  | badAddressLength => "bad address length"
  | dataOffsetTooSmall => "data offset below minimum"

/-- What is wrong with an option of a header. -/
inductive OptionFault where
  | truncated
  | zeroLength
  | overrunsFrame
  deriving DecidableEq

/-- The wording of an option fault. -/
def OptionFault.message : OptionFault → String
  | truncated => "truncated"
  | zeroLength => "zero length"
  | overrunsFrame => "overruns the frame"

/-- Why a frame does not parse. -/
inductive ParseError where
  /-- The frame ends too early. -/
  | read (cause : ReadError)
  /-- There is no parser for a kind. -/
  | unknownHeader (kind : HeaderKind)
  /-- A header is not well formed. -/
  | badHeader (kind : HeaderKind) (fault : HeaderFault)
  /-- An option of a header is not well formed. -/
  | malformedOption (kind : HeaderKind) (fault : OptionFault)
  /-- A header's group does not lie inside the group before it. -/
  | outOfOrder (kind : HeaderKind) (after : HeaderGroup)
  deriving DecidableEq

/-- The wording of a parse error. -/
def ParseError.message : ParseError → String
  | read e => s!"frame too short: {e.message}"
  | unknownHeader k => s!"no parser for header kind {k.text}"
  | badHeader k f => s!"bad {k.text} header: {f.message}"
  | malformedOption k f => s!"malformed {k.text} option: {f.message}"
  | outOfOrder k g => s!"{k.text} cannot follow a header in group {g.text}"

/-- A read inside a parser. -/
def ParseError.ofRead {α : Type} : Except ReadError α → Except ParseError α
  | .ok a => .ok a
  | .error e => .error (.read e)

/-- Why a field cannot be read or updated. -/
inductive FieldError where
  /-- The field is not there. -/
  | noSuchField (id : FieldId)
  /-- The field does not take the operation. -/
  | badOp (id : FieldId) (op : FieldOp)
  /-- The operand, or the range read, has the wrong size. -/
  | badSize (id : FieldId) (size : Nat)
  deriving DecidableEq

/-- The wording of a field error. -/
def FieldError.message : FieldError → String
  | noSuchField id => s!"no such field: {id.text}"
  | badOp id op => s!"unsupported operation {op.text} on {id.text}"
  | badSize id size => s!"bad size {size} for {id.text}"

/-- What keeps a header from being added or removed. -/
inductive Obstacle where
  | notSixInFour
  | destinationNotEmbedded
  | sourceNotEmbedded
  | outermostNotIpv6
  | destinationNotSixToFour
  | sourceNotSixToFour
  | greOverGre
  | holdsIpChain
  | metadataStays
  deriving DecidableEq

/-- The wording of an obstacle. -/
def Obstacle.message : Obstacle → String
  | notSixInFour => "not an IPv6-in-IPv4 tunnel"
  | destinationNotEmbedded => "destination does not embed the IPv4 destination"
  | sourceNotEmbedded => "source does not embed the IPv4 source"
  | outermostNotIpv6 => "outermost header is not IPv6"
  | destinationNotSixToFour => "destination is not a 6to4 address"
  | sourceNotSixToFour => "source is not a 6to4 address"
  | greOverGre => "GRE over GRE"
  | holdsIpChain => "L3 already holds an IP chain"
  | metadataStays => "packet metadata cannot be removed"

/-- Why a header cannot be added or removed. -/
inductive HeaderError where
  /-- There is no default header of the kind. -/
  | noSynthesis (kind : HeaderKind)
  /-- The kind sits at a fixed end of the frame. -/
  | groupOrder (kind : HeaderKind)
  /-- The header is already there. -/
  | doubleEncap (kind : HeaderKind)
  /-- The header is not there. -/
  | notPresent (kind : HeaderKind)
  /-- Another header is outermost. -/
  | wrongOutermost (want found : HeaderKind)
  /-- A condition on the other headers fails. -/
  | precondition (kind : HeaderKind) (obstacle : Obstacle)
  deriving DecidableEq

/-- The wording of a header error. -/
def HeaderError.message : HeaderError → String
  | noSynthesis k => s!"{k.text} cannot be synthesized"
  | groupOrder k => s!"{k.text} cannot be placed in the packet's group order"
  | doubleEncap k => s!"{k.text} is already present"
  | notPresent k => s!"{k.text} is not present"
  | wrongOutermost want found => s!"cannot remove {want.text}: outermost header is {found.text}"
  | precondition k o => s!"{k.text}: {o.message}"

/-- An error of an operation that combines several steps on a packet. -/
inductive PacketError where
  | parse (cause : ParseError)
  | field (cause : FieldError)
  | header (cause : HeaderError)
  deriving DecidableEq

/-- The wording of a packet error is that of its cause. -/
def PacketError.message : PacketError → String
  | parse e => e.message
  | field e => e.message
  | header e => e.message

end Dataplane

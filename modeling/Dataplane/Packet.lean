import Dataplane.Headers
import Dataplane.Log
import Dataplane.SortedMap

/-!
# Packets

A packet is a parsed frame with the state the pipeline carries alongside it: text attributes, a
debug flag, a log and a description.

## The model

Parsing puts metadata into the first place of the header table and goes on from the start kind
until a header says that nothing follows; each header has to lie in a group inside the one before.
Every operation returns the new packet or the cause of a refusal, and a refusal leaves the old
packet as it is.

* A *field* is read and changed in the header that holds it. A user-defined field is found by
  walking the headers from its group inwards; it has to lie within one of them.
* *Encapsulation* extends the header of the kind's group, or places a fresh one there;
  *decapsulation* takes the outermost header away. Both rebuild the enclosing headers.
* *Serializing* rebuilds everything and emits the frame.
* A *replica* is parsed anew from the frame that serializing would give, so only wire state carries
  over, apart from the fields that are copied by name; *reparsing* puts such a replica in the
  packet's place.
-/

namespace Dataplane

/-- A parsed frame with the state carried alongside it. -/
structure Packet where
  /-- The kind of the first header. -/
  start : HeaderKind
  /-- The headers. -/
  headers : Headers
  /-- The attributes, by key. -/
  attrs : SortedMap String String
  /-- Are debug messages kept? -/
  debug : Bool
  /-- The log, oldest line first. -/
  log : List LogLine
  /-- The description. -/
  description : String
  deriving DecidableEq

namespace Packet

/-! ### Parsing -/

/-- Reads headers from `kind` on into the table, each in a group inside `last`. There are `room`
groups inside it. -/
def parseHeaders : (room : Nat) → (last : HeaderGroup) → HeaderKind → Frame → Headers →
    Except ParseError Headers
  | _, _, .none, _, t => .ok t
  | room, last, kind, f, t =>
    match kind.group?, Header.isParsed kind with
    | some g, true =>
      if g.index ≤ last.index then .error (.outOfOrder kind last)
      else match room with
        | 0 => .error (.outOfOrder kind last)
        | room + 1 => do
          let (h, next, f) ← Header.read kind f
          parseHeaders room g next f (t.set g (some (.clean h)))
    | _, _ => .error (.unknownHeader kind)

/-- A packet around a header table. -/
def ofHeaders (start : HeaderKind) (t : Headers) : Packet :=
  ⟨start, t, .empty, false, [], t.describe⟩

/-- Parses a frame that starts with a header of the given kind. -/
def parse (start : HeaderKind) (b : Bytes) : Except ParseError Packet := do
  let t := Headers.empty.set .packet (some (.clean (.metadata .fresh)))
  let t ← parseHeaders 4 .packet start (.ofBytes b) t
  return ofHeaders start t.attachAll

/-! ### What a packet shows -/

/-- The number of bytes that serializing gives. -/
def length (p : Packet) : Nat := p.headers.wireLen

/-- The display text of a packet. -/
def text (p : Packet) : String := s!"{p.description} ({p.length} bytes)"

/-- The metadata. -/
def metadata? (p : Packet) : Option Metadata :=
  match p.headers.packet with
  | some ⟨.metadata m, _⟩ => some m
  | _ => none

/-- The packet with its metadata changed; the dirty bit stays. -/
def modifyMetadata (p : Packet) (f : Metadata → Metadata) : Packet :=
  match p.headers.packet with
  | some ⟨.metadata m, dirty⟩ =>
    { p with headers := { p.headers with packet := some ⟨.metadata (f m), dirty⟩ } }
  | _ => p

/-- The identifier of the port the packet came in by; zero is no port. -/
def inputPort (p : Packet) : Nat := (p.metadata?.map (·.inputPort)).getD 0

/-- The identifier of the port the packet leaves by; zero is no port. -/
def outputPort (p : Packet) : Nat := (p.metadata?.map (·.outputPort)).getD 0

def setInputPort (p : Packet) (nid : Nat) : Packet := p.modifyMetadata (·.setInputPort nid)

def setOutputPort (p : Packet) (nid : Nat) : Packet := p.modifyMetadata (·.setOutputPort nid)

/-! ### Attributes and log -/

/-- The value of an attribute. -/
def attr? (p : Packet) (key : String) : Option String := p.attrs.get? key

def setAttr (p : Packet) (key val : String) : Packet :=
  { p with attrs := p.attrs.insert key val }

/-- Adds a debug message to the log, if debug messages are kept. -/
def logDebug (p : Packet) (msg : String) : Packet :=
  if p.debug then { p with log := p.log ++ [⟨.note, msg⟩] } else p

/-- Adds an error to the log. -/
def logError (p : Packet) (msg : String) : Packet :=
  { p with log := p.log ++ [⟨.error, msg⟩] }

/-! ### Fields -/

/-- The group whose header holds the byte that lies `start` bytes into the headers of the given
groups, and the place of the byte in it. -/
def locate? (t : Headers) : List HeaderGroup → Nat → Option (HeaderGroup × Nat)
  | [], _ => none
  | g :: gs, start =>
    match t.get g with
    | none => locate? t gs start
    | some e =>
      if start < e.header.wireLen then some (g, start)
      else locate? t gs (start - e.header.wireLen)

/-- The header and the place in it where a user-defined field starts. -/
def locateRaw (p : Packet) (id : FieldId) (g : HeaderGroup) (offset size : Nat)
    (inst : Instance) : Except FieldError (HeaderGroup × Nat) :=
  if !inst.isSole then .error (.noSuchField id)
  else if size = 0 then .error (.badSize id 0)
  else match locate? p.headers (g :: g.inside) offset with
    | some place => .ok place
    | none => .error (.noSuchField id)

/-- The value of a field. -/
def get (p : Packet) (id : FieldId) : Except FieldError Bytes :=
  match id with
  | .field num inst =>
    match p.headers.get num.group with
    | some e => e.header.get num inst
    | none => .error (.noSuchField id)
  | .udf g offset size inst => do
    let (g, start) ← p.locateRaw id g offset.toNat size.toNat inst
    match p.headers.get g >>= (·.header.readRaw? start size.toNat) with
    | some val => return val
    | none => throw (.badSize id size.toNat)

/-- The value to be stored in a user-defined field: the operand brought to the width of the field,
or the value there with the operand added or subtracted. -/
def rawValue (h : Header) (id : FieldId) (start size : Nat) (op : FieldOp) (arg : Bytes) :
    Except FieldError Bytes :=
  if op = .set then .ok (arg.resize size)
  else match h.readRaw? start size with
    | some old => .ok (op.apply old arg)
    | none => .error (.badSize id size)

/-- The packet after an operation on a field. The header is then dirty, unless it says that its
derived fields are still right. -/
def update (p : Packet) (id : FieldId) (op : FieldOp) (arg : Bytes) : Except FieldError Packet :=
  match id with
  | .field num inst =>
    if !num.accepts arg.length then .error (.badSize id arg.length)
    else match p.headers.get num.group with
      | none => .error (.noSuchField id)
      | some e => do
        let (h, dirty) ← e.header.update num inst op arg
        return { p with headers := p.headers.set num.group (some ⟨h, e.dirty || dirty⟩) }
  | .udf g offset size inst => do
    let (g, start) ← p.locateRaw id g offset.toNat size.toNat inst
    if arg.length = 0 ∨ size.toNat < arg.length then throw (.badSize id arg.length)
    match p.headers.get g with
    | none => throw (.noSuchField id)
    | some e =>
      let val ← rawValue e.header id start size.toNat op arg
      match e.header.writeRaw? start val with
      | some h => return { p with headers := p.headers.set g (some ⟨h, true⟩) }
      | none => throw (.badOp id op)

/-! ### Adding and removing headers -/

/-- The packet with its header table replaced, its description brought up to date. -/
def withHeaders (p : Packet) (t : Headers) : Packet :=
  { p with headers := t, description := t.describe }

/-- Adds a header of a kind. Metadata and payload sit at fixed ends and are never added. -/
def encap (p : Packet) (kind : HeaderKind) : Except HeaderError Packet :=
  match kind.group? with
  | none => .error (.noSynthesis kind)
  | some .packet | some .payload => .error (.groupOrder kind)
  | some g =>
    match p.headers.get g with
    | some e => do
      let h ← e.header.push kind
      return p.withHeaders ((p.headers.set g (some ⟨h, true⟩)).rebuildOutward g)
    | none => do
      let h ← Header.fresh kind
      let t := (p.headers.set g (some ⟨h, true⟩)).attachAt g
      return p.withHeaders (t.rebuildOutward g)

/-- Removes the header of a kind, which has to be the outermost one of its group. -/
def decap (p : Packet) (kind : HeaderKind) : Except HeaderError Packet :=
  match kind.group? with
  | none => .error (.notPresent kind)
  | some .packet => .error (.precondition kind .metadataStays)
  | some g =>
    match p.headers.get g with
    | none => .error (.notPresent kind)
    | some e => do
      let (h, done) ← e.header.pop kind
      if done then
        let t := p.headers.set g none
        match t.prev? g with
        | some outer => return p.withHeaders (t.rebuildOutward outer)
        | none => return p.withHeaders t
      else
        return p.withHeaders ((p.headers.set g (some ⟨h, true⟩)).rebuildOutward g)

/-! ### Frames and replicas -/

/-- The packet with every header rebuilt. -/
def rebuilt (p : Packet) : Packet := { p with headers := p.headers.rebuildAll }

/-- The frame, and the packet as rebuilt for it. -/
def serialize (p : Packet) : Bytes × Packet := (p.rebuilt.headers.emit, p.rebuilt)

/-- The packet `target` with some fields set to the values they have in `p`. -/
def copyFields (p : Packet) : List FieldId → (target : Packet) → Except FieldError Packet
  | [], target => .ok target
  | id :: ids, target => do
    let val ← p.get id
    let target ← target.update id .set val
    copyFields p ids target

/-- The frame with `front` put before it, parsed as starting with a header of kind `start`; with
the given fields, the attributes, the debug flag and the log copied. -/
def reparse (p : Packet) (start : HeaderKind) (fields : List FieldId) (front : Bytes) :
    Except PacketError Packet := do
  let fresh ← (parse start (front ++ p.serialize.1)).mapError .parse
  let copy ← (p.copyFields fields fresh).mapError .field
  return { copy with attrs := p.attrs, debug := p.debug, log := p.log }

/-- An independent replica. -/
def replica (p : Packet) (fields : List FieldId) : Except PacketError Packet :=
  p.reparse p.start fields []

/-- The metadata fields that a replica takes over unless told otherwise. -/
def portFields : List FieldId := [.first .inputPort, .first .outputPort]

end Packet

end Dataplane

import Dataplane.Header.Arp
import Dataplane.Header.Icmp
import Dataplane.Header.IpChain
import Dataplane.Header.LabelStack
import Dataplane.Header.Metadata
import Dataplane.Header.Transport

/-!
# Headers

The set of headers is closed. `Header` is their sum, and the operations here send each call to the
header that is there.

## The model

A header is read from the front of a frame, emitted, asked for and changed in its fields,
overwritten byte by byte, extended (`push`) or shortened (`pop`), and rebuilt when what surrounds it
has changed. A byte-wise write goes through the wire form: the header emits its bytes, some of them
are replaced, and the result has to be a header of the same shape again.
-/

namespace Dataplane

/-- A header, or a stack of headers that belong together. -/
inductive Header where
  /-- Metadata. -/
  | metadata (h : Metadata)
  /-- Ethernet. -/
  | ethernet (h : Ethernet)
  /-- A chain of IP and GRE headers. -/
  | ip (c : IpChain)
  /-- ARP. -/
  | arp (h : Arp)
  /-- A label stack. -/
  | mpls (s : LabelStack)
  /-- TCP. -/
  | tcp (h : Tcp)
  /-- UDP. -/
  | udp (h : Udp)
  /-- ICMP for IPv4. -/
  | icmp4 (h : Icmp4)
  /-- ICMP for IPv6. -/
  | icmp6 (h : Icmp6)
  /-- Bytes without structure. -/
  | payload (b : Bytes)
  deriving DecidableEq

namespace Header

/-! ### What a header is -/

/-- The kinds of the headers that a stack holds, outermost first. -/
def stack : Header → List HeaderKind
  | metadata _ => [.metadata]
  | ethernet h => [h.kind]
  | ip c => c.headers.map (·.kind)
  | arp _ => [.arp]
  | mpls s => s.entries.map fun _ => .mpls
  | tcp _ => [.tcp]
  | udp _ => [.udp]
  | icmp4 _ => [.icmp4]
  | icmp6 _ => [.icmp6]
  | payload _ => [.payload]

/-- The kind of one of the headers that a stack holds. -/
def kind? (h : Header) (inst : Instance) : Option HeaderKind :=
  inst.resolve h.stack.length >>= (h.stack[·]?)

/-- The kinds that can be told apart by an instance: all but those past the largest number. -/
def kinds (h : Header) : List HeaderKind := h.stack.take 255

/-- The number of header bytes on the wire. -/
def wireLen : Header → Nat
  | metadata _ => 0
  | ethernet h => h.wireLen
  | ip c => c.wireLen
  | arp _ => 28
  | mpls s => s.wireLen
  | tcp h => h.wireLen
  | udp _ => 8
  | icmp4 _ => 8
  | icmp6 h => h.wireLen
  | payload b => b.length

/-- The header bytes on the wire. -/
def emit : Header → Bytes
  | metadata _ => []
  | ethernet h => h.emit
  | ip c => c.emit
  | arp h => h.emit
  | mpls s => s.emit
  | tcp h => h.emit
  | udp h => h.emit
  | icmp4 h => h.emit
  | icmp6 h => h.emit
  | payload b => b

/-- The bytes emitted after everything inside. -/
def trailer : Header → Bytes
  | ip c => c.trailer
  | _ => []

/-- The addresses of the innermost IP header. -/
def addrs? : Header → Option IpAddrs
  | ip c => c.innermostAddrs?
  | _ => none

/-! ### Fields -/

/-- An optional result, absent when the field is. -/
def orAbsent {α : Type} (num : FieldNum) (inst : Instance) : Option α → Except FieldError α
  | some a => .ok a
  | none => .error (.noSuchField (.field num inst))

/-- An optional result of a header that holds each of its fields once. -/
def sole {α : Type} (num : FieldNum) (inst : Instance) (a : Option α) : Except FieldError α :=
  orAbsent num inst (if inst.isSole then a else none)

/-- The value of a field. -/
def get (h : Header) (num : FieldNum) (inst : Instance) : Except FieldError Bytes :=
  match h with
  | metadata h => h.get num inst
  | ethernet h => h.get num inst
  | ip c => c.get num inst
  | arp h => sole num inst (h.get? num)
  | mpls s => orAbsent num inst (s.get? num inst)
  | tcp h => sole num inst (h.get? num)
  | udp h => sole num inst (h.get? num)
  | icmp4 h => sole num inst (h.get? num)
  | icmp6 h => sole num inst (h.get? num)
  | payload _ => orAbsent num inst none

/-- The header after an operation on a field, and whether its derived fields may now be stale. -/
def update (h : Header) (num : FieldNum) (inst : Instance) (op : FieldOp) (arg : Bytes) :
    Except FieldError (Header × Bool) :=
  match h with
  | metadata h => (h.update num inst op arg).map fun h => (metadata h, true)
  | ethernet h => (h.update num inst op arg).map fun h => (ethernet h, true)
  | ip c => (c.update num inst op arg).map fun (c, dirty) => (ip c, dirty)
  | arp h => (sole num inst (h.update? num op arg)).map fun h => (arp h, true)
  | mpls s => (orAbsent num inst (s.update? num inst op arg)).map fun s => (mpls s, true)
  | tcp h => (sole num inst (h.update? num op arg)).map fun h => (tcp h, true)
  | udp h => (sole num inst (h.update? num op arg)).map fun h => (udp h, true)
  | icmp4 h => (sole num inst (h.update? num op arg)).map fun h => (icmp4 h, true)
  | icmp6 h => (sole num inst (h.update? num op arg)).map fun h => (icmp6 h, true)
  | payload _ => orAbsent num inst none

/-! ### Raw bytes -/

/-- The header whose bytes are `b`, if `b` has the shape of this one. -/
def reload? (h : Header) (b : Bytes) : Option Header :=
  match h with
  | metadata h => if b = [] then some (metadata h) else none
  | ethernet h => (h.reload? b).map ethernet
  | ip c => (c.reload? b).map ip
  | arp _ => (Arp.reload? b).map arp
  | mpls s => (s.reload? b).map mpls
  | tcp h => (h.reload? b).map tcp
  | udp h => (h.reload? b).map udp
  | icmp4 _ => (Icmp4.reload? b).map icmp4
  | icmp6 h => (h.reload? b).map icmp6
  | payload old => if b.length = old.length then some (payload b) else none

/-- The `size` header bytes from `start` on. -/
def readRaw? (h : Header) (start size : Nat) : Option Bytes := h.emit.slice? start size

/-- The header with the bytes from `start` on replaced by `val`. -/
def writeRaw? (h : Header) (start : Nat) (val : Bytes) : Option Header :=
  h.emit.overwrite? start val >>= h.reload?

/-! ### Adding and removing -/

/-- Adds a header of a kind to a stack. -/
def push (h : Header) (kind : HeaderKind) : Except HeaderError Header :=
  match h with
  | ethernet h => (h.push kind).map ethernet
  | ip c => (c.push kind).map ip
  | mpls s => (s.push kind).map mpls
  | _ => .error (.doubleEncap kind)

/-- Removes the sole header of a stack, which is then empty. -/
def popSole (h : Header) (kind : HeaderKind) : Except HeaderError (Header × Bool) :=
  let found := h.stack.headD .none
  if found = kind then .ok (h, true) else .error (.wrongOutermost kind found)

/-- Removes the outermost header of a stack; also says whether nothing is left. -/
def pop (h : Header) (kind : HeaderKind) : Except HeaderError (Header × Bool) :=
  match h with
  | ethernet h => (h.pop kind).map fun (h, done) => (ethernet h, done)
  | ip c => (c.pop kind).map fun (c, done) => (ip c, done)
  | mpls s => (s.pop kind).map fun (s, done) => (mpls s, done)
  | h => h.popSole kind

/-! ### Derived fields -/

/-- The first look at the packet a header has been placed in. -/
def attach (h : Header) (around : Surroundings) : Header :=
  match h with
  | metadata h => metadata (h.cacheLength around)
  | tcp h => tcp (h.attach around)
  | udp h => udp (h.attach around)
  | icmp6 h => icmp6 (h.attach around)
  | h => h

/-- The header with its derived fields brought up to date. -/
def rebuild (h : Header) (around : Surroundings) (dirty : Bool) : Header :=
  match h with
  | metadata h => metadata (h.cacheLength around)
  | ethernet h => ethernet (h.rebuild around)
  | ip c => ip (c.rebuild around dirty)
  | tcp h => tcp (h.rebuild around dirty)
  | udp h => udp (h.rebuild around dirty)
  | icmp4 h => icmp4 (h.rebuild around dirty)
  | icmp6 h => icmp6 (h.rebuild around dirty)
  | h => h

/-! ### Fresh and parsed headers -/

/-- A fresh header of a kind. -/
def fresh (kind : HeaderKind) : Except HeaderError Header :=
  match kind with
  | .eth | .ethVlan | .ethStacked => (Ethernet.fresh kind).map ethernet
  | .ip4 | .ip6 => (IpChain.fresh kind).map ip
  | .mpls => .ok (mpls .fresh)
  | .tcp => .ok (tcp .fresh)
  | .udp => .ok (udp .fresh)
  | .icmp4 => .ok (icmp4 .fresh)
  | .icmp6 => .ok (icmp6 .fresh)
  | _ => .error (.noSynthesis kind)

/-- Is there a parser for headers of a kind? -/
def isParsed : HeaderKind → Bool
  | .none | .sixToFourAuto | .sixToFourSecure => false
  | _ => true

/-- Is there a fresh header of a kind? -/
def isSynthesized (kind : HeaderKind) : Bool := (fresh kind).isOk

/-- A parsed header, the kind of what follows, and the frame left. -/
abbrev Parsed := Header × HeaderKind × Frame

/-- Reads a header of a kind. Metadata reads nothing and hands on the kind it is given. -/
def read (kind : HeaderKind) (f : Frame) : Except ParseError Parsed :=
  match kind with
  | .none | .sixToFourAuto | .sixToFourSecure => .error (.unknownHeader kind)
  | .metadata => .ok (metadata .fresh, kind, f)
  | .payload => .ok (payload f.readRest.1, .none, f.readRest.2)
  | .eth | .ethVlan | .ethStacked => do
    let (h, f) ← ParseError.ofRead (Ethernet.read f)
    return (ethernet h, h.nextKind, f)
  | .ip4 | .ip6 | .gre => do
    let (c, next, f) ← IpChain.read kind f
    return (ip c, next, f)
  | .arp => do let (h, f) ← Arp.read f; return (arp h, .payload, f)
  | .mpls => do let (s, f) ← ParseError.ofRead (LabelStack.read f); return (mpls s, .payload, f)
  | .tcp => do let (h, f) ← Tcp.read f; return (tcp h, .payload, f)
  | .udp => do let (h, f) ← Udp.read f; return (udp h, .payload, f)
  | .icmp4 => do let (h, f) ← Icmp4.read f; return (icmp4 h, .payload, f)
  | .icmp6 => do let (h, f) ← Icmp6.read f; return (icmp6 h, .payload, f)

end Header

end Dataplane

import Dataplane.Header.Gre
import Dataplane.Header.Ipv6

/-!
# Chains of IPv4, IPv6 and GRE headers

Tunnels nest: IPv6 in IPv4 in GRE in IPv6 is one chain of headers, outermost first.

## The model

Occurrences of an IP field count the IP headers of the chain only, occurrences of a GRE field the
GRE headers only. If the first header is an IP header, the length it claims bounds the frame, and
the bytes past that bound are the *trailer* of the chain, emitted after everything inside.

A rebuild works from the innermost header out, so that each header sees the finished headers inside
it.
-/

namespace Dataplane

/-- One header of a chain. -/
inductive IpHeader where
  | v4 (h : Ipv4)
  | v6 (h : Ipv6)
  | gre (h : Gre)
  deriving DecidableEq

namespace IpHeader

def kind : IpHeader → HeaderKind
  | v4 _ => .ip4
  | v6 _ => .ip6
  | gre _ => .gre

def isGre : IpHeader → Bool
  | gre _ => true
  | _ => false

/-- The number of bytes on the wire. -/
def wireLen : IpHeader → Nat
  | v4 h => h.wireLen
  | v6 _ => 40
  | gre h => h.wireLen

/-- The bytes on the wire. -/
def emit : IpHeader → Bytes
  | v4 h => h.emit
  | v6 h => h.emit
  | gre h => h.emit

/-- The kind of what follows. -/
def nextKind : IpHeader → HeaderKind
  | v4 h => h.nextKind
  | v6 h => h.nextKind
  | gre h => h.nextKind

/-- The number of bytes an IP header claims to follow it. -/
def payloadLen? : IpHeader → Option Nat
  | v4 h => some h.payloadLen
  | v6 h => some h.payloadLen
  | gre _ => none

/-- The addresses of an IP header. -/
def addrs? : IpHeader → Option IpAddrs
  | v4 h => some (.v4 h.src h.dst)
  | v6 h => some (.v6 h.src h.dst)
  | gre _ => none

/-- Reads a header of a kind. -/
def read (kind : HeaderKind) (f : Frame) : Except ParseError (IpHeader × Frame) :=
  match kind with
  | .ip4 => do let (h, f) ← Ipv4.read f; return (v4 h, f)
  | .ip6 => do let (h, f) ← Ipv6.read f; return (v6 h, f)
  | .gre => do let (h, f) ← Gre.read f; return (gre h, f)
  | k => .error (.unknownHeader k)

/-- The header that `b` writes, if it has the shape of this one. -/
def reload? (h : IpHeader) (b : Bytes) : Option IpHeader :=
  match h with
  | v4 h => (h.reload? b).map v4
  | v6 _ => (Ipv6.reload? b).map v6
  | gre h => (h.reload? b).map gre

/-- The value of a field. -/
def get? (h : IpHeader) (num : FieldNum) : Option Bytes :=
  match h with
  | v4 h => h.get? num
  | v6 h => h.get? num
  | gre h => h.get? num

/-- The header after an operation on a field, and whether it is now dirty. -/
def update? (h : IpHeader) (num : FieldNum) (op : FieldOp) (arg : Bytes) :
    Option (IpHeader × Bool) :=
  match h with
  | v4 h => (h.update? num op arg).map fun (h, dirty) => (v4 h, dirty)
  | v6 h => (h.update? num op arg).map fun (h, dirty) => (v6 h, dirty)
  | gre h => (h.update? num op arg).map fun h => (gre h, true)

end IpHeader

/-- The IPv4 address embedded in a 6to4 address, if `addr` is one. -/
def sixToFour? (addr : Bytes) : Option Bytes :=
  if addr.take 2 = [0x20, 0x02] then some ((addr.drop 2).take 4) else none

/-- A chain of headers. -/
structure IpChain where
  /-- The headers, outermost first. -/
  headers : List IpHeader
  /-- The bytes past the end that the first header names. -/
  trailer : Bytes
  deriving DecidableEq

namespace IpChain

/-- A chain of one fresh header. -/
def fresh (kind : HeaderKind) : Except HeaderError IpChain :=
  match kind with
  | .ip4 => .ok ⟨[.v4 .fresh], []⟩
  | .ip6 => .ok ⟨[.v6 .fresh], []⟩
  | k => .error (.noSynthesis k)

/-- The addresses of the innermost IP header. -/
def innermostAddrs? (c : IpChain) : Option IpAddrs :=
  c.headers.reverse.findSome? (·.addrs?)

/-- The kind of the outermost header. -/
def outermost (c : IpChain) : HeaderKind :=
  (c.headers.head?.map (·.kind)).getD .none

/-! ### The wire form -/

/-- The bytes of a list of headers. -/
def emitHeaders (hs : List IpHeader) : Bytes := hs.flatMap (·.emit)

/-- The number of header bytes on the wire. -/
def wireLen (c : IpChain) : Nat := c.headers.foldr (·.wireLen + ·) 0

/-- The header bytes on the wire. -/
def emit (c : IpChain) : Bytes := emitHeaders c.headers

/-- Reads headers as long as the kind of what follows is one of the chain, at most `fuel` of
them; gives the headers and the kind of what follows the last one. -/
def readHeaders : (fuel : Nat) → HeaderKind → Frame →
    Except ParseError (List IpHeader × HeaderKind × Frame)
  | 0, kind, f => .ok ([], kind, f)
  | fuel + 1, kind, f =>
    if kind = .ip4 ∨ kind = .ip6 ∨ kind = .gre then do
      let (h, f) ← IpHeader.read kind f
      let (hs, next, f) ← readHeaders fuel h.nextKind f
      return (h :: hs, next, f)
    else .ok ([], kind, f)

/-- Strips the bytes past the end that a header names. -/
def readTrailer (kind : HeaderKind) (h : IpHeader) (f : Frame) :
    Except ParseError (Bytes × Frame) :=
  match h.payloadLen? with
  | none => .ok ([], f)
  | some len =>
    if f.length < len then .error (.badHeader kind .lengthExceedsFrame)
    else ParseError.ofRead (f.strip (f.length - len))

/-- Reads a chain that starts with a header of the given kind, and gives the kind of what follows
it. Every header reads at least one byte, so the number of unread bytes bounds their number. -/
def read (start : HeaderKind) (f : Frame) :
    Except ParseError (IpChain × HeaderKind × Frame) := do
  let (h, f) ← IpHeader.read start f
  let (trailer, f) ← readTrailer start h f
  let (hs, next, f) ← readHeaders (f.length + 1) h.nextKind f
  return (⟨h :: hs, trailer⟩, next, f)

/-- The headers that `b` writes, if they have the shapes of `hs` and nothing is left over. -/
def reloadHeaders? : List IpHeader → Bytes → Option (List IpHeader)
  | [], b => if b = [] then some [] else none
  | h :: hs, b =>
    match h.reload? (b.take h.wireLen) with
    | some h' => (reloadHeaders? hs (b.drop h.wireLen)).map (h' :: ·)
    | none => none

/-- The chain whose header bytes are `b`, if they have the shape of this one. -/
def reload? (c : IpChain) (b : Bytes) : Option IpChain :=
  (reloadHeaders? c.headers b).map fun hs => { c with headers := hs }

/-! ### Fields -/

/-- Is this a field of GRE headers? -/
def isGreField : FieldNum → Bool
  | .greProtocol | .greKey | .greSeq => true
  | _ => false

/-- The places of the headers that have a field of the given sort. -/
def places (c : IpChain) (gre : Bool) : List Nat :=
  (c.headers.zipIdx.filter (·.1.isGre == gre)).map (·.2)

/-- The place of the header that a field is read from. -/
def place? (c : IpChain) (num : FieldNum) (inst : Instance) : Option Nat :=
  let places := c.places (isGreField num)
  inst.resolve places.length >>= (places[·]?)

/-- The value of a field. -/
def get (c : IpChain) (num : FieldNum) (inst : Instance) : Except FieldError Bytes :=
  match c.place? num inst >>= (c.headers[·]?) >>= (·.get? num) with
  | some val => .ok val
  | none => .error (.noSuchField (.field num inst))

/-- The chain after an operation on a field, and whether it is now dirty. -/
def update (c : IpChain) (num : FieldNum) (inst : Instance) (op : FieldOp) (arg : Bytes) :
    Except FieldError (IpChain × Bool) :=
  let updated := do
    let i ← c.place? num inst
    let h ← c.headers[i]?
    let (h, dirty) ← h.update? num op arg
    return ({ c with headers := c.headers.set i h }, dirty)
  match updated with
  | some r => .ok r
  | none => .error (.noSuchField (.field num inst))

/-! ### Adding and removing headers -/

/-- The outer IPv4 header a 6to4 tunnel for the chain needs. -/
def sixToFourOuter (c : IpChain) (kind : HeaderKind) : Except HeaderError Ipv4 :=
  match c.headers.head? with
  | some (.v6 h) =>
    match sixToFour? h.dst, sixToFour? h.src with
    | none, _ => .error (.precondition kind .destinationNotSixToFour)
    | some dst, some src => .ok (.between src dst)
    | some dst, none =>
      if kind = .sixToFourSecure then .error (.precondition kind .sourceNotSixToFour)
      else .ok (.between [0, 0, 0, 0] dst)
  | _ => .error (.precondition kind .outermostNotIpv6)

/-- Refuses a chain that does not start with a 6to4 tunnel. -/
def checkSixToFour (c : IpChain) (kind : HeaderKind) : Except HeaderError Unit :=
  match c.headers with
  | .v4 outer :: .v6 inner :: _ =>
    if sixToFour? inner.dst ≠ some outer.dst then
      .error (.precondition kind .destinationNotEmbedded)
    else if kind = .sixToFourSecure ∧ sixToFour? inner.src ≠ some outer.src then
      .error (.precondition kind .sourceNotEmbedded)
    else .ok ()
  | _ => .error (.precondition kind .notSixInFour)

/-- The fresh header that is put in front of the chain. -/
def freshOuter (c : IpChain) (kind : HeaderKind) : Except HeaderError IpHeader :=
  match kind with
  | .ip4 => .ok (.v4 .fresh)
  | .ip6 => .ok (.v6 .fresh)
  | .gre =>
    if c.outermost = .gre then .error (.precondition kind .greOverGre) else .ok (.gre .fresh)
  | .sixToFourAuto | .sixToFourSecure => (c.sixToFourOuter kind).map .v4
  | _ => .error (.precondition kind .holdsIpChain)

/-- Puts a fresh header in front of the chain. -/
def push (c : IpChain) (kind : HeaderKind) : Except HeaderError IpChain :=
  (c.freshOuter kind).map fun h => { c with headers := h :: c.headers }

/-- Refuses a kind that the outermost header does not have. A 6to4 tunnel is removed by removing
its IPv4 header. -/
def checkOutermost (c : IpChain) (kind : HeaderKind) : Except HeaderError Unit :=
  let wrong := Except.error (.wrongOutermost kind c.outermost)
  match kind with
  | .ip4 | .ip6 | .gre => if c.outermost = kind then .ok () else wrong
  | .sixToFourAuto | .sixToFourSecure =>
    if c.outermost = .ip4 then c.checkSixToFour kind else wrong
  | _ => wrong

/-- Removes the outermost header; also says whether nothing is left. -/
def pop (c : IpChain) (kind : HeaderKind) : Except HeaderError (IpChain × Bool) := do
  c.checkOutermost kind
  return ({ c with headers := c.headers.tail }, c.headers.tail.isEmpty)

/-! ### Derived fields -/

/-- A header rebuilt around the finished headers inside it. -/
def rebuildHeader (around : Surroundings) (dirty : Bool) (h : IpHeader) (inside : List IpHeader) :
    IpHeader :=
  let kind := match inside.head? with
    | some k => some k.kind
    | none => around.innerKind
  match h with
  | .v4 h =>
    .v4 (h.rebuild (inside.foldr (·.wireLen + ·) around.innerLen)
      (kind >>= IpProtocol.ofKind?) dirty)
  | .v6 h =>
    .v6 (h.rebuild (inside.foldr (·.wireLen + ·) around.innerLen) (kind >>= IpProtocol.ofKind?))
  | .gre h => .gre (h.rebuild (kind >>= Gre.typeOfKind?) (emitHeaders inside ++ around.inner))

/-- Rebuilds a list of headers from the innermost one out. -/
def rebuildHeaders (around : Surroundings) (dirty : Bool) (hs : List IpHeader) : List IpHeader :=
  hs.foldr (fun h inside => rebuildHeader around dirty h inside :: inside) []

/-- Stamps the lengths, protocols and checksums of every header. -/
def rebuild (c : IpChain) (around : Surroundings) (dirty : Bool) : IpChain :=
  { c with headers := rebuildHeaders around dirty c.headers }

end IpChain

end Dataplane

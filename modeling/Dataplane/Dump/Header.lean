import Dataplane.Bytes.Hex
import Dataplane.Crc
import Dataplane.Headers
import Dataplane.Json.Record
import Dataplane.Mac

/-!
# Dumps of headers

What headers hold, as JSON for people who look into a packet. A dump shows the decoded values of a
header, its wire bytes, or what it sees of its surroundings; it changes nothing and rebuilds
nothing.
-/

namespace Dataplane.Dump

/-! ### Bytes -/

/-- A byte string in hexadecimal digits. -/
def hex (b : Bytes) : Json := .str b.toHex

/-- The largest number of bytes that are shown in full. -/
def fullLength : Nat := 4096

/-- A byte string. A long one is shown by its length, its check value and its ends. -/
def bytes (b : Bytes) : Json :=
  if b.length ≤ fullLength then hex b
  else .obj [("len", .nat b.length), ("crc32", .nat (crc32 b).toNat),
    ("head", hex (b.take 128)), ("tail", hex (b.drop (b.length - 32)))]

/-- The text of a hardware address. -/
def mac (b : Bytes) : Json := .ofOption (fun m => .str (MacAddr.text m)) (MacAddr.ofBytes? b)

/-! ### What a header holds -/

/-- A header of a chain of IP headers. -/
def ipHeader : IpHeader → Json
  | .v4 h => .obj [
      ("kind", .str "IP4"), ("hdr_len", .nat h.wireLen), ("total_len", .nat h.totalLen),
      ("payload_len", .nat h.payloadLen), ("proto", .nat h.proto.toNat), ("ttl", .nat h.ttl.toNat),
      ("src", hex h.src), ("dst", hex h.dst), ("csum", hex h.checksum),
      ("fragment", .bool h.isFragment), ("next", .str h.nextKind.text)]
  | .v6 h => .obj [
      ("kind", .str "IP6"), ("hdr_len", .nat 40), ("payload_len", .nat h.payloadLen),
      ("next_hdr", .nat h.nextHeader.toNat), ("hop_limit", .nat h.hopLimit.toNat),
      ("src", hex h.src), ("dst", hex h.dst), ("next", .str h.nextKind.text)]
  | .gre h => .obj [
      ("kind", .str "GRE"), ("hdr_len", .nat h.wireLen), ("flags", .nat h.flags),
      ("proto", .nat h.etherType), ("next", .str h.nextKind.text)]

/-- A pair of addresses. -/
def addrs : IpAddrs → Json
  | .v4 src dst | .v6 src dst => .obj [("src", hex src), ("dst", hex dst)]

/-- An option of neighbour discovery. -/
def ndOption (o : NdOption) : Json := .obj [("type", .nat o.kind.toNat), ("data", bytes o.data)]

/-- The decoded values of a header. -/
def contents : Header → Json
  | .metadata m => .obj [
      ("in", .nat m.inputPort), ("out", .nat m.outputPort), ("packet_length", .nat m.packetLength)]
  | .ethernet e => .obj [
      ("dst", mac (e.addrs.get Ethernet.dstSlot)), ("src", mac (e.addrs.get Ethernet.srcSlot)),
      ("ether_type", .nat e.etherType), ("tags", .nat e.tags.length),
      ("ether_type_offset", .nat e.typeOffset)]
  | .ip c => .obj [
      ("hdrs", .ofList ipHeader c.headers), ("innermost", .ofOption addrs c.innermostAddrs?)]
  | .arp h => .obj [
      ("op", .nat (h.base.num Arp.opSlot)),
      ("sha", mac (h.base.get Arp.shaSlot)), ("tha", mac (h.base.get Arp.thaSlot)),
      ("spa", hex (h.base.get Arp.spaSlot)), ("tpa", hex (h.base.get Arp.tpaSlot))]
  | .mpls s => .obj [
      ("depth", .nat s.depth),
      ("labels", .arr (s.entries.map (fun e => .nat (LabelStack.label e)) ++ [.null]))]
  | .tcp h => .obj [
      ("src_port", .nat (h.base.num Tcp.srcPortSlot)),
      ("dst_port", .nat (h.base.num Tcp.dstPortSlot)), ("csum", hex (h.base.get Tcp.checksumSlot))]
  | .udp h => .obj [
      ("src_port", .nat (h.base.num Udp.srcPortSlot)),
      ("dst_port", .nat (h.base.num Udp.dstPortSlot)),
      ("length", .nat (h.base.num Udp.lengthSlot)), ("csum", hex (h.base.get Udp.checksumSlot))]
  | .icmp4 h => .obj [
      ("type", .nat (h.base.byte 0).toNat), ("csum", hex (h.base.get Icmp.checksumSlot))]
  | .icmp6 h => .obj [
      ("type", .nat h.type.toNat), ("csum", hex (h.base.get Icmp.checksumSlot)),
      ("opts", .ofList ndOption h.options)]
  | .payload b => .obj [("bytes", bytes b)]

/-! ### Wire forms and surroundings -/

/-- The wire bytes of a header. -/
def wire (h : Header) : Json :=
  .obj [("len", .nat h.wireLen), ("b", bytes h.emit), ("trailer", bytes h.trailer)]

/-- What a header sees of the rest of the packet. -/
def surroundings (a : Surroundings) : Json :=
  .obj [
    ("inner_kind", .ofOption (.str ·.text) a.innerKind), ("inner_len", .nat a.innerLen),
    ("inner", bytes a.inner), ("outer_dirty", .bool a.outerDirty),
    ("inner_dirty", .bool a.innerDirty), ("addrs", .ofOption addrs a.addrs)]

/-- The groups whose dirty bit is set. -/
def dirtyGroups (t : Headers) : Json :=
  .ofList (fun g => .str (HeaderGroup.text g)) (HeaderGroup.all.filter fun g =>
    match t.get g with
    | some e => e.dirty
    | none => false)

/-- The members that show the wire bytes of all headers and the dirty bits. -/
def headers (t : Headers) : List (String × Json) :=
  [("wire_len", .nat t.wireLen), ("b", bytes t.emit), ("dirty", dirtyGroups t)]

end Dataplane.Dump

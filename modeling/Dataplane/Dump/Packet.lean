import Dataplane.Action.Basic
import Dataplane.Config.Encode
import Dataplane.Dump.Header
import Dataplane.Packet
import Dataplane.Table

/-!
# Dumps of packets and actions

A packet is dumped as it stands: the wire bytes are those of headers that may still have to be
rebuilt. Attributes, log and trailers are only shown when there are any.
-/

namespace Dataplane.Dump

/-- Members that are only shown under a condition. -/
def showIf (shown : Bool) (members : List (String × Json)) : List (String × Json) :=
  if shown then members else []

/-! ### Packets -/

/-- Some log lines. -/
def log (l : List LogLine) : Json := .ofList (fun line => .str line.text) l

/-- The trailers of a packet that are not empty, outermost first. -/
def trailers (p : Packet) : List Bytes :=
  (p.headers.entries.map (·.header.trailer)).filter (!·.isEmpty)

/-- A packet as it stands. -/
def packet (p : Packet) : Json :=
  .obj ([("text", .str p.text), ("b", bytes p.headers.emit), ("dirty", dirtyGroups p.headers),
      ("in", .nat p.inputPort), ("out", .nat p.outputPort)] ++
    showIf (!(trailers p).isEmpty) [("trailers", .ofList bytes (trailers p))] ++
    showIf p.debug [("debug", .bool true)] ++
    showIf (!p.attrs.pairs.isEmpty) [("attrs", textsToJson p.attrs)] ++
    showIf (!p.log.isEmpty) [("log", log p.log)])

/-- A header of a packet. -/
def entry (g : HeaderGroup) (e : Entry) : Json :=
  .obj [("group", .str g.text), ("dirty", .bool e.dirty), ("len", .nat e.header.wireLen),
    ("wire_len", .nat e.wireLen), ("h", contents e.header)]

/-- The headers of a packet one by one. -/
def summary (p : Packet) : Json :=
  .obj [("start", .str p.start.text), ("desc", .str p.description), ("len", .nat p.length),
    ("kinds", .ofList (fun k => .str (HeaderKind.text k)) p.headers.kinds),
    ("headers", .arr (HeaderGroup.all.filterMap fun g => (p.headers.get g).map (entry g)))]

/-! ### Actions -/

/-- An action of a list. -/
def listed (a : Listed Action) : Json :=
  .obj [("text", .str a.text), ("hash", .nat a.hash.toNat), ("deferred", .bool a.onEvaluate)]

/-- A list of actions. -/
def actions (l : ActionList) : Json := .ofList listed l

/-- A table. -/
def table (t : Table (Listed Action)) : Json :=
  .obj [("entries", .ofList (fun e => .obj [("entry", .str e.1), ("actions", actions e.2)])
      t.entryActions),
    ("actions", actions t.list), ("default", actions t.default)]

/-- Some counters, by their display texts. -/
def counters (c : List (CounterId × UInt64)) : Json :=
  .obj (c.map fun (id, v) => (id.text, .nat v.toNat))

end Dataplane.Dump

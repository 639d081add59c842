import Dataplane.Config.Encode
import Dataplane.Dump.Header

/-!
# Dumps of vocabularies

What there is to know about header kinds, header groups, fields, counters and the other words that
configurations are made of, as JSON.
-/

namespace Dataplane.Dump

open Json (ofMember)

/-- A header kind. -/
def headerKind (k : HeaderKind) : Json :=
  .obj [("text", .str k.text), ("index", .nat (Enumerated.index k)), ("is_ip", .bool k.isIp),
    ("group", .ofOption (.str ·.text) k.group?)]

/-- What can be done with headers of a kind. -/
def protocol (k : HeaderKind) : Json :=
  .ofOption (fun g => .obj [("kind", .str k.text), ("group", .str (HeaderGroup.text g)),
    ("parse", .bool (Header.isParsed k)), ("add", .bool (Header.isSynthesized k))]) k.group?

/-- A header group and its neighbours. -/
def headerGroup (g : HeaderGroup) : Json :=
  .obj [("text", .str g.text), ("index", .nat g.index), ("outer", .ofOption ofMember g.outer?),
    ("inner", .ofOption ofMember g.inner?)]

/-- A disposition. -/
def disposition (d : Disposition) : Json :=
  .obj [("text", .str d.text), ("terminal", .bool d.isTerminal)]

/-- A direction. -/
def direction (d : Direction) : Json := .obj [("json", ofMember d), ("text", .str d.text)]

/-- A counter, and whether ports and flows have it. -/
def counterId (id : CounterId) : Json :=
  .obj [("text", .str id.text), ("port", .bool (CounterId.ofPort.contains id)),
    ("flow", .bool (CounterId.ofFlow.contains id)), ("index", .nat (Enumerated.index id))]

/-- A field, with the widths it accepts among all that headers have. -/
def fieldNum (num : FieldNum) : Json :=
  .obj [("text", .str num.text), ("index", .nat (Enumerated.index num)),
    ("group", .str num.group.text), ("sizes", .ofList .nat num.widths),
    ("default", .nat num.defaultWidth), ("max", .nat num.maxWidth),
    ("accepts", .ofList (fun n => .bool (num.accepts n)) (List.range 19))]

/-- A field identifier. -/
def fieldId (id : FieldId) : Json :=
  .obj [("text", .str id.text), ("group", .str id.group.text),
    ("instance", .nat id.inst.val.toNat), ("json", id.toJson)]

/-- A hardware address. -/
def macAddr (m : MacAddr) : Json :=
  .obj [("text", .str m.text), ("debug", .str s!"MacAddr({m.text})"), ("b", hex m.bytes),
    ("ref", hex m.bytes), ("zero", .bool (m = .zero)), ("broadcast", .bool (m = .broadcast))]

/-- The number of an object. -/
def nid (n : UInt64) : Json :=
  .obj [("text", .str (toString n)), ("valid", .bool (n ≠ 0)), ("b", hex (Bytes.ofNat 8 n.toNat))]

end Dataplane.Dump

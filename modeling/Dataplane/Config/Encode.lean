import Dataplane.Config.Basic
import Dataplane.Json.Record

/-!
# Configurations as JSON

Every field is written, those with their default value too. Byte strings are arrays of numbers.
-/

namespace Dataplane

open Json (ofMember ofOption tagged)

/-- The JSON form of a byte string. -/
def Bytes.toJson (b : Bytes) : Json := Json.ofList (fun d => Json.nat d.toNat) b

/-- The JSON form of a field identifier. -/
def FieldId.toJson : FieldId → Json
  | field num i => tagged "Field" (.obj [("num", ofMember num), ("instance", .nat i.val.toNat)])
  | udf g offset size i => tagged "Udf" (.obj [("group", ofMember g),
      ("offset", .nat offset.toNat), ("size", .nat size.toNat), ("instance", .nat i.val.toNat)])

/-- The JSON form of an update. -/
def UpdateConfig.toJson (u : UpdateConfig) : Json :=
  .obj [("field", u.field.toJson), ("op", ofMember u.op), ("value", u.value.toJson),
    ("src", ofOption FieldId.toJson u.src), ("bit_offset", .nat u.bitOffset.toNat),
    ("bit_count", .nat u.bitCount.toNat)]

/-- The JSON form of a map of texts. -/
def textsToJson (m : SortedMap String String) : Json :=
  .obj (m.pairs.map fun (k, v) => (k, .str v))

mutual

/-- The JSON form of an action. -/
def ActionConfig.toJson : ActionConfig → Json
  | .proceed => .str "Continue"
  | .drop => .str "Drop"
  | .debug => .str "Debug"
  | .decap k => tagged "Decap" (.obj [("header", ofMember k)])
  | .encap k => tagged "Encap" (.obj [("header", ofMember k)])
  | .evaluate => .str "Evaluate"
  | .output => .str "Output"
  | .transmit port immediate =>
    tagged "Transmit" (.obj [("port", .str port), ("immediate", .bool immediate)])
  | .lookup table => tagged "Lookup" (.obj [("table", .str table)])
  | .mirror port actions fields => tagged "Mirror" (.obj [("port", ofOption .str port),
      ("actions", .arr (listedToJson actions)), ("fields", Json.ofList FieldId.toJson fields)])
  | .ratelimit rate burst => tagged "Ratelimit" (.obj [("rate", .nat rate.toNat),
      ("burst", .nat burst.toNat)])
  | .reparse k fields front => tagged "Reparse" (.obj [("header", ofMember k),
      ("fields", Json.ofList FieldId.toJson fields), ("prepend", front.toJson)])
  | .select fields algo lists => tagged "SelectActionList" (.obj [
      ("fields", Json.ofList FieldId.toJson fields), ("algo", ofMember algo),
      ("lists", .arr (listsToJson lists))])
  | .swapOutput => .str "SwapOutput"
  | .update u => tagged "Update" u.toJson
  | .flowCounter counter => tagged "FlowCounter" (.obj [("counter", .str counter)])
  | .custom kind args => tagged "Custom" (.obj [("kind", .str kind), ("args", textsToJson args)])

/-- The JSON form of an action of a list. -/
def Flagged.toJson : ListedConfig → Json
  | ⟨action, onEvaluate⟩ => .obj [("action", action.toJson), ("on_evaluate", .bool onEvaluate)]

/-- The JSON forms of the actions of a list. -/
def listedToJson : List ListedConfig → List Json
  | [] => []
  | a :: as => a.toJson :: listedToJson as

/-- The JSON forms of lists of actions. -/
def listsToJson : List (List ListedConfig) → List Json
  | [] => []
  | l :: ls => .arr (listedToJson l) :: listsToJson ls

end

/-- The JSON form of a table. -/
def TableConfig.toJson (t : TableConfig) : Json :=
  tagged "Action" (.obj [("default_actions", .arr (listedToJson t.defaultActions))])

/-- The JSON form of a table entry. -/
def EntryConfig.toJson (e : EntryConfig) : Json :=
  tagged "Action" (.obj [("actions", .arr (listedToJson e.actions)),
    ("position", ofMember e.position)])

/-- The JSON form of the actions of a port. -/
def PortConfig.toJson (p : PortConfig) : Json :=
  .obj [("dir", ofMember p.dir), ("actions", .arr (listedToJson p.actions))]

/-- The JSON form of a query about a port. -/
def PortQuery.toJson (q : PortQuery) : Json := .obj [("counters", .bool q.counters)]

/-- The JSON form of a report about a port. -/
def PortReport.toJson (r : PortReport) : Json :=
  .obj [("id", .str r.id), ("nid", .nat r.nid.toNat), ("rx_actions", .nat r.rxActions.toNat),
    ("tx_actions", .nat r.txActions.toNat),
    ("counters", .obj (r.counters.pairs.map fun (id, v) => (Enumerated.name id, .nat v.toNat)))]

end Dataplane

import Dataplane.Config.Basic
import Dataplane.Json.Record

/-!
# Configurations from JSON

Reads what `toJson` writes, and also takes a field that has a default for that default when it is
not there. Numbers have to be integers in the range of their field. The readers of what may come in
a text of its own are told where the value comes from.

## The model

Configurations nest as deep as the JSON value does. Each decoder of the mutual block calls the
others on parts of the value only, so the size of the value bounds the recursion.
-/

namespace Dataplane

open Json (needed defaulted isUnit optionOf? listOf?)

/-- The byte string of a JSON value. -/
def Bytes.ofJson? : Json → Option Bytes :=
  listOf? fun j => (j.natBelow? 256).map UInt8.ofNat

/-- A 16-bit number of a JSON value. -/
def wordOfJson? (j : Json) : Option UInt16 := (j.natBelow? UInt16.size).map UInt16.ofNat

/-- A 64-bit number of a JSON value. -/
def longOfJson? (j : Json) : Option UInt64 := (j.natBelow? UInt64.size).map UInt64.ofNat

/-- The instance of a JSON value. -/
def Instance.ofJson? (j : Json) : Option Instance := (j.natBelow? 256).map (⟨UInt8.ofNat ·⟩)

/-- The field identifier of a JSON value. -/
def FieldId.ofJson? (o : Json.Origin) (j : Json) : Option FieldId := do
  let (tag, content) ← j.variant?
  let c ← content
  if tag = "Field" then
    match ← c.1.content? o ["num", "instance"] with
    | [num, i] => return field (← needed (·.1.member) num) (← needed (Instance.ofJson? ·.1) i)
    | _ => none
  else if tag = "Udf" then
    match ← c.1.content? o ["group", "offset", "size", "instance"] with
    | [g, offset, size, i] =>
      return udf (← needed (·.1.member) g) (← needed (wordOfJson? ·.1) offset)
        (← needed (wordOfJson? ·.1) size) (← needed (Instance.ofJson? ·.1) i)
    | _ => none
  else none

/-- The update of a JSON value. -/
def UpdateConfig.ofJson? (o : Json.Origin) (j : Json) : Option UpdateConfig := do
  match ← j.record? ["field", "op", "value", "src", "bit_offset", "bit_count"] with
  | [field, op, value, src, bitOffset, bitCount] =>
    return ⟨← needed (FieldId.ofJson? o ·.1) field, ← needed (·.1.member) op,
      ← defaulted [] (Bytes.ofJson? ·.1) value,
      ← defaulted none (fun v => optionOf? (FieldId.ofJson? o) v.1) src,
      ← defaulted 0 (wordOfJson? ·.1) bitOffset, ← defaulted 0 (wordOfJson? ·.1) bitCount⟩
  | _ => none

/-- The map of texts of a JSON value. -/
def textsOfJson? : Json → Option (SortedMap String String)
  | .obj ms => do
    let pairs ← ms.mapM fun (m : String × Json) => m.2.str?.map (m.1, ·)
    return SortedMap.ofList pairs
  | _ => none

mutual

/-- The action of a JSON value. -/
def ActionConfig.ofJson? (o : Json.Origin) (j : Json) : Option ActionConfig := do
  match ← j.variant? with
  | ("Continue", c) => if isUnit c then return .proceed else none
  | ("Drop", c) => if isUnit c then return .drop else none
  | ("Debug", c) => if isUnit c then return .debug else none
  | ("Evaluate", c) => if isUnit c then return .evaluate else none
  | ("Output", c) => if isUnit c then return .output else none
  | ("SwapOutput", c) => if isUnit c then return .swapOutput else none
  | ("Decap", some c) =>
    match ← c.1.content? o ["header"] with
    | [k] => return .decap (← needed (·.1.member) k)
    | _ => none
  | ("Encap", some c) =>
    match ← c.1.content? o ["header"] with
    | [k] => return .encap (← needed (·.1.member) k)
    | _ => none
  | ("Transmit", some c) =>
    match ← c.1.content? o ["port", "immediate"] with
    | [port, immediate] =>
      return .transmit (← needed (·.1.str?) port) (← defaulted false (·.1.bool?) immediate)
    | _ => none
  | ("Lookup", some c) =>
    match ← c.1.content? o ["table"] with
    | [table] => return .lookup (← needed (·.1.str?) table)
    | _ => none
  | ("Mirror", some c) =>
    match ← c.1.content? o ["port", "actions", "fields"] with
    | [port, actions, fields] =>
      return .mirror (← defaulted none (fun v => optionOf? Json.str? v.1) port)
        (← defaulted [] (fun v => listedOfJson? o v.1) actions)
        (← defaulted [] (fun v => listOf? (FieldId.ofJson? o) v.1) fields)
    | _ => none
  | ("Ratelimit", some c) =>
    match ← c.1.content? o ["rate", "burst"] with
    | [rate, burst] =>
      return .ratelimit (← needed (longOfJson? ·.1) rate) (← needed (longOfJson? ·.1) burst)
    | _ => none
  | ("Reparse", some c) =>
    match ← c.1.content? o ["header", "fields", "prepend"] with
    | [k, fields, front] =>
      return .reparse (← needed (·.1.member) k)
        (← defaulted [] (fun v => listOf? (FieldId.ofJson? o) v.1) fields)
        (← defaulted [] (Bytes.ofJson? ·.1) front)
    | _ => none
  | ("SelectActionList", some c) =>
    match ← c.1.content? o ["fields", "algo", "lists"] with
    | [fields, algo, lists] =>
      return .select (← needed (fun v => listOf? (FieldId.ofJson? o) v.1) fields)
        (← needed (·.1.member) algo) (← needed (fun v => listsOfJson? o v.1) lists)
    | _ => none
  | ("Update", some c) => return .update (← UpdateConfig.ofJson? o c.1)
  | ("FlowCounter", some c) =>
    match ← c.1.content? o ["counter"] with
    | [counter] => return .flowCounter (← needed (·.1.str?) counter)
    | _ => none
  | ("Custom", some c) =>
    match ← c.1.content? o ["kind", "args"] with
    | [kind, args] =>
      return .custom (← needed (·.1.str?) kind) (← defaulted .empty (textsOfJson? ·.1) args)
    | _ => none
  | _ => none
termination_by sizeOf j
decreasing_by all_goals exact Nat.lt_trans (Json.sizeOf_below _) (Json.sizeOf_below _)

/-- The action of a list that a JSON value describes. -/
def Flagged.ofJson? (o : Json.Origin) (j : Json) : Option ListedConfig := do
  match ← j.record? ["action", "on_evaluate"] with
  | [action, onEvaluate] =>
    return ⟨← needed (fun v => ActionConfig.ofJson? o v.1) action,
      ← defaulted false (·.1.bool?) onEvaluate⟩
  | _ => none
termination_by sizeOf j
decreasing_by exact Json.sizeOf_below _

/-- The list of actions of a JSON value. -/
def listedOfJson? (o : Json.Origin) (j : Json) : Option (List ListedConfig) := do
  (← j.elems?).mapM fun v => Flagged.ofJson? o v.1
termination_by sizeOf j
decreasing_by exact Json.sizeOf_below _

/-- The lists of actions of a JSON value. -/
def listsOfJson? (o : Json.Origin) (j : Json) : Option (List (List ListedConfig)) := do
  (← j.elems?).mapM fun v => listedOfJson? o v.1
termination_by sizeOf j
decreasing_by exact Json.sizeOf_below _

end

/-- The table of a JSON value. -/
def TableConfig.decode? (o : Json.Origin) (j : Json) : Option TableConfig := do
  match ← j.variant? with
  | ("Action", some c) =>
    match ← c.1.content? o ["default_actions"] with
    | [actions] => return ⟨← defaulted [] (listedOfJson? o ·.1) actions⟩
    | _ => none
  | _ => none

/-- The table entry of a JSON value. -/
def EntryConfig.decode? (o : Json.Origin) (j : Json) : Option EntryConfig := do
  match ← j.variant? with
  | ("Action", some c) =>
    match ← c.1.content? o ["actions", "position"] with
    | [actions, position] =>
      return ⟨← needed (listedOfJson? o ·.1) actions, ← defaulted .tail (·.1.member) position⟩
    | _ => none
  | _ => none

/-- The actions of a port of a JSON value. -/
def PortConfig.decode? (o : Json.Origin) (j : Json) : Option PortConfig := do
  match ← j.record? ["dir", "actions"] with
  | [dir, actions] =>
    return ⟨← needed (·.1.member) dir, ← needed (listedOfJson? o ·.1) actions⟩
  | _ => none

/-- The table of a JSON value that is part of a larger one. -/
def TableConfig.ofJson? : Json → Option TableConfig := decode? .value

/-- The table entry of a JSON value that is part of a larger one. -/
def EntryConfig.ofJson? : Json → Option EntryConfig := decode? .value

/-- The actions of a port of a JSON value that is part of a larger one. -/
def PortConfig.ofJson? : Json → Option PortConfig := decode? .value

/-- The query about a port of a JSON value. -/
def PortQuery.ofJson? (j : Json) : Option PortQuery := do
  match ← j.record? ["counters"] with
  | [counters] => return ⟨← needed (·.1.bool?) counters⟩
  | _ => none

/-- The counters with their values of a JSON value. -/
def countersOfJson? : Json → Option Counters
  | .obj ms => do
    let pairs ← ms.mapM fun (m : String × Json) => do
      return ((← Enumerated.ofName? m.1 : CounterId), ← longOfJson? m.2)
    return SortedMap.ofList pairs
  | _ => none

/-- The report about a port of a JSON value. -/
def PortReport.ofJson? (j : Json) : Option PortReport := do
  match ← j.record? ["id", "nid", "rx_actions", "tx_actions", "counters"] with
  | [id, nid, rx, tx, counters] =>
    return ⟨← needed (·.1.str?) id, ← needed (longOfJson? ·.1) nid, ← needed (longOfJson? ·.1) rx,
      ← needed (longOfJson? ·.1) tx, ← needed (countersOfJson? ·.1) counters⟩
  | _ => none

end Dataplane

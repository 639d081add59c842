import Dataplane.Context.Objects
import Dataplane.Text.Columns

/-!
# Reports

Objects, counters, ports and tables as text for people to read. Lists are set in aligned columns
below a line of headings.
-/

namespace Dataplane.Report

/-- A line of cells. -/
def row (cells : List String) : String := "\t".intercalate cells ++ "\n"

/-- A list with its headings, in aligned columns. -/
def listing (headings : List String) (rows : List (List String)) : String :=
  Text.align (String.join ((headings :: rows).map row))

/-- A horizontal rule. -/
def rule (c : Char) : String := String.ofList (List.replicate 70 c) ++ "\n"

/-- The rule below a title. -/
def boldRule : String := rule '='

/-- The rule below the title of a part. -/
def thinRule : String := rule '-'

/-- The objects registered under an identifier. -/
def objects (infos : List ObjectInfo) : String :=
  listing ["ID", "NID", "KIND", "REFS"]
    (infos.map fun o => [o.id, toString o.nid, o.kind.text, toString o.refs])

/-- Some counters. -/
def counters (c : Counters) : String :=
  listing ["COUNTER", "VALUE"] (c.pairs.map fun (id, v) => [id.text, toString v])

/-- A port, and its counters if there are any. -/
def port (r : PortReport) : String :=
  s!"Port {r.id} (NID {r.nid})\n" ++ boldRule ++ s!"RX actions: {r.rxActions}\n" ++
    s!"TX actions: {r.txActions}\n" ++
    if r.counters.pairs.isEmpty then "" else "\n" ++ counters r.counters

/-- The rows of the entries of a table: each action has a row and a position. -/
def entryRows (entries : List (String × ActionList)) : List (List String) :=
  let actions := entries.flatMap fun (entry, actions) => actions.map (entry, ·)
  actions.zipIdx.map fun ((entry, a), pos) => [entry, toString pos, a.text]

/-- A table. -/
def table (id : String) (t : Table (Listed Action)) : String :=
  let rows := ["ENTRY", "POS", "ACTION"] :: entryRows t.entryActions
  Text.align (s!"Table {id}\n" ++ boldRule ++ String.join (rows.map row)) ++
    Text.align ("\nDefault Actions\n" ++ thinRule ++
      String.join (t.default.map fun a => row [a.text]))

end Dataplane.Report

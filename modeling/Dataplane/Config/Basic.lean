import Dataplane.Counter
import Dataplane.Disposition
import Dataplane.Field
import Dataplane.SortedMap

/-!
# Configuration of actions, tables and ports

What the engine is configured with: plain values that name ports, tables and counters by their
identifiers. Actions that do the work are built from them.

## The model

An action is listed with a flag that defers it until the deferred actions are evaluated. A mirror
action and a select action hold lists of such actions themselves, so configurations nest.
-/

namespace Dataplane

/-- Something with the flag that defers it until an evaluation. -/
structure Flagged (α : Type) where
  action : α
  onEvaluate : Bool
  deriving DecidableEq

/-- How a select action turns its key into a number. -/
inductive SelectAlgo where
  | crc16
  | crc32
  | random
  deriving DecidableEq

namespace SelectAlgo

instance : Enumerated SelectAlgo where
  all := [crc16, crc32, random]
  name
    | crc16 => "Crc16"
    | crc32 => "Crc32"
    | random => "Random"

/-- The display text of an algorithm is its name. -/
def text (a : SelectAlgo) : String := Enumerated.name a

end SelectAlgo

/-- What an update action does to its field. -/
inductive UpdateOp where
  /-- Overwrite. -/
  | set
  /-- Add. -/
  | inc
  /-- Subtract. -/
  | dec
  /-- Overwrite with another field. -/
  | copy
  /-- Overwrite a range of bits. -/
  | bitWrite
  /-- Clear the bits that are zero in the operand. -/
  | bitAnd
  /-- Set the bits that are one in the operand. -/
  | bitOr
  deriving DecidableEq

namespace UpdateOp

instance : Enumerated UpdateOp where
  all := [set, inc, dec, copy, bitWrite, bitAnd, bitOr]
  name
    | set => "Set"
    | inc => "Inc"
    | dec => "Dec"
    | copy => "Copy"
    | bitWrite => "BitWrite"
    | bitAnd => "BitAnd"
    | bitOr => "BitOr"

/-- The display text of an update operation. -/
def text : UpdateOp → String
  | set => "SET"
  | inc => "INC"
  | dec => "DEC"
  | copy => "COPY"
  | bitWrite => "BIT_WRITE"
  | bitAnd => "BIT_AND"
  | bitOr => "BIT_OR"

end UpdateOp

/-- Configures an update action. -/
structure UpdateConfig where
  /-- The field that is changed. -/
  field : FieldId
  op : UpdateOp
  /-- The operand of every operation but copying. -/
  value : Bytes
  /-- The field that copying reads. -/
  src : Option FieldId
  /-- The lowest bit that a bit write changes. -/
  bitOffset : UInt16
  /-- The number of bits that a bit write changes. -/
  bitCount : UInt16
  deriving DecidableEq

/-- The display text of an update. -/
def UpdateConfig.text (u : UpdateConfig) : String := s!"update({u.field.text} {u.op.text})"

/-- Configures an action. -/
inductive ActionConfig where
  /-- Nothing at all. -/
  | proceed
  /-- Throw the packet away. -/
  | drop
  /-- Keep debug messages from here on. -/
  | debug
  /-- Remove a header. -/
  | decap (header : HeaderKind)
  /-- Add a header. -/
  | encap (header : HeaderKind)
  /-- Run the deferred actions. -/
  | evaluate
  /-- Send the packet out, if its output port is there. -/
  | output
  /-- Make a port the output port and, if so wished, send the packet out. -/
  | transmit (port : String) (immediate : Bool)
  /-- Go on with the actions of a table. -/
  | lookup (table : String)
  /-- Run actions on a replica of the packet. -/
  | mirror (port : Option String) (actions : List (Flagged ActionConfig)) (fields : List FieldId)
  /-- Limit the rate, in bytes per second with bursts of some bytes. -/
  | ratelimit (rate burst : UInt64)
  /-- Parse the frame again, with bytes put in front of it and some fields kept. -/
  | reparse (header : HeaderKind) (fields : List FieldId) (front : Bytes)
  /-- Go on with one of several lists, chosen by some fields. -/
  | select (fields : List FieldId) (algo : SelectAlgo) (lists : List (List (Flagged ActionConfig)))
  /-- Make the port paired with the input port the output port. -/
  | swapOutput
  /-- Change a field. -/
  | update (u : UpdateConfig)
  /-- Count the packet on a flow counter. -/
  | flowCounter (counter : String)
  /-- An action of a registered kind. -/
  | custom (kind : String) (args : SortedMap String String)

namespace ActionConfig

/-- The name of the kind of an action. -/
def kindName : ActionConfig → String
  | proceed => "continue"
  | drop => "drop"
  | debug => "debug"
  | decap _ => "decap"
  | encap _ => "encap"
  | evaluate => "evaluate"
  | output => "output"
  | transmit .. => "transmit"
  | lookup _ => "lookup"
  | mirror .. => "mirror"
  | ratelimit .. => "ratelimit"
  | reparse .. => "reparse"
  | select .. => "select_action_list"
  | swapOutput => "swap_output"
  | update _ => "update"
  | flowCounter _ => "flow_counter"
  | custom kind _ => kind

/-- The display text of an action: its kind and, for some kinds, what it is about. -/
def text : ActionConfig → String
  | decap k => s!"decap({k.text})"
  | encap k => s!"encap({k.text})"
  | transmit port immediate => s!"transmit({port}, immediate={immediate})"
  | lookup table => s!"lookup({table})"
  | ratelimit rate burst => s!"ratelimit({rate}B/s, burst={burst}B)"
  | update u => u.text
  | flowCounter counter => s!"flow_counter({counter})"
  | a => a.kindName

end ActionConfig

/-- Configures one action of a list. -/
abbrev ListedConfig := Flagged ActionConfig

/-- Where the actions of a table entry are put. -/
inductive Position where
  | head
  | tail
  deriving DecidableEq

instance : Enumerated Position where
  all := [.head, .tail]
  name
    | .head => "Head"
    | .tail => "Tail"

/-- Configures a table. -/
structure TableConfig where
  /-- What a lookup gives while the table has no entry's actions. -/
  defaultActions : List ListedConfig

/-- Configures a table entry. -/
structure EntryConfig where
  actions : List ListedConfig
  position : Position

/-- Configures the actions of a port in one direction. -/
structure PortConfig where
  dir : Direction
  actions : List ListedConfig

/-- What is asked about a port. -/
structure PortQuery where
  /-- Are the counters wanted? -/
  counters : Bool
  deriving DecidableEq

/-- What is told about a port. -/
structure PortReport where
  id : String
  nid : UInt64
  /-- The number of actions for packets coming in. -/
  rxActions : UInt64
  /-- The number of actions for packets going out. -/
  txActions : UInt64
  counters : Counters
  deriving DecidableEq

end Dataplane

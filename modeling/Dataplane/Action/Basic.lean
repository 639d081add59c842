import Dataplane.Bytes.Hex
import Dataplane.Config.Basic
import Dataplane.Crc
import Dataplane.Registry.Basic

/-!
# Built actions

An action that is built from its configuration holds references to the ports, tables and counters
that the configuration names, and so do the actions in the lists it holds.

## The model

An action of a list carries the flag that defers it, a hash by which lists are compared, and a
serial number: two lists share an action when they hold the same serial number. The lists inside an
action are shared in the same way, so an action is taken apart into its *parts*: itself and the
actions in its lists. Parts and references are listed in the order in which they are let go.
-/

namespace Dataplane

/-- Something in a list of actions. -/
structure Listed (α : Type) where
  action : α
  /-- Is it deferred until an evaluation? -/
  onEvaluate : Bool
  /-- What stands for it in comparisons. -/
  hash : UInt32
  /-- What tells it from every other one. -/
  serial : Nat

/-- An action by itself, apart from the actions in its lists. -/
structure Part where
  /-- The serial number of the action. -/
  serial : Nat
  /-- The serial numbers of the objects it refers to. -/
  refs : List Nat
  deriving DecidableEq

namespace Part

/-- The references of some actions. -/
def refsOf (ps : List Part) : List Nat := ps.flatMap (·.refs)

/-- The actions without those of some serial numbers. -/
def beyond (serials : List Nat) (ps : List Part) : List Part :=
  ps.filter fun p => p.serial ∉ serials

end Part

/-- A built action. -/
inductive Action where
  /-- Throws the packet away. -/
  | drop
  /-- Keeps debug messages from here on. -/
  | debug
  /-- Runs the deferred actions. -/
  | evaluate
  /-- Removes a header. -/
  | decap (header : HeaderKind)
  /-- Adds a header. -/
  | encap (header : HeaderKind)
  /-- Parses the frame again, with bytes put in front of it and some fields kept. -/
  | reparse (header : HeaderKind) (fields : List FieldId) (front : Bytes)
  /-- Sends the packet out, if its output port is there. -/
  | output
  /-- Makes a port the output port and, if so wished, sends the packet out. -/
  | transmit (port : Ref) (immediate : Bool)
  /-- Makes the port paired with the input port the output port. -/
  | swapOutput
  /-- Goes on with the actions of a table. -/
  | lookup (table : Ref)
  /-- Runs actions on a replica of the packet. -/
  | mirror (port : Option Ref) (actions : List (Listed Action)) (fields : List FieldId)
  /-- Limits the rate by the token bucket with the given number. -/
  | ratelimit (rate burst : UInt64) (bucket : Nat)
  /-- Goes on with one of several lists, chosen by some fields. -/
  | select (fields : List FieldId) (algo : SelectAlgo) (lists : List (List (Listed Action)))
  /-- Changes a field. -/
  | update (u : UpdateConfig)
  /-- Counts the packet on a flow counter. -/
  | flowCount (counter : Ref)
  /-- Sets an attribute of the packet. -/
  | stamp (key tag : String)
  /-- Notes a number down and decides what becomes of the packet. -/
  | record (tag : Nat) (state : Disposition)
  /-- Goes on with a list and decides what becomes of the packet. -/
  | jump (next : List (Listed Action)) (state : Disposition)

/-- A list of built actions. -/
abbrev ActionList := List (Listed Action)

namespace Action

/-- The display text of an action. -/
def text : Action → String
  | drop => "drop"
  | debug => "debug"
  | evaluate => "evaluate"
  | decap k => s!"decap({k.text})"
  | encap k => s!"encap({k.text})"
  | reparse k _ front => s!"reparse({k.text}, prepend={front.length}B)"
  | output => "output"
  | transmit port immediate => s!"transmit({port.id}, immediate={immediate})"
  | swapOutput => "swap_output"
  | lookup table => s!"lookup({table.id})"
  | mirror (some port) actions _ => s!"mirror({port.id}, {actions.length} actions)"
  | mirror none actions _ => s!"mirror({actions.length} actions)"
  | ratelimit rate burst _ => s!"ratelimit({rate}B/s, burst={burst}B)"
  | select _ algo lists => s!"select_action_list({algo.text}, {lists.length} lists)"
  | update u => u.text
  | flowCount counter => s!"flow_counter({counter.id})"
  | stamp _ tag => s!"stamp({tag})"
  | record tag state => s!"record({tag}, {Enumerated.name state})"
  | jump next state => s!"jump({next.length}, {state.text})"

/-- The serial numbers of the objects an action refers to itself, apart from the actions in its
lists. -/
def ownRefs : Action → List Nat
  | transmit port _ => [port.serial]
  | lookup table => [table.serial]
  | mirror port _ _ => (port.map (·.serial)).toList
  | flowCount counter => [counter.serial]
  | _ => []

mutual

/-- The actions in the lists of an action, one by one. -/
def parts : Action → List Part
  | mirror _ actions _ => partsOfList actions
  | select _ _ lists => partsOfLists lists
  | jump next _ => partsOfList next
  | _ => []

/-- An action of a list, and the actions in its lists. -/
def partsOfListed : Listed Action → List Part
  | ⟨action, _, _, serial⟩ => ⟨serial, ownRefs action⟩ :: parts action

/-- The actions of a list and those in their lists, one by one. -/
def partsOfList : List (Listed Action) → List Part
  | [] => []
  | a :: as => partsOfListed a ++ partsOfList as

/-- The actions of some lists and those in their lists, one by one. -/
def partsOfLists : List (List (Listed Action)) → List Part
  | [] => []
  | l :: ls => partsOfList l ++ partsOfLists ls

end

/-- The serial numbers of the objects an action refers to. -/
def refs (a : Action) : List Nat := a.ownRefs ++ Part.refsOf a.parts

/-- The references of the actions of a list. -/
def refsOfList (l : List (Listed Action)) : List Nat := Part.refsOf (partsOfList l)

/-- The references of the actions of some lists. -/
def refsOfLists (ls : List (List (Listed Action))) : List Nat := Part.refsOf (partsOfLists ls)

end Action

namespace Listed

/-- The display text of an action of a list. -/
def text (a : Listed Action) : String :=
  if a.onEvaluate then s!"{a.action.text} (on evaluate)" else a.action.text

/-- The display text with the hash. -/
def hashedText (a : Listed Action) : String :=
  s!"ActionAttr({a.text}, 0x{Bytes.toHex (Bytes.ofNat 4 a.hash.toNat)})"

/-- The hash of an action that was not built from a configuration: it is taken over the display text
and the flag. -/
def textHash (action : Action) (onEvaluate : Bool) : UInt32 :=
  crc32 (action.text.toUTF8.toList ++ [if onEvaluate then 1 else 0])

end Listed

namespace ActionList

/-- Are two lists equal as far as the hashes of their actions say? -/
def isEqual (a b : ActionList) : Bool := a.map (·.hash) = b.map (·.hash)

end ActionList

end Dataplane

import Dataplane.Action.Custom
import Dataplane.Log
import Dataplane.Moment
import Dataplane.Port
import Dataplane.Table
import Dataplane.TokenBucket

/-!
# Contexts

A context holds the objects of a forwarding engine and the services its actions use: the builders of
custom actions, token buckets, a clock, random numbers, the pairing of ports, a log, and the places
where notifications and packets without a port go.

## The model

The context is a value, and each operation gives the context after it. What would be handed to an
outside service is listed in it: log lines, notifications, packets that were given to the packet
sink, and the numbers that record actions noted down. What an outside service answers is listed
ahead: the random numbers that will be drawn are any sequence. An action of an object may be held
outside as well, and keeps its references until neither holds it; so an object knows which of its
actions it has lent, and gives them up without releasing anything. A context that was closed keeps
its objects for those who still refer to them, but is no longer at hand for actions that need it, and
references to its objects are released no more.
-/

namespace Dataplane

/-- What an object holds. A port and a table may have lent some of their actions: those that someone
outside holds as well, by serial number. -/
inductive Object where
  | port (p : Port) (lent : List Nat)
  | table (t : Table (Listed Action)) (lent : List Nat)
  | counter (c : Counters)
  | flowCounter (c : Counters)

namespace Object

/-- The counters of an object. -/
def counters? : Object → Option Counters
  | port p _ => some p.counters
  | table .. => none
  | counter c | flowCounter c => some c

def port? : Object → Option Port
  | port p _ => some p
  | _ => none

def table? : Object → Option (Table (Listed Action))
  | table t _ => some t
  | _ => none

/-- The actions that an object holds, in the order in which they are let go. -/
def actions : Object → ActionList
  | port p _ => p.rx ++ p.tx
  | table t _ => t.allActions
  | counter _ | flowCounter _ => []

/-- The actions that an object holds and those in their lists, one by one. -/
def parts (b : Object) : List Part := Action.partsOfList b.actions

/-- The serial numbers of the actions that are lent. -/
def lent : Object → List Nat
  | port _ lent | table _ lent => lent
  | counter _ | flowCounter _ => []

/-- The object with its port changed, if it is one. -/
def modifyPort (f : Port → Port) : Object → Object
  | port p lent => port (f p) lent
  | o => o

/-- The object with its table changed, if it is one. -/
def modifyTable (f : Table (Listed Action) → Table (Listed Action)) : Object → Object
  | table t lent => table (f t) lent
  | o => o

/-- The object with the actions of some serial numbers lent, and no others. -/
def lend (serials : List Nat) : Object → Object
  | port p _ => port p serials
  | table t _ => table t serials
  | o => o

/-- The object with its flow counted, if it is a flow counter. -/
def countFlow (len : Nat) : Object → Object
  | flowCounter c => flowCounter (c.count .flow len)
  | o => o

instance : Composite Object where
  kind
    | port .. => .port
    | table .. => .table
    | counter _ => .counter
    | flowCounter _ => .flowCounter
  owned b := Part.refsOf (Part.beyond b.lent b.parts)
  vacate
    | port p lent => port p.vacate lent
    | table _ lent => table (.empty []) lent
    | o => o
  countCleanup := modifyPort Port.countCleanup
  owned_vacate b := by cases b <;> rfl

end Object

/-- What is told about the objects of a context. -/
inductive Notification where
  /-- An object was registered. -/
  | added (id : String) (nid : Nat) (kind : ObjectKind)
  /-- An object was taken out of the index of identifiers. -/
  | removed (id : String) (nid : Nat)
  deriving DecidableEq

/-- A context. -/
structure Context where
  /-- The name of the context. -/
  id : String
  /-- The number that tells it from others of its name. -/
  number : Nat
  /-- Has it not been closed? -/
  isOpen : Bool
  /-- The builders of custom actions. -/
  builders : CustomBuilders
  registry : Registry Object
  /-- The token buckets of rate limiting actions. -/
  buckets : List TokenBucket
  /-- The serial number of the next built action. -/
  nextSerial : Nat
  pairing : Pairing
  /-- Attributes of the context, by key. -/
  attrs : SortedMap String String
  clock : Moment
  /-- The random numbers still to be drawn. -/
  draws : Nat → UInt32
  /-- Are there takers for packets without a port? -/
  hasSink : Bool
  /-- The packets given to them. -/
  sunk : List Packet
  /-- Are there takers for notifications? -/
  notifies : Bool
  /-- The notifications given to them. -/
  events : List Notification
  log : List LogLine
  /-- The numbers noted down by record actions. -/
  trace : List Nat

namespace Context

/-- A context without objects, which knows the three kinds of custom actions. -/
def fresh (id : String) (number : Nat) : Context where
  id
  number
  isOpen := true
  builders := .standard
  registry := .empty
  buckets := []
  nextSerial := 0
  pairing := .taps
  attrs := .empty
  clock := .start
  draws := fun _ => 0
  hasSink := false
  sunk := []
  notifies := false
  events := []
  log := []
  trace := []

/-- Logs a line under the name and the number of the context. -/
def logLine (c : Context) (level : LogLevel) (msg : String) : Context :=
  { c with log := c.log ++ [⟨level, s!"{c.id}:{c.number}: {msg}"⟩] }

/-- Tells the takers of notifications, if there are any. -/
def notify (c : Context) (n : Notification) : Context :=
  if c.notifies then { c with events := c.events ++ [n] } else c

/-- The context with its objects changed. -/
def withRegistry (c : Context) (r : Registry Object) : Context := { c with registry := r }

/-- The context with the body of an object changed. -/
def modifyBody (c : Context) (serial : Nat) (f : Object → Object) : Context :=
  c.withRegistry (c.registry.modifyBody serial f)

/-- The body of an object. -/
def body? (c : Context) (serial : Nat) : Option Object := (c.registry.get? serial).map (·.body)

/-- Releases references to objects, one after the other, unless the context was closed. -/
def release (c : Context) (serials : List Nat) : Context :=
  if c.isOpen then c.withRegistry (c.registry.releaseAll serials) else c

/-- The context with the actions of some serial numbers lent, and no others. -/
def lend (c : Context) (serials : List Nat) : Context :=
  c.withRegistry (c.registry.mapBodies (Object.lend serials))

/-- Does an object hold the action with a serial number? -/
def keeps (c : Context) (serial : Nat) : Bool :=
  c.registry.objects.any fun o => o.body.parts.any (·.serial == serial)

/-- Lets some actions go outside that others may hold as well: the references of an action are
released unless it is one of those still held outside or an object holds it. -/
def letGo (held : List Part) : (gone : List Part) → Context → Context
  | [], c => c
  | p :: rest, c =>
    let serials := (rest ++ held).map (·.serial)
    let c := c.lend serials
    letGo held rest (if p.serial ∈ serials ∨ c.keeps p.serial then c else c.release p.refs)

/-- The references of actions that an object gives up, apart from those of lent ones. -/
def givenUp (c : Context) (serial : Nat) (l : ActionList) : List Nat :=
  Part.refsOf (Part.beyond (((c.body? serial).map Object.lent).getD []) (Action.partsOfList l))

/-- Holds a new object and lets an old one go, if there is one. -/
def swapHold (c : Context) (new : Nat) (old : Option Nat) : Context :=
  c.withRegistry (old.toList.foldl Registry.letGo (c.registry.hold new))

/-- The context after a random number was drawn. -/
def drawn (c : Context) : Context := { c with draws := fun i => c.draws (i + 1) }

/-- Closes the context. -/
def close (c : Context) : Context := { c with isOpen := false }

/-! ### Packets on their way out -/

/-- The port with a NID, if it has not been cleaned up. -/
def resolvePort (c : Context) (nid : Nat) : Option Ref :=
  if nid = 0 then none
  else match c.registry.findNid nid with
    | .ok ref =>
      if ref.kind = .port ∧ !c.registry.isCleaned ref.serial then some ref else none
    | .error _ => none

/-- Writes a packet to a port; also says whether the port took it. -/
def write (c : Context) (serial : Nat) (pkt : Packet) : Disposition × Context :=
  match c.body? serial >>= Object.port? with
  | some p =>
    if p.refuses then (.drop, c)
    else (.consume,
      c.modifyBody serial (Object.modifyPort fun p => { p with written := p.written ++ [pkt] }))
  | none => (.drop, c)

/-- Sends a packet to its output port. Without one it goes to the packet sink or is dropped. -/
def dispatch (c : Context) (pkt : Packet) : Disposition × Context :=
  match c.resolvePort pkt.outputPort with
  | some port => c.write port.serial pkt
  | none => if c.hasSink then (.consume, { c with sunk := c.sunk ++ [pkt] }) else (.drop, c)

end Context

end Dataplane

import Dataplane.Context.Objects
import Dataplane.Context.Run

/-!
# Sessions

A session is a context together with what its user has given names: packets, lists of actions, sets
of counters, references, ports, and tables that are held on to.

## The model

A name is given anew at will, and what had the name before goes. A list that goes releases the
references of its actions, except of those that another list of the session or an object holds as
well; a reference that goes is released once the new one has been taken; a port that goes is held no
more once the new one is. A session outlives its context, so what has a name can still be used when
the context was closed.
-/

namespace Dataplane

/-- A context, and what has a name. -/
structure Session where
  context : Context
  packets : SortedMap String Packet
  lists : SortedMap String ActionList
  counters : SortedMap String Counters
  refs : SortedMap String Ref
  ports : SortedMap String Ref
  /-- The serial numbers of the tables that are held. -/
  tables : SortedMap String Nat

/-- What a context hands out. -/
structure Handout where
  log : List LogLine
  events : List Notification
  sunk : List Packet

namespace Session

/-- The session in which nothing has a name. -/
def start (c : Context) : Session := ⟨c, .empty, .empty, .empty, .empty, .empty, .empty⟩

/-- The session with its context replaced. -/
def withContext (s : Session) (c : Context) : Session := { s with context := c }

/-- What the context has handed out since the last time, and the session after it was taken. -/
def takeHandout (s : Session) : Handout × Session :=
  let c := s.context
  (⟨c.log, c.events, c.sunk⟩, s.withContext { c with log := [], events := [], sunk := [] })

/-! ### Packets -/

/-- Gives a packet a name. -/
def setPacket (s : Session) (name : String) (p : Packet) : Session :=
  { s with packets := s.packets.insert name p }

/-- Takes its name from a packet. -/
def dropPacket (s : Session) (name : String) : Session :=
  { s with packets := s.packets.erase name }

/-! ### Lists -/

/-- The session with its lists replaced, where a list that had a name goes. -/
def replaceLists (s : Session) (lists : SortedMap String ActionList) (gone : Option ActionList) :
    Session :=
  { s with
    lists
    context := s.context.letGo (Action.partsOfLists (lists.pairs.map (·.2)))
      (Action.partsOfList (gone.getD [])) }

/-- Gives a list a name. -/
def setList (s : Session) (name : String) (l : ActionList) : Session :=
  s.replaceLists (s.lists.insert name l) (s.lists.get? name)

/-- Takes its name from a list. -/
def dropList (s : Session) (name : String) : Session :=
  s.replaceLists (s.lists.erase name) (s.lists.get? name)

/-- Gives a name to a list of record actions that are not built from a configuration: each has a
number, a disposition and the flag that defers it. -/
def recordList (s : Session) (name : String) (items : List (Nat × Disposition × Bool)) :
    ActionList × Session :=
  let c := s.context
  let l := items.zipIdx.map fun ((tag, state, deferred), i) =>
    let action := Action.record tag state
    ⟨action, deferred, Listed.textHash action deferred, c.nextSerial + i⟩
  (l, (s.withContext { c with nextSerial := c.nextSerial + l.length }).setList name l)

/-- The session after a list has run on a packet, counting on a set of counters if one was named. -/
def afterRun (s : Session) (packet : String) (counters : Option String) (r : Run) : Session :=
  let s := (s.withContext r.context).setPacket packet r.packet
  match counters with
  | some name => { s with counters := s.counters.insert name r.counters }
  | none => s

/-! ### References -/

/-- Takes a reference to the object registered under an identifier, of a kind if one is given, and
gives it a name; also gives the number of references there are then. -/
def acquire (s : Session) (id : String) (kind : Option ObjectKind) (name : String) :
    Except RegistryError ((Ref × Nat) × Session) := do
  let registry := s.context.registry
  let (ref, registry) ← match kind with
    | some k => registry.acquireKind id k
    | none => registry.acquire id
  let refs ← registry.refs id
  let old := (s.refs.get? name).map (·.serial)
  let context := (s.context.withRegistry registry).release old.toList
  return ((ref, refs), { s with context, refs := s.refs.insert name ref })

/-- Releases a reference that has a name. -/
def release (s : Session) (name : String) : Session :=
  let context := s.context.release ((s.refs.get? name).map (·.serial)).toList
  { s with context, refs := s.refs.erase name }

/-! ### Ports and tables -/

/-- Registers a port and gives it its identifier as a name; also gives its NID. -/
def addPort (s : Session) (id : String) : Except RegistryError (Nat × Session) := do
  let (nid, context) ← s.context.addPort id
  let ref ← context.registry.findId id
  let context := context.swapHold ref.serial ((s.ports.get? id).map (·.serial))
  return (nid, { s with context, ports := s.ports.insert id ref })

/-- Holds on to the table registered under an identifier. -/
def holdTable (s : Session) (id : String) : Except TableError Session := do
  let (serial, _) ← s.context.findTable id
  return { s with tables := s.tables.insert id serial }

/-- The port of a reference, as it stands. -/
def port (s : Session) (ref : Ref) : Port :=
  ((s.context.body? ref.serial).bind Object.port?).getD .fresh

/-- The session with a port changed. -/
def modifyPort (s : Session) (ref : Ref) (f : Port → Port) : Session :=
  s.withContext (s.context.modifyBody ref.serial (.modifyPort f))

end Session

end Dataplane

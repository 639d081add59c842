import Dataplane.Context.Build

/-!
# Objects of a context

Ports, tables and counters are registered in a context, configured, and taken out again.

## The model

Whatever fails leaves the objects and the counts of references as they were: the actions that were
built for a table or an entry that is then refused are let go. Actions that are replaced or removed
are let go after the change, unless they are lent. Takers of notifications hear of each object that
is registered or taken out.

Tearing a context down forces out every registered object: first those that are selected, the ports
as a rule, and then the others.
-/

namespace Dataplane

namespace Context

/-! ### Registering and removing -/

/-- Registers an object under an identifier; also gives its NID. -/
def addObject (c : Context) (id : String) (body : Object) :
    Except RegistryError (Nat × Context) := do
  let (nid, r) ← c.registry.insert id body
  return (nid, (c.withRegistry r).notify (.added id nid (Composite.kind body)))

/-- Takes an object out of the index of identifiers. -/
def removeObject (c : Context) (id : String) : Except RegistryError Context := do
  let (nid, r) ← c.registry.remove id false
  return (c.withRegistry r).notify (.removed id nid)

/-- Registers a port. -/
def addPort (c : Context) (id : String) : Except RegistryError (Nat × Context) :=
  c.addObject id (.port .fresh [])

/-- Registers some counters. -/
def createCounter (c : Context) (id : String) (ids : List CounterId) :
    Except RegistryError (Nat × Context) :=
  c.addObject id (.counter (.ofIds ids))

/-- Registers a flow counter. -/
def createFlowCounter (c : Context) (id : String) : Except RegistryError (Nat × Context) :=
  c.addObject id (.flowCounter .flow)

/-! ### Tables -/

/-- Registers a table; gives its NID. -/
def createTable (id : String) (config : TableConfig) : Builder Nat := do
  let actions ← Build.actions config.defaultActions
  match (← get).addObject id (.table (.empty actions) []) with
  | .ok (nid, c) =>
    set c
    return nid
  | .error e =>
    modify (·.release (Action.refsOfList actions))
    throw (.registry e)

/-- The table registered under an identifier, and its serial number. -/
def findTable (c : Context) (id : String) : Except TableError (Nat × Table (Listed Action)) := do
  let ref ← (c.registry.findId id).mapError (.build <| .registry ·)
  match c.body? ref.serial >>= Object.table? with
  | some t => return (ref.serial, t)
  | none => throw (.notATable id)

/-- Adds an entry to a table. -/
def addEntryTo (serial : Nat) (entry : String) (config : EntryConfig) : Attempt TableError Unit := do
  let actions ← (Build.actions config.actions).adapt .build
  match (← get).body? serial >>= Object.table? >>= (·.insert? entry actions config.position) with
  | some t => modify (·.modifyBody serial (.modifyTable fun _ => t))
  | none =>
    modify (·.release (Action.refsOfList actions))
    throw (.duplicateEntry entry)

/-- Adds an entry to the table registered under an identifier. -/
def addEntry (id entry : String) (config : EntryConfig) : Attempt TableError Unit := do
  let (serial, _) ← (← get).findTable id
  addEntryTo serial entry config

/-- Removes an entry of a table. -/
def removeEntryOf (serial : Nat) (entry : String) : Attempt TableError Unit := do
  match (← get).body? serial >>= Object.table? >>= (·.remove? entry) with
  | some (t, actions) =>
    modify fun c => (c.modifyBody serial (.modifyTable fun _ => t)).release
      (c.givenUp serial actions)
  | none => throw (.noEntry entry)

/-- Removes an entry of the table registered under an identifier. -/
def removeEntry (id entry : String) : Attempt TableError Unit := do
  let (serial, _) ← (← get).findTable id
  removeEntryOf serial entry

/-- Removes every entry of a table. -/
def clearTable (c : Context) (serial : Nat) : Context :=
  match c.body? serial >>= Object.table? with
  | some t => (c.modifyBody serial (.modifyTable Table.clear)).release (c.givenUp serial t.list)
  | none => c

/-! ### Ports -/

/-- Replaces the actions of a port in one direction, which stay if the new ones cannot be built. -/
def updatePort (serial : Nat) (config : PortConfig) : Builder Unit := do
  let actions ← Build.actions config.actions
  let old := match (← get).body? serial >>= Object.port? with
    | some p => p.actions config.dir
    | none => []
  modify fun c =>
    (c.modifyBody serial (.modifyPort (·.setActions config.dir actions))).release
      (c.givenUp serial old)

/-- What is told about a port. -/
def portReport (c : Context) (ref : Ref) (q : PortQuery) : PortReport :=
  let p := ((c.body? ref.serial).bind Object.port?).getD .fresh
  { id := ref.id
    nid := UInt64.ofNat ref.nid
    rxActions := UInt64.ofNat p.rx.length
    txActions := UInt64.ofNat p.tx.length
    counters := if q.counters then p.counters else .none }

/-! ### Tearing down -/

/-- Forces out one object, warned about if it is still referred to. -/
def forceOut (c : Context) (info : ObjectInfo) : Context :=
  let refs := match c.registry.refs info.id with
    | .ok n => n
    | .error _ => info.refs
  let c := if 1 < refs then
      c.logLine .warn s!"forcing out {info.kind.text} {info.id} with {refs - 1} references"
    else c
  match c.registry.remove info.id true with
  | .ok (nid, r) => (c.withRegistry r).notify (.removed info.id nid)
  | .error _ => c

/-- Forces out some objects, in order. -/
def teardown (c : Context) (infos : List ObjectInfo) : Context := infos.foldl forceOut c

/-- Is an object that is registered under an identifier one of those selected? -/
def isSelected (c : Context) (select : Registered Object → Bool) (info : ObjectInfo) : Bool :=
  match c.registry.serialOf? info.id >>= c.registry.get? with
  | some o => select o
  | none => false

/-- Forces out every registered object, those selected first; gives the context in between, and the
context at the end. -/
def cleanup (c : Context) (select : Registered Object → Bool) : Context × Context :=
  let (first, rest) := c.registry.snapshot.partition (c.isSelected select)
  let between := c.teardown first
  (between, between.teardown rest)

/-- Forces out every registered object, ports first. -/
def shutdown (c : Context) : Context := (c.cleanup fun o => o.body.port?.isSome).2

end Context

end Dataplane

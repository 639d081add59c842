import Dataplane.Action.Update
import Dataplane.Attribute
import Dataplane.Context.Basic
import Dataplane.Pipeline

/-!
# Running actions

What each action does to its packet, the counters and the context, and how a pipeline of actions
runs on a packet.

## The model

An action works on a *run*: a packet in a context, with the counters that the pipeline counts on.
Every action but one is a function on runs. A mirror action starts a pipeline of its own, for a
replica of the packet, and a lookup inside it may lead back to the mirror action; so pipelines run
with a bound on how deep mirror actions nest, and a run that would go deeper has no result.

A replica is delivered where its pipeline sends it: out by its output port, or to the port of the
mirror action if the pipeline decides nothing.
-/

namespace Dataplane

/-- A packet in a context. -/
structure Run where
  context : Context
  packet : Packet
  counters : Counters

namespace Run

/-- What an action decides, and the run after it. -/
abbrev Step := Outcome (Listed Action) × Run

/-- The run with an event of a packet of the given length counted. -/
def countLength (r : Run) (e : CounterEvent) (len : Nat) : Run :=
  { r with counters := r.counters.count e len }

/-- The run with an event of its packet counted. -/
def count (r : Run) (e : CounterEvent) : Run := r.countLength e r.packet.length

/-- The run with its packet changed. -/
def modifyPacket (r : Run) (f : Packet → Packet) : Run := { r with packet := f r.packet }

/-- Going on with the run as it is. -/
def proceed (r : Run) : Step := (.of .proceed, r)

/-- Dropping the packet, the event counted and an error logged. -/
def fail (r : Run) (e : CounterEvent) (msg : String) : Step :=
  (.of .drop, (r.count e).modifyPacket (·.logError msg))

/-- Is the object of a reference there to be used? -/
def isUsable (r : Run) (ref : Ref) : Bool := !r.context.registry.isCleaned ref.serial

/-! ### The actions -/

/-- Dropping the packet. -/
def drop (r : Run) : Step := (.of .drop, r.count .drop)

/-- Keeping debug messages from here on. -/
def debug (r : Run) : Step :=
  ((r.modifyPacket fun p => { p with debug := true }).count .rxDebug
    |>.modifyPacket fun p => p.logDebug s!"debug: {p.text}").proceed

/-- Removing a header. That it cannot be removed is no error. -/
def decap (r : Run) (kind : HeaderKind) : Step :=
  match r.packet.decap kind with
  | .ok p => { r with packet := p }.proceed
  | .error e => (r.modifyPacket (·.logDebug s!"decap {kind.text}: {e.message}")).proceed

/-- Adding a header. -/
def encap (r : Run) (kind : HeaderKind) : Step :=
  match r.packet.encap kind with
  | .ok p => { r with packet := p }.proceed
  | .error e => r.fail .encapError s!"encap {kind.text}: {e.message}"

/-- Parsing the frame again. -/
def reparse (r : Run) (kind : HeaderKind) (fields : List FieldId) (front : Bytes) : Step :=
  match r.packet.reparse kind fields front with
  | .ok p => { r with packet := p }.proceed
  | .error e => r.fail .error s!"reparse as {kind.text}: {e.message}"

/-- Changing a field. -/
def update (r : Run) (u : UpdateConfig) : Step :=
  match u.apply r.packet with
  | .ok p => { r with packet := p }.proceed
  | .error e => r.fail .error s!"{u.text}: {e.message}"

/-- Sending the packet out, if its output port is there. -/
def output (r : Run) : Step :=
  let port := if r.context.isOpen then r.context.resolvePort r.packet.outputPort else none
  (.of (if port.isSome then .output else .proceed), r)

/-- Making a port the output port. -/
def transmit (r : Run) (port : Ref) (immediate : Bool) : Step :=
  if r.isUsable port then
    (.of (if immediate then .output else .proceed), r.modifyPacket (·.setOutputPort port.nid))
  else r.fail .txError s!"transmit: port {port.id} is gone"

/-- The port paired with the input port, or why there is none. -/
def paired (r : Run) : Except String Ref := do
  if !r.context.isOpen then throw "context is gone"
  let registry := r.context.registry
  let input ← (registry.findNid r.packet.inputPort).mapError RegistryError.message
  match r.context.pairing.pair? input.id with
  | none => throw s!"{input.id} has no paired port"
  | some id =>
    let (port, _) ← (registry.acquireKind id .port).mapError RegistryError.message
    return port

/-- Making the port paired with the input port the output port. The reference that is taken to the
port is given back at once. -/
def swapOutput (r : Run) : Step :=
  match r.paired with
  | .ok port => (r.modifyPacket (·.setOutputPort port.nid)).proceed
  | .error e => r.fail .txError s!"swap_output: {e}"

/-- Going on with the actions of a table. -/
def lookup (r : Run) (table : Ref) : Step :=
  match r.isUsable table, r.context.body? table.serial >>= Object.table? with
  | true, some t => (.andThen t.lookup, r)
  | _, _ => r.fail .drop s!"lookup: table {table.id} is gone"

/-- Limiting the rate. -/
def ratelimit (r : Run) (bucket : Nat) : Step :=
  let len := r.packet.length
  match r.context.buckets[bucket]? >>= (·.take? len r.context.clock) with
  | some b =>
    { r with context := { r.context with buckets := r.context.buckets.set bucket b } }.proceed
  | none =>
    let r := r.count .ratelimit
    if Attribute.isTrue (r.packet.attr? Attribute.advisoryRatelimit) then
      (r.modifyPacket (·.logDebug s!"ratelimit: advisory pass of {len}B")).proceed
    else (.of .drop, r)

/-- The number that an algorithm makes of a key, and the run after it. A random choice draws the
next random number, whatever the key. -/
def keyNumber (r : Run) (algo : SelectAlgo) (key : Bytes) : Nat × Run :=
  match algo with
  | .crc16 => ((crc16 key).toNat, r)
  | .crc32 => ((crc32 key).toNat, r)
  | .random => ((r.context.draws 0).toNat, { r with context := r.context.drawn })

@[simp] theorem counters_keyNumber (r : Run) (algo : SelectAlgo) (key : Bytes) :
    (r.keyNumber algo key).2.counters = r.counters := by
  cases algo <;> rfl

@[simp] theorem registry_keyNumber (r : Run) (algo : SelectAlgo) (key : Bytes) :
    (r.keyNumber algo key).2.context.registry = r.context.registry := by
  cases algo <;> rfl

/-- Going on with one of several lists. -/
def select (r : Run) (fields : List FieldId) (algo : SelectAlgo) (lists : List ActionList) :
    Step :=
  match fields.mapM r.packet.get with
  | .error e => r.fail .error s!"select_action_list: {e.message}"
  | .ok vals =>
    let number := r.keyNumber algo vals.flatten
    let i := number.1 % lists.length
    (.andThen (lists[i]?.getD []),
      number.2.modifyPacket (·.logDebug s!"select_action_list: chose list {i}"))

/-- Counting the packet on a flow counter, also on one that was cleaned up. -/
def flowCount (r : Run) (counter : Ref) : Step :=
  { r with
    context := r.context.modifyBody counter.serial (·.countFlow r.packet.length) }.proceed

/-- Noting a number down. -/
def record (r : Run) (tag : Nat) (state : Disposition) : Step :=
  (.of state, { r with context := { r.context with trace := r.context.trace ++ [tag] } })

/-- What an action does, a mirror action apart. -/
def perform (r : Run) : Action → Step
  | .drop => r.drop
  | .debug => r.debug
  | .evaluate => (.of .evaluate, r)
  | .decap kind => r.decap kind
  | .encap kind => r.encap kind
  | .reparse kind fields front => r.reparse kind fields front
  | .output => r.output
  | .transmit port immediate => r.transmit port immediate
  | .swapOutput => r.swapOutput
  | .lookup table => r.lookup table
  | .mirror .. => r.proceed
  | .ratelimit _ _ bucket => r.ratelimit bucket
  | .select fields algo lists => r.select fields algo lists
  | .update u => r.update u
  | .flowCount counter => r.flowCount counter
  | .stamp key tag => (r.modifyPacket (·.setAttr key tag)).proceed
  | .record tag state => r.record tag state
  | .jump next state => (⟨next, state⟩, r)

/-! ### Replicas -/

/-- How the delivery of a replica ended. -/
inductive Delivery where
  /-- Somebody took the replica. -/
  | taken
  /-- Nobody was to take it. -/
  | unclaimed
  | failed (reason : String)

/-- What becomes of a replica that was handed on. -/
def handedOn (taker : String) (c : Disposition × Context) : Delivery × Context :=
  (if c.1 = .drop then .failed s!"{taker} port dropped the replica" else .taken, c.2)

/-- Delivers a replica whose pipeline ended in `state`. -/
def deliver (c : Context) (port : Option Ref) (replica : Packet) (state : Disposition) :
    Delivery × Context :=
  if !c.isOpen then (.failed "context is gone", c)
  else match state, port with
    | .output, _ => handedOn "output" (c.dispatch replica)
    | .proceed, some port =>
      if c.registry.isCleaned port.serial then (.failed s!"mirror port {port.id} is gone", c)
      else handedOn "mirror" (c.write port.serial (replica.setOutputPort port.nid))
    | .proceed, none =>
      (.unclaimed, c.logLine .note s!"mirror replica {replica.text} has no destination")
    | _, _ => (.unclaimed, c)

/-- The run after a delivery, for a packet that had `len` bytes when it was mirrored. -/
def afterDelivery (r : Run) (len : Nat) : Delivery → Run
  | .taken => r.countLength .mirror len
  | .unclaimed => r
  | .failed reason =>
    (r.countLength .mirrorError len).modifyPacket (·.logError s!"mirror: {reason}")

/-! ### Pipelines -/

section Pipelines

variable {m : Type → Type} [Monad m] [MonadStateOf Run m]

/-- Runs a pipeline of actions, each of which does what `act` says. -/
def pipelineWith (act : Listed Action → m (Outcome (Listed Action)))
    (actions : ActionList) : m Verdict := do
  let verdict ← Pipeline.evaluate (·.onEvaluate) act actions
  if verdict.limited then
    modify (·.modifyPacket (·.logError s!"pipeline: {Pipeline.limitMessage}"))
  return verdict

/-- Runs a pipeline on a replica of the packet and delivers the replica. -/
def mirrorWith (pipeline : ActionList → m Verdict) (port : Option Ref)
    (actions : ActionList) (fields : List FieldId) : m (Outcome (Listed Action)) := do
  let before ← get
  let len := before.packet.length
  match before.packet.replica fields with
  | .error e => set (before.afterDelivery len (.failed e.message))
  | .ok replica =>
    set { before with packet := replica }
    let verdict ← pipeline actions
    let after ← get
    let (delivery, context) := deliver after.context port after.packet verdict.state
    set (Run.afterDelivery ⟨context, before.packet, after.counters⟩ len delivery)
  return .of .proceed

/-- What an action of a list does, where `pipeline` runs the pipelines of replicas. -/
def actWith (pipeline : ActionList → m Verdict) (a : Listed Action) :
    m (Outcome (Listed Action)) :=
  match a.action with
  | .mirror port actions fields => mirrorWith pipeline port actions fields
  | action => modifyGet (·.perform action)

end Pipelines

/-- A computation on runs that has no result if mirror actions nest too deep. -/
abbrev Bounded := StateT Run Option

/-- Runs a pipeline of actions, where mirror actions nest at most `depth` deep. -/
def pipeline : (depth : Nat) → ActionList → Bounded Verdict
  | 0, actions => pipelineWith (actWith fun _ => failure) actions
  | depth + 1, actions => pipelineWith (actWith (pipeline depth)) actions

end Run

end Dataplane

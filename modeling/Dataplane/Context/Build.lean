import Dataplane.Config.Compact
import Dataplane.Context.Basic

/-!
# Building actions

Building an action takes references to the objects its configuration names. A list that does not
build gives back every reference taken for it.

## The model

Building works on a context and may fail, but the context is there afterwards in any case: the
failure is logged in it, once for each list on the way out. When an action of a list does not build,
the ones built before it are let go, first one first.

What is built for a custom action is up to the builders of the context. Building goes as deep as
configurations nest, which `ActionConfig.depth` bounds, what builders make of arguments included.
-/

namespace Dataplane

/-- A computation on a context that may fail with an `ε`. -/
abbrev Attempt (ε : Type) := ExceptT ε (StateM Context)

/-- Building something on a context. -/
abbrev Builder := Attempt BuildError

namespace Build

/-! ### What is wrong with a configuration -/

/-- What is wrong with an update. -/
def updateFault? (u : UpdateConfig) : Option ConfigFault :=
  match u.op with
  | .copy => if u.src.isNone then some .copyWithoutSource else none
  | .bitWrite =>
    if u.value = [] then some .bitWriteWithoutValue
    else if 8 * u.value.length < u.bitCount.toNat then some .bitCountExceedsValue
    else none
  | _ => if u.value = [] then some .missingValue else none

/-- Refuses a configuration with a fault. -/
def check (kind : String) (fault : Option ConfigFault) : Builder Unit :=
  match fault with
  | some f => throw (.invalid kind f)
  | none => pure ()

/-! ### References -/

/-- Takes a reference to an object of a kind. -/
def acquire (id : String) (kind : ObjectKind) : Builder Ref := do
  match (← get).registry.acquireKind id kind with
  | .ok (ref, r) =>
    modify (·.withRegistry r)
    return ref
  | .error e => throw (.registry e)

/-- Does something, and if it fails releases references to some objects. -/
def orRelease {α : Type} (serials : List Nat) (x : Builder α) : Builder α :=
  tryCatch x fun e => do
    modify (·.release serials)
    throw e

/-- Puts an action into a list. -/
def enlist (config : ListedConfig) (action : Action) : Builder (Listed Action) := do
  let serial := (← get).nextSerial
  modify fun c => { c with nextSerial := serial + 1 }
  return ⟨action, config.onEvaluate, config.hash, serial⟩

/-! ### Lists -/

/-- Builds the actions of a list after those that are `done`. Configurations that build no action
are left out. -/
def list (build : ActionConfig → Builder (Option Action)) (done : ActionList) :
    List ListedConfig → Builder ActionList
  | [] => return done
  | config :: rest => do
    let built ← orRelease (Action.refsOfList done) <| tryCatch (build config.action) fun e => do
      modify (·.logLine .error s!"failed to build {config.action.text}: {e.message}")
      throw e
    match built with
    | some action => list build (done ++ [← enlist config action]) rest
    | none => list build done rest

/-- Builds some lists after those that are `done`. -/
def lists (build : ActionConfig → Builder (Option Action)) (done : List ActionList) :
    List (List ListedConfig) → Builder (List ActionList)
  | [] => return done
  | configs :: rest => do
    let built ← orRelease (Action.refsOfLists done) (list build [] configs)
    lists build (done ++ [built]) rest

/-! ### Custom actions -/

/-- Builds what a plan says. -/
def carryOut (build : ActionConfig → Builder (Option Action)) : CustomPlan → Builder Action
  | .stamp key tag => return .stamp key tag
  | .record tag state => return .record tag state
  | .jump configs state => do
    let next ← list build [] configs
    match state with
    | .ok state => return .jump next state
    | .error e => orRelease (Action.refsOfList next) (throw e)

/-- Builds a custom action. -/
def custom (builders : CustomBuilders) (build : ActionConfig → Builder (Option Action))
    (kind : String) (args : SortedMap String String) : Builder Action :=
  match builders.find? kind with
  | some builder =>
    match builder args with
    | .ok plan => carryOut build plan
    | .error e => throw e
  | none => throw (.unknownAction kind)

/-! ### Actions -/

/-- Builds an action whose configuration nests at most `fuel` deep. -/
def action (builders : CustomBuilders) : (fuel : Nat) → ActionConfig → Builder (Option Action)
  | 0, config => throw (.unknownAction config.kindName)
  | fuel + 1, config =>
    match config with
    | .proceed => return none
    | .drop => return some .drop
    | .debug => return some .debug
    | .decap k => return some (.decap k)
    | .encap k => return some (.encap k)
    | .evaluate => return some .evaluate
    | .reparse k fields front => return some (.reparse k fields front)
    | .output => return some .output
    | .transmit port immediate => return some (.transmit (← acquire port .port) immediate)
    | .swapOutput => return some .swapOutput
    | .lookup table => return some (.lookup (← acquire table .table))
    | .mirror port actions fields => do
      let port ← port.mapM (acquire · .port)
      let actions ← orRelease (port.map (·.serial)).toList (list (action builders fuel) [] actions)
      return some (.mirror port actions (fields ++ Packet.portFields))
    | .ratelimit rate burst => do
      check config.kindName (if burst = 0 then some .zeroBurst else none)
      let bucket := (← get).buckets.length
      modify fun c => { c with buckets := c.buckets ++ [.full rate burst] }
      return some (.ratelimit rate burst bucket)
    | .select fields algo configs => do
      check config.kindName (if configs.isEmpty then some .noLists else none)
      return some (.select fields algo (← lists (action builders fuel) [] configs))
    | .update u => do
      check config.kindName (updateFault? u)
      return some (.update u)
    | .flowCounter counter => return some (.flowCount (← acquire counter .flowCounter))
    | .custom kind args => return some (← custom builders (action builders fuel) kind args)

/-- Builds a list of actions. -/
def actions (configs : List ListedConfig) : Builder ActionList := do
  let builders := (← get).builders
  list (action builders (depthOfList builders.nesting configs)) [] configs

end Build

end Dataplane

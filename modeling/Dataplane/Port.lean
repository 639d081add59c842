import Dataplane.Action.Basic
import Dataplane.Packet

/-!
# Ports

Packets come in and go out by ports. A port has a list of actions for each direction and counters,
and keeps the packets written to it until they are taken.

## The model

A port may be told to refuse packets. Ports come in pairs: unless told otherwise, a port and its tap
are paired, and the name of a tap is that of its port with a suffix.
-/

namespace Dataplane

/-- A port. -/
structure Port where
  counters : Counters
  /-- The actions for packets coming in. -/
  rx : ActionList
  /-- The actions for packets going out. -/
  tx : ActionList
  /-- The packets written, oldest first. -/
  written : List Packet
  /-- Are packets refused? -/
  refuses : Bool
  /-- How often the port was cleaned up. -/
  cleanups : Nat

namespace Port

/-- A port without actions, its counters at zero. -/
def fresh : Port := ⟨.port, [], [], [], false, 0⟩

/-- The actions for a direction. -/
def actions (p : Port) : Direction → ActionList
  | .ingress => p.rx
  | .egress => p.tx

/-- The port with the actions for a direction replaced. -/
def setActions (p : Port) (dir : Direction) (l : ActionList) : Port :=
  match dir with
  | .ingress => { p with rx := l }
  | .egress => { p with tx := l }

/-- The port without actions. -/
def vacate (p : Port) : Port := { p with rx := [], tx := [] }

/-- The port after one more cleanup. -/
def countCleanup (p : Port) : Port := { p with cleanups := p.cleanups + 1 }

/-! ### Pairs -/

/-- What the name of a tap ends in. -/
def tapSuffix : List Char := ['-', 't', 'a', 'p']

/-- A name without the suffix of taps, if it has it. -/
def untapped? (id : List Char) : Option (List Char) :=
  if tapSuffix.isSuffixOf id then some (id.take (id.length - tapSuffix.length)) else none

/-- The name of the other port of a pair. -/
def tapPair (id : String) : Option String :=
  match untapped? id.toList, id.toList with
  | some [], _ | none, [] => none
  | some base, _ => some (String.ofList base)
  | none, id => some (String.ofList (id ++ tapSuffix))

end Port

/-- Which ports are paired. -/
inductive Pairing where
  /-- Each port with its tap. -/
  | taps
  /-- Those of a list. -/
  | given (pairs : SortedMap String String)

/-- The port paired with a port. -/
def Pairing.pair? (p : Pairing) (id : String) : Option String :=
  match p with
  | taps => Port.tapPair id
  | given pairs => pairs.get? id

end Dataplane

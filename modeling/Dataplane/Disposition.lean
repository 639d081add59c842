import Dataplane.Enumerated

/-!
# What becomes of a packet

An action says what is to become of the packet it was given: whether the pipeline goes on, or ends
with the packet dropped, consumed, or due for output. The direction says which way a packet crosses
a port.
-/

namespace Dataplane

/-- What is to become of a packet. -/
inductive Disposition where
  /-- No decision; the next action runs. -/
  | proceed
  /-- The packet is to be thrown away. -/
  | drop
  /-- Nothing more is to be done with the packet. -/
  | consume
  /-- The packet is to go out by its output port. -/
  | output
  /-- The deferred actions are to run. -/
  | evaluate
  deriving DecidableEq

namespace Disposition

instance : Enumerated Disposition where
  all := [proceed, drop, consume, output, evaluate]
  name
    | proceed => "Continue"
    | drop => "Drop"
    | consume => "Consume"
    | output => "Output"
    | evaluate => "Evaluate"

/-- Does the disposition end a pipeline? -/
def isTerminal : Disposition → Bool
  | drop | consume | output => true
  | proceed | evaluate => false

/-- The display text of a disposition. -/
def text : Disposition → String
  | proceed => "CONTINUE"
  | drop => "DROP"
  | consume => "CONSUME"
  | output => "OUTPUT"
  | evaluate => "EVALUATE"

end Disposition

/-- Which way a packet crosses a port. -/
inductive Direction where
  | ingress
  | egress
  deriving DecidableEq

namespace Direction

instance : Enumerated Direction where
  all := [ingress, egress]
  name
    | ingress => "In"
    | egress => "Out"

/-- The display text of a direction. -/
def text : Direction → String
  | ingress => "IN"
  | egress => "OUT"

/-- The direction a display text names, letters of either case allowed. -/
def ofText (s : String) : Except String Direction :=
  match s.map Char.toLower with
  | "in" => .ok ingress
  | "out" => .ok egress
  | _ => .error s!"invalid direction: {s}"

end Direction

end Dataplane

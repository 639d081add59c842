/-!
# Moments

A moment is a number of nanoseconds since the clock started, in a 64-bit word. Differences stop at
zero and sums at the last moment.
-/

namespace Dataplane

/-- A moment. -/
structure Moment where
  /-- Nanoseconds since the start. -/
  nanos : UInt64
  deriving DecidableEq

namespace Moment

/-- The start of the clock. -/
def start : Moment := ⟨0⟩

/-- The nanoseconds from `earlier` to `m`; zero if `earlier` is in fact later. -/
def since (m earlier : Moment) : Nat := m.nanos.toNat - earlier.nanos.toNat

/-- The whole milliseconds from `earlier` to `m`. -/
def millisSince (m earlier : Moment) : Nat := m.since earlier / 1000000

/-- The moment a number of nanoseconds later, or the last one. -/
def after (m : Moment) (nanos : Nat) : Moment :=
  ⟨UInt64.ofNat (min (m.nanos.toNat + nanos) (UInt64.size - 1))⟩

/-- The moment a number of nanoseconds later on a clock that wraps. -/
def advance (m : Moment) (nanos : UInt64) : Moment := ⟨m.nanos + nanos⟩

/-- Does `m` come after `n`? -/
def isAfter (m n : Moment) : Bool := n.nanos < m.nanos

end Moment

end Dataplane

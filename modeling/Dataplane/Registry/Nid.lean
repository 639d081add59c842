/-!
# Numeric identifiers

Every registered object has a number besides its name, its NID. Zero is no NID. A pool hands numbers
out and takes them back.

## The model

A number that was given back is handed out again before any new one, the last one given back first.
New numbers count up from one; the largest number of 64 bits is never reached.
-/

namespace Dataplane

/-- A pool of numeric identifiers. -/
structure NidPool where
  /-- The smallest number not handed out before. -/
  next : Nat
  /-- The numbers given back, last one first. -/
  free : List Nat
  deriving DecidableEq

namespace NidPool

/-- The pool from which nothing has been handed out. -/
def fresh : NidPool := ⟨1, []⟩

/-- The bound on numbers. -/
def bound : Nat := UInt64.size - 1

/-- A number and the pool without it, unless all numbers are taken. -/
def take? (p : NidPool) : Option (Nat × NidPool) :=
  match p.free with
  | nid :: rest => some (nid, { p with free := rest })
  | [] => if p.next < bound then some (p.next, { p with next := p.next + 1 }) else none

/-- The pool with a number given back. Zero is ignored. -/
def give (p : NidPool) (nid : Nat) : NidPool :=
  if nid = 0 then p else { p with free := nid :: p.free }

end NidPool

end Dataplane

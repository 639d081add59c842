/-!
# Finite types with named members

The vocabularies of the engine (header kinds, fields, counters) are finite lists of names in a
fixed order. A member is written by its name and numbered by its place in the list.
-/

namespace Dataplane

/-- A finite type whose members are listed in order and have names. -/
class Enumerated (α : Type) [BEq α] where
  /-- The members, in order. -/
  all : List α
  /-- The name of a member. -/
  name : α → String

namespace Enumerated

variable {α : Type} [BEq α] [Enumerated α]

/-- The place of a member in the list. -/
def index (a : α) : Nat := (all : List α).idxOf a

/-- The member with the given name. -/
def ofName? (s : String) : Option α := (all : List α).find? (name · == s)

end Enumerated

end Dataplane

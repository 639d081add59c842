import Dataplane.Bytes

/-!
# Compact byte forms

Building blocks of a byte form without names and without padding: numbers take as many bytes as
they need, and whatever has a variable length says how long it is.

## The model

A number is written seven bits at a time, the low bits first; every byte but the last has its high
bit set. Texts, lists and maps start with their number of bytes, elements or pairs.
-/

namespace Dataplane.Bytes

/-- The variable-length form of a number. -/
def varint (n : Nat) : Bytes :=
  if h : n < 128 then [UInt8.ofNat n]
  else UInt8.ofNat (n % 128 + 128) :: varint (n / 128)
termination_by n
decreasing_by omega

/-- The byte form of a truth value. -/
def ofBool (b : Bool) : Bytes := [if b then 1 else 0]

/-- The byte form of a byte string. -/
def sized (b : Bytes) : Bytes := varint b.length ++ b

/-- The byte form of a text. -/
def ofText (s : String) : Bytes := sized s.toUTF8.toList

/-- The byte form of an optional value. -/
def ofOption {α : Type} (f : α → Bytes) : Option α → Bytes
  | none => [0]
  | some a => 1 :: f a

/-- The byte form of a list. -/
def ofList {α : Type} (f : α → Bytes) (l : List α) : Bytes := varint l.length ++ l.flatMap f

end Dataplane.Bytes

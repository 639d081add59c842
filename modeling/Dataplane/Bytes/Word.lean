import Dataplane.Bytes.Block

/-!
# Fields as machine words

A field of one, two, four or eight bytes can be read and written as a number. Any other width is
refused.
-/

namespace Dataplane

/-- A field whose width is not the width of a machine word. -/
structure WidthError where
  /-- The width of the field. -/
  width : Nat
  deriving DecidableEq

/-- The wording of a width error. -/
def WidthError.message (e : WidthError) : String :=
  s!"numeric field access on unsupported width {e.width}"

namespace Bytes

/-- The widths of machine words. -/
def wordWidths : List Nat := [1, 2, 4, 8]

/-- Refuses a field that is no machine word. -/
def checkWord (b : Bytes) : Except WidthError Unit :=
  if b.length ∈ wordWidths then .ok () else .error ⟨b.length⟩

/-- The number a field holds. -/
def word (b : Bytes) : Except WidthError Nat := do
  b.checkWord
  return b.toNat

/-- The field with a number stored, cut to its width. -/
def setWord (b : Bytes) (val : Nat) : Except WidthError Bytes := do
  b.checkWord
  return ofNat b.length val

/-- The number a bit range of a field holds. -/
def wordBits (b : Bytes) (r : BitRange) : Except WidthError Nat := do
  return r.read (← b.word)

/-- The field with the low bits of a number in a bit range. -/
def setWordBits (b : Bytes) (r : BitRange) (val : Nat) : Except WidthError Bytes := do
  b.setWord (r.write (← b.word) val)

end Bytes

end Dataplane

import Dataplane.Enumerated
import Dataplane.Json

/-!
# Records and variants in JSON

How structured values are laid out in JSON. A *variant* is its name alone, or an object with one
member that is named for the variant and holds its content. A *record* is an object with a member
for each field; members that are no fields are passed over, but no field may come twice. Where a
record stands on its own, an array of the fields in order does too; where it is the content of a
variant, that depends on where the value comes from.

## The model

The readers give each field with the fact that it is smaller than the record, so that a decoder can
recurse on it. A field that is not there is an error, unless it has a default.
-/

namespace Dataplane.Json

/-- Where a value comes from. -/
inductive Origin where
  /-- It is part of a larger value. -/
  | value
  /-- It was written as a text of its own, where the content of a variant may be an array. -/
  | text
  deriving DecidableEq

/-- The name and the content of a variant. -/
def variant? (j : Json) : Option (String × Option j.Below) :=
  match j with
  | str name => some (name, none)
  | obj [(name, v)] => some (name, some ⟨v, by simp; omega⟩)
  | _ => none

/-- The fields of an object, in the order of `names`. -/
def fields? (names : List String) (j : Json) : Option (List (Option j.Below)) :=
  match j with
  | obj ms =>
    if names.all fun name => ms.countP (·.1 = name) ≤ 1 then some (names.map (obj ms).member?)
    else none
  | _ => none

/-- The fields of an object, or of an array that has no more elements than there are `names`. -/
def record? (names : List String) (j : Json) : Option (List (Option j.Below)) :=
  match j.elems? with
  | some es =>
    if es.length ≤ names.length then
      some (es.map some ++ List.replicate (names.length - es.length) none)
    else none
  | none => j.fields? names

/-- The fields of a record that is the content of a variant. -/
def content? (o : Origin) (names : List String) (j : Json) : Option (List (Option j.Below)) :=
  match o with
  | .value => j.fields? names
  | .text => j.record? names

/-- The value of a field that has to be there. -/
def needed {α : Type} {j : Json} (f : j.Below → Option α) : Option j.Below → Option α
  | some v => f v
  | none => none

/-- The value of a field that has a default. -/
def defaulted {α : Type} {j : Json} (dflt : α) (f : j.Below → Option α) :
    Option j.Below → Option α
  | some v => f v
  | none => some dflt

/-- Is this the content of a variant that has none? -/
def isUnit {j : Json} : Option j.Below → Bool
  | none | some ⟨null, _⟩ => true
  | _ => false

/-- A member of a finite type, given as a variant without content. -/
def member {α : Type} [BEq α] [Enumerated α] (j : Json) : Option α :=
  match j.variant? with
  | some (name, content) => if isUnit content then Enumerated.ofName? name else none
  | none => none

/-- The name of a member of a finite type. -/
def ofMember {α : Type} [BEq α] [Enumerated α] (a : α) : Json := str (Enumerated.name a)

/-- A variant with content. -/
def tagged (name : String) (content : Json) : Json := obj [(name, content)]

end Dataplane.Json

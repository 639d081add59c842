/-!
# JSON values

Descriptors and notifications are exchanged as JSON.

## The model

Numbers without fraction and exponent are integers, held exactly; any other number is kept as
text, because no operation of the engine takes one. An object is a list of members as they were
written, so a name may come twice; in a *settled* value it does not. The accessors that descend into
a value also say that what they give is smaller, so that decoders can recurse on it.
-/

namespace Dataplane

/-- A JSON value. -/
inductive Json where
  /-- The empty value. -/
  | null
  | bool (b : Bool)
  /-- A number without fraction and exponent. -/
  | int (n : Int)
  /-- Any other number, as written. -/
  | real (text : String)
  | str (s : String)
  | arr (elems : List Json)
  | obj (members : List (String × Json))
  /-- What is well written but stands for nothing that can be taken. -/
  | spoilt
  deriving Inhabited, BEq

namespace Json

/-! ### Descending -/

/-- A value smaller than `j`. -/
abbrev Below (j : Json) := { v : Json // sizeOf v < sizeOf j }

theorem sizeOf_below {j : Json} (v : j.Below) : sizeOf v.1 < sizeOf j := v.2

/-- The elements of an array. -/
def elems? (j : Json) : Option (List j.Below) :=
  match j with
  | arr es => some (es.attach.map fun ⟨v, h⟩ => ⟨v, by
      have := List.sizeOf_lt_of_mem h
      simp; omega⟩)
  | _ => none

/-- The members of an object. -/
def members? (j : Json) : Option (List (String × j.Below)) :=
  match j with
  | obj ms => some (ms.attach.map fun ⟨(k, v), h⟩ => (k, ⟨v, by
      have := List.sizeOf_lt_of_mem h
      simp at this ⊢; omega⟩))
  | _ => none

/-- The value of a member of an object. -/
def member? (j : Json) (name : String) : Option j.Below :=
  j.members? >>= fun ms => (ms.find? (·.1 = name)).map (·.2)

/-- The value of a member of an object, `null` counting as absent. -/
def get? (j : Json) (name : String) : Option Json :=
  match j.member? name with
  | some ⟨null, _⟩ => none
  | some v => some v.1
  | none => none

/-! ### Leaves -/

def str? : Json → Option String
  | str s => some s
  | _ => none

def bool? : Json → Option Bool
  | bool b => some b
  | _ => none

/-- A natural number below `bound`. -/
def natBelow? (bound : Nat) : Json → Option Nat
  | int n => if 0 ≤ n ∧ n < bound then some n.toNat else none
  | _ => none

/-- The elements of an array, each read by `f`. -/
def listOf? {α : Type} (f : Json → Option α) : Json → Option (List α)
  | arr es => es.mapM f
  | _ => none

/-- A value read by `f`, or `null`. -/
def optionOf? {α : Type} (f : Json → Option α) : Json → Option (Option α)
  | null => some none
  | j => (f j).map some

/-! ### Settling -/

/-- A list of members with the value for a name put in; an earlier value of the name goes. -/
def putMember (ms : List (String × Json)) (name : String) (v : Json) : List (String × Json) :=
  (name, v) :: ms.filter (·.1 ≠ name)

mutual

/-- The value in which every name of an object comes once, the last value for it, unless a part of
it is spoilt. -/
def settled? : Json → Option Json
  | arr es => (settledElems? es).map arr
  | obj ms => (settledMembers? [] ms).map obj
  | spoilt => none
  | j => some j

/-- The elements of an array, settled. -/
def settledElems? : List Json → Option (List Json)
  | [] => some []
  | e :: es => do return (← settled? e) :: (← settledElems? es)

/-- The members of an object, settled and put in after those that are `done`, last one first. -/
def settledMembers? (done : List (String × Json)) :
    List (String × Json) → Option (List (String × Json))
  | [] => some done.reverse
  | (name, v) :: ms => do settledMembers? (putMember done name (← settled? v)) ms

end

/-! ### Building -/

/-- A natural number. -/
def nat (n : Nat) : Json := int n

/-- A value or `null`. -/
def ofOption {α : Type} (f : α → Json) : Option α → Json
  | some a => f a
  | none => null

/-- An array. -/
def ofList {α : Type} (f : α → Json) (l : List α) : Json := arr (l.map f)

end Json

end Dataplane

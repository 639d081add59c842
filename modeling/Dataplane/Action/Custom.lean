import Dataplane.Action.Error
import Dataplane.Config.Decode
import Dataplane.Disposition
import Dataplane.Json.Text

/-!
# Custom actions

A context knows kinds of custom actions by name. The builder of a kind reads the arguments of a
configuration and says what is to be built of them, or what is wrong with them.

## The model

A builder does not work on a context itself. It gives a plan, which is carried out where actions are
built: a plan may want a list built first, and so configurations nest in what builders make of
arguments as well. How deep they may nest there is said together with the builders
(`CustomBuilders.nesting`), whatever the builders are.

`CustomBuilders.standard` knows three kinds. `stamp` sets an attribute, `record` notes a number down,
and `jump` goes on with a list that is given as JSON text.
-/

namespace Dataplane

/-! ### Depth -/

section Depth

variable (nesting : String → SortedMap String String → Nat)

mutual

/-- A bound on how deep the lists of a configuration nest, given such a bound for what the builder of
a custom action makes of its arguments. -/
def ActionConfig.depth : ActionConfig → Nat
  | .mirror _ actions _ => depthOfList actions + 1
  | .select _ _ lists => depthOfLists lists + 1
  | .custom kind args => nesting kind args + 1
  | _ => 1

/-- A bound on how deep an action of a list nests. -/
def depthOfListed : ListedConfig → Nat
  | ⟨action, _⟩ => action.depth

/-- A bound on how deep the actions of a list nest. -/
def depthOfList : List ListedConfig → Nat
  | [] => 0
  | a :: as => max (depthOfListed a) (depthOfList as)

/-- A bound on how deep the actions of some lists nest. -/
def depthOfLists : List (List ListedConfig) → Nat
  | [] => 0
  | l :: ls => max (depthOfList l) (depthOfLists ls)

end

end Depth

/-! ### Builders -/

/-- What is to be built for a custom action. -/
inductive CustomPlan where
  /-- An action that sets an attribute of the packet. -/
  | stamp (key tag : String)
  /-- An action that notes a number down and decides what becomes of the packet. -/
  | record (tag : Nat) (state : Disposition)
  /-- An action that goes on with a list and decides what becomes of the packet, unless something
  turns out to be wrong when the list is built. -/
  | jump (configs : List ListedConfig) (state : Except BuildError Disposition)

/-- What the builder of a kind makes of arguments. -/
abbrev CustomBuilder := SortedMap String String → Except BuildError CustomPlan

/-- The builders of custom actions that a context knows. -/
structure CustomBuilders where
  /-- The builder of a kind, if there is one. -/
  find? : String → Option CustomBuilder
  /-- A bound on how deep the list nests that a builder makes of arguments. -/
  nesting : String → SortedMap String String → Nat
  depth_le : ∀ {kind builder args configs state}, find? kind = some builder →
    builder args = .ok (.jump configs state) → depthOfList nesting configs ≤ nesting kind args

namespace CustomBuilders

/-! ### Three kinds -/

/-- The number that decimal digits write, a plus sign allowed before them. -/
def tag? (s : String) : Option Nat :=
  let digits := match s.toList with
    | '+' :: rest => rest
    | cs => cs
  if digits ≠ [] ∧ digits.all Char.isDigit then
    let n := Json.digitsValue digits
    if n < UInt64.size then some n else none
  else none

/-- The disposition that an argument names; without the argument, the packet goes on. -/
def state (kind : String) (args : SortedMap String String) : Except BuildError Disposition :=
  match args.get? "state" with
  | some name => match Enumerated.ofName? name with
    | some state => .ok state
    | none => .error (.invalid kind (.custom "bad state"))
  | none => .ok .proceed

/-- The builder of actions that set an attribute. -/
def stamp : CustomBuilder := fun args =>
  match args.get? "tag" with
  | some tag => .ok (.stamp ((args.get? "key").getD "stamp") tag)
  | none => .error (.invalid "stamp" (.custom "missing tag"))

/-- The builder of actions that note a number down. -/
def record : CustomBuilder := fun args =>
  match args.get? "tag" >>= tag? with
  | some tag => (state "record" args).map (.record tag)
  | none => .error (.invalid "record" (.custom "bad tag"))

/-- How many characters the arguments have. -/
def size (args : SortedMap String String) : Nat :=
  args.pairs.foldl (fun n pair => n + pair.2.length) 0

/-- The actions that the list argument writes. Every level of nesting takes up characters, so they
may nest as deep as the arguments are long. -/
def nested? (args : SortedMap String String) : Option (List ListedConfig) := do
  let configs ← Json.ofText? ((args.get? "list").getD "[]") >>= listedOfJson? .text
  if depthOfList (fun _ => size) configs ≤ size args then some configs else none

/-- The builder of actions that go on with a list. The list is built before the disposition is
looked at. -/
def jump : CustomBuilder := fun args =>
  match nested? args with
  | some configs => .ok (.jump configs (state "jump" args))
  | none => .error (.invalid "jump" (.custom "bad list"))

theorem depth_le_of_jump {args : SortedMap String String} {configs : List ListedConfig}
    {state : Except BuildError Disposition} (h : jump args = .ok (.jump configs state)) :
    depthOfList (fun _ => size) configs ≤ size args := by
  unfold jump at h
  split at h
  · rename_i configs' hnested
    cases h
    obtain ⟨_, -, hdepth⟩ := Option.bind_eq_some_iff.1 hnested
    split at hdepth
    · cases hdepth
      assumption
    · cases hdepth
  · cases h

/-- The builders of the three kinds. -/
def standard : CustomBuilders where
  find?
    | "stamp" => some stamp
    | "record" => some record
    | "jump" => some jump
    | _ => none
  nesting _ := size
  depth_le {kind builder args configs state} hfind hplan := by
    split at hfind
    · cases hfind
      unfold stamp at hplan
      split at hplan <;> cases hplan
    · cases hfind
      unfold record at hplan
      split at hplan
      · cases hstate : CustomBuilders.state "record" args <;> rw [hstate] at hplan <;> cases hplan
      · cases hplan
    · cases hfind
      exact depth_le_of_jump hplan
    · cases hfind

end CustomBuilders

end Dataplane

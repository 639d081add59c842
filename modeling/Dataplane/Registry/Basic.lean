import Dataplane.Enumerated
import Dataplane.Registry.Nid
import Dataplane.SortedMap

/-!
# The object registry

Objects are registered under an identifier and found by it or by their NID. They refer to each other
through counted references, and an object is cleaned up when its last reference goes, or when it is
forced out. References to an object that was forced out are inert.

## The model

Objects are kept in the order of their registration and never leave the list, so the place of an
object, its *serial number*, names it for good; NIDs are handed out again. What an object holds is
its body, and the references its body owns are released when the object is cleaned.

A release may clean an object, whose references are then released in turn, and so on. This cascade
is run as a list of tasks. An object gives its NID back only after the whole cascade that its
cleaning started.

Someone who still has a handle of an object that was cleaned can give it references again. They are
released when the last handle goes: every reference is a handle, inert or not, and so is the hold of
someone outside.

A task that adds others empties a body, so the number of tasks together with what the bodies can
still add bounds the run.
-/

namespace Dataplane

/-- The kind of an object. -/
inductive ObjectKind where
  | port
  | table
  | counter
  | flowCounter
  | other
  deriving DecidableEq

namespace ObjectKind

instance : Enumerated ObjectKind where
  all := [port, table, counter, flowCounter, other]
  name
    | port => "Port"
    | table => "Table"
    | counter => "Counter"
    | flowCounter => "FlowCounter"
    | other => "Other"

/-- The display text of a kind. -/
def text : ObjectKind → String
  | port => "port"
  | table => "table"
  | counter => "counter"
  | flowCounter => "flow-counter"
  | other => "other"

end ObjectKind

/-- Why the registry refuses. -/
inductive RegistryError where
  /-- The identifier names nothing. -/
  | notFound (id : String)
  /-- The NID names nothing. -/
  | nidNotFound (nid : Nat)
  /-- The identifier is taken. -/
  | duplicate (id : String)
  /-- The object has been registered before. -/
  | alreadyInserted (id : String)
  /-- The object is being cleaned up. -/
  | teardown (id : String)
  /-- There is no NID left. -/
  | poolExhausted
  /-- The object is of another kind. -/
  | wrongKind (id : String) (want found : ObjectKind)
  deriving DecidableEq

/-- The wording of a registry error. -/
def RegistryError.message : RegistryError → String
  | notFound id => s!"no object with ID {id}"
  | nidNotFound nid => s!"no object with NID {nid}"
  | duplicate id => s!"an object with ID {id} already exists"
  | alreadyInserted id => s!"object already inserted as {id}"
  | teardown id => s!"object {id} is being torn down"
  | poolExhausted => "NID pool exhausted"
  | wrongKind id want found => s!"object {id} is a {found.text}, not a {want.text}"

/-- What the registry has to know of the body of an object. -/
class Composite (β : Type) where
  /-- The kind of the object. -/
  kind : β → ObjectKind
  /-- The serial numbers of the objects it refers to, in the order of release. -/
  owned : β → List Nat
  /-- The body without its references. -/
  vacate : β → β
  /-- The body after one more cleanup has been counted on it. -/
  countCleanup : β → β
  /-- Without its references a body refers to nothing. -/
  owned_vacate : ∀ b, owned (vacate b) = []

/-- An object that was registered. -/
structure Registered (β : Type) where
  /-- The identifier it was registered under. -/
  id : String
  /-- Its NID. -/
  nid : Nat
  /-- The number of references to it. -/
  refs : Nat
  /-- The number of references that were not let go, inert ones included, and of holders outside. -/
  handles : Nat
  /-- Has it been cleaned up? -/
  cleaned : Bool
  /-- What it holds. -/
  body : β
  deriving DecidableEq

/-- A reference to an object. The identifier, the NID and the kind of an object never change. -/
structure Ref where
  /-- The serial number of the object. -/
  serial : Nat
  id : String
  nid : Nat
  kind : ObjectKind
  deriving DecidableEq

/-- What is listed of an object that is registered under an identifier. -/
structure ObjectInfo where
  id : String
  nid : Nat
  kind : ObjectKind
  refs : Nat
  deriving DecidableEq

/-- The display text of an object. -/
def objectText (kind : ObjectKind) (id : String) (nid : Nat) : String :=
  s!"{kind.text} {id} ({nid})"

/-- The display text of a reference. -/
def Ref.text (r : Ref) : String := s!"ObjectRef({objectText r.kind r.id r.nid})"

/-- The objects, with the two indices into them. -/
structure Registry (β : Type) where
  /-- Every object ever registered, in order. -/
  objects : List (Registered β)
  /-- The NID registered under each identifier. -/
  ids : SortedMap String Nat
  /-- The serial number of the object that has each NID. -/
  nids : SortedMap Nat Nat
  /-- The NIDs that can be handed out. -/
  pool : NidPool

namespace Registry

variable {β : Type} [Composite β]

/-- The registry in which nothing was registered. -/
def empty : Registry β := ⟨[], .empty, .empty, .fresh⟩

/-! ### Looking up -/

/-- The object with a serial number. -/
def get? (r : Registry β) (serial : Nat) : Option (Registered β) := r.objects[serial]?

/-- The serial number of the object registered under an identifier. -/
def serialOf? (r : Registry β) (id : String) : Option Nat := r.ids.get? id >>= r.nids.get?

/-- The reference to the object with a serial number. -/
def ref? (r : Registry β) (serial : Nat) : Option Ref :=
  (r.get? serial).map fun o => ⟨serial, o.id, o.nid, Composite.kind o.body⟩

/-- The object registered under an identifier. -/
def findId (r : Registry β) (id : String) : Except RegistryError Ref :=
  match r.serialOf? id >>= r.ref? with
  | some ref => .ok ref
  | none => .error (.notFound id)

/-- The object that has a NID, also while it is being cleaned up. -/
def findNid (r : Registry β) (nid : Nat) : Except RegistryError Ref :=
  match r.nids.get? nid >>= r.ref? with
  | some ref => .ok ref
  | none => .error (.nidNotFound nid)

/-- The number of references to the object registered under an identifier. -/
def refs (r : Registry β) (id : String) : Except RegistryError Nat :=
  match r.serialOf? id >>= r.get? with
  | some o => .ok o.refs
  | none => .error (.notFound id)

/-- Has the object with a serial number been cleaned up? -/
def isCleaned (r : Registry β) (serial : Nat) : Bool :=
  match r.get? serial with
  | some o => o.cleaned
  | none => true

/-- The number of objects that have a NID. -/
def live (r : Registry β) : Nat := r.nids.pairs.length

/-- What is registered under each identifier. -/
def snapshot (r : Registry β) : List ObjectInfo :=
  r.ids.pairs.filterMap fun (id, nid) => do
    let o ← r.nids.get? nid >>= r.get?
    return ⟨id, nid, Composite.kind o.body, o.refs⟩

/-! ### Changing objects -/

/-- The registry with an object changed. -/
def modify (r : Registry β) (serial : Nat) (f : Registered β → Registered β) : Registry β :=
  { r with objects := r.objects.modify serial f }

/-- The registry with the body of an object changed. -/
def modifyBody (r : Registry β) (serial : Nat) (f : β → β) : Registry β :=
  r.modify serial fun o => { o with body := f o.body }

/-- The registry with the bodies of all objects changed. -/
def mapBodies (r : Registry β) (f : β → β) : Registry β :=
  { r with objects := r.objects.map fun o => { o with body := f o.body } }

/-- Registers an object under an identifier, with one reference to it; also gives its NID. -/
def insert (r : Registry β) (id : String) (body : β) : Except RegistryError (Nat × Registry β) :=
  if r.ids.has id then .error (.duplicate id)
  else match r.pool.take? with
    | none => .error .poolExhausted
    | some (nid, pool) => .ok (nid, {
        objects := r.objects ++ [⟨id, nid, 1, 0, false, body⟩]
        ids := r.ids.insert id nid
        nids := r.nids.insert nid r.objects.length
        pool })

/-- Why an object that was registered before cannot be registered under an identifier. -/
def insertAgain (r : Registry β) (id : String) (ref : Ref) : RegistryError :=
  if r.ids.has id then .duplicate id else .alreadyInserted ref.id

/-! ### Taking references -/

/-- The registry with an object held by someone outside. -/
def hold (r : Registry β) (serial : Nat) : Registry β :=
  r.modify serial fun o => { o with handles := o.handles + 1 }

/-- Takes a reference to the object registered under an identifier. -/
def acquire (r : Registry β) (id : String) : Except RegistryError (Ref × Registry β) := do
  let nid ← match r.ids.get? id with
    | some nid => pure nid
    | none => throw (.notFound id)
  match r.nids.get? nid with
  | none => throw (.nidNotFound nid)
  | some serial =>
    match r.get? serial, r.ref? serial with
    | some o, some ref =>
      if o.refs = 0 ∨ o.cleaned then throw (.teardown id)
      else return (ref, (r.hold serial).modify serial fun o => { o with refs := o.refs + 1 })
    | _, _ => throw (.nidNotFound nid)

/-- Takes a reference to an object, which has to be of a kind. One of another kind is given back at
once, and the object registered under the identifier still has its first reference. -/
def acquireKind (r : Registry β) (id : String) (kind : ObjectKind) :
    Except RegistryError (Ref × Registry β) := do
  let (ref, r) ← r.acquire id
  if ref.kind = kind then return (ref, r) else throw (.wrongKind id kind ref.kind)

/-! ### Releasing references -/

/-- A step of a cascade of releases. -/
inductive Task where
  /-- Take one from the references to an object, cleaning the object up in any case if forced. -/
  | release (serial : Nat) (force : Bool)
  /-- Let go a handle of an object. -/
  | letGo (serial : Nat)
  /-- Give a NID back. -/
  | retire (nid : Nat)
  deriving DecidableEq

/-- The tasks that end some references, one after the other. -/
def endRefs (serials : List Nat) : List Task :=
  serials.flatMap fun serial => [.release serial false, .letGo serial]

/-- The tasks that cleaning an object adds. -/
def cleanup (o : Registered β) : List Task :=
  endRefs (Composite.owned o.body) ++ [.retire o.nid]

/-- Does an object still have its NID, and was it not cleaned up? -/
def isLive (r : Registry β) (serial : Nat) (o : Registered β) : Bool :=
  r.nids.get? o.nid = some serial && !o.cleaned

/-- An object after it was cleaned up. -/
def cleanedUp (o : Registered β) : Registered β :=
  { o with refs := 0, cleaned := true, body := Composite.vacate (Composite.countCleanup o.body) }

/-- An object without a handle and without references. -/
def abandoned (o : Registered β) : Registered β :=
  { o with handles := 0, body := Composite.vacate o.body }

/-- Runs a task; also gives the tasks to run next. A release of an object that was cleaned up does
nothing, even when another object has its NID by now. -/
def step (r : Registry β) : Task → Registry β × List Task
  | .retire nid => ({ r with nids := r.nids.erase nid, pool := r.pool.give nid }, [])
  | .letGo serial =>
    match r.get? serial with
    | none => (r, [])
    | some o =>
      if o.cleaned ∧ o.handles = 1 then
        (r.modify serial abandoned, endRefs (Composite.owned o.body))
      else (r.modify serial fun o => { o with handles := o.handles - 1 }, [])
  | .release serial force =>
    match r.get? serial with
    | none => (r, [])
    | some o =>
      if !r.isLive serial o then (r, [])
      else if 1 < o.refs ∧ !force then
        (r.modify serial fun o => { o with refs := o.refs - 1 }, [])
      else (r.modify serial cleanedUp, cleanup o)

/-- What an object can still add to a cascade. -/
def load (o : Registered β) : Nat :=
  (endRefs (Composite.owned o.body)).length + if o.cleaned then 0 else 1

/-- What the objects can still add to a cascade. -/
def totalLoad (objects : List (Registered β)) : Nat := objects.foldr (load · + ·) 0

theorem load_cleanedUp (o : Registered β) : load (cleanedUp o) = 0 := by
  simp [load, cleanedUp, Composite.owned_vacate, endRefs]

theorem load_abandoned {o : Registered β} (h : o.cleaned) : load (abandoned o) = 0 := by
  simp [load, abandoned, h, Composite.owned_vacate, endRefs]

theorem totalLoad_modify {objects : List (Registered β)} {i : Nat} {o : Registered β}
    (f : Registered β → Registered β) (ho : objects[i]? = some o) :
    totalLoad (objects.modify i f) + load o = totalLoad objects + load (f o) := by
  induction objects generalizing i with
  | nil => simp at ho
  | cons o' os ih =>
    cases i with
    | zero =>
      obtain rfl : o' = o := by simpa using ho
      simp [totalLoad]
      omega
    | succ i =>
      have := ih (i := i) (by simpa using ho)
      simp [totalLoad] at this ⊢
      omega

/-- A task never adds more than the objects have lost. -/
theorem step_load (r : Registry β) (t : Task) :
    (r.step t).2.length + totalLoad (r.step t).1.objects ≤ totalLoad r.objects := by
  cases t with
  | retire nid => simp [step]
  | letGo serial =>
    rw [step]
    split
    · simp
    · rename_i o ho
      split
      · rename_i h
        have := totalLoad_modify abandoned ho
        have hload := load_abandoned h.1
        have hown : load o = (endRefs (Composite.owned o.body)).length := by simp [load, h.1]
        simp only [modify]
        omega
      · have := totalLoad_modify (fun o => { o with handles := o.handles - 1 }) ho
        simp only [modify, List.length_nil]
        simp only [load] at this
        omega
  | release serial force =>
    rw [step]
    split
    · simp
    · rename_i o ho
      split
      · simp
      · rename_i hlive
        split
        · have := totalLoad_modify (fun o => { o with refs := o.refs - 1 }) ho
          simp only [modify, List.length_nil]
          simp only [load] at this
          omega
        · have := totalLoad_modify cleanedUp ho
          have hload := load_cleanedUp o
          have hown : load o = (cleanup o).length := by
            simp [isLive] at hlive
            simp [load, cleanup, hlive.2]
          simp only [modify]
          omega

/-- Runs a list of tasks with everything that follows from them. -/
def settle (r : Registry β) (tasks : List Task) : Registry β :=
  match tasks with
  | [] => r
  | t :: ts => settle (r.step t).1 ((r.step t).2 ++ ts)
termination_by tasks.length + totalLoad r.objects
decreasing_by
  have := r.step_load t
  simp
  omega

/-- Releases a reference to an object and lets it go. -/
def release (r : Registry β) (serial : Nat) : Registry β := r.settle (endRefs [serial])

/-- Lets an object go that was held by someone outside. -/
def letGo (r : Registry β) (serial : Nat) : Registry β := r.settle [.letGo serial]

/-- Releases references to some objects, one after the other. -/
def releaseAll (r : Registry β) (serials : List Nat) : Registry β := serials.foldl release r

/-- Takes an object out of the index of identifiers and releases its first reference, or forces it
out; also gives its NID. -/
def remove (r : Registry β) (id : String) (force : Bool) :
    Except RegistryError (Nat × Registry β) :=
  match r.ids.get? id with
  | none => .error (.notFound id)
  | some nid =>
    match r.nids.get? nid with
    | none => .error (.nidNotFound nid)
    | some serial =>
      .ok (nid, { r with ids := r.ids.erase id }.settle [.release serial force])

end Registry

end Dataplane

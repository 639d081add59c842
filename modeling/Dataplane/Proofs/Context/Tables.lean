import Dataplane.Context.Run
import Mathlib.Tactic.SplitIfs

/-!
# Tables while actions run

Actions fill and drain token buckets, draw random numbers, count on counters, write packets to ports
and note things down, but they never change a table. So the tables from before a pipeline say what
its lookups go on with.

## The model

`Context.SameTables` relates a context to those with its tables. What actions may do to a context at
all is said once: a relation that is `KeptByActions` relates the contexts before and after a write, a
delivery of a replica and every action but a mirror action, and `SameTables` is one.
`Context.continuations` lists what an action may go on with, given the tables.
-/

namespace Dataplane

namespace Context

/-- The table with a serial number. -/
def table? (c : Context) (serial : Nat) : Option (Table (Listed Action)) :=
  c.body? serial >>= Object.table?

/-- Does the second context have the tables of the first? -/
def SameTables (c c' : Context) : Prop := ∀ serial, c'.table? serial = c.table? serial

/-- The lists that an action may go on with. -/
def continuations (c : Context) : Action → List ActionList
  | .lookup table => ((c.table? table.serial).map Table.lookup).toList
  | .select _ _ lists => lists
  | .jump next _ => [next]
  | _ => []

variable {c c' c'' : Context}

theorem SameTables.refl (c : Context) : SameTables c c := fun _ => rfl

theorem SameTables.trans (h : SameTables c c') (h' : SameTables c' c'') : SameTables c c'' :=
  fun serial => (h' serial).trans (h serial)

theorem SameTables.of_registry_eq (h : c'.registry = c.registry) : SameTables c c' := by
  intro serial
  simp only [table?, body?, h]

theorem SameTables.continuations_eq (h : SameTables c c') (a : Action) :
    c'.continuations a = c.continuations a := by
  cases a with
  | lookup table => rw [continuations, continuations, h]
  | _ => rfl

theorem sameTables_modifyBody (c : Context) (serial : Nat) {f : Object → Object}
    (hf : ∀ o, (f o).table? = o.table?) : SameTables c (c.modifyBody serial f) := by
  intro serial'
  have hget : (c.modifyBody serial f).body? serial' =
      (c.body? serial').map fun o => if serial = serial' then f o else o := by
    simp only [body?, modifyBody, withRegistry, Registry.modifyBody, Registry.modify,
      Registry.get?, List.getElem?_modify]
    cases c.registry.objects[serial']? with
    | none => rfl
    | some o => by_cases h : serial = serial' <;> simp [h]
  rw [table?, table?, hget]
  cases c.body? serial' with
  | none => rfl
  | some o =>
    change (if serial = serial' then f o else o).table? = o.table?
    split_ifs
    · exact hf o
    · rfl

/-- A relation of contexts that holds whatever actions do. They fill and drain token buckets, draw
random numbers and note things down, they count flows, and they change ports, but not the actions of
ports. -/
structure KeptByActions (R : Context → Context → Prop) : Prop where
  of_registry_eq : ∀ {c c' : Context}, c'.registry = c.registry → R c c'
  countFlow : ∀ (c : Context) (serial len : Nat), R c (c.modifyBody serial (.countFlow len))
  modifyPort : ∀ (c : Context) (serial : Nat) {f : Port → Port},
    (∀ p, (f p).rx = p.rx ∧ (f p).tx = p.tx) → R c (c.modifyBody serial (.modifyPort f))

/-- Actions keep tables. -/
theorem keptByActions_sameTables : KeptByActions SameTables where
  of_registry_eq := .of_registry_eq
  countFlow c serial len := sameTables_modifyBody c serial fun o => by cases o <;> rfl
  modifyPort c serial _ _ := sameTables_modifyBody c serial fun o => by cases o <;> rfl

namespace KeptByActions

variable {R : Context → Context → Prop}

theorem write (h : KeptByActions R) (c : Context) (serial : Nat) (pkt : Packet) :
    R c (c.write serial pkt).2 := by
  unfold Context.write
  split
  · split_ifs
    · exact h.of_registry_eq rfl
    · exact h.modifyPort c serial fun _ => ⟨rfl, rfl⟩
  · exact h.of_registry_eq rfl

theorem dispatch (h : KeptByActions R) (c : Context) (pkt : Packet) :
    R c (c.dispatch pkt).2 := by
  unfold Context.dispatch
  split
  · exact h.write c _ pkt
  · split_ifs <;> exact h.of_registry_eq rfl

theorem deliver (h : KeptByActions R) (c : Context) (port : Option Ref) (replica : Packet)
    (state : Disposition) : R c (Run.deliver c port replica state).2 := by
  unfold Run.deliver
  split_ifs
  · exact h.of_registry_eq rfl
  · split
    · exact h.dispatch c replica
    · split_ifs
      · exact h.of_registry_eq rfl
      · exact h.write c _ _
    · exact h.of_registry_eq rfl
    · exact h.of_registry_eq rfl

/-- Every action but a mirror action does only what actions do. -/
theorem perform (h : KeptByActions R) (r : Run) (a : Action) :
    R r.context (r.perform a).2.context := by
  cases a with
  | flowCount counter => exact h.countFlow r.context counter.serial r.packet.length
  | ratelimit rate burst bucket =>
    refine h.of_registry_eq ?_
    simp only [Run.perform, Run.ratelimit]
    split
    · rfl
    · split_ifs <;> rfl
  | decap kind | encap kind | reparse kind fields front | update u | lookup table | swapOutput =>
    refine h.of_registry_eq ?_
    simp only [Run.perform, Run.decap, Run.encap, Run.reparse, Run.update, Run.lookup,
      Run.swapOutput]
    split <;> rfl
  | select fields algo lists =>
    refine h.of_registry_eq ?_
    simp only [Run.perform, Run.select]
    split
    · rfl
    · exact Run.registry_keyNumber ..
  | transmit port immediate =>
    refine h.of_registry_eq ?_
    simp only [Run.perform, Run.transmit]
    split_ifs <;> rfl
  | _ => exact h.of_registry_eq rfl

end KeptByActions

end Context

namespace Run

open Context

@[simp] theorem context_afterDelivery (r : Run) (len : Nat) (d : Delivery) :
    (r.afterDelivery len d).context = r.context := by
  cases d <;> rfl

/-- What an action goes on with is one of its continuations, if it is anything. -/
theorem mem_next_perform {r : Run} {a : Action} {b : Listed Action}
    (h : b ∈ (r.perform a).1.next) : ∃ next ∈ r.context.continuations a, b ∈ next := by
  cases a with
  | lookup table =>
    simp only [perform, lookup] at h
    split at h
    · rename_i t _ ht
      exact ⟨t.lookup, by simp [continuations, table?, ht], h⟩
    · cases h
  | select fields algo lists =>
    simp only [perform, select] at h
    split at h
    · cases h
    · rename_i vals _
      simp only [Outcome.andThen] at h
      cases hlist : lists[(r.keyNumber algo vals.flatten).1 % lists.length]? with
      | none =>
        rw [hlist] at h
        cases h
      | some next =>
        rw [hlist] at h
        exact ⟨next, List.mem_of_getElem? hlist, h⟩
  | jump next state => exact ⟨next, List.mem_singleton_self next, h⟩
  | decap kind | encap kind | reparse kind fields front | update u | swapOutput =>
    simp only [perform, decap, encap, reparse, update, swapOutput] at h
    split at h <;> cases h
  | transmit port immediate =>
    simp only [perform, transmit] at h
    split_ifs at h <;> cases h
  | ratelimit rate burst bucket =>
    simp only [perform, ratelimit] at h
    split at h
    · cases h
    · split_ifs at h <;> cases h
  | _ => cases h

end Run

end Dataplane

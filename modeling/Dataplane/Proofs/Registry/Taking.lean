import Dataplane.Proofs.Registry.Operations

/-!
# Taking references and giving them back

A list of references that was taken and is given back, in the same order and with nothing in
between, leaves the registry as it was. So a computation that fails after it has taken references
leaves no trace if it gives them back.

## The model

Taking references commutes, since each only counts on its object, and giving a reference back undoes
taking it as long as the object has another one, which keeps it from being cleaned up. An object
that has a reference and was not cleaned up is *anchored*.
-/

namespace Dataplane

namespace Registry

variable {β : Type} [Composite β] {r : Registry β} {i j : Nat} {held : Multiset Nat}
  {forced : List Nat} {ts : List Task} {serials : List Nat}

/-- The registry with some more references to objects. -/
def takeAll (r : Registry β) (serials : List Nat) : Registry β := serials.foldl take r

/-- Does an object have a reference, and was it not cleaned up? -/
def Anchored (r : Registry β) (i : Nat) : Prop :=
  ∃ o, r.get? i = some o ∧ r.isLive i o = true ∧ 0 < o.refs

omit [Composite β] in
theorem take_comm (r : Registry β) (i j : Nat) : (r.take i).take j = (r.take j).take i := by
  simp only [take, modify]
  congr 1
  refine List.ext_getElem? fun k => ?_
  simp only [List.getElem?_modify]
  cases r.objects[k]? with
  | none => rfl
  | some o => by_cases hi : i = k <;> by_cases hj : j = k <;> simp [hi, hj]

omit [Composite β] in
theorem takeAll_concat (r : Registry β) (serials : List Nat) (i : Nat) :
    (r.takeAll serials).take i = r.takeAll (serials ++ [i]) := by
  simp [takeAll, List.foldl_append]

omit [Composite β] in
theorem takeAll_append (r : Registry β) (serials serials' : List Nat) :
    r.takeAll (serials ++ serials') = (r.takeAll serials).takeAll serials' :=
  List.foldl_append

omit [Composite β] in
/-- The order of taking does not matter. -/
theorem takeAll_cons (r : Registry β) (i : Nat) (serials : List Nat) :
    r.takeAll (i :: serials) = (r.takeAll serials).take i := by
  induction serials generalizing r with
  | nil => rfl
  | cons j js ih =>
    calc r.takeAll (i :: j :: js) = ((r.take j).take i).takeAll js := by
          rw [take_comm]
          rfl
      _ = ((r.take j).takeAll js).take i := ih (r.take j)

omit [Composite β] in
theorem ids_takeAll (r : Registry β) (serials : List Nat) : (r.takeAll serials).ids = r.ids := by
  induction serials generalizing r with
  | nil => rfl
  | cons i is ih => exact ih (r.take i)

omit [Composite β] in
theorem nids_takeAll (r : Registry β) (serials : List Nat) : (r.takeAll serials).nids = r.nids := by
  induction serials generalizing r with
  | nil => rfl
  | cons i is ih => exact ih (r.take i)

omit [Composite β] in
theorem serialOf?_takeAll (r : Registry β) (serials : List Nat) (id : String) :
    (r.takeAll serials).serialOf? id = r.serialOf? id := by
  simp only [serialOf?, ids_takeAll, nids_takeAll]

omit [Composite β] in
/-- Taking references leaves an object as it is but for its counts. -/
theorem get?_takeAll {o : Registered β} (ho : r.get? i = some o) (serials : List Nat) :
    ∃ o', (r.takeAll serials).get? i = some o' ∧ o'.body = o.body ∧ o'.cleaned = o.cleaned := by
  induction serials generalizing r o with
  | nil => exact ⟨o, ho, rfl, rfl⟩
  | cons j js ih =>
    by_cases hij : i = j
    · subst hij
      exact ih (o := { o with refs := o.refs + 1, handles := o.handles + 1 })
        (get?_modify_self _ ho)
    · exact ih (r := r.take j) ((get?_modify_of_ne _ hij).trans ho)

omit [Composite β] in
theorem Anchored.take (h : r.Anchored i) (j : Nat) : (r.take j).Anchored i := by
  obtain ⟨o, ho, hlive, hpos⟩ := h
  by_cases hij : i = j
  · subst hij
    exact ⟨_, get?_modify_self _ ho, hlive, Nat.succ_pos _⟩
  · exact ⟨o, (get?_modify_of_ne _ hij).trans ho, hlive, hpos⟩

omit [Composite β] in
theorem Anchored.takeAll (h : r.Anchored i) (serials : List Nat) :
    (r.takeAll serials).Anchored i := by
  induction serials generalizing r with
  | nil => exact h
  | cons j js ih => exact ih (h.take j)

/-- References that were taken and are given back leave nothing behind. -/
theorem releaseAll_takeAll (h : ∀ i ∈ serials, r.Anchored i) :
    (r.takeAll serials).releaseAll serials = r := by
  induction serials with
  | nil => rfl
  | cons i is ih =>
    obtain ⟨o, ho, hlive, hpos⟩ := (h i List.mem_cons_self).takeAll is
    have hback : (r.takeAll (i :: is)).release i = r.takeAll is := by
      rw [takeAll_cons]
      exact release_take ho hlive hpos
    rw [releaseAll, List.foldl_cons, hback]
    exact ih fun j hj => h j (List.mem_cons_of_mem _ hj)

/-- References that were taken are held outside. -/
theorem Balanced.takeAll (h : r.Balanced held forced ts) (hs : ∀ i ∈ serials, r.Anchored i) :
    (r.takeAll serials).Balanced ((serials : Multiset Nat) + held) forced ts := by
  induction serials with
  | nil => simpa [Registry.takeAll] using h
  | cons i is ih =>
    obtain ⟨o, ho, hlive, -⟩ := (hs i List.mem_cons_self).takeAll is
    have hall := ih fun j hj => hs j (List.mem_cons_of_mem _ hj)
    have hc : o.cleaned = false := by simpa [hall.toIndexed.isLive_eq ho] using hlive
    rw [takeAll_cons, ← Multiset.cons_coe, Multiset.cons_add]
    exact hall.take ho hc

/-- What is registered under an identifier is anchored. -/
theorem Consistent.anchored (h : r.Consistent held forced ts) {id : String}
    (hi : r.serialOf? id = some i) : r.Anchored i := by
  obtain ⟨o, ho, -, hc⟩ := h.toIndexed.get?_of_serialOf? hi
  exact ⟨o, ho, by rw [h.toIndexed.isLive_eq ho, hc]; rfl, (h.counted ho hc).1⟩

end Registry

end Dataplane

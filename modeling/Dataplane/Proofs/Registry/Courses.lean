import Dataplane.Proofs.Registry.Identity
import Dataplane.Proofs.Registry.Taking

/-!
# How often an object is cleaned up

An object is cleaned up by a step of a cascade that finds it not cleaned up yet, and nothing takes
that back. So on the way from one registry to another an object is cleaned up as often as the flag of
the object changes: once at most, whatever the steps on the way are.

## The model

`Registry.Course r log r'` says that changes of the registry lead from `r` to `r'` and that the
objects in `log` are cleaned up on the way. `Registry.Cleanups r r' i n` says that there is such a
way and that every such way cleans the object with the serial number `i` up `n` times.
-/

namespace Dataplane

namespace Registry

variable {β : Type} [Composite β] {r r' s : Registry β} {i : Nat} {o : Registered β}
  {held : Multiset Nat} {forced : List Nat} {t : Task} {ts : List Task} {log log' : List Nat}

/-! ### What a step cleans up -/

/-- The object that a task cleans up, if it does. -/
def cleans? (r : Registry β) : Task → Option Nat
  | .release i force =>
    match r.get? i with
    | none => none
    | some o => if !r.isLive i o then none else if 1 < o.refs ∧ !force then none else some i
  | .letGo _ | .retire _ => none

/-- One for an object that was cleaned up. -/
def cleanedCount (r : Registry β) (i : Nat) : Nat :=
  match r.get? i with
  | some o => o.cleaned.toNat
  | none => 0

omit [Composite β] in
theorem cleanedCount_of_get? (ho : r.get? i = some o) : r.cleanedCount i = o.cleaned.toNat := by
  rw [cleanedCount, ho]

omit [Composite β] in
theorem cleanedCount_modify (f : Registered β → Registered β) {j : Nat}
    (hf : ∀ o, r.get? j = some o → (f o).cleaned = o.cleaned) (i : Nat) :
    (r.modify j f).cleanedCount i = r.cleanedCount i := by
  rw [cleanedCount, cleanedCount, get?_modify]
  cases ho : r.get? i with
  | none => rfl
  | some o =>
    simp only [Option.map_some]
    split_ifs with hij
    · rw [hf o (hij ▸ ho)]
    · rfl

/-- A step raises the count of the object that it cleans up. -/
theorem cleanedCount_step (r : Registry β) (t : Task) (i : Nat) :
    (r.step t).1.cleanedCount i = r.cleanedCount i + (r.cleans? t).toList.count i := by
  cases t with
  | retire nid => rfl
  | letGo j =>
    rw [step]
    split
    · rfl
    · split_ifs
      · exact cleanedCount_modify abandoned (fun _ _ => rfl) i
      · exact cleanedCount_modify (fun o => { o with handles := o.handles - 1 }) (fun _ _ => rfl) i
  | release j force =>
    rw [step, cleans?]
    cases hj : r.get? j with
    | none => rfl
    | some o =>
      simp only
      split_ifs with hdead hmore
      · rfl
      · exact cleanedCount_modify (fun o => { o with refs := o.refs - 1 }) (fun _ _ => rfl) i
      · have hc : o.cleaned = false := by
          simp only [isLive] at hdead
          simp_all
        by_cases hij : i = j
        · subst hij
          rw [cleanedCount_of_get? (get?_modify_self cleanedUp hj), cleanedCount_of_get? hj, hc]
          simp [cleanedUp]
        · rw [cleanedCount, cleanedCount, get?_modify_of_ne _ hij]
          simp [Ne.symm hij]

/-! ### Courses -/

/-- Changes lead from a registry to another, and the objects of the list are cleaned up on the way,
in this order. -/
inductive Course (r : Registry β) : List Nat → Registry β → Prop
  | start : Course r [] r
  /-- An object is registered. -/
  | insert {log : List Nat} {s s' : Registry β} {id : String} {body : β} {nid : Nat}
      (h : Course r log s) (hins : s.insert id body = .ok (nid, s')) : Course r log s'
  /-- A reference is taken. -/
  | take {log : List Nat} {s : Registry β} (h : Course r log s) (i : Nat) : Course r log (s.take i)
  /-- The body of an object is changed. -/
  | change {log : List Nat} {s : Registry β} (h : Course r log s) (i : Nat) (f : β → β) :
      Course r log (s.modifyBody i f)
  /-- An identifier is taken out of its index. -/
  | unname {log : List Nat} {s : Registry β} (h : Course r log s) (id : String) :
      Course r log { s with ids := s.ids.erase id }
  /-- A task is run. -/
  | step {log : List Nat} {s : Registry β} (h : Course r log s) (t : Task) :
      Course r (log ++ (s.cleans? t).toList) (s.step t).1

/-- Every way cleans an object up as often as its flag changes. -/
theorem Course.count_add (h : Course r log s) (i : Nat) :
    r.cleanedCount i + log.count i = s.cleanedCount i := by
  induction h with
  | start => rfl
  | insert h hins ih =>
    rename_i s s' _ _ _
    rw [ih, cleanedCount, cleanedCount]
    have hobjects := objects_of_insert hins
    cases ho' : s'.get? i with
    | some o' =>
      rcases get?_concat hobjects ho' with ho | ⟨rfl, rfl⟩
      · rw [ho]
      · simp [Registry.get?]
    | none =>
      have ho : s.get? i = none := by
        rw [Registry.get?, hobjects] at ho'
        simp only [List.getElem?_eq_none_iff, List.length_append] at ho'
        exact List.getElem?_eq_none (by omega)
      rw [ho]
  | take h j ih => exact ih.trans (cleanedCount_modify _ (fun _ _ => by rfl) i).symm
  | change h j f ih => exact ih.trans (cleanedCount_modify _ (fun _ _ => by rfl) i).symm
  | unname h id ih => exact ih
  | step h t ih => rw [List.count_append, ← Nat.add_assoc, ih, cleanedCount_step]

theorem Course.trans (h : Course r log r') (h' : Course r' log' s) : Course r (log ++ log') s := by
  induction h' with
  | start => rwa [List.append_nil]
  | insert _ hins ih => exact ih.insert hins
  | take _ i ih => exact ih.take i
  | change _ i f ih => exact ih.change i f
  | unname _ id ih => exact ih.unname id
  | step _ t ih =>
    rw [← List.append_assoc]
    exact ih.step t

/-- A cascade is a way from its beginning to its end. -/
theorem exists_course_settle (r : Registry β) (ts : List Task) :
    ∃ log, Course r log (r.settle ts) :=
  settle_induction (P := fun s _ => ∃ log, Course r log s)
    (fun _ t _ ⟨_, h⟩ => ⟨_, h.step t⟩) r ts ⟨[], .start⟩

theorem exists_course_releaseAll (r : Registry β) (serials : List Nat) :
    ∃ log, Course r log (r.releaseAll serials) := by
  induction serials generalizing r with
  | nil => exact ⟨[], .start⟩
  | cons i is ih =>
    obtain ⟨log, hlog⟩ := exists_course_settle r (endRefs [i])
    obtain ⟨log', hlog'⟩ := ih (r.release i)
    exact ⟨_, hlog.trans hlog'⟩

theorem Course.takeAll (h : Course r log s) (serials : List Nat) :
    Course r log (s.takeAll serials) := by
  induction serials generalizing s with
  | nil => exact h
  | cons i is ih => exact ih (h.take i)

/-- The bodies of all objects are changed, one after the other. -/
theorem Course.mapBodies (h : Course r log s) (f : β → β) : Course r log (s.mapBodies f) := by
  have hrest (before later : List (Registered β))
      (h : Course r log { s with objects := before ++ later }) :
      Course r log
        { s with objects := before ++ later.map fun o => { o with body := f o.body } } := by
    induction later generalizing before with
    | nil => exact h
    | cons o os ih =>
      have hmodify : (before ++ o :: os).modify before.length (fun o => { o with body := f o.body }) =
          before ++ [{ o with body := f o.body }] ++ os := by
        simp [List.modify_eq_set_getElem?]
      have hchange := h.change before.length f
      rw [modifyBody, modify, hmodify] at hchange
      simpa using ih _ hchange
  exact hrest [] s.objects h

/-- On the way from a registry to another an object is cleaned up some number of times. -/
def Cleanups (r r' : Registry β) (i n : Nat) : Prop :=
  (∃ log, Course r log r') ∧ ∀ log, Course r log r' → log.count i = n

/-- It is how much the count of the object is raised. -/
theorem cleanups_of_course {n : Nat} (h : ∃ log, Course r log r')
    (hn : r.cleanedCount i + n = r'.cleanedCount i) : Cleanups r r' i n :=
  ⟨h, fun log hlog => by
    have := hlog.count_add i
    omega⟩

end Registry

end Dataplane

import Dataplane.Proofs.Registry.Indices
import Mathlib.Data.Multiset.Count

/-!
# Counts of references

Every count of references is right: it is one for the index of identifiers, as long as that has the
object, and one for every reference that was not released. A reference is held by someone outside,
owned by the body of an object, or about to be released by a cascade. An object is cleaned up only
when it is forced out or when nothing refers to it any more.

## The model

`Registry.Consistent r held forced tasks` is the invariant of a registry `r` in the middle of a
cascade that has `tasks` to run, when the references in `held` are held outside and the objects in
`forced` were forced out. A step keeps it with the tasks that are left, so the end of a cascade has
it without tasks. `Registry.Balanced` adds that objects that were cleaned up own nothing, which is so
as long as nobody gives them references again; then it does not matter how many handles of them
there are.
-/

namespace Dataplane

/-! ### What becomes of an object -/

/-- What a step of a cascade may make of an object. -/
inductive Registered.Change {β : Type} [Composite β] : Registered β → Registered β → Prop
  /-- It is counted anew how many references and handles there are. -/
  | counted (o : Registered β) (refs handles : Nat) : Change o { o with refs, handles }
  /-- It is cleaned up. -/
  | cleanedUp {o : Registered β} (h : o.cleaned = false) : Change o (Registry.cleanedUp o)
  /-- Its last handle goes. -/
  | abandoned {o : Registered β} (h : o.cleaned = true) : Change o (Registry.abandoned o)

theorem Registered.Change.cleaned {β : Type} [Composite β] {o o' : Registered β} (h : Change o o')
    (hc : o.cleaned = true) : o'.cleaned = true := by
  cases h with
  | counted => exact hc
  | cleanedUp => rfl
  | abandoned => exact hc

namespace Registry

variable {β : Type} [Composite β] {r r' : Registry β} {i j : Nat} {o : Registered β}

/-! ### Cascades -/

/-- What every step of a cascade keeps is so at its end. -/
theorem settle_induction {P : Registry β → List Task → Prop}
    (hstep : ∀ r t ts, P r (t :: ts) → P (r.step t).1 ((r.step t).2 ++ ts)) (r : Registry β)
    (tasks : List Task) (h : P r tasks) : P (r.settle tasks) [] := by
  fun_induction settle r tasks with
  | case1 r => exact h
  | case2 r t ts ih => exact ih (hstep r t ts h)

/-- A cascade after one more step. -/
def advance : Registry β × List Task → Registry β × List Task
  | (r, []) => (r, [])
  | (r, t :: ts) => ((r.step t).1, (r.step t).2 ++ ts)

/-- A cascade ends after at most as many steps as there are tasks and as the objects can still
add. -/
theorem settle_ends (r : Registry β) (tasks : List Task) :
    ∃ n ≤ tasks.length + totalLoad r.objects, advance^[n] (r, tasks) = (r.settle tasks, []) := by
  fun_induction settle r tasks with
  | case1 r => exact ⟨0, Nat.zero_le _, rfl⟩
  | case2 r t ts ih =>
    obtain ⟨n, hn, hend⟩ := ih
    have hload := r.step_load t
    refine ⟨n + 1, ?_, hend⟩
    simp only [List.length_append, List.length_cons] at hn ⊢
    omega

/-- A step changes every object in one of the three ways, or not. -/
theorem step_change (r : Registry β) (t : Task) (j : Nat) :
    Option.Rel Registered.Change (r.get? j) ((r.step t).1.get? j) := by
  have hrefl (o : Registered β) : Registered.Change o o := .counted o o.refs o.handles
  have hsame : Option.Rel Registered.Change (r.get? j) (r.get? j) := by
    cases r.get? j with
    | none => exact .none
    | some o => exact .some (hrefl o)
  cases t with
  | retire nid => exact hsame
  | letGo i =>
    rw [step]
    split
    · exact hsame
    rename_i o ho
    split_ifs with hlast
    · refine rel_modify hrefl (fun o' ho' => ?_) j
      obtain rfl : o = o' := Option.some.inj (ho.symm.trans ho')
      exact .abandoned hlast.1
    · exact rel_modify hrefl (fun o' _ => .counted o' o'.refs _) j
  | release i force =>
    rw [step]
    split
    · exact hsame
    rename_i o ho
    split_ifs with hlive hmore
    · exact hsame
    · exact rel_modify hrefl (fun o' _ => .counted o' _ o'.handles) j
    · refine rel_modify hrefl (fun o' ho' => ?_) j
      obtain rfl : o = o' := Option.some.inj (ho.symm.trans ho')
      simp only [isLive] at hlive
      exact .cleanedUp (by simp_all)

/-! ### Counting references -/

/-- The references that the bodies of some objects own. -/
def ownedRefs (objects : List (Registered β)) : List Nat :=
  objects.flatMap fun o => Composite.owned o.body

/-- The references that some tasks release. -/
def releases (tasks : List Task) : List Nat :=
  tasks.filterMap fun
    | .release serial _ => some serial
    | _ => none

/-- The objects that some tasks force out. -/
def forcings (tasks : List Task) : List Nat :=
  tasks.filterMap fun
    | .release serial true => some serial
    | _ => none

/-- The NIDs that some tasks give back. -/
def retirements (tasks : List Task) : List Nat :=
  tasks.filterMap fun
    | .retire nid => some nid
    | _ => none

/-- The number of references to an object that were not released. -/
def references (r : Registry β) (held : Multiset Nat) (tasks : List Task) (i : Nat) : Nat :=
  held.count i + (ownedRefs r.objects).count i + (releases tasks).count i

/-- One for an object that is registered under an identifier. -/
def registrations (r : Registry β) (i : Nat) (id : String) : Nat :=
  if r.serialOf? id = some i then 1 else 0

theorem releases_append (ts ts' : List Task) : releases (ts ++ ts') = releases ts ++ releases ts' :=
  List.filterMap_append

theorem retirements_append (ts ts' : List Task) :
    retirements (ts ++ ts') = retirements ts ++ retirements ts' :=
  List.filterMap_append

theorem forcings_append (ts ts' : List Task) : forcings (ts ++ ts') = forcings ts ++ forcings ts' :=
  List.filterMap_append

theorem releases_endRefs (serials : List Nat) : releases (endRefs serials) = serials := by
  induction serials with
  | nil => rfl
  | cons j js ih => exact congrArg (j :: ·) ih

theorem retirements_endRefs (serials : List Nat) : retirements (endRefs serials) = [] := by
  induction serials with
  | nil => rfl
  | cons j js ih => exact ih

theorem forcings_endRefs (serials : List Nat) : forcings (endRefs serials) = [] := by
  induction serials with
  | nil => rfl
  | cons j js ih => exact ih

theorem releases_cleanup (o : Registered β) (ts : List Task) :
    releases (cleanup o ++ ts) = Composite.owned o.body ++ releases ts := by
  rw [cleanup, releases_append, releases_append, releases_endRefs]
  simp [releases]

theorem retirements_cleanup (o : Registered β) (ts : List Task) :
    retirements (cleanup o ++ ts) = o.nid :: retirements ts := by
  rw [cleanup, retirements_append, retirements_append, retirements_endRefs]
  rfl

theorem forcings_cleanup (o : Registered β) (ts : List Task) :
    forcings (cleanup o ++ ts) = forcings ts := by
  rw [cleanup, forcings_append, forcings_append, forcings_endRefs]
  rfl

theorem count_ownedRefs_modify {objects : List (Registered β)} (f : Registered β → Registered β)
    (ho : objects[i]? = some o) (j : Nat) :
    (ownedRefs (objects.modify i f)).count j + (Composite.owned o.body).count j =
      (ownedRefs objects).count j + (Composite.owned (f o).body).count j := by
  induction objects generalizing i with
  | nil => simp at ho
  | cons o' os ih =>
    cases i with
    | zero =>
      obtain rfl : o' = o := by simpa using ho
      simp only [ownedRefs, List.modify_zero_cons, List.flatMap_cons, List.count_append]
      omega
    | succ i =>
      have := ih (i := i) (by simpa using ho)
      simp only [ownedRefs, List.modify_succ_cons, List.flatMap_cons, List.count_append] at this ⊢
      omega

/-! ### The invariant -/

/-- The counts of references are right in the middle of a cascade. -/
structure Consistent (r : Registry β) (held : Multiset Nat) (forced : List Nat) (tasks : List Task) :
    Prop extends Indexed r (retirements tasks) where
  /-- The count of an object that was not cleaned up is right, and is not zero. -/
  counted : ∀ {i o}, r.get? i = some o → o.cleaned = false →
    0 < o.refs ∧ o.refs = r.registrations i o.id + r.references held tasks i
  /-- Nothing refers to an object that was cleaned up without being forced out. -/
  cause : ∀ {i o}, r.get? i = some o → o.cleaned = true →
    i ∈ forced ∨ r.references held tasks i = 0
  /-- An object that a task forces out is registered under no identifier. -/
  forcing : ∀ {i}, i ∈ forcings tasks →
    i ∈ forced ∧ ∀ o, r.get? i = some o → r.serialOf? o.id ≠ some i
  /-- An object that was forced out was cleaned up, or a task does it. -/
  driven : ∀ {i o}, r.get? i = some o → i ∈ forced → o.cleaned = true ∨ i ∈ forcings tasks
  /-- Only registered objects are referred to, or forced out. -/
  known : ∀ {i}, r.objects.length ≤ i → r.references held tasks i = 0 ∧ i ∉ forced

theorem consistent_empty : (empty : Registry β).Consistent 0 [] [] where
  toIndexed := indexed_empty
  counted h := by simp [empty, get?] at h
  cause h := by simp [empty, get?] at h
  forcing h := by simp [forcings] at h
  driven h := by simp [empty, get?] at h
  known _ := by simp [references, empty, ownedRefs, releases]

namespace Consistent

variable {held held' : Multiset Nat} {forced : List Nat} {ts ts' : List Task}

/-- References may pass from those outside to the tasks, and back. -/
theorem congr_references (h : r.Consistent held forced ts)
    (href : ∀ i, r.references held' ts' i = r.references held ts i)
    (hret : retirements ts' = retirements ts) (hforce : forcings ts' = forcings ts) :
    r.Consistent held' forced ts' :=
  ⟨hret ▸ h.toIndexed, fun ho hc => href _ ▸ h.counted ho hc,
    fun ho hc => href _ ▸ h.cause ho hc, fun hi => h.forcing (hforce ▸ hi),
    fun ho hi => hforce ▸ h.driven ho hi, fun hi => href _ ▸ h.known hi⟩

/-- A change of an object that moves references: what its count grows by is what there are more of
references to it, and no other object has more or fewer. -/
theorem modify (h : r.Consistent held forced ts) {f : Registered β → Registered β}
    (ho : r.get? i = some o)
    (hsame : (f o).id = o.id ∧ (f o).nid = o.nid ∧ (f o).cleaned = o.cleaned)
    (hcleaned : o.cleaned = true → (f o).refs = o.refs)
    (hpos : o.cleaned = false → 0 < (f o).refs)
    (hret : retirements ts' = retirements ts) (hforce : forcings ts' = forcings ts)
    (hcount : ∀ j, held'.count j + (Composite.owned (f o).body).count j + (releases ts').count j +
        (if j = i then o.refs else 0) =
      held.count j + (Composite.owned o.body).count j + (releases ts).count j +
        (if j = i then (f o).refs else 0)) :
    (r.modify i f).Consistent held' forced ts' := by
  obtain ⟨hid, hnid, hcl⟩ := hsame
  have href (j : Nat) : (r.modify i f).references held' ts' j + (if j = i then o.refs else 0) =
      r.references held ts j + (if j = i then (f o).refs else 0) := by
    have := hcount j
    have := count_ownedRefs_modify f ho j
    simp only [references, Registry.modify]
    omega
  constructor
  case toIndexed =>
    rw [hret]
    refine h.toIndexed.modify fun o' ho' => ?_
    obtain rfl : o = o' := by simpa [ho] using ho'
    exact ⟨hid, hnid, hcl⟩
  case counted =>
    intro j o' ho' hc
    have hj := href j
    rcases get?_modify_cases ho ho' with ⟨rfl, rfl⟩ | ⟨hne, ho'⟩
    · have hold := (h.counted ho (hcl ▸ hc)).2
      refine ⟨hpos (hcl ▸ hc), ?_⟩
      rw [hid]
      change (f o).refs = r.registrations j o.id + _
      simp only [if_true] at hj
      omega
    · simp only [hne, if_false, Nat.add_zero] at hj
      rw [hj]
      exact h.counted ho' hc
  case cause =>
    intro j o' ho' hc
    have hj := href j
    rcases get?_modify_cases ho ho' with ⟨rfl, rfl⟩ | ⟨hne, ho'⟩
    · simp only [if_true, hcleaned (hcl ▸ hc)] at hj
      rw [show (r.modify j f).references held' ts' j = r.references held ts j by omega]
      exact h.cause ho (hcl ▸ hc)
    · simp only [hne, if_false, Nat.add_zero] at hj
      rw [hj]
      exact h.cause ho' hc
  case forcing =>
    intro j hj
    rw [hforce] at hj
    refine ⟨(h.forcing hj).1, fun o' ho' => ?_⟩
    rcases get?_modify_cases ho ho' with ⟨rfl, rfl⟩ | ⟨-, ho'⟩
    · exact hid ▸ (h.forcing hj).2 o ho
    · exact (h.forcing hj).2 o' ho'
  case driven =>
    intro j o' ho' hj
    rw [hforce]
    rcases get?_modify_cases ho ho' with ⟨rfl, rfl⟩ | ⟨-, ho'⟩
    · exact hcl ▸ h.driven ho hj
    · exact h.driven ho' hj
  case known =>
    intro j hj
    have hlen : r.objects.length ≤ j := by simpa [Registry.modify] using hj
    have hne : j ≠ i := by
      rintro rfl
      exact Nat.not_lt.2 hlen (lt_length_of_get? ho)
    have hrefs := href j
    simp only [hne, if_false, Nat.add_zero] at hrefs
    rw [hrefs]
    exact h.known hlen

/-- A change of all bodies that moves references between them and the outside. -/
theorem mapBodies (h : r.Consistent held forced ts) {f : β → β}
    (href : ∀ i, (r.mapBodies f).references held' ts i = r.references held ts i) :
    (r.mapBodies f).Consistent held' forced ts := by
  have hback {j : Nat} {o' : Registered β} (ho' : (r.mapBodies f).get? j = some o') :
      ∃ o, r.get? j = some o ∧ o' = { o with body := f o.body } := by
    rw [get?_mapBodies] at ho'
    obtain ⟨o, ho, rfl⟩ := Option.map_eq_some_iff.1 ho'
    exact ⟨o, ho, rfl⟩
  constructor
  case toIndexed => exact h.toIndexed.of_alike (rel_mapBodies fun o => ⟨rfl, rfl, rfl⟩) rfl rfl rfl
  case counted =>
    intro j o' ho' hc
    obtain ⟨o, ho, rfl⟩ := hback ho'
    rw [href]
    exact h.counted (o := o) ho hc
  case cause =>
    intro j o' ho' hc
    obtain ⟨o, ho, rfl⟩ := hback ho'
    rw [href]
    exact h.cause (o := o) ho hc
  case forcing =>
    intro j hj
    refine ⟨(h.forcing hj).1, fun o' ho' => ?_⟩
    obtain ⟨o, ho, rfl⟩ := hback ho'
    exact (h.forcing hj).2 o ho
  case driven =>
    intro j o' ho' hj
    obtain ⟨o, ho, rfl⟩ := hback ho'
    exact h.driven (o := o) ho hj
  case known =>
    intro j hj
    rw [href]
    exact h.known (by simpa [Registry.mapBodies] using hj)

/-- Giving a NID back. -/
theorem retire {nid : Nat} (h : r.Consistent held forced (.retire nid :: ts)) :
    ({ r with nids := r.nids.erase nid, pool := r.pool.give nid } : Registry β).Consistent
      held forced ts := by
  obtain ⟨hindexed, hserial⟩ := h.toIndexed.retire
  have hreg (i : Nat) (id : String) :
      ({ r with nids := r.nids.erase nid, pool := r.pool.give nid } : Registry β).registrations i id
        = r.registrations i id := by
    simp only [registrations, hserial]
  refine ⟨hindexed, fun ho hc => ?_, h.cause, fun hi => ?_, h.driven, h.known⟩
  · rw [hreg]
    exact h.counted ho hc
  · obtain ⟨hforced, hunreg⟩ := h.forcing hi
    exact ⟨hforced, fun o ho => hserial _ ▸ hunreg o ho⟩

/-- Letting a handle go. -/
theorem letGo (h : r.Consistent held forced (.letGo i :: ts)) :
    (r.step (.letGo i)).1.Consistent held forced ((r.step (.letGo i)).2 ++ ts) := by
  have hrest : r.Consistent held forced ts := h.congr_references (fun _ => rfl) rfl rfl
  rw [step]
  split
  · exact hrest
  rename_i o ho
  split_ifs with hlast
  · refine hrest.modify ho ⟨rfl, rfl, rfl⟩ (fun _ => rfl) (fun hc => ?_) ?_ ?_ (fun j => ?_)
    · simp [hlast.1] at hc
    · rw [retirements_append, retirements_endRefs, List.nil_append]
    · rw [forcings_append, forcings_endRefs, List.nil_append]
    · rw [releases_append, releases_endRefs]
      simp only [abandoned, Composite.owned_vacate, List.count_append, List.count_nil]
      omega
  · exact hrest.modify ho ⟨rfl, rfl, rfl⟩ (fun _ => rfl) (fun hc => (h.counted (o := o) ho hc).1)
      rfl rfl fun j => rfl

/-- Cleaning up an object whose last reference is released, or that is forced out. What it owns is
to be released now. -/
theorem cleanUp {force : Bool} (h : r.Consistent held forced (.release i force :: ts))
    (ho : r.get? i = some o) (hc : o.cleaned = false) (hend : o.refs ≤ 1 ∨ force = true) :
    (r.modify i cleanedUp).Consistent held forced (cleanup o ++ ts) := by
  obtain ⟨hpos, hrefs⟩ := h.counted ho hc
  have hpending : (releases (.release i force :: ts)).count i = (releases ts).count i + 1 := by
    simp [releases]
  have hlast : force = false → r.registrations i o.id = 0 ∧ r.references held ts i = 0 := by
    rintro rfl
    simp only [references] at hrefs ⊢
    simp only [Bool.false_eq_true, or_false] at hend
    omega
  have hunreg : r.serialOf? o.id ≠ some i := by
    cases force with
    | false => simpa [registrations] using (hlast rfl).1
    | true => exact (h.forcing (by simp [forcings])).2 o ho
  have href (j : Nat) : (r.modify i cleanedUp).references held (cleanup o ++ ts) j =
      r.references held ts j := by
    have := count_ownedRefs_modify cleanedUp ho j
    simp only [cleanedUp, Composite.owned_vacate, List.count_nil] at this
    simp only [references, Registry.modify, releases_cleanup, List.count_append]
    omega
  have hother {j : Nat} (hj : j ≠ i) :
      r.references held (.release i force :: ts) j = r.references held ts j := by
    simp [references, releases, hj.symm]
  constructor
  case toIndexed =>
    rw [retirements_cleanup]
    exact h.toIndexed.cleanUp ho hc hunreg
  case counted =>
    intro j o' ho' hc'
    rcases get?_modify_cases ho ho' with ⟨-, rfl⟩ | ⟨hne, ho'⟩
    · cases hc'
    · rw [href, ← hother hne]
      exact h.counted ho' hc'
  case cause =>
    intro j o' ho' hc'
    rw [href]
    rcases get?_modify_cases ho ho' with ⟨rfl, rfl⟩ | ⟨hne, ho'⟩
    · cases force with
      | false => exact .inr (hlast rfl).2
      | true => exact .inl (h.forcing (by simp [forcings])).1
    · rw [← hother hne]
      exact h.cause ho' hc'
  case forcing =>
    intro j hj
    rw [forcings_cleanup] at hj
    have hj' : j ∈ forcings (.release i force :: ts) := by
      cases force <;> simp [forcings] at hj ⊢ <;> tauto
    refine ⟨(h.forcing hj').1, fun o' ho' => ?_⟩
    rcases get?_modify_cases ho ho' with ⟨rfl, rfl⟩ | ⟨-, ho'⟩
    · exact hunreg
    · exact (h.forcing hj').2 o' ho'
  case driven =>
    intro j o' ho' hj
    rw [forcings_cleanup]
    rcases get?_modify_cases ho ho' with ⟨-, rfl⟩ | ⟨hne, ho'⟩
    · exact .inl rfl
    · refine (h.driven ho' hj).imp_right fun hmem => ?_
      cases force
      · exact hmem
      · exact List.mem_of_ne_of_mem hne (by simpa [forcings] using hmem)
  case known =>
    intro j hj
    have hlen : r.objects.length ≤ j := by simpa [Registry.modify] using hj
    have hne : j ≠ i := by
      rintro rfl
      exact Nat.not_lt.2 hlen (lt_length_of_get? ho)
    rw [href, ← hother hne]
    exact h.known hlen

/-- Releasing an inert reference. -/
theorem release_inert {force : Bool} (h : r.Consistent held forced (.release i force :: ts))
    (hi : ∀ o, r.get? i = some o → o.cleaned = true) : r.Consistent held forced ts := by
  have hother {j : Nat} (hj : j ≠ i) :
      r.references held (.release i force :: ts) j = r.references held ts j := by
    simp [references, releases, hj.symm]
  have hself : r.references held (.release i force :: ts) i ≠ 0 := by
    simp [references, releases]
  have hsub {j : Nat} (hj : j ∈ forcings ts) : j ∈ forcings (.release i force :: ts) := by
    cases force <;> simp [forcings] at hj ⊢ <;> tauto
  refine ⟨h.toIndexed, fun {j o} ho hc => ?_, fun {j o} ho hc => ?_,
    fun hj => h.forcing (hsub hj), fun {j o} ho hj => ?_, fun {j} hj => ?_⟩
  · have hne : j ≠ i := by
      rintro rfl
      simp [hi o ho] at hc
    exact hother hne ▸ h.counted ho hc
  · by_cases hne : j = i
    · subst hne
      exact .inl ((h.cause ho hc).resolve_right hself)
    · exact hother hne ▸ h.cause ho hc
  · by_cases hne : j = i
    · subst hne
      exact .inl (hi o ho)
    · refine (h.driven ho hj).imp_right fun hmem => ?_
      cases force
      · exact hmem
      · exact List.mem_of_ne_of_mem hne (by simpa [forcings] using hmem)
  · have hne : j ≠ i := by
      rintro rfl
      exact hself (h.known hj).1
    exact hother hne ▸ h.known hj

/-- Releasing a reference. -/
theorem release {force : Bool} (h : r.Consistent held forced (.release i force :: ts)) :
    (r.step (.release i force)).1.Consistent held forced ((r.step (.release i force)).2 ++ ts) := by
  rw [step]
  split
  · rename_i hnone
    exact h.release_inert fun o ho => by simp [hnone] at ho
  rename_i o ho
  rw [h.isLive_eq ho]
  cases hc : o.cleaned with
  | true =>
    refine h.release_inert fun o' ho' => ?_
    obtain rfl : o = o' := by simpa [ho] using ho'
    exact hc
  | false =>
    simp only [Bool.not_false, Bool.not_true, Bool.false_eq_true, if_false]
    split_ifs with hmore
    · obtain ⟨hrefs, hforce⟩ := hmore
      obtain rfl : force = false := by simpa using hforce
      refine h.modify ho ⟨rfl, rfl, rfl⟩ (fun hc' => ?_) (fun _ => ?_) rfl rfl fun j => ?_
      · simp [hc] at hc'
      · change 0 < o.refs - 1
        omega
      · by_cases hj : j = i
        · subst hj
          simp [releases]
          omega
        · simp [releases, hj, Ne.symm hj]
    · refine h.cleanUp ho hc ?_
      cases force
      · exact .inl (by simpa using hmore)
      · exact .inr rfl

/-- A step of a cascade. -/
theorem step {t : Task} (h : r.Consistent held forced (t :: ts)) :
    (r.step t).1.Consistent held forced ((r.step t).2 ++ ts) := by
  cases t with
  | release i force => exact h.release
  | letGo i => exact h.letGo
  | retire nid => exact h.retire

/-- A cascade. -/
theorem settle (h : r.Consistent held forced ts) : (r.settle ts).Consistent held forced [] :=
  settle_induction (P := fun r ts => r.Consistent held forced ts) (fun _ _ _ h => h.step) r ts h

end Consistent

/-! ### Objects without references -/

/-- Does an object own nothing if it was cleaned up? -/
def VacatedAt (r : Registry β) (i : Nat) : Prop :=
  ∀ ⦃o⦄, r.get? i = some o → o.cleaned = true → Composite.owned o.body = []

theorem VacatedAt.step (h : r.VacatedAt i) (t : Task) : (r.step t).1.VacatedAt i := by
  intro o' ho' hc
  have hi := r.step_change t i
  rw [ho'] at hi
  generalize hold : r.get? i = old at hi
  cases hi with
  | some hoo =>
    cases hoo with
    | counted => exact (h hold hc :)
    | cleanedUp => exact Composite.owned_vacate _
    | abandoned => exact Composite.owned_vacate _

theorem VacatedAt.settle (h : r.VacatedAt i) (tasks : List Task) : (r.settle tasks).VacatedAt i :=
  settle_induction (P := fun r _ => r.VacatedAt i) (fun _ t _ h => h.step t) r tasks h

/-- Does every object that was cleaned up own nothing? -/
def Vacated (r : Registry β) : Prop :=
  ∀ ⦃i o⦄, r.get? i = some o → o.cleaned = true → Composite.owned o.body = []

theorem vacated_empty : (empty : Registry β).Vacated := fun _ _ h => by simp [empty, get?] at h

theorem Vacated.modify (h : r.Vacated) {f : Registered β → Registered β}
    (hf : ∀ o, r.get? i = some o → (f o).cleaned = true → Composite.owned (f o).body = []) :
    (r.modify i f).Vacated := by
  intro j o' ho' hc
  obtain ⟨o, ho, rfl⟩ := get?_modify_eq_some ho'
  split_ifs at hc ⊢ with hij
  · exact hf o (hij ▸ ho) hc
  · exact h ho hc

theorem Vacated.settle (h : r.Vacated) (tasks : List Task) : (r.settle tasks).Vacated :=
  fun i => VacatedAt.settle (h (i := i)) tasks

/-- The counts of references are right, and objects that were cleaned up own nothing. -/
structure Balanced (r : Registry β) (held : Multiset Nat) (forced : List Nat) (tasks : List Task) :
    Prop extends Consistent r held forced tasks where
  /-- An object that was cleaned up owns nothing. -/
  vacated : r.Vacated

theorem balanced_empty : (empty : Registry β).Balanced 0 [] [] :=
  ⟨consistent_empty, vacated_empty⟩

end Registry

end Dataplane

import Dataplane.Proofs.Registry.Balance
import Dataplane.Proofs.Results
import Mathlib.Data.Multiset.AddSub

/-!
# Operations on a registry

What each operation on a registry does to the counts of references, and when it fails. Taking a
reference fails only when no object of the kind is registered under the identifier, and giving back
a reference that was just taken leaves nothing behind.

## The model

`Registry.take` counts one more reference to an object. It is what an operation that acquires a
reference does to the object that `Registry.findId` finds.
-/

namespace Dataplane

namespace Registry

variable {β : Type} [Composite β] {r r' : Registry β} {i j : Nat} {o : Registered β}
  {held held' : Multiset Nat} {forced : List Nat} {ts : List Task} {id : String} {ref : Ref}

/-- The registry with one more reference to an object. -/
def take (r : Registry β) (serial : Nat) : Registry β :=
  r.modify serial fun o => { o with refs := o.refs + 1, handles := o.handles + 1 }

/-! ### Finding -/

theorem ref?_eq_some_iff : r.ref? i = some ref ↔
    ∃ o, r.get? i = some o ∧ ref = ⟨i, o.id, o.nid, Composite.kind o.body⟩ := by
  rw [ref?, Option.map_eq_some_iff]
  exact exists_congr fun o => and_congr_right fun _ => eq_comm

theorem findId_eq_ok_iff : r.findId id = .ok ref ↔
    ∃ i o, r.serialOf? id = some i ∧ r.get? i = some o ∧
      ref = ⟨i, o.id, o.nid, Composite.kind o.body⟩ := by
  rw [findId]
  constructor
  · intro h
    split at h
    · rename_i ref' href
      cases h
      obtain ⟨i, hi, href⟩ := Option.bind_eq_some_iff.1 href
      obtain ⟨o, ho, rfl⟩ := ref?_eq_some_iff.1 href
      exact ⟨i, o, hi, ho, rfl⟩
    · cases h
  · rintro ⟨i, o, hi, ho, rfl⟩
    simp [hi, ref?, ho]

theorem findId_eq_error {e : RegistryError} (h : r.findId id = .error e) : e = .notFound id := by
  rw [findId] at h
  split at h <;> cases h
  rfl

/-- An identifier that leads to a NID leads to an object. -/
theorem Indexed.findId_eq {retiring : List Nat} (h : r.Indexed retiring) {nid : Nat}
    (hid : r.ids.get? id = some nid) :
    ∃ i o, r.nids.get? nid = some i ∧ r.get? i = some o ∧ o.id = id ∧ o.cleaned = false ∧
      r.serialOf? id = some i ∧ r.findId id = .ok ⟨i, o.id, o.nid, Composite.kind o.body⟩ := by
  obtain ⟨i, o, hi, ho, hoid, hc⟩ := h.named hid
  have hserial := serialOf?_eq_some_iff.2 ⟨nid, hid, hi⟩
  exact ⟨i, o, hi, ho, hoid, hc, hserial, findId_eq_ok_iff.2 ⟨i, o, hserial, ho, rfl⟩⟩

/-- An identifier that leads to no NID leads to no object. -/
theorem findId_of_ids_eq_none (hid : r.ids.get? id = none) :
    r.findId id = .error (.notFound id) := by
  simp [findId, serialOf?, hid]

/-! ### Acquiring -/

/-- A reference is taken to the object that is found. -/
theorem Consistent.acquire_eq (h : r.Consistent held forced ts) (id : String) :
    r.acquire id = (r.findId id).map fun ref => (ref, r.take ref.serial) := by
  rw [acquire]
  cases hid : r.ids.get? id with
  | none =>
    rw [findId_of_ids_eq_none hid]
    rfl
  | some nid =>
    obtain ⟨i, o, hi, ho, -, hc, -, hfind⟩ := h.toIndexed.findId_eq hid
    have hpos := (h.counted ho hc).1
    have hgone : ¬ (o.refs = 0 ∨ o.cleaned = true) := by
      simp only [hc, Bool.false_eq_true, or_false]
      omega
    rw [hfind]
    simp only [pure_bind, hi, ho, ref?, Option.map_some, hgone, if_false, hold, Registry.modify,
      List.modify_modify_eq]
    rfl

/-- A reference is taken to the object that is found, if it is of the kind. -/
theorem Consistent.acquireKind_eq (h : r.Consistent held forced ts) (id : String) (kind : ObjectKind) :
    r.acquireKind id kind = (r.findId id).bind fun ref =>
      if ref.kind = kind then .ok (ref, r.take ref.serial)
      else .error (.wrongKind id kind ref.kind) := by
  rw [acquireKind, h.acquire_eq]
  cases r.findId id <;> rfl

/-- Taking a reference fails only if nothing is registered under the identifier. -/
theorem Consistent.acquire_eq_error (h : r.Consistent held forced ts) {e : RegistryError}
    (he : r.acquire id = .error e) : e = .notFound id := by
  rw [h.acquire_eq] at he
  cases hfind : r.findId id with
  | error e' =>
    rw [hfind] at he
    cases he
    exact findId_eq_error hfind
  | ok ref =>
    rw [hfind] at he
    cases he

/-- Taking a reference to an object of a kind fails only if nothing is registered under the
identifier or the object is of another kind. -/
theorem Consistent.acquireKind_eq_error (h : r.Consistent held forced ts) {kind : ObjectKind}
    {e : RegistryError} (he : r.acquireKind id kind = .error e) :
    e = .notFound id ∨ ∃ found, found ≠ kind ∧ e = .wrongKind id kind found := by
  rw [h.acquireKind_eq] at he
  cases hfind : r.findId id with
  | error e' =>
    rw [hfind] at he
    cases he
    exact .inl (findId_eq_error hfind)
  | ok ref =>
    simp only [hfind, Except.bind] at he
    split_ifs at he with hkind
    cases he
    exact .inr ⟨ref.kind, hkind, rfl⟩

/-- One more reference to an object that was not cleaned up, held outside. -/
theorem Consistent.take (h : r.Consistent held forced ts) (ho : r.get? i = some o)
    (hc : o.cleaned = false) : (r.take i).Consistent (i ::ₘ held) forced ts := by
  refine h.modify ho ⟨rfl, rfl, rfl⟩ (fun hc' => ?_) (fun _ => Nat.succ_pos _) rfl rfl fun j => ?_
  · simp [hc] at hc'
  · by_cases hj : j = i
    · subst hj
      simp
      omega
    · simp [hj]

/-- One more handle of an object. -/
theorem Consistent.hold (h : r.Consistent held forced ts) (i : Nat) :
    (r.hold i).Consistent held forced ts := by
  cases ho : r.get? i with
  | none =>
    have hsame : r.hold i = r := by
      rw [Registry.hold, Registry.modify, List.modify_eq_self]
      exact List.getElem?_eq_none_iff.1 ho
    rwa [hsame]
  | some o =>
    exact h.modify ho ⟨rfl, rfl, rfl⟩ (fun _ => rfl) (fun hc => (h.counted ho hc).1) rfl rfl
      fun _ => rfl

theorem Vacated.take (h : r.Vacated) (i : Nat) : (r.take i).Vacated :=
  h.modify fun _ ho hc => (h ho hc :)

theorem Balanced.take (h : r.Balanced held forced ts) (ho : r.get? i = some o)
    (hc : o.cleaned = false) : (r.take i).Balanced (i ::ₘ held) forced ts :=
  ⟨h.toConsistent.take ho hc, h.vacated.take i⟩

/-- A reference that is acquired is taken to an object that was not cleaned up. -/
theorem Consistent.take_of_acquire (h : r.Consistent held forced ts)
    (hacq : r.acquire id = .ok (ref, r')) :
    r' = r.take ref.serial ∧ ∃ o, r.get? ref.serial = some o ∧ o.cleaned = false := by
  rw [h.acquire_eq] at hacq
  obtain ⟨ref', hfind, heq⟩ := map_eq_ok_iff.1 hacq
  cases heq
  obtain ⟨i, o, hi, ho, rfl⟩ := findId_eq_ok_iff.1 hfind
  obtain ⟨o', ho', -, hc⟩ := h.toIndexed.get?_of_serialOf? hi
  exact ⟨rfl, o', ho', hc⟩

/-- A reference that was acquired is held outside. -/
theorem Balanced.acquire (h : r.Balanced held forced ts) (hacq : r.acquire id = .ok (ref, r')) :
    r'.Balanced (ref.serial ::ₘ held) forced ts := by
  obtain ⟨rfl, o, ho, hc⟩ := h.take_of_acquire hacq
  exact h.take ho hc

theorem acquire_of_acquireKind {kind : ObjectKind} (h : r.acquireKind id kind = .ok (ref, r')) :
    r.acquire id = .ok (ref, r') := by
  obtain ⟨⟨ref', r''⟩, hacq, hif⟩ := bind_eq_ok_iff.1 h
  simp only at hif
  split_ifs at hif
  cases hif
  exact hacq

/-! ### Releasing -/

/-- A held reference is about to be released. -/
theorem Consistent.ending (h : r.Consistent (i ::ₘ held) forced []) :
    r.Consistent held forced (endRefs [i]) := by
  refine h.congr_references (fun j => ?_) rfl rfl
  by_cases hj : j = i
  · subst hj
    simp [references, endRefs, releases]
    omega
  · simp [references, endRefs, releases, hj, Ne.symm hj]

/-- A held reference is released. -/
theorem Consistent.drop (h : r.Consistent (i ::ₘ held) forced []) :
    (r.release i).Consistent held forced [] :=
  h.ending.settle

theorem Balanced.drop (h : r.Balanced (i ::ₘ held) forced []) :
    (r.release i).Balanced held forced [] :=
  ⟨h.toConsistent.drop, h.vacated.settle _⟩

/-- Held references are released. -/
theorem Balanced.dropAll {serials : List Nat}
    (h : r.Balanced ((serials : Multiset Nat) + held) forced []) :
    (r.releaseAll serials).Balanced held forced [] := by
  induction serials generalizing r with
  | nil => simpa [releaseAll] using h
  | cons i is ih =>
    rw [← Multiset.cons_coe, Multiset.cons_add] at h
    exact ih h.drop

/-- Releasing a reference to an object that was cleaned up changes nothing but how many handles
there are of it. -/
theorem release_of_cleaned (ho : r.get? i = some o) (hc : o.cleaned = true)
    (hown : Composite.owned o.body = []) :
    r.release i =
      r.modify i (if o.handles = 1 then abandoned
        else fun o => { o with handles := o.handles - 1 }) := by
  have hinert : r.step (.release i false) = (r, []) := by
    simp [step, ho, isLive, hc]
  have hlast : r.step (.letGo i) =
      (r.modify i (if o.handles = 1 then abandoned
        else fun o => { o with handles := o.handles - 1 }), []) := by
    by_cases h1 : o.handles = 1 <;> simp [step, ho, hc, h1, hown, endRefs]
  simp only [release, endRefs, List.flatMap_cons, List.flatMap_nil, List.append_nil]
  rw [settle, hinert, List.nil_append, settle, hlast, List.nil_append, settle]

omit [Composite β] in
theorem modify_modify (r : Registry β) (i : Nat) (f g : Registered β → Registered β) :
    (r.modify i f).modify i g = r.modify i (g ∘ f) := by
  simp [modify, List.modify_modify_eq]

omit [Composite β] in
theorem modify_eq_self {f : Registered β → Registered β} (ho : r.get? i = some o) (hf : f o = o) :
    r.modify i f = r := by
  obtain ⟨hlt, hget⟩ := List.getElem?_eq_some_iff.1 ho
  have hobjects : r.objects.modify i f = r.objects := by
    refine List.ext_getElem? fun j => ?_
    rw [List.getElem?_modify]
    by_cases hj : i = j
    · subst hj
      change r.objects[i]? = some o at ho
      simp [ho, hf]
    · simp [hj]
  rw [modify, hobjects]

/-- A reference that was taken and is given back leaves nothing behind. -/
theorem release_take (ho : r.get? i = some o) (hlive : r.isLive i o = true) (hpos : 0 < o.refs) :
    (r.take i).release i = r := by
  have ho' : (r.take i).get? i = some { o with refs := o.refs + 1, handles := o.handles + 1 } :=
    get?_modify_self _ ho
  have hcleaned : o.cleaned = false := by
    simp only [isLive, Bool.and_eq_true, Bool.not_eq_true'] at hlive
    exact hlive.2
  have hback : (r.take i).step (.release i false) =
      ((r.take i).modify i fun o => { o with refs := o.refs - 1 }, []) := by
    have hlive' : (r.take i).isLive i { o with refs := o.refs + 1, handles := o.handles + 1 } =
        true := hlive
    simp [step, ho', hlive', hpos]
  have ho'' : ((r.take i).modify i fun o => { o with refs := o.refs - 1 }).get? i =
      some { o with handles := o.handles + 1 } := get?_modify_self _ ho'
  have hgo : ((r.take i).modify i fun o => { o with refs := o.refs - 1 }).step (.letGo i) =
      (((r.take i).modify i fun o => { o with refs := o.refs - 1 }).modify i
        fun o => { o with handles := o.handles - 1 }, []) := by
    simp [step, ho'', hcleaned]
  simp only [release, endRefs, List.flatMap_cons, List.flatMap_nil, List.append_nil]
  rw [settle, hback, List.nil_append, settle, hgo, List.nil_append, settle, take, modify_modify,
    modify_modify]
  exact modify_eq_self ho rfl

/-! ### Registering, removing and changing objects -/

/-- References that the body of a new object owns are no longer held outside. -/
theorem Consistent.insert {body : β} {nid : Nat}
    (h : r.Consistent ((Composite.owned body : Multiset Nat) + held) forced [])
    (hins : r.insert id body = .ok (nid, r')) : r'.Consistent held forced [] := by
  obtain ⟨hindexed, hobjects, hfree, hserial, hother⟩ := h.toIndexed.insert hins
  have hnew : r'.get? r.objects.length = some ⟨id, nid, 1, 0, false, body⟩ := by
    simp [get?, hobjects]
  have href (j : Nat) : r'.references held [] j =
      r.references ((Composite.owned body : Multiset Nat) + held) [] j := by
    simp [references, hobjects, ownedRefs]
    omega
  have hreg {j : Nat} (hj : j < r.objects.length) (id' : String) :
      r'.registrations j id' = r.registrations j id' := by
    by_cases hid : id' = id
    · subst hid
      simp [registrations, hserial, hfree, (Nat.ne_of_lt hj).symm]
    · simp only [registrations, hother id' hid]
  constructor
  case toIndexed => exact hindexed
  case counted =>
    intro j o ho hc
    rw [href]
    rcases get?_concat hobjects ho with ho | ⟨rfl, rfl⟩
    · rw [hreg (lt_length_of_get? ho)]
      exact h.counted ho hc
    · simp [registrations, hserial, (h.known (Nat.le_refl _)).1]
  case cause =>
    intro j o ho hc
    rw [href]
    rcases get?_concat hobjects ho with ho | ⟨-, rfl⟩
    · exact h.cause ho hc
    · cases hc
  case forcing =>
    intro j hj
    cases hj
  case driven =>
    intro j o ho hj
    rcases get?_concat hobjects ho with ho | ⟨rfl, rfl⟩
    · exact h.driven ho hj
    · exact absurd hj (h.known (Nat.le_refl _)).2
  case known =>
    intro j hj
    rw [href]
    exact h.known (Nat.le_trans (by simp [hobjects]) hj)

omit [Composite β] in
theorem objects_of_insert {body : β} {nid : Nat} (hins : r.insert id body = .ok (nid, r')) :
    r'.objects = r.objects ++ [⟨id, nid, 1, 0, false, body⟩] := by
  rw [insert] at hins
  split_ifs at hins
  split at hins <;> cases hins
  rfl

theorem Vacated.insert {body : β} {nid : Nat} (h : r.Vacated)
    (hins : r.insert id body = .ok (nid, r')) : r'.Vacated := by
  intro j o ho hc
  rcases get?_concat (objects_of_insert hins) ho with ho | ⟨-, rfl⟩
  · exact h ho hc
  · cases hc

theorem Balanced.insert {body : β} {nid : Nat}
    (h : r.Balanced ((Composite.owned body : Multiset Nat) + held) forced [])
    (hins : r.insert id body = .ok (nid, r')) : r'.Balanced held forced [] :=
  ⟨h.toConsistent.insert hins, h.vacated.insert hins⟩

/-- Taking out an object does not fail when one is registered under the identifier. -/
theorem Indexed.remove_eq {retiring : List Nat} (h : r.Indexed retiring) (id : String)
    (force : Bool) : r.remove id force = (r.findId id).map fun ref =>
      (ref.nid, { r with ids := r.ids.erase id }.settle [.release ref.serial force]) := by
  rw [Registry.remove]
  cases hid : r.ids.get? id with
  | none =>
    rw [findId_of_ids_eq_none hid]
    rfl
  | some nid =>
    obtain ⟨i, o, hi, ho, -, -, -, hfind⟩ := h.findId_eq hid
    obtain ⟨o', ho', rfl⟩ := h.owner hi
    obtain rfl : o = o' := Option.some.inj (ho.symm.trans ho')
    rw [hfind]
    simp only [hi]
    rfl

/-- An object is taken out of the index of identifiers, and its first reference is about to be
released. -/
theorem Consistent.unname (h : r.Consistent held forced []) (force : Bool)
    (hi : r.serialOf? id = some i) :
    ({ r with ids := r.ids.erase id } : Registry β).Consistent held
      (if force then i :: forced else forced) [.release i force] := by
  obtain ⟨o, ho, rfl, hc⟩ := h.toIndexed.get?_of_serialOf? hi
  have hself : ({ r with ids := r.ids.erase o.id } : Registry β).serialOf? o.id = none := by
    simp [serialOf?]
  have hother {id' : String} (hne : id' ≠ o.id) :
      ({ r with ids := r.ids.erase o.id } : Registry β).serialOf? id' = r.serialOf? id' := by
    simp only [serialOf?, SortedMap.get?_erase_of_ne _ hne]
  have hmore {j : Nat} (hj : j ∈ forced) : j ∈ if force then i :: forced else forced := by
    split_ifs
    · exact List.mem_cons_of_mem _ hj
    · exact hj
  have href {j : Nat} (hj : j ≠ i) :
      ({ r with ids := r.ids.erase o.id } : Registry β).references held [.release i force] j =
        r.references held [] j := by
    simp [references, releases, Ne.symm hj]
  constructor
  case toIndexed => exact h.toIndexed.erase o.id
  case counted =>
    intro j o' ho' hc'
    obtain ⟨hpos, hrefs⟩ := h.counted ho' hc'
    refine ⟨hpos, hrefs.trans ?_⟩
    by_cases hj : j = i
    · subst hj
      obtain rfl : o = o' := Option.some.inj (ho.symm.trans ho')
      simp [registrations, hself, hi, references, releases]
      omega
    · rw [href hj]
      congr 1
      by_cases hid : o'.id = o.id
      · have hne : i ≠ j := Ne.symm hj
        simp [registrations, hid, hself, hi, hne]
      · simp only [registrations, hother hid]
  case cause =>
    intro j o' ho' hc'
    by_cases hj : j = i
    · subst hj
      obtain rfl : o = o' := Option.some.inj (ho.symm.trans ho')
      simp [hc] at hc'
    · rw [href hj]
      exact (h.cause ho' hc').imp_left hmore
  case forcing =>
    intro j hj
    cases force with
    | false => cases hj
    | true =>
      obtain rfl : j = i := by simpa [forcings] using hj
      refine ⟨List.mem_cons_self, fun o' ho' => ?_⟩
      obtain rfl : o = o' := Option.some.inj (ho.symm.trans ho')
      simp [hself]
  case driven =>
    intro j o' ho' hj
    cases force with
    | false => exact h.driven ho' hj
    | true =>
      rcases List.mem_cons.1 hj with rfl | hj
      · exact .inr (by simp [forcings])
      · exact .inl ((h.driven ho' hj).resolve_right (by simp [forcings]))
  case known =>
    intro j hj
    have hne : j ≠ i := by
      rintro rfl
      exact Nat.not_lt.2 hj (lt_length_of_get? ho)
    rw [href hne]
    refine ⟨(h.known hj).1, fun hmem => ?_⟩
    split_ifs at hmem
    · exact (List.mem_cons.1 hmem).elim hne (h.known hj).2
    · exact (h.known hj).2 hmem

/-- An object that is taken out is referred to once less. -/
theorem Consistent.remove (h : r.Consistent held forced []) (force : Bool)
    (hi : r.serialOf? id = some i) :
    ({ r with ids := r.ids.erase id }.settle [.release i force]).Consistent held
      (if force then i :: forced else forced) [] :=
  (h.unname force hi).settle

theorem Balanced.remove (h : r.Balanced held forced []) (force : Bool)
    (hi : r.serialOf? id = some i) :
    ({ r with ids := r.ids.erase id }.settle [.release i force]).Balanced held
      (if force then i :: forced else forced) [] :=
  ⟨h.toConsistent.remove force hi, Vacated.settle (r := { r with ids := r.ids.erase id })
    h.vacated _⟩

/-- References may pass between the outside and the body of an object. -/
theorem Consistent.modifyBody {f : β → β} (h : r.Consistent held forced ts)
    (ho : r.get? i = some o)
    (hcount : held' + (Composite.owned (f o.body) : Multiset Nat) =
      held + (Composite.owned o.body : Multiset Nat)) :
    (r.modifyBody i f).Consistent held' forced ts := by
  refine h.modify ho ⟨rfl, rfl, rfl⟩ (fun _ => rfl) (fun hc => (h.counted ho hc).1)
    rfl rfl fun j => ?_
  have := congrArg (Multiset.count j) hcount
  simp only [Multiset.count_add, Multiset.coe_count] at this
  simp only
  omega

/-- An object that was cleaned up must not get any references if it is to own nothing. -/
theorem Balanced.modifyBody {f : β → β} (h : r.Balanced held forced ts) (ho : r.get? i = some o)
    (hcleaned : o.cleaned = true → Composite.owned (f o.body) = [])
    (hcount : held' + (Composite.owned (f o.body) : Multiset Nat) =
      held + (Composite.owned o.body : Multiset Nat)) :
    (r.modifyBody i f).Balanced held' forced ts := by
  refine ⟨h.toConsistent.modifyBody ho hcount, h.vacated.modify fun o' ho' hc => ?_⟩
  obtain rfl : o = o' := Option.some.inj (ho.symm.trans ho')
  exact hcleaned hc

/-- References may pass between the outside and all bodies at once. -/
theorem Balanced.mapBodies {f : β → β} (h : r.Balanced held forced ts)
    (hcleaned : ∀ o ∈ r.objects, o.cleaned = true → Composite.owned (f o.body) = [])
    (hcount : held' + (ownedRefs (r.mapBodies f).objects : Multiset Nat) =
      held + (ownedRefs r.objects : Multiset Nat)) :
    (r.mapBodies f).Balanced held' forced ts := by
  refine ⟨h.toConsistent.mapBodies fun j => ?_, fun i o' ho' hc => ?_⟩
  · have := congrArg (Multiset.count j) hcount
    simp only [Multiset.count_add, Multiset.coe_count] at this
    simp only [references]
    omega
  · rw [get?_mapBodies] at ho'
    obtain ⟨o, ho, rfl⟩ := Option.map_eq_some_iff.1 ho'
    exact hcleaned o (List.mem_of_getElem? ho) hc

end Registry

end Dataplane

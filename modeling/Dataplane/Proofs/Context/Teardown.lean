import Dataplane.Proofs.Context.References
import Dataplane.Proofs.Registry.Remnants

/-!
# Tearing a context down

When a context is torn down, each object that is registered at the time is cleaned up once: those
that are selected in the first phase and the others in the second one, whatever refers to what. For
an object that is registered has a reference that only taking it out can release, so no cascade of
the first phase cleans up an object of the second one.

## The model

`Context.Reached c held` says that a context came about by calls, by anything that a registry can do
and by changes that leave the registry alone, while the references in `held` are held outside. An
object that was cleaned up may own references by then, if someone had a handle of it.

`Context.TornDown held c infos c'` says what forcing out the objects in `infos` makes of a context.
It holds for one object and goes from one list to the next.
-/

namespace Dataplane

namespace Registry

variable {β : Type} [Composite β] {r : Registry β} {i : Nat} {o : Registered β}
  {held : Multiset Nat} {forced : List Nat} {id : String}

theorem ids_step (r : Registry β) (t : Task) : (r.step t).1.ids = r.ids := by
  by_cases ht : ∃ nid, t = .retire nid
  · obtain ⟨nid, rfl⟩ := ht
    rfl
  · exact (r.step_indices (not_exists.1 ht)).1

theorem ids_settle (r : Registry β) (ts : List Task) : (r.settle ts).ids = r.ids :=
  settle_induction (P := fun s _ => s.ids = r.ids) (fun s t _ h => (s.ids_step t).trans h) r ts rfl

/-- An object that was not cleaned up by a cascade is what it was. -/
theorem get?_of_live_settle {ts : List Task} {o' : Registered β}
    (ho' : (r.settle ts).get? i = some o') (hc : o'.cleaned = false) :
    ∃ o, r.get? i = some o ∧ o.cleaned = false ∧ o'.id = o.id ∧ o'.body = o.body := by
  revert o'
  refine settle_induction (P := fun s _ => ∀ {o'}, s.get? i = some o' → o'.cleaned = false →
    ∃ o, r.get? i = some o ∧ o.cleaned = false ∧ o'.id = o.id ∧ o'.body = o.body)
    (fun s t _ ih {o'} ho' hc => ?_) r ts fun ho hc => ⟨_, ho, hc, rfl, rfl⟩
  have hi := s.step_change t i
  rw [ho'] at hi
  generalize hold : s.get? i = old at hi
  cases hi with
  | some hoo =>
    cases hoo with
    | counted =>
      obtain ⟨o, ho, hlive⟩ := ih hold hc
      exact ⟨o, ho, hlive⟩
    | cleanedUp => cases hc
    | abandoned h => rw [abandoned, h] at hc; cases hc

omit [Composite β] in
theorem cleanedCount_eq_one_iff :
    r.cleanedCount i = 1 ↔ ∃ o, r.get? i = some o ∧ o.cleaned = true := by
  rw [cleanedCount]
  cases r.get? i with
  | none => simp
  | some o => cases hc : o.cleaned <;> simp [hc]

omit [Composite β] in
/-- What is registered under an identifier was not cleaned up. -/
theorem Indexed.cleanedCount_eq_zero {retiring : List Nat} (h : r.Indexed retiring)
    (hi : r.serialOf? id = some i) : r.cleanedCount i = 0 := by
  obtain ⟨o, ho, -, hc⟩ := h.get?_of_serialOf? hi
  rw [cleanedCount_of_get? ho, hc]
  rfl

/-- What is listed are the pairs of the index of identifiers. -/
theorem Indexed.map_snapshot {retiring : List Nat} (h : r.Indexed retiring) :
    r.snapshot.map (fun info => (info.id, info.nid)) = r.ids.pairs := by
  rw [snapshot, List.map_filterMap]
  refine (List.filterMap_congr fun (id, nid) hmem => ?_).trans List.filterMap_some
  obtain ⟨i, o, hi, ho, -⟩ := h.named (SortedMap.get?_eq_some_iff.2 hmem)
  simp [hi, ho]

/-- Releasing a reference to an object changes neither the indices and the pool, nor another object,
nor what this one is and owns. -/
def Inert (r : Registry β) (i : Nat) : Prop :=
  (r.release i).ids = r.ids ∧ (r.release i).nids = r.nids ∧ (r.release i).pool = r.pool ∧
    (∀ j, j ≠ i → (r.release i).get? j = r.get? j) ∧
    ∃ o o', r.get? i = some o ∧ (r.release i).get? i = some o' ∧ o'.id = o.id ∧ o'.nid = o.nid ∧
      o'.refs = o.refs ∧ o'.cleaned = o.cleaned ∧
      Composite.owned o'.body = Composite.owned o.body

/-- References to an object that was cleaned up and owns nothing are inert. -/
theorem inert_of_cleaned (ho : r.get? i = some o) (hc : o.cleaned = true) (hv : r.VacatedAt i) :
    r.Inert i := by
  have hown := hv ho hc
  rw [Inert, release_of_cleaned ho hc hown]
  refine ⟨rfl, rfl, rfl, fun j hj => get?_modify_of_ne _ hj, o, _, ho, get?_modify_self _ ho, ?_⟩
  split_ifs
  · exact ⟨rfl, rfl, rfl, rfl, (Composite.owned_vacate _).trans hown.symm⟩
  · exact ⟨rfl, rfl, rfl, rfl, rfl⟩

end Registry

namespace Context

open Registry

variable {c c' c'' : Context} {held : Multiset Nat} {info : ObjectInfo} {infos : List ObjectInfo}
  {i : Nat} {o : Registered Object}

theorem registry_logLine (c : Context) (level : LogLevel) (msg : String) :
    (c.logLine level msg).registry = c.registry := rfl

theorem notify_registry (c : Context) (n : Notification) :
    (c.notify n).registry = c.registry := by
  rw [notify]
  split_ifs <;> rfl

theorem notify_notifies (c : Context) (n : Notification) :
    (c.notify n).notifies = c.notifies := by
  rw [notify]
  split_ifs <;> rfl

theorem notify_events (c : Context) (n : Notification) :
    (c.notify n).events = c.events ++ if c.notifies then [n] else [] := by
  rw [notify]
  split_ifs <;> simp

/-! ### Forcing out -/

/-- What is told when some objects are taken out. -/
def removals (c : Context) (infos : List ObjectInfo) : List Notification :=
  if c.notifies then infos.map fun info => .removed info.id info.nid else []

/-- What forcing out some objects makes of a context. -/
structure TornDown (held : Multiset Nat) (c : Context) (infos : List ObjectInfo) (c' : Context) :
    Prop where
  /-- The counts are right. -/
  consistent : ∃ forced, c'.registry.Consistent held forced []
  /-- The objects are no longer registered. -/
  ids : c'.registry.ids.pairs = c.registry.ids.pairs.filter fun p => p.1 ∉ infos.map (·.id)
  /-- The other ones still are. -/
  serials : ∀ id, id ∉ infos.map (·.id) → c'.registry.serialOf? id = c.registry.serialOf? id
  /-- The objects were cleaned up. -/
  cleaned : ∀ info ∈ infos, ∀ i, c.registry.serialOf? info.id = some i →
    c'.registry.cleanedCount i = 1
  /-- No object is cleaned up backwards. -/
  objects : ∀ i, Option.Rel Since (c.registry.get? i) (c'.registry.get? i)
  /-- An object that was not cleaned up is what it was. -/
  live : ∀ i o', c'.registry.get? i = some o' → o'.cleaned = false →
    ∃ o, c.registry.get? i = some o ∧ o.cleaned = false ∧ o'.id = o.id ∧ o'.body = o.body
  /-- An object that is cleaned up owns nothing. -/
  vacated : ∀ i, c.registry.VacatedAt i → c'.registry.VacatedAt i
  /-- Objects that hold each other up stay. -/
  upheld : ∀ K, Upheld K c.registry → Upheld K c'.registry
  /-- Changes of the registry lead there. -/
  course : ∃ log, Course c.registry log c'.registry
  notifies : c'.notifies = c.notifies
  /-- The takers of notifications hear of each of the objects. -/
  events : c'.events = c.events ++ c.removals infos

theorem tornDown_nil (h : ∃ forced, c.registry.Consistent held forced []) : TornDown held c [] c where
  consistent := h
  ids := by simp
  serials _ _ := rfl
  cleaned := by simp
  objects := rel_since_refl _
  live _ o ho hc := ⟨o, ho, hc, rfl, rfl⟩
  vacated _ h := h
  upheld _ h := h
  course := ⟨[], .start⟩
  notifies := rfl
  events := by simp [removals]

theorem cleanedCount_of_rel {r r' : Registry Object}
    (h : Option.Rel Since (r.get? i) (r'.get? i)) (hc : r.cleanedCount i = 1) :
    r'.cleanedCount i = 1 := by
  obtain ⟨o, ho, hc⟩ := cleanedCount_eq_one_iff.1 hc
  rw [ho] at h
  generalize hnext : r'.get? i = next at h
  cases h with
  | some hoo => exact cleanedCount_eq_one_iff.2 ⟨_, hnext, hoo.cleaned hc⟩

theorem TornDown.cons (h : TornDown held c [info] c') (h' : TornDown held c' infos c'')
    (hinfo : info.id ∉ infos.map (·.id)) : TornDown held c (info :: infos) c'' where
  consistent := h'.consistent
  ids := by
    rw [h'.ids, h.ids, List.filter_filter]
    refine List.filter_congr fun p _ => ?_
    rw [Bool.eq_iff_iff]
    simp [and_comm]
  serials id hid := by
    simp only [List.map_cons, List.mem_cons, not_or] at hid
    exact (h'.serials id hid.2).trans (h.serials id (by simpa using hid.1))
  cleaned info' hmem i hi := by
    rcases List.mem_cons.1 hmem with rfl | hmem
    · exact cleanedCount_of_rel (h'.objects i) (h.cleaned info' List.mem_cons_self i hi)
    · have hne : info'.id ≠ info.id := fun heq =>
        hinfo (heq ▸ List.mem_map_of_mem (f := (·.id)) hmem)
      exact h'.cleaned info' hmem i ((h.serials info'.id (by simpa using hne)).trans hi)
  objects i := rel_since_trans (h.objects i) (h'.objects i)
  live i o'' ho'' hc := by
    obtain ⟨o', ho', hc', hid', hbody'⟩ := h'.live i o'' ho'' hc
    obtain ⟨o, ho, hc, hid, hbody⟩ := h.live i o' ho' hc'
    exact ⟨o, ho, hc, hid'.trans hid, hbody'.trans hbody⟩
  vacated i hi := h'.vacated i (h.vacated i hi)
  upheld K hK := h'.upheld K (h.upheld K hK)
  course := by
    obtain ⟨log, hlog⟩ := h.course
    obtain ⟨log', hlog'⟩ := h'.course
    exact ⟨_, hlog.trans hlog'⟩
  notifies := h'.notifies.trans h.notifies
  events := by
    rw [h'.events, h.events, removals, removals, removals, h.notifies]
    split_ifs <;> simp

/-- The registry after an object that is registered under an identifier was forced out. -/
theorem forceOut_eq (h : ∃ forced, c.registry.Consistent held forced [])
    (hid : c.registry.ids.get? info.id = some info.nid) :
    ∃ i, c.registry.serialOf? info.id = some i ∧
      (c.forceOut info).registry =
        { c.registry with ids := c.registry.ids.erase info.id }.settle [.release i true] ∧
      (c.forceOut info).notifies = c.notifies ∧
      (c.forceOut info).events = c.events ++ c.removals [info] := by
  obtain ⟨forced, h⟩ := h
  obtain ⟨i, o, hi, ho, -, -, hserial, hfind⟩ := h.toIndexed.findId_eq hid
  obtain ⟨o', ho', hnid⟩ := h.toIndexed.owner hi
  obtain rfl : o = o' := Option.some.inj (ho.symm.trans ho')
  have hremove : c.registry.remove info.id true = .ok (info.nid,
      { c.registry with ids := c.registry.ids.erase info.id }.settle [.release i true]) := by
    rw [h.toIndexed.remove_eq, hfind, hnid]
    rfl
  -- the line that may be logged first changes nothing of this
  obtain ⟨c₁, hnotifies, hevents, hout⟩ : ∃ c₁ : Context, c₁.notifies = c.notifies ∧
      c₁.events = c.events ∧ c.forceOut info = (c₁.withRegistry
        ({ c.registry with ids := c.registry.ids.erase info.id }.settle [.release i true])).notify
          (.removed info.id info.nid) := by
    unfold forceOut
    dsimp only
    split_ifs
    · rw [registry_logLine, hremove]
      refine ⟨_, ?_, ?_, rfl⟩ <;> rfl
    · rw [hremove]
      exact ⟨c, rfl, rfl, rfl⟩
  refine ⟨i, hserial, ?_⟩
  rw [hout, notify_registry, notify_notifies, notify_events]
  exact ⟨rfl, hnotifies, by simp [withRegistry, hnotifies, hevents, removals]⟩

/-- Forcing out an object that is registered under an identifier. -/
theorem tornDown_forceOut (h : ∃ forced, c.registry.Consistent held forced [])
    (hid : c.registry.ids.get? info.id = some info.nid) :
    TornDown held c [info] (c.forceOut info) := by
  obtain ⟨i, hi, hregistry, hnotifies, hevents⟩ := forceOut_eq h hid
  obtain ⟨forced, h⟩ := h
  have hafter := h.remove true hi
  have hlater := (h.unname true hi).later_settle
  have hserials {id : String} (hne : id ≠ info.id) :
      ({ c.registry with ids := c.registry.ids.erase info.id } : Registry Object).serialOf? id =
        c.registry.serialOf? id := by
    simp only [serialOf?, SortedMap.get?_erase_of_ne _ hne]
  constructor
  case consistent => exact ⟨_, hregistry ▸ hafter⟩
  case ids =>
    rw [hregistry, ids_settle]
    simp [SortedMap.erase]
  case serials =>
    intro id hid
    rw [hregistry, hlater.serials]
    exact hserials (by simpa using hid)
  case cleaned =>
    intro info' hmem j hj
    obtain rfl : info' = info := by simpa using hmem
    obtain rfl : i = j := Option.some.inj (hi.symm.trans hj)
    obtain ⟨o, ho, -⟩ := h.toIndexed.get?_of_serialOf? hi
    have hi' := hlater.objects i
    rw [show ({ c.registry with ids := c.registry.ids.erase info'.id } : Registry Object).get? i =
      some o from ho] at hi'
    generalize hnext : Registry.get? _ i = next at hi'
    cases hi' with
    | some hoo =>
      rw [hregistry]
      refine cleanedCount_eq_one_iff.2 ⟨_, hnext, ?_⟩
      exact (hafter.driven hnext (by simp)).resolve_right (by simp [forcings])
  case objects =>
    intro j
    rw [hregistry]
    exact hlater.objects j
  case live =>
    intro j o' ho' hc
    rw [hregistry] at ho'
    exact get?_of_live_settle (r := { c.registry with ids := c.registry.ids.erase info.id }) ho' hc
  case vacated =>
    intro j hj
    rw [hregistry]
    exact VacatedAt.settle (r := { c.registry with ids := c.registry.ids.erase info.id }) hj _
  case upheld =>
    intro K hK
    rw [hregistry]
    refine (hK.unname info.id).settle (h.unname true hi) fun k hk hmem => ?_
    -- the object that is forced out is registered, those that hold each other up are not
    obtain rfl : k = i := by simpa [forcings] using hmem
    exact hK.unnamed k hk info.id hi
  case course =>
    obtain ⟨log, hlog⟩ := exists_course_settle
      ({ c.registry with ids := c.registry.ids.erase info.id } : Registry Object) [.release i true]
    rw [hregistry]
    exact ⟨_, (Course.start.unname info.id).trans hlog⟩
  case notifies => exact hnotifies
  case events => exact hevents

/-- Forcing out objects that are registered under different identifiers. -/
theorem tornDown_teardown (h : ∃ forced, c.registry.Consistent held forced [])
    (hids : ∀ info ∈ infos, c.registry.ids.get? info.id = some info.nid)
    (hnodup : (infos.map (·.id)).Nodup) : TornDown held c infos (c.teardown infos) := by
  induction infos generalizing c with
  | nil => exact tornDown_nil h
  | cons info infos ih =>
    obtain ⟨hinfo, hrest⟩ := List.nodup_cons.1 (List.map_cons ▸ hnodup)
    have hfirst := tornDown_forceOut h (hids info List.mem_cons_self)
    refine hfirst.cons (ih hfirst.consistent (fun info' hmem => ?_) hrest) hinfo
    have hne : info'.id ≠ info.id := fun heq =>
      hinfo (heq ▸ List.mem_map_of_mem (f := (·.id)) hmem)
    have hget := hids info' (List.mem_cons_of_mem _ hmem)
    rw [SortedMap.get?_eq_some_iff] at hget ⊢
    rw [hfirst.ids]
    exact List.mem_filter.2 ⟨hget, by simpa using hne⟩

/-! ### States -/

/-- A context to which calls, changes of the registry and anything else have led, and the references
held outside. -/
inductive Reached : Context → Multiset Nat → Prop
  /-- Calls. -/
  | calls (c : Context) (calls : List Call) : Reached (Caller.run c calls).context
      (Caller.outside (Caller.run c calls).lists (Caller.run c calls).ports : Multiset Nat)
  /-- An object is registered, whose body takes over the references it owns. -/
  | insert {c : Context} {held : Multiset Nat} {id : String} {body : Object} {nid : Nat}
      {r : Registry Object} (h : Reached c ((Composite.owned body : Multiset Nat) + held))
      (hins : c.registry.insert id body = .ok (nid, r)) : Reached (c.withRegistry r) held
  /-- A reference is taken. -/
  | acquire {c : Context} {held : Multiset Nat} {id : String} {ref : Ref} {r : Registry Object}
      (h : Reached c held) (hacq : c.registry.acquire id = .ok (ref, r)) :
      Reached (c.withRegistry r) (ref.serial ::ₘ held)
  /-- A reference is released. -/
  | release {c : Context} {held : Multiset Nat} {i : Nat} (h : Reached c (i ::ₘ held)) :
      Reached (c.withRegistry (c.registry.release i)) held
  /-- An object is taken out, or forced out. -/
  | remove {c : Context} {held : Multiset Nat} {id : String} {force : Bool} {nid : Nat}
      {r : Registry Object} (h : Reached c held) (hrem : c.registry.remove id force = .ok (nid, r)) :
      Reached (c.withRegistry r) held
  /-- References pass between the outside and the body of an object, which may have been cleaned
  up. -/
  | change {c : Context} {held held' : Multiset Nat} {i : Nat} {o : Registered Object}
      {f : Object → Object} (h : Reached c held) (ho : c.registry.get? i = some o)
      (hf : held' + (Composite.owned (f o.body) : Multiset Nat) =
        held + (Composite.owned o.body : Multiset Nat)) : Reached (c.modifyBody i f) held'
  /-- Someone outside holds an object. -/
  | hold {c : Context} {held : Multiset Nat} (h : Reached c held) (i : Nat) :
      Reached (c.withRegistry (c.registry.hold i)) held
  /-- Someone outside lets an object go. -/
  | letGo {c : Context} {held : Multiset Nat} (h : Reached c held) (i : Nat) :
      Reached (c.withRegistry (c.registry.letGo i)) held
  /-- Something else happens to the context. -/
  | other {c c' : Context} {held : Multiset Nat} (h : Reached c held)
      (hsame : c'.registry = c.registry) : Reached c' held

/-- The counts are right in every context that is reached. -/
theorem Reached.consistent (h : Reached c held) :
    ∃ forced, c.registry.Consistent held forced [] := by
  induction h with
  | calls c calls => exact ⟨[], (Caller.sound_run c calls).ready.balanced.toConsistent⟩
  | insert _ hins ih =>
    obtain ⟨forced, ih⟩ := ih
    exact ⟨forced, ih.insert hins⟩
  | acquire _ hacq ih =>
    obtain ⟨forced, ih⟩ := ih
    obtain ⟨rfl, o, ho, hc⟩ := ih.take_of_acquire hacq
    exact ⟨forced, ih.take ho hc⟩
  | release _ ih =>
    obtain ⟨forced, ih⟩ := ih
    exact ⟨forced, ih.drop⟩
  | remove _ hrem ih =>
    obtain ⟨forced, ih⟩ := ih
    rw [ih.toIndexed.remove_eq] at hrem
    obtain ⟨ref, hfind, heq⟩ := map_eq_ok_iff.1 hrem
    cases heq
    obtain ⟨i, o, hi, -, rfl⟩ := findId_eq_ok_iff.1 hfind
    exact ⟨_, ih.remove _ hi⟩
  | change _ ho hf ih =>
    obtain ⟨forced, ih⟩ := ih
    exact ⟨forced, ih.modifyBody ho hf⟩
  | hold _ i ih =>
    obtain ⟨forced, ih⟩ := ih
    exact ⟨forced, ih.hold i⟩
  | letGo _ i ih =>
    obtain ⟨forced, ih⟩ := ih
    exact ⟨forced, Consistent.settle (ih.congr_references (fun _ => rfl) rfl rfl)⟩
  | other _ hsame ih =>
    obtain ⟨forced, ih⟩ := ih
    exact ⟨forced, hsame ▸ ih⟩

/-! ### The two phases -/

theorem cleanup_eq (c : Context) (select : Registered Object → Bool) :
    c.cleanup select =
      (c.teardown (c.registry.snapshot.filter (c.isSelected select)),
        (c.teardown (c.registry.snapshot.filter (c.isSelected select))).teardown
          (c.registry.snapshot.filter fun info => !c.isSelected select info)) := by
  rw [cleanup, List.partition_eq_filter_filter]
  rfl

/-- What is listed is registered under its identifier and has the NID. -/
theorem get?_of_mem_snapshot {retiring : List Nat} {r : Registry Object} (h : r.Indexed retiring)
    (hmem : info ∈ r.snapshot) : r.ids.get? info.id = some info.nid := by
  rw [SortedMap.get?_eq_some_iff, ← h.map_snapshot]
  exact List.mem_map_of_mem (f := fun info => (info.id, info.nid)) hmem

theorem nodup_ids_snapshot {retiring : List Nat} {r : Registry Object} (h : r.Indexed retiring) :
    (r.snapshot.map (·.id)).Nodup := by
  have hkeys := r.ids.nodup_keys
  rw [← h.map_snapshot, List.map_map] at hkeys
  exact hkeys

/-- What is registered under an identifier is listed. -/
theorem exists_mem_snapshot {retiring : List Nat} {r : Registry Object} (h : r.Indexed retiring)
    {id : String} (hi : r.serialOf? id = some i) : ∃ info ∈ r.snapshot, info.id = id := by
  obtain ⟨nid, hid, -⟩ := serialOf?_eq_some_iff.1 hi
  rw [SortedMap.get?_eq_some_iff, ← h.map_snapshot] at hid
  obtain ⟨info, hmem, heq⟩ := List.mem_map.1 hid
  exact ⟨info, hmem, congrArg Prod.fst heq⟩

theorem isSelected_congr (c : Context) (select : Registered Object → Bool) {info' : ObjectInfo}
    (hid : info.id = info'.id) : c.isSelected select info = c.isSelected select info' := by
  rw [isSelected, isSelected, hid]

theorem isSelected_eq (select : Registered Object → Bool) (ho : c.registry.get? i = some o)
    (hi : c.registry.serialOf? o.id = some i) (hid : info.id = o.id) :
    c.isSelected select info = select o := by
  simp [isSelected, hid, hi, ho]

/-- Both phases force out what they are to. -/
theorem tornDown_cleanup (h : Reached c held) (select : Registered Object → Bool) :
    TornDown held c (c.registry.snapshot.filter (c.isSelected select)) (c.cleanup select).1 ∧
      TornDown held (c.cleanup select).1
        (c.registry.snapshot.filter fun info => !c.isSelected select info)
        (c.cleanup select).2 := by
  obtain ⟨forced, hconsistent⟩ := h.consistent
  have hindexed := hconsistent.toIndexed
  have hnodup := nodup_ids_snapshot hindexed
  rw [cleanup_eq]
  have hfirst : TornDown held c (c.registry.snapshot.filter (c.isSelected select))
      (c.teardown (c.registry.snapshot.filter (c.isSelected select))) :=
    tornDown_teardown ⟨forced, hconsistent⟩
      (fun info hmem => get?_of_mem_snapshot hindexed (List.mem_filter.1 hmem).1)
      (hnodup.sublist (List.filter_sublist.map _))
  refine ⟨hfirst, tornDown_teardown hfirst.consistent (fun info hmem => ?_)
    (hnodup.sublist (List.filter_sublist.map _))⟩
  obtain ⟨hmem, hunselected⟩ := List.mem_filter.1 hmem
  have hget := get?_of_mem_snapshot hindexed hmem
  rw [SortedMap.get?_eq_some_iff] at hget ⊢
  rw [hfirst.ids]
  refine List.mem_filter.2 ⟨hget, decide_eq_true fun hother => ?_⟩
  -- an object that was selected has another identifier
  obtain ⟨info', hmem', hid⟩ := List.mem_map.1 hother
  rw [isSelected_congr c select hid.symm, (List.mem_filter.1 hmem').2] at hunselected
  cases hunselected

/-- An object that is registered is cleaned up in its phase and stays so. -/
theorem cleanedCount_cleanup (h : Reached c held) (select : Registered Object → Bool)
    (ho : c.registry.get? i = some o) (hi : c.registry.serialOf? o.id = some i) :
    (c.cleanup select).1.registry.cleanedCount i = (if select o then 1 else 0) ∧
      (c.cleanup select).2.registry.cleanedCount i = 1 := by
  obtain ⟨forced, hconsistent⟩ := h.consistent
  obtain ⟨hfirst, hrest⟩ := tornDown_cleanup h select
  obtain ⟨info, hmem, hid⟩ := exists_mem_snapshot hconsistent.toIndexed hi
  have hselected := isSelected_eq select ho hi hid
  cases hs : select o with
  | true =>
    have hcleaned := hfirst.cleaned info (List.mem_filter.2 ⟨hmem, hselected.trans hs⟩) i (hid ▸ hi)
    exact ⟨hcleaned, cleanedCount_of_rel (hrest.objects i) hcleaned⟩
  | false =>
    have hspared : o.id ∉ (c.registry.snapshot.filter (c.isSelected select)).map (·.id) := by
      rintro hother
      obtain ⟨info', hmem', hid'⟩ := List.mem_map.1 hother
      have hs' := (List.mem_filter.1 hmem').2
      rw [isSelected_eq select ho hi hid', hs] at hs'
      cases hs'
    have hstill := (hfirst.serials o.id hspared).trans hi
    obtain ⟨forced', hbetween⟩ := hfirst.consistent
    refine ⟨hbetween.toIndexed.cleanedCount_eq_zero hstill,
      hrest.cleaned info (List.mem_filter.2 ⟨hmem, by simp [hselected, hs]⟩) i ?_⟩
    rw [hid]
    exact hstill

/-- No identifier is left. -/
theorem ids_cleanup (h : Reached c held) (select : Registered Object → Bool) :
    (c.cleanup select).2.registry.ids = .empty := by
  obtain ⟨forced, hconsistent⟩ := h.consistent
  obtain ⟨hfirst, hrest⟩ := tornDown_cleanup h select
  refine SortedMap.eq_of_pairs_eq ?_
  rw [hrest.ids, hfirst.ids]
  refine List.filter_eq_nil_iff.2 fun p hp => ?_
  obtain ⟨hp, hfirst⟩ := List.mem_filter.1 hp
  rw [← hconsistent.toIndexed.map_snapshot] at hp
  obtain ⟨info, hmem, rfl⟩ := List.mem_map.1 hp
  have hunselected : c.isSelected select info = false := by
    by_contra hs
    exact of_decide_eq_true hfirst (List.mem_map_of_mem (f := (·.id))
      (List.mem_filter.2 ⟨hmem, by simpa using hs⟩))
  have hrest : info ∈ c.registry.snapshot.filter fun info => !c.isSelected select info :=
    List.mem_filter.2 ⟨hmem, by rw [hunselected]; rfl⟩
  simp only [decide_eq_true_eq, not_not]
  exact List.mem_map_of_mem (f := (·.id)) hrest

/-- Of the objects that are registered when a context is torn down, each is cleaned up once: one that
is selected in the first phase, any other one in the second phase. References to it are inert then.
Takers of notifications hear of each of them once, of those that are selected first, and of nothing
else. No identifier is left. -/
theorem cleanup_phases (h : Reached c held) (select : Registered Object → Bool) :
    (∀ i o, c.registry.get? i = some o → c.registry.serialOf? o.id = some i →
      Cleanups c.registry (c.cleanup select).1.registry i (if select o then 1 else 0) ∧
      Cleanups (c.cleanup select).1.registry (c.cleanup select).2.registry i
        (if select o then 0 else 1) ∧
      (c.cleanup select).2.registry.isCleaned i = true ∧ (c.cleanup select).2.registry.Inert i) ∧
    c.registry.snapshot.map (fun info => (info.id, info.nid)) = c.registry.ids.pairs ∧
    (c.cleanup select).1.events =
      c.events ++ c.removals (c.registry.snapshot.filter (c.isSelected select)) ∧
    (c.cleanup select).2.events = (c.cleanup select).1.events ++
      c.removals (c.registry.snapshot.filter fun info => !c.isSelected select info) ∧
    (c.cleanup select).2.registry.ids = .empty := by
  obtain ⟨forced, hconsistent⟩ := h.consistent
  have hindexed := hconsistent.toIndexed
  obtain ⟨hfirst, hrest⟩ := tornDown_cleanup h select
  refine ⟨fun i o ho hi => ?_, hindexed.map_snapshot, hfirst.events, ?_, ids_cleanup h select⟩
  · have hbefore : c.registry.cleanedCount i = 0 := hindexed.cleanedCount_eq_zero hi
    obtain ⟨hmiddle, hafter⟩ := cleanedCount_cleanup h select ho hi
    obtain ⟨o', ho', hc'⟩ := cleanedCount_eq_one_iff.1 hafter
    have hvacated : c.registry.VacatedAt i := fun o' ho' hc => by
      have hlive := cleanedCount_of_get? ho'
      rw [hbefore, hc] at hlive
      cases hlive
    refine ⟨cleanups_of_course hfirst.course ?_, cleanups_of_course hrest.course ?_, ?_,
      inert_of_cleaned ho' hc' (hrest.vacated i (hfirst.vacated i hvacated))⟩
    · rw [hbefore, hmiddle, Nat.zero_add]
    · rw [hmiddle, hafter]
      split_ifs <;> rfl
    · rw [isCleaned, ho']
      exact hc'
  · rw [hrest.events, removals, removals, hfirst.notifies]

/-- A port looks packets up in a table, whose entry sends them to the port. -/
def mutualCalls : List Call :=
  [.createTable "t0" ⟨[]⟩, .newPort, .addPort "vif0" 0,
    .addEntry 0 "out" ⟨[⟨.transmit "vif0" true, false⟩], .head⟩,
    .updatePort 1 ⟨.ingress, [⟨.lookup "t0", false⟩]⟩]

/-- The port is cleaned up in the first phase and the table in the second one. -/
theorem cleanup_phases_of_mutual :
    let c := (Caller.run { fresh "fwd" 0 with notifies := true } mutualCalls).context
    let ends := c.cleanup fun o => o.body.port?.isSome
    Reached c 0 ∧
      (Cleanups c.registry ends.1.registry 1 1 ∧ Cleanups ends.1.registry ends.2.registry 1 0) ∧
      (Cleanups c.registry ends.1.registry 0 0 ∧ Cleanups ends.1.registry ends.2.registry 0 1) ∧
      ends.2.events = c.events ++ [.removed "vif0" 2] ++ [.removed "t0" 1] := by
  intro c ends
  have hreached : Reached c 0 := .calls _ mutualCalls
  obtain ⟨hphases, -, hfirst, hrest, -⟩ := cleanup_phases hreached fun o => o.body.port?.isSome
  obtain ⟨hport, hport', -⟩ := hphases 1 _ rfl rfl
  obtain ⟨htable, htable', -⟩ := hphases 0 _ rfl rfl
  exact ⟨hreached, ⟨hport, hport'⟩, ⟨htable, htable'⟩, by rw [hrest, hfirst]; rfl⟩

end Context

end Dataplane

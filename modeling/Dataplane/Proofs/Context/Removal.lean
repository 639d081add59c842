import Dataplane.Proofs.Context.Courses
import Dataplane.Proofs.Context.Teardown

/-!
# Taking every object out

When every object is taken out by its identifier, in whatever order, an object that is still referred
to lives on until what refers to it goes. In the end the objects live on to which a cycle of
references leads, and no other ones. So where references form no cycle nothing is left: each object
was cleaned up once and every NID is back in the pool.

## The model

`Registry.Refers r i j` says that one object owns a reference to another and `Registry.Looped r i`
that a cycle of references leads to an object. `Context.Removed held c ids c'` says what taking out
the objects with the identifiers in `ids` makes of a context.
-/

namespace Dataplane

namespace Registry

variable {β : Type} [Composite β] {r : Registry β} {i j : Nat} {o : Registered β}
  {held : Multiset Nat} {t : Task} {ts : List Task}

/-- Does an object refer to another one? -/
def Refers (r : Registry β) (i j : Nat) : Prop :=
  ∃ o, r.get? i = some o ∧ j ∈ Composite.owned o.body

/-- Does a cycle of references lead to an object? -/
def Looped (r : Registry β) (i : Nat) : Prop :=
  ∃ j, Relation.TransGen r.Refers j j ∧ Relation.ReflTransGen r.Refers j i

/-- References that lead from higher to lower ranks form no cycle. -/
theorem acyclic_of_rank (rank : Nat → Nat) (h : ∀ i j, r.Refers i j → rank j < rank i) (i : Nat) :
    ¬ Relation.TransGen r.Refers i i := by
  intro hcycle
  have hdown : Relation.TransGen (· > ·) (rank i) (rank i) := hcycle.lift rank h
  rw [Relation.transGen_eq_self] at hdown
  exact Nat.lt_irrefl _ hdown

/-- An object to which a cycle leads is referred to by another one. -/
theorem Looped.pred (h : r.Looped i) : ∃ j, r.Looped j ∧ r.Refers j i := by
  obtain ⟨j, hcycle, hpath⟩ := h
  obtain ⟨k, hjk, hki⟩ := Relation.TransGen.tail'_iff.1 (hcycle.trans_left hpath)
  exact ⟨k, ⟨j, hcycle, hjk⟩, hki⟩

/-- Unless objects were forced out, no object that was cleaned up is referred to. -/
theorem Balanced.live_of_refers (h : r.Balanced held [] []) (hij : r.Refers i j) :
    ∃ o, r.get? j = some o ∧ o.cleaned = false := by
  obtain ⟨p, hp, hmem⟩ := hij
  have howned : 0 < (ownedRefs r.objects).count j :=
    List.count_pos_iff.2 (List.mem_flatMap.2 ⟨p, List.mem_of_getElem? hp, hmem⟩)
  have hrefs : r.references held [] j ≠ 0 := by
    simp only [references]
    omega
  cases ho : r.get? j with
  | none =>
    rw [Registry.get?, List.getElem?_eq_none_iff] at ho
    exact absurd (h.known ho).1 hrefs
  | some o =>
    refine ⟨o, rfl, ?_⟩
    by_contra hc
    rcases h.cause ho (by simpa using hc) with hforced | hnone
    · cases hforced
    · exact hrefs hnone

theorem Balanced.supported_looped (h : r.Balanced held [] []) : Supported r.Looped r where
  live k hk := by
    obtain ⟨j, -, hjk⟩ := hk.pred
    exact h.live_of_refers hjk
  owner k hk := by
    obtain ⟨j, hj, o, ho, hmem⟩ := hk.pred
    exact ⟨j, o, hj, ho, hmem⟩

theorem next_settle (r : Registry β) (ts : List Task) : (r.settle ts).pool.next = r.pool.next := by
  refine settle_induction (P := fun s _ => s.pool.next = r.pool.next) (fun s t _ h => ?_) r ts rfl
  refine Eq.trans ?_ h
  cases t with
  | retire nid =>
    change (s.pool.give nid).next = s.pool.next
    rw [NidPool.give]
    split_ifs <;> rfl
  | letGo i =>
    rw [Registry.step]
    split
    · rfl
    · split_ifs <;> rfl
  | release i force =>
    rw [Registry.step]
    split
    · rfl
    · split_ifs <;> rfl

omit [Composite β] in
/-- Between cascades an object has a place in the index exactly if it was not cleaned up. -/
theorem Indexed.hasPlace_iff (h : r.Indexed []) :
    r.HasPlace i ↔ ∃ o, r.get? i = some o ∧ o.cleaned = false := by
  constructor
  · rintro ⟨nid, hi⟩
    obtain ⟨o, ho, rfl⟩ := h.owner hi
    refine ⟨o, ho, ?_⟩
    by_contra hc
    exact List.not_mem_nil (h.retired ho (by simpa using hc) hi)
  · rintro ⟨o, ho, hc⟩
    exact ⟨o.nid, h.live ho hc⟩

omit [Composite β] in
/-- When no object is live, every number that was ever handed out is back in the pool. -/
theorem Indexed.perm_free (h : r.Indexed []) (hlive : r.live = 0) :
    r.pool.free.Perm (List.range' 1 (r.pool.next - 1)) := by
  have hplaced : r.placedNids = [] := by
    rw [h.placedNids_eq, List.length_eq_zero_iff.1 hlive]
    rfl
  simpa [hplaced] using h.perm_range

end Registry

namespace Context

open Registry

variable {c c' c'' : Context} {held : Multiset Nat} {id : String} {ids : List String} {i : Nat}
  {o : Registered Object}

/-- What taking out the objects with some identifiers makes of a context. -/
structure Removed (held : Multiset Nat) (c : Context) (ids : List String) (c' : Context) : Prop where
  balanced : c'.registry.Balanced held [] []
  /-- The identifiers lead nowhere. -/
  ids : c'.registry.ids.pairs = c.registry.ids.pairs.filter fun p => p.1 ∉ ids
  /-- No object is cleaned up backwards. -/
  objects : ∀ i, Option.Rel Since (c.registry.get? i) (c'.registry.get? i)
  /-- An object that was not cleaned up is what it was. -/
  live : ∀ i o', c'.registry.get? i = some o' → o'.cleaned = false →
    ∃ o, c.registry.get? i = some o ∧ o.cleaned = false ∧ o'.body = o.body
  /-- Objects that support each other stay. -/
  supported : ∀ K, Supported K c.registry → Supported K c'.registry
  /-- Changes of the registry lead there. -/
  course : ∃ log, Course c.registry log c'.registry
  /-- No number is handed out. -/
  next : c'.registry.pool.next = c.registry.pool.next

theorem removed_nil (h : c.registry.Balanced held [] []) : Removed held c [] c where
  balanced := h
  ids := by simp
  objects := rel_since_refl _
  live _ o ho hc := ⟨o, ho, hc, rfl⟩
  supported _ h := h
  course := ⟨[], .start⟩
  next := rfl

theorem Removed.cons (h : Removed held c [id] c') (h' : Removed held c' ids c'') :
    Removed held c (id :: ids) c'' where
  balanced := h'.balanced
  ids := by
    rw [h'.ids, h.ids, List.filter_filter]
    refine List.filter_congr fun p _ => ?_
    rw [Bool.eq_iff_iff]
    simp [and_comm]
  objects i := rel_since_trans (h.objects i) (h'.objects i)
  live i o'' ho'' hc := by
    obtain ⟨o', ho', hc', hbody'⟩ := h'.live i o'' ho'' hc
    obtain ⟨o, ho, hc, hbody⟩ := h.live i o' ho' hc'
    exact ⟨o, ho, hc, hbody'.trans hbody⟩
  supported K hK := h'.supported K (h.supported K hK)
  course := by
    obtain ⟨log, hlog⟩ := h.course
    obtain ⟨log', hlog'⟩ := h'.course
    exact ⟨_, hlog.trans hlog'⟩
  next := h'.next.trans h.next

/-- Taking out an object that is registered does not fail. -/
theorem removed_removeObject (h : c.registry.Balanced held [] [])
    (hid : id ∈ c.registry.ids.pairs.map (·.1)) :
    ∃ c', c.removeObject id = .ok c' ∧ Removed held c [id] c' := by
  obtain ⟨nid, hnid⟩ := Option.isSome_iff_exists.1 (SortedMap.mem_keys_iff.1 hid)
  obtain ⟨i, o, hi, ho, hoid, hc, hserial, hfind⟩ := h.toIndexed.findId_eq hnid
  obtain ⟨c', hc', hregistry⟩ : ∃ c', c.removeObject id = .ok c' ∧ c'.registry =
      { c.registry with ids := c.registry.ids.erase id }.settle [.release i false] := by
    refine ⟨_, ?_, notify_registry (c.withRegistry _) (.removed id o.nid)⟩
    rw [removeObject, h.toIndexed.remove_eq, hfind]
    rfl
  have hunnamed := h.toConsistent.unname false hserial
  refine ⟨c', hc', ?_⟩
  constructor
  case balanced => exact hregistry ▸ h.remove false hserial
  case ids =>
    rw [hregistry, ids_settle]
    simp [SortedMap.erase]
  case objects =>
    intro j
    rw [hregistry]
    exact hunnamed.later_settle.objects j
  case live =>
    intro j o' ho' hc'
    rw [hregistry] at ho'
    obtain ⟨o, ho, hc, -, hbody⟩ := get?_of_live_settle
      (r := { c.registry with ids := c.registry.ids.erase id }) ho' hc'
    exact ⟨o, ho, hc, hbody⟩
  case supported =>
    intro K hK
    rw [hregistry]
    have hK' : Supported K ({ c.registry with ids := c.registry.ids.erase id } : Registry Object) :=
      ⟨hK.live, hK.owner⟩
    exact hK'.settle hunnamed fun k _ hmem => by cases hmem
  case course =>
    obtain ⟨log, hlog⟩ := exists_course_settle
      ({ c.registry with ids := c.registry.ids.erase id } : Registry Object) [.release i false]
    rw [hregistry]
    exact ⟨_, (Course.start.unname id).trans hlog⟩
  case next => rw [hregistry, next_settle]

/-- Taking out objects that are registered under different identifiers does not fail. -/
theorem removed_foldlM (h : c.registry.Balanced held [] []) (hnodup : ids.Nodup)
    (hids : ∀ id ∈ ids, id ∈ c.registry.ids.pairs.map (·.1)) :
    ∃ c', ids.foldlM removeObject c = .ok c' ∧ Removed held c ids c' := by
  induction ids generalizing c with
  | nil => exact ⟨c, rfl, removed_nil h⟩
  | cons id ids ih =>
    obtain ⟨hid, hrest⟩ := List.nodup_cons.1 hnodup
    obtain ⟨c₁, hc₁, hfirst⟩ := removed_removeObject h (hids id List.mem_cons_self)
    obtain ⟨c₂, hc₂, hothers⟩ := ih hfirst.balanced hrest fun id' hmem => by
      obtain ⟨p, hp, rfl⟩ := List.mem_map.1 (hids id' (List.mem_cons_of_mem _ hmem))
      rw [hfirst.ids]
      refine List.mem_map_of_mem (f := (·.1)) (List.mem_filter.2 ⟨hp, ?_⟩)
      simp only [List.mem_singleton, decide_eq_true_eq]
      exact fun heq => hid (heq ▸ hmem)
    exact ⟨c₂, by rw [List.foldlM_cons, hc₁]; exact hc₂, hfirst.cons hothers⟩

/-- When every identifier was taken out and nothing is held outside, the objects are left to which a
cycle of references leads. -/
theorem Removed.live_iff (h : c.registry.Balanced 0 [] []) (hremoved : Removed 0 c ids c')
    (hids : ids.Perm (c.registry.ids.pairs.map (·.1))) :
    (∃ o, c'.registry.get? i = some o ∧ o.cleaned = false) ↔ c.registry.Looped i := by
  have hempty : c'.registry.ids = .empty := by
    refine SortedMap.eq_of_pairs_eq ?_
    rw [hremoved.ids]
    refine List.filter_eq_nil_iff.2 fun p hp => ?_
    simpa using hids.mem_iff.2 (List.mem_map_of_mem hp)
  constructor
  · -- each object that is left is owned by another one
    intro hlive
    refine exists_cycle (P := fun j => ∃ o, c'.registry.get? j = some o ∧ o.cleaned = false)
      ?_ ?_ hlive
    · exact (Set.finite_lt_nat _).subset fun j ⟨p, hp, _⟩ => lt_length_of_get? hp
    · rintro j ⟨p, hp, hc⟩
      obtain ⟨k, q, hq, hc', hmem⟩ := hremoved.balanced.exists_owner hempty hp hc
      obtain ⟨q', hq', -, hbody⟩ := hremoved.live k q hq hc'
      exact ⟨k, ⟨q, hq, hc'⟩, q', hq', hbody ▸ hmem⟩
  · intro hi
    exact (hremoved.supported _ h.supported_looped).live i hi

end Context

namespace Caller

open Registry Context

/-- When every object of a context is taken out by its identifier and nothing is held outside, no
call fails, and in whatever order it is done, the objects that are live in the end are those to which
a cycle of references led. If there was no cycle, no object is live, each object that was ever
registered was cleaned up once, and all NIDs that were ever handed out are back in the pool. -/
theorem removals_run (c : Context) (calls : List Call) (ids : List String)
    (hnone : outside (run c calls).lists (run c calls).ports = [])
    (hids : ids.Perm ((run c calls).context.registry.ids.pairs.map (·.1))) :
    let s := (run c calls).context
    ∃ e, ids.foldlM Context.removeObject s = .ok e ∧
      (∀ i, e.registry.HasPlace i ↔ s.registry.Looped i) ∧
      ((∀ i, ¬ Relation.TransGen s.registry.Refers i i) →
        e.registry.live = 0 ∧
        (∀ i o, s.registry.get? i = some o → Cleanups .empty e.registry i 1) ∧
        e.registry.pool.free.Perm (List.range' 1 (s.registry.pool.next - 1))) := by
  intro s
  have hbalanced : s.registry.Balanced 0 [] [] := by
    have hready := (sound_run c calls).ready.balanced
    rwa [hnone] at hready
  have hnodup : ids.Nodup := hids.nodup_iff.2 s.registry.ids.nodup_keys
  obtain ⟨e, he, hremoved⟩ := removed_foldlM hbalanced hnodup fun id hid => hids.mem_iff.1 hid
  have hlive (i : Nat) := hremoved.live_iff (i := i) hbalanced hids
  have hindexed := hremoved.balanced.toIndexed
  refine ⟨e, he, fun i => hindexed.hasPlace_iff.trans (hlive i), fun hacyclic => ?_⟩
  have hcleaned (i : Nat) (o : Registered Object) (ho : e.registry.get? i = some o) :
      o.cleaned = true := by
    by_contra hc
    obtain ⟨j, hcycle, -⟩ := (hlive i).1 ⟨o, ho, by simpa using hc⟩
    exact hacyclic j hcycle
  have hzero : e.registry.live = 0 := hindexed.live_eq_zero_iff.2 hcleaned
  refine ⟨hzero, fun i o ho => ?_, hremoved.next ▸ hindexed.perm_free hzero⟩
  have hi := hremoved.objects i
  rw [ho] at hi
  generalize hnext : e.registry.get? i = next at hi
  cases hi with
  | some hoo =>
    obtain ⟨log, hlog⟩ := along_run c calls
    obtain ⟨log', hlog'⟩ := hremoved.course
    refine cleanups_of_course ⟨_, hlog.trans hlog'⟩ ?_
    rw [cleanedCount_of_get? hnext, hcleaned i _ hnext]
    rfl

/-- A table goes on with another one, which sends packets to a port. -/
def chainCalls : List Call :=
  [.createTable "t1" ⟨[]⟩, .newPort, .addPort "vif0" 0,
    .addEntry 0 "out" ⟨[⟨.transmit "vif0" true, false⟩], .tail⟩,
    .createTable "t0" ⟨[⟨.lookup "t1", false⟩]⟩]

/-- What is referred to may be taken out first. -/
theorem removals_of_chain :
    let s := run (fresh "fwd" 0) chainCalls
    let ids := ["vif0", "t1", "t0"]
    outside s.lists s.ports = [] ∧ ids.Perm (s.context.registry.ids.pairs.map (·.1)) ∧
      s.context.registry.Refers 2 0 ∧ s.context.registry.Refers 0 1 ∧
      ∃ e, ids.foldlM Context.removeObject s.context = .ok e ∧ e.registry.live = 0 ∧
        Cleanups .empty e.registry 1 1 ∧ e.registry.pool.free.Perm [1, 2, 3] := by
  intro s ids
  have hnone : outside s.lists s.ports = [] := rfl
  have hids : ids.Perm (s.context.registry.ids.pairs.map (·.1)) := by decide
  have howned : s.context.registry.objects.map (fun o => Composite.owned o.body) = [[1], [], [0]] :=
    rfl
  have hrank (i j : Nat) (hij : s.context.registry.Refers i j) :
      (if j = 2 then 2 else 1 - j) < if i = 2 then 2 else 1 - i := by
    obtain ⟨o, ho, hmem⟩ := hij
    have hi : (s.context.registry.objects.map fun o => Composite.owned o.body)[i]? =
        some (Composite.owned o.body) := by
      rw [List.getElem?_map, show s.context.registry.objects[i]? = some o from ho]
      rfl
    rw [howned] at hi
    match i with
    | 0 =>
      rw [← Option.some.inj hi, List.mem_singleton] at hmem
      simp [hmem]
    | 1 =>
      rw [← Option.some.inj hi] at hmem
      cases hmem
    | 2 =>
      rw [← Option.some.inj hi, List.mem_singleton] at hmem
      simp [hmem]
    | _ + 3 => cases hi
  obtain ⟨e, he, -, hrest⟩ := removals_run (fresh "fwd" 0) chainCalls ids hnone hids
  obtain ⟨hlive, hcleanups, hfree⟩ := hrest (acyclic_of_rank _ hrank)
  exact ⟨hnone, hids, ⟨_, rfl, by decide⟩, ⟨_, rfl, by decide⟩, e, he, hlive,
    hcleanups 1 _ rfl, hfree⟩

end Caller

end Dataplane

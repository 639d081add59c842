import Dataplane.Proofs.Registry.Courses
import Mathlib.Data.Fintype.Card
import Mathlib.Data.Set.Finite.Basic
import Mathlib.Logic.Relation
import Mathlib.Order.WellFounded

/-!
# Objects that hold each other up

An object that has no identifier any more lives on as long as something refers to it. If a cycle of
such objects leads to it, no cascade ever cleans it up that does not force one of them out; and when
no identifier and no reference outside is left, the objects that were not cleaned up are those to
which such a cycle leads.

## The model

`Registry.Adrift r i` says that the object with the serial number `i` lives on without an identifier,
and `Registry.Ties r i j` that one such object refers to another. `Registry.Supported K r` is the
invariant of a cascade: each of the objects in `K` is owned by one of them, and `Registry.Upheld K r`
says besides that no identifier leads to them.
-/

namespace Dataplane

/-- Where each of finitely many things has a predecessor among them, a cycle leads to each. -/
theorem exists_cycle {α : Type} {R : α → α → Prop} {P : α → Prop} (hfinite : {a | P a}.Finite)
    (hpred : ∀ a, P a → ∃ b, P b ∧ R b a) {a : α} (ha : P a) :
    ∃ b, Relation.TransGen R b b ∧ Relation.ReflTransGen R b a := by
  by_contra! hno
  -- without a cycle the order of what leads to the thing is well-founded, so there is a first one
  let Before : Type := {b // P b ∧ Relation.ReflTransGen R b a}
  have : Finite Before := (hfinite.subset fun _ h => h.1 : {b | P b ∧ _}.Finite)
  let leads (b b' : Before) : Prop := Relation.TransGen R b.1 b'.1
  have : IsTrans Before leads := ⟨fun _ _ _ h h' => Relation.TransGen.trans h h'⟩
  have : Std.Irrefl leads := ⟨fun b h => hno b.1 h b.2.2⟩
  obtain ⟨first, -, hfirst⟩ :=
    (Finite.wellFounded_of_trans_of_irrefl leads).has_min Set.univ ⟨⟨a, ha, .refl⟩, trivial⟩
  obtain ⟨b, hb, hlink⟩ := hpred first.1 first.2.1
  exact hfirst ⟨b, hb, .head hlink first.2.2⟩ trivial (.single hlink)

namespace Registry

variable {β : Type} [Composite β] {r : Registry β} {i j k : Nat} {o : Registered β}
  {held : Multiset Nat} {forced retiring : List Nat} {t : Task} {ts : List Task} {K : Nat → Prop}

/-! ### Cycles without identifiers -/

/-- Was an object not cleaned up although no identifier leads to it? -/
def Adrift (r : Registry β) (i : Nat) : Prop :=
  ∃ o, r.get? i = some o ∧ o.cleaned = false ∧ r.serialOf? o.id ≠ some i

/-- Does an object without an identifier refer to another one without? -/
def Ties (r : Registry β) (i j : Nat) : Prop :=
  r.Adrift i ∧ r.Adrift j ∧ ∃ o, r.get? i = some o ∧ j ∈ Composite.owned o.body

/-- Does a cycle of objects without identifiers lead to an object? -/
def Entangled (r : Registry β) (i : Nat) : Prop :=
  ∃ j, Relation.TransGen r.Ties j j ∧ Relation.ReflTransGen r.Ties j i

/-- An object to which a cycle leads is referred to by another one. -/
theorem Entangled.pred (h : r.Entangled i) : ∃ j, r.Entangled j ∧ r.Ties j i := by
  obtain ⟨j, hcycle, hpath⟩ := h
  obtain ⟨k, hjk, hki⟩ := Relation.TransGen.tail'_iff.1 (hcycle.trans_left hpath)
  exact ⟨k, ⟨j, hcycle, hjk⟩, hki⟩

/-! ### What holds itself up stays -/

omit [Composite β] in
/-- A task cleans up an object only if it releases the last reference or forces the object out. -/
theorem of_cleans?_eq_some (h : r.cleans? t = some i) :
    ∃ force o, t = .release i force ∧ r.get? i = some o ∧ (o.refs ≤ 1 ∨ force = true) := by
  cases t with
  | retire nid => cases h
  | letGo j => cases h
  | release j force =>
    rw [cleans?] at h
    cases ho : r.get? j with
    | none => simp [ho] at h
    | some o =>
      simp only [ho] at h
      split_ifs at h with hlive hmore
      cases h
      exact ⟨force, o, rfl, ho, by simpa [Decidable.or_iff_not_not_and_not] using hmore⟩

/-- Some objects support each other: none was cleaned up, and each is owned by one of them. -/
structure Supported (K : Nat → Prop) (r : Registry β) : Prop where
  live : ∀ k, K k → ∃ o, r.get? k = some o ∧ o.cleaned = false
  owner : ∀ k, K k → ∃ j o, K j ∧ r.get? j = some o ∧ k ∈ Composite.owned o.body

/-- A reference that is released is not the last one to an object that is supported. -/
theorem Supported.one_lt_refs (hK : Supported K r) (h : r.Consistent held forced ts) (hk : K k)
    (ho : r.get? k = some o) (hrel : k ∈ releases ts) : 1 < o.refs := by
  obtain ⟨o', ho', hc⟩ := hK.live k hk
  obtain rfl : o = o' := Option.some.inj (ho.symm.trans ho')
  obtain ⟨j, p, -, hp, hmem⟩ := hK.owner k hk
  have howned : 0 < (ownedRefs r.objects).count k :=
    List.count_pos_iff.2 (List.mem_flatMap.2 ⟨p, List.mem_of_getElem? hp, hmem⟩)
  have hreleased : 0 < (releases ts).count k := List.count_pos_iff.2 hrel
  have hrefs := (h.counted ho hc).2
  simp only [references] at hrefs
  omega

/-- An object that is supported is not cleaned up by a step that does not force it out. -/
theorem Supported.kept (hK : Supported K r) (h : r.Consistent held forced (t :: ts))
    (hforce : ∀ k, K k → k ∉ forcings (t :: ts)) (hk : K k) (ho : r.get? k = some o) :
    ∃ o', (r.step t).1.get? k = some o' ∧ o'.cleaned = false ∧ o'.body = o.body := by
  obtain ⟨o', ho', hc⟩ := hK.live k hk
  obtain rfl : o = o' := Option.some.inj (ho.symm.trans ho')
  have hstep := r.step_change t k
  rw [ho] at hstep
  generalize hnext : (r.step t).1.get? k = next at hstep
  cases hstep with
  | some hoo =>
    cases hoo with
    | counted => exact ⟨_, rfl, hc, rfl⟩
    | abandoned h => rw [hc] at h; cases h
    | cleanedUp =>
      exfalso
      have hcount := r.cleanedCount_step t k
      rw [cleanedCount_of_get? hnext, cleanedCount_of_get? ho, hc, Bool.toNat_false, Nat.zero_add]
        at hcount
      have hmem : k ∈ (r.cleans? t).toList := List.count_pos_iff.1 (hcount ▸ Nat.one_pos)
      obtain ⟨force, o', rfl, ho', hlast⟩ := of_cleans?_eq_some (Option.mem_toList.1 hmem)
      obtain rfl : o = o' := Option.some.inj (ho.symm.trans ho')
      have hrefs := hK.one_lt_refs h hk ho (by simp [releases])
      rcases hlast with hlast | rfl
      · omega
      · exact hforce k hk (by simp [forcings])

theorem Supported.step (hK : Supported K r) (h : r.Consistent held forced (t :: ts))
    (hforce : ∀ k, K k → k ∉ forcings (t :: ts)) : Supported K (r.step t).1 where
  live k hk := by
    obtain ⟨o, ho, -⟩ := hK.live k hk
    obtain ⟨o', ho', hc, -⟩ := hK.kept h hforce hk ho
    exact ⟨o', ho', hc⟩
  owner k hk := by
    obtain ⟨j, o, hj, ho, hmem⟩ := hK.owner k hk
    obtain ⟨o', ho', -, hbody⟩ := hK.kept h hforce hj ho
    exact ⟨j, o', hj, ho', hbody ▸ hmem⟩

theorem forcings_step (r : Registry β) (t : Task) : forcings (r.step t).2 = [] := by
  cases t with
  | retire nid => rfl
  | letGo i =>
    rw [Registry.step]
    split
    · rfl
    · split_ifs
      · exact forcings_endRefs _
      · rfl
  | release i force =>
    rw [Registry.step]
    split
    · rfl
    · rename_i o _
      split_ifs
      · rfl
      · rfl
      · have hcleanup := forcings_cleanup o []
        rwa [List.append_nil] at hcleanup

/-- A cascade leaves objects that support each other as they are, unless it forces one of them
out. -/
theorem Supported.settle (hK : Supported K r) (h : r.Consistent held forced ts)
    (hforce : ∀ k, K k → k ∉ forcings ts) : Supported K (r.settle ts) := by
  refine (settle_induction (P := fun r ts => Supported K r ∧ r.Consistent held forced ts ∧
    ∀ k, K k → k ∉ forcings ts) (fun r t ts ⟨hK, h, hforce⟩ => ?_) r ts ⟨hK, h, hforce⟩).1
  refine ⟨hK.step h hforce, h.step, fun k hk hmem => hforce k hk ?_⟩
  rw [forcings_append, forcings_step, List.nil_append] at hmem
  rw [← List.singleton_append, forcings_append]
  exact List.mem_append_right _ hmem

/-- Some objects hold each other up: no identifier leads to one of them, none was cleaned up, and
each is owned by one of them. -/
structure Upheld (K : Nat → Prop) (r : Registry β) : Prop where
  live : ∀ k, K k → ∃ o, r.get? k = some o ∧ o.cleaned = false
  unnamed : ∀ k, K k → ∀ id, r.serialOf? id ≠ some k
  owner : ∀ k, K k → ∃ j o, K j ∧ r.get? j = some o ∧ k ∈ Composite.owned o.body

theorem Upheld.supported (hK : Upheld K r) : Supported K r := ⟨hK.live, hK.owner⟩

theorem upheld_entangled (h : r.Indexed retiring) : Upheld r.Entangled r where
  live k hk := by
    obtain ⟨j, -, -, ⟨o, ho, hc, -⟩, -⟩ := hk.pred
    exact ⟨o, ho, hc⟩
  unnamed k hk id hid := by
    obtain ⟨j, -, -, ⟨o, ho, -, hunnamed⟩, -⟩ := hk.pred
    obtain ⟨o', ho', rfl, -⟩ := h.get?_of_serialOf? hid
    obtain rfl : o = o' := Option.some.inj (ho.symm.trans ho')
    exact hunnamed hid
  owner k hk := by
    obtain ⟨j, hj, -, -, o, ho, hmem⟩ := hk.pred
    exact ⟨j, o, hj, ho, hmem⟩

/-- Taking an identifier out of its index takes no object from those that hold each other up. -/
theorem Upheld.unname (h : Upheld K r) (id : String) :
    Upheld K ({ r with ids := r.ids.erase id } : Registry β) where
  live := h.live
  unnamed k hk id' hid' := by
    by_cases hne : id' = id
    · subst hne
      simp [serialOf?] at hid'
    · rw [serialOf?, SortedMap.get?_erase_of_ne _ hne] at hid'
      exact h.unnamed k hk id' hid'
  owner := h.owner

/-- A cascade leaves objects that hold each other up as they are, unless it forces one of them
out. -/
theorem Upheld.settle (hK : Upheld K r) (h : r.Consistent held forced ts)
    (hforce : ∀ k, K k → k ∉ forcings ts) : Upheld K (r.settle ts) where
  live := (hK.supported.settle h hforce).live
  unnamed k hk id := by
    rw [h.later_settle.serials]
    exact hK.unnamed k hk id
  owner := (hK.supported.settle h hforce).owner

/-- Taking out an object that something else refers to takes its identifier and its first
reference. -/
theorem remove_of_shared {id : String} {nid : Nat} (hid : r.ids.get? id = some nid)
    (hi : r.nids.get? nid = some i)
    (hshared : ∃ o, r.get? i = some o ∧ r.isLive i o = true ∧ 1 < o.refs) :
    r.remove id false = .ok (nid, ({ r with ids := r.ids.erase id } : Registry β).modify i
      fun o => { o with refs := o.refs - 1 }) := by
  obtain ⟨o, ho, hlive, hrefs⟩ := hshared
  have hstep : ({ r with ids := r.ids.erase id } : Registry β).step (.release i false) =
      (({ r with ids := r.ids.erase id } : Registry β).modify i
        fun o => { o with refs := o.refs - 1 }, []) := by
    have ho' : ({ r with ids := r.ids.erase id } : Registry β).get? i = some o := ho
    have hlive' : ({ r with ids := r.ids.erase id } : Registry β).isLive i o = true := hlive
    simp [Registry.step, ho', hlive', hrefs]
  rw [Registry.remove]
  simp only [hid, hi]
  rw [Registry.settle, hstep, List.append_nil, Registry.settle]

/-! ### What stays holds itself up -/

/-- When nothing is registered and nothing is held outside, an object that was not cleaned up is
owned by another one. -/
theorem Balanced.exists_owner (h : r.Balanced 0 forced []) (hids : r.ids = .empty)
    (ho : r.get? i = some o) (hc : o.cleaned = false) :
    ∃ j p, r.get? j = some p ∧ p.cleaned = false ∧ i ∈ Composite.owned p.body := by
  obtain ⟨hpos, hrefs⟩ := h.counted ho hc
  have hunnamed : r.registrations i o.id = 0 := by
    simp [registrations, serialOf?, hids]
  have howned : 0 < (ownedRefs r.objects).count i := by
    simp only [hunnamed, references, releases, List.filterMap_nil, List.count_nil,
      Multiset.count_zero] at hrefs
    omega
  obtain ⟨p, hp, hmem⟩ := List.mem_flatMap.1 (List.count_pos_iff.1 howned)
  obtain ⟨j, hj⟩ := List.mem_iff_getElem?.1 hp
  refine ⟨j, p, hj, ?_, hmem⟩
  by_contra hcleaned
  rw [h.vacated hj (by simpa using hcleaned)] at hmem
  cases hmem

omit [Composite β] in
/-- No object is live exactly if every object was cleaned up. -/
theorem Indexed.live_eq_zero_iff (h : r.Indexed []) :
    r.live = 0 ↔ ∀ i o, r.get? i = some o → o.cleaned = true := by
  rw [Registry.live, List.length_eq_zero_iff]
  constructor
  · intro hnone i o ho
    by_contra hc
    have hmem := SortedMap.get?_eq_some_iff.1 (h.live ho (by simpa using hc))
    rw [hnone] at hmem
    cases hmem
  · intro hall
    refine List.eq_nil_iff_forall_not_mem.2 fun (nid, i) hmem => ?_
    have hi := SortedMap.get?_eq_some_iff.2 hmem
    obtain ⟨o, ho, rfl⟩ := h.owner hi
    exact List.not_mem_nil (h.retired ho (hall i o ho) hi)

end Registry

end Dataplane

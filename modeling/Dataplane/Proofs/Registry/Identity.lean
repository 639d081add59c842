import Dataplane.Context.Basic
import Dataplane.Proofs.InPlace.Calls
import Dataplane.Proofs.Registry.Histories
import Mathlib.Data.List.Range

/-!
# What identifiers and NIDs lead to

An identifier leads to an object from its registration until it is taken out, and a NID until the
cleanup of its object is over. So nothing is ever found that is not there, and no number names two
objects at a time, whatever cascades are under way. An identifier may be given to a new object while
the one that had it before is still referred to.

## The model

`Account.begin` cuts an operation into what it does at once and the cascade that it starts, so the
states in the middle of a cascade can be talked about: they come from its beginning by some steps of
`Registry.advance`. What such a state has in common with an earlier one of the same cascade is
`Registry.Later`.

The last thing that the cleanup of an object does is to give the NID back. So in the middle of a
cascade the cleanup of an object is *over* if the object was cleaned up before, or if it was cleaned
up by now and no task is left that gives its NID back.
-/

namespace Dataplane

/-- The numbers that are handed out and those that were given back are those below the next one. -/
theorem NidPool.Sound.perm_range {p : NidPool} (h : p.Sound) {used : List Nat} (hn : used.Nodup)
    (hu : ∀ nid, nid ∈ used ↔ p.Used nid) :
    (used ++ p.free).Perm (List.range' 1 (p.next - 1)) := by
  have hdisjoint : used.Disjoint p.free := fun nid hused hfree => ((hu nid).1 hused).2.2 hfree
  refine (List.perm_ext_iff_of_nodup (hn.append h.nodup hdisjoint) List.nodup_range').2 fun nid => ?_
  rw [List.mem_append, hu, List.mem_range'_1]
  have hpos := h.positive
  constructor
  · rintro (⟨hne, hlt, -⟩ | hfree)
    · omega
    · have := h.bounded nid hfree
      omega
  · intro hrange
    by_cases hfree : nid ∈ p.free
    · exact .inr hfree
    · exact .inl ⟨by omega, by omega, hfree⟩

namespace Registry

variable {β : Type} [Composite β] {r r' : Registry β} {i j : Nat} {o o' : Registered β}
  {held : Multiset Nat} {forced : List Nat} {t : Task} {ts : List Task}

/-! ### What is found -/

/-- Does an object have a place in the index of NIDs? -/
def HasPlace (r : Registry β) (i : Nat) : Prop := ∃ nid, r.nids.get? nid = some i

/-- The NIDs of the objects that have a place in the index. -/
def placedNids (r : Registry β) : List Nat :=
  r.nids.pairs.filterMap fun (_, i) => (r.get? i).map (·.nid)

omit [Composite β] in
theorem Indexed.placedNids_eq {retiring : List Nat} (h : r.Indexed retiring) :
    r.placedNids = r.nids.pairs.map (·.1) := by
  rw [placedNids, ← List.filterMap_eq_map]
  refine List.filterMap_congr fun (nid, i) hmem => ?_
  obtain ⟨o, ho, rfl⟩ := h.owner (SortedMap.get?_eq_some_iff.2 hmem)
  simp [ho]

omit [Composite β] in
/-- The NIDs of objects and those that were given back are those that were handed out once. -/
theorem Indexed.perm_range {retiring : List Nat} (h : r.Indexed retiring) :
    (r.placedNids ++ r.pool.free).Perm (List.range' 1 (r.pool.next - 1)) := by
  refine h.pool.perm_range ?_ fun nid => ?_
  · rw [h.placedNids_eq]
    exact r.nids.nodup_keys
  · rw [h.placedNids_eq, SortedMap.mem_keys_iff, h.used]

theorem findNid_eq_ok_iff {nid : Nat} {ref : Ref} :
    r.findNid nid = .ok ref ↔ ∃ i, r.nids.get? nid = some i ∧ r.ref? i = some ref := by
  rw [findNid, ← Option.bind_eq_some_iff]
  change _ ↔ (r.nids.get? nid >>= r.ref?) = some ref
  cases r.nids.get? nid >>= r.ref? with
  | none => simp
  | some ref' => simp

/-- An object is found by its identifier exactly if it is registered under it. -/
theorem findId_eq_ok_ref_iff (ho : r.get? i = some o) :
    r.findId o.id = .ok ⟨i, o.id, o.nid, Composite.kind o.body⟩ ↔ r.serialOf? o.id = some i := by
  rw [findId_eq_ok_iff]
  constructor
  · rintro ⟨j, o', hj, -, heq⟩
    obtain rfl : i = j := congrArg Ref.serial heq
    exact hj
  · exact fun hi => ⟨i, o, hi, ho, rfl⟩

/-- An object is found by its NID exactly if the NID leads to it. -/
theorem findNid_eq_ok_ref_iff (ho : r.get? i = some o) :
    r.findNid o.nid = .ok ⟨i, o.id, o.nid, Composite.kind o.body⟩ ↔
      r.nids.get? o.nid = some i := by
  rw [findNid_eq_ok_iff]
  constructor
  · rintro ⟨j, hj, href⟩
    obtain ⟨o', -, heq⟩ := ref?_eq_some_iff.1 href
    obtain rfl : i = j := congrArg Ref.serial heq
    exact hj
  · exact fun hi => ⟨i, hi, ref?_eq_some_iff.2 ⟨o, ho, rfl⟩⟩

/-! ### The states of a cascade -/

/-- An object keeps its identifier and its NID, and is not cleaned up backwards. -/
structure Since (o o' : Registered β) : Prop where
  id : o'.id = o.id
  nid : o'.nid = o.nid
  cleaned : o.cleaned = true → o'.cleaned = true

omit [Composite β] in
theorem Since.refl (o : Registered β) : Since o o := ⟨rfl, rfl, fun hc => hc⟩

omit [Composite β] in
theorem Since.trans {o'' : Registered β} (h : Since o o') (h' : Since o' o'') : Since o o'' :=
  ⟨h'.id.trans h.id, h'.nid.trans h.nid, fun hc => h'.cleaned (h.cleaned hc)⟩

omit [Composite β] in
theorem rel_since_refl (r : Registry β) (i : Nat) : Option.Rel Since (r.get? i) (r.get? i) := by
  cases r.get? i with
  | none => exact .none
  | some o => exact .some (.refl o)

omit [Composite β] in
theorem rel_since_trans {first second third : Option (Registered β)}
    (h : Option.Rel Since first second) (h' : Option.Rel Since second third) :
    Option.Rel Since first third := by
  cases h with
  | none => cases h'; exact .none
  | some hoo =>
    cases h' with
    | some hoo' => exact .some (hoo.trans hoo')

/-- What the state of a registry has in common with an earlier one of the same cascade. -/
structure Later (r r' : Registry β) : Prop where
  /-- Identifiers lead where they did. -/
  serials : ∀ id, r'.serialOf? id = r.serialOf? id
  /-- A NID that leads somewhere did so before. -/
  nids : ∀ {nid i}, r'.nids.get? nid = some i → r.nids.get? nid = some i
  objects : ∀ i, Option.Rel Since (r.get? i) (r'.get? i)

omit [Composite β] in
theorem Later.refl (r : Registry β) : Later r r := ⟨fun _ => rfl, fun h => h, rel_since_refl r⟩

omit [Composite β] in
/-- An object of a later state was there before. -/
theorem Later.get? (h : Later r r') (ho' : r'.get? i = some o') :
    ∃ o, r.get? i = some o ∧ Since o o' := by
  have hi := h.objects i
  rw [ho'] at hi
  generalize hold : r.get? i = old at hi
  cases hi with
  | some hoo => exact ⟨_, rfl, hoo⟩

omit [Composite β] in
theorem Later.trans {r'' : Registry β} (h : Later r r') (h' : Later r' r'') : Later r r'' :=
  ⟨fun id => (h'.serials id).trans (h.serials id), fun hi => h.nids (h'.nids hi),
    fun i => rel_since_trans (h.objects i) (h'.objects i)⟩

omit [Composite β] in
/-- A change that leaves every object its identity and does not clean it up. -/
theorem Later.modify {f : Registered β → Registered β}
    (hf : ∀ o, (f o).id = o.id ∧ (f o).nid = o.nid ∧ (f o).cleaned = o.cleaned) :
    Later r (r.modify i f) where
  serials _ := rfl
  nids h := h
  objects j := rel_modify .refl
    (fun o _ => ⟨(hf o).1, (hf o).2.1, fun hc => (hf o).2.2.trans hc⟩) j

/-- A reference that is taken leaves every object its identity. -/
theorem Later.acquire {id : String} {ref : Ref} (h : r.Consistent held forced ts)
    (hacq : r.acquire id = .ok (ref, r')) : Later r r' := by
  obtain ⟨rfl, -⟩ := h.take_of_acquire hacq
  exact .modify fun _ => ⟨rfl, rfl, rfl⟩

/-- Only giving a NID back changes an index. -/
theorem step_indices (r : Registry β) (ht : ∀ nid, t ≠ .retire nid) :
    (r.step t).1.ids = r.ids ∧ (r.step t).1.nids = r.nids := by
  cases t with
  | retire nid => exact absurd rfl (ht nid)
  | letGo i =>
    rw [Registry.step]
    split
    · exact ⟨rfl, rfl⟩
    · split_ifs <;> exact ⟨rfl, rfl⟩
  | release i force =>
    rw [Registry.step]
    split
    · exact ⟨rfl, rfl⟩
    · split_ifs <;> exact ⟨rfl, rfl⟩

/-- A NID that leads to an object after a step did so before. -/
theorem nids_of_step (r : Registry β) {nid : Nat} (hi : (r.step t).1.nids.get? nid = some i) :
    r.nids.get? nid = some i := by
  by_cases ht : ∃ nid, t = .retire nid
  · obtain ⟨nid', rfl⟩ := ht
    have hne : nid ≠ nid' := by
      rintro rfl
      simp [Registry.step] at hi
    exact SortedMap.get?_erase_of_ne _ hne ▸ hi
  · exact (r.step_indices (not_exists.1 ht)).2 ▸ hi

/-- A step leads to a later state. -/
theorem Consistent.later_step (h : r.Consistent held forced (t :: ts)) : Later r (r.step t).1 where
  serials id := by
    by_cases ht : ∃ nid, t = .retire nid
    · obtain ⟨nid, rfl⟩ := ht
      exact h.toIndexed.retire.2 id
    · obtain ⟨hids, hnids⟩ := r.step_indices (not_exists.1 ht)
      simp only [serialOf?, hids, hnids]
  nids := r.nids_of_step
  objects i := by
    have hi := r.step_change t i
    generalize r.get? i = first, (r.step t).1.get? i = second at hi
    cases hi with
    | none => exact .none
    | some hoo =>
      refine .some ⟨?_, ?_, hoo.cleaned⟩ <;> cases hoo <;> rfl

/-- The counts are right in every state of a cascade, and each is later than the first. -/
theorem Consistent.advance (h : r.Consistent held forced ts) (n : Nat) :
    (Registry.advance^[n] (r, ts)).1.Consistent held forced (Registry.advance^[n] (r, ts)).2 ∧
      Later r (Registry.advance^[n] (r, ts)).1 := by
  induction n generalizing r ts with
  | zero => exact ⟨h, .refl r⟩
  | succ n ih =>
    rw [Function.iterate_succ_apply]
    cases ts with
    | nil => exact ih h
    | cons t ts =>
      obtain ⟨hbalanced, hlater⟩ := ih h.step
      exact ⟨hbalanced, h.later_step.trans hlater⟩

/-- The end of a cascade is later than its beginning. -/
theorem Consistent.later_settle (h : r.Consistent held forced ts) : Later r (r.settle ts) := by
  obtain ⟨n, -, hn⟩ := r.settle_ends ts
  have hlater := (h.advance n).2
  rwa [hn] at hlater

/-- The end of a cascade is one of its states. -/
theorem exists_advance_eq_settle (r : Registry β) (ts : List Task) :
    ∃ n, Registry.advance^[n] (r, ts) = (r.settle ts, []) := by
  obtain ⟨n, -, hn⟩ := r.settle_ends ts
  exact ⟨n, hn⟩

/-- Is the cleanup of an object over in the middle of a cascade? The cleanups in which the cascade
began are, and so is one whose NID is not to be given back any more. -/
def CleanupOver (before r : Registry β) (tasks : List Task) (i : Nat) : Prop :=
  ∃ o, r.get? i = some o ∧ o.cleaned = true ∧
    ((∃ o', before.get? i = some o' ∧ o'.cleaned = true) ∨ o.nid ∉ retirements tasks)

omit [Composite β] in
/-- In the middle of a cascade a NID leads to its object exactly until the cleanup is over. -/
theorem get?_nid_iff {before : Registry β} (hbefore : before.Indexed [])
    (h : r.Indexed (retirements ts)) (hlater : Later before r) (ho : r.get? i = some o) :
    r.nids.get? o.nid = some i ↔ ¬ CleanupOver before r ts i := by
  obtain ⟨o₀, ho₀, hsince⟩ := hlater.get? ho
  have hnid := hsince.nid
  constructor
  · rintro hi ⟨o', ho', hc, hover⟩
    obtain rfl : o = o' := Option.some.inj (ho.symm.trans ho')
    rcases hover with ⟨o', ho', hc'⟩ | hover
    · obtain rfl : o₀ = o' := Option.some.inj (ho₀.symm.trans ho')
      exact List.not_mem_nil (hbefore.retired ho₀ hc' (hnid ▸ hlater.nids hi))
    · exact hover (h.retired ho hc hi)
  · intro hover
    cases hc : o.cleaned with
    | false => exact h.live ho hc
    | true =>
      have hstill : o.nid ∈ retirements ts := by
        by_contra hgone
        exact hover ⟨o, ho, hc, .inr hgone⟩
      have hc₀ : o₀.cleaned = false := by
        by_contra hc₀
        exact hover ⟨o, ho, hc, .inl ⟨o₀, ho₀, by simpa using hc₀⟩⟩
      -- the NID leads somewhere, and it led to this object when the cascade began
      obtain ⟨j, -, hj, -⟩ := h.leaving hstill
      have hi := hbefore.live ho₀ hc₀
      rw [← hnid, hlater.nids hj] at hi
      exact hi ▸ hj

end Registry

/-! ### Registering in place -/

namespace InPlace

variable {β : Type} (r : Registry β) (id : String) (body : β)

/-- Registers an object step by step. The object knows the identifier and the NID that it was
registered with, if it was; this and the registry outlive a refusal. -/
def register : InPlace RegistryError (Registry β × Option (String × Nat)) Nat := do
  let (r, known) ← current
  refuseIf (r.ids.has id) (.duplicate id)
  if let some (first, _) := known then throw (.alreadyInserted first)
  match r.pool.take? with
  | none => throw .poolExhausted
  | some (nid, pool) =>
    modify fun (r, known) => ({ r with pool }, known)
    let (_, known) ← current
    if let some (first, _) := known then
      modify fun (r, known) => ({ r with pool := r.pool.give nid }, known)
      throw (.alreadyInserted first)
    modify fun (r, _) => (r, some (id, nid))
    modify fun (r, known) => ({ r with ids := r.ids.insert id nid }, known)
    modify fun (r, known) => ({ r with
      objects := r.objects ++ [⟨id, nid, 1, 0, false, body⟩]
      nids := r.nids.insert nid r.objects.length }, known)
    return nid

/-- What registering an object does that was not registered before. -/
theorem register_new : register id body (r, none) = match r.insert id body with
    | .ok (nid, r') => .ok nid (r', some (id, nid))
    | .error e => .error e (r, none) := by
  rw [register, Registry.insert, bind_apply, current_apply]
  by_cases hhas : r.ids.has id = true
  · simp only [bind_apply, refuseIf_of hhas, if_pos hhas]
  · simp only [bind_apply, refuseIf_of_not hhas, if_neg hhas]
    cases r.pool.take? with
    | none => rfl
    | some taken => rfl

/-- An object that was registered before is refused, and nothing changes. -/
theorem register_known (ref : Ref) : register id body (r, some (ref.id, ref.nid)) =
    .error (r.insertAgain id ref) (r, some (ref.id, ref.nid)) := by
  rw [register, Registry.insertAgain, bind_apply, current_apply]
  by_cases hhas : r.ids.has id = true
  · simp only [bind_apply, refuseIf_of hhas, if_pos hhas]
  · simp only [bind_apply, refuseIf_of_not hhas, if_neg hhas]
    rfl

/-- An object is registered at once, or nothing changes. -/
theorem register_cases (known : Option (String × Nat)) :
    (∃ nid r', known = none ∧ r.insert id body = .ok (nid, r') ∧
      register id body (r, known) = .ok nid (r', some (id, nid))) ∨
    ∃ e, register id body (r, known) = .error e (r, known) := by
  cases known with
  | none =>
    rw [register_new]
    cases r.insert id body with
    | ok p => exact .inl ⟨p.1, p.2, rfl, rfl, rfl⟩
    | error e => exact .inr ⟨e, rfl⟩
  | some known => exact .inr ⟨_, register_known r id body ⟨0, known.1, known.2, .other⟩⟩

end InPlace

/-! ### Histories -/

namespace Account

open Registry

variable {β : Type} [Composite β] {operations : List (Operation β)} {a : Account β} {i : Nat}

/-- What an operation does at once, and the tasks that are left then. -/
def begin (a : Account β) : Operation β → Registry (Tallied β) × List Task
  | .remove id force =>
    match a.registry.findId id with
    | .ok ref => ({ a.registry with ids := a.registry.ids.erase id }, [.release ref.serial force])
    | .error _ => (a.registry, [])
  | .release serial => (a.registry, if serial ∈ a.held then endRefs [serial] else [])
  | op => ((a.apply op).registry, [])

/-- An operation ends when its tasks have been run. -/
theorem settle_begin (h : a.Sound) (op : Operation β) :
    (a.begin op).1.settle (a.begin op).2 = (a.apply op).registry := by
  have hnone (r : Registry (Tallied β)) : r.settle [] = r := by rw [Registry.settle]
  cases op with
  | remove id force =>
    rw [begin, Account.apply, h.balanced.toIndexed.remove_eq]
    cases a.registry.findId id with
    | error e => exact hnone _
    | ok ref => rfl
  | release serial =>
    rw [begin, Account.apply]
    split_ifs
    · rfl
    · exact hnone _
  | _ => exact hnone _

/-- The counts are right when an operation begins. -/
theorem consistent_begin (h : a.Sound) (op : Operation β) :
    (a.begin op).1.Consistent (a.apply op).held (a.apply op).forced (a.begin op).2 := by
  have hbefore := h.balanced.toConsistent
  have hafter := (apply_spec h op).1.toConsistent
  cases op with
  | remove id force =>
    rw [begin, Account.apply, h.balanced.toIndexed.remove_eq]
    cases hfind : a.registry.findId id with
    | error e => exact hbefore
    | ok ref =>
      obtain ⟨i, o, hi, -, rfl⟩ := findId_eq_ok_iff.1 hfind
      exact hbefore.unname force hi
  | release serial =>
    rw [begin, Account.apply]
    split_ifs with hheld
    · exact Consistent.ending ((Multiset.cons_erase hheld).symm ▸ hbefore)
    · exact hbefore
  | _ => exact hafter

/-- Was an object taken out of the index of identifiers? -/
def TakenOut (operations : List (Operation β)) (i : Nat) : Prop :=
  ∃ before id force, before ++ [.remove id force] <+: operations ∧
    (run before).registry.serialOf? id = some i

theorem not_takenOut_nil (i : Nat) : ¬ TakenOut ([] : List (Operation β)) i := by
  rintro ⟨before, id, force, hprefix, -⟩
  simp at hprefix

theorem takenOut_concat {op : Operation β} : TakenOut (operations ++ [op]) i ↔
    TakenOut operations i ∨
      ∃ id force, op = .remove id force ∧ (run operations).registry.serialOf? id = some i := by
  constructor
  · rintro ⟨before, id, force, hprefix, hi⟩
    rcases List.prefix_concat_iff.1 hprefix with heq | hprefix
    · obtain ⟨rfl, rfl⟩ := by simpa using List.append_inj' heq rfl
      exact .inr ⟨id, force, rfl, hi⟩
    · exact .inl ⟨before, id, force, hprefix, hi⟩
  · rintro (⟨before, id, force, hprefix, hi⟩ | ⟨id, force, rfl, hi⟩)
    · exact ⟨before, id, force, hprefix.trans (List.prefix_append _ _), hi⟩
    · exact ⟨operations, id, force, List.prefix_rfl, hi⟩

/-- What is known of the objects of a registry after some operations. -/
structure Recorded (operations : List (Operation β)) (r : Registry (Tallied β)) : Prop where
  /-- An identifier leads to its object exactly if that was not taken out. -/
  serials : ∀ {i o}, r.get? i = some o → (r.serialOf? o.id = some i ↔ ¬ TakenOut operations i)
  /-- What was taken out is an object. -/
  known : ∀ {i}, TakenOut operations i → ∃ o, r.get? i = some o
  /-- Zero is no NID of an object. -/
  positive : ∀ {i o}, r.get? i = some o → o.nid ≠ 0

theorem recorded_start : Recorded ([] : List (Operation β)) (start : Account β).registry where
  serials h := by simp [start, Registry.empty, Registry.get?] at h
  known h := absurd h (not_takenOut_nil _)
  positive h := by simp [start, Registry.empty, Registry.get?] at h

theorem Recorded.later {r r' : Registry (Tallied β)} (h : Recorded operations r)
    (hlater : Later r r') : Recorded operations r' where
  serials ho' := by
    obtain ⟨o, ho, hsince⟩ := hlater.get? ho'
    rw [hlater.serials, hsince.id]
    exact h.serials ho
  known {i} htaken := by
    obtain ⟨o, ho⟩ := h.known htaken
    have hi := hlater.objects i
    rw [ho] at hi
    generalize r'.get? i = next at hi
    cases hi with
    | some hoo => exact ⟨_, rfl⟩
  positive ho' := by
    obtain ⟨o, ho, hsince⟩ := hlater.get? ho'
    exact hsince.nid ▸ h.positive ho

/-- What an operation does at once registers an object, or takes one out of the index of
identifiers, or leaves all objects and indices what they were. -/
theorem begin_cases (h : a.Sound) (op : Operation β) :
    (∃ id body nid, op = .insert id body ∧
      a.registry.insert id ⟨body, 0⟩ = .ok (nid, (a.begin op).1)) ∨
    (∃ id force i, op = .remove id force ∧ a.registry.serialOf? id = some i ∧
      (a.begin op).1 = { a.registry with ids := a.registry.ids.erase id }) ∨
    Later a.registry (a.begin op).1 ∧
      ∀ id force, op = .remove id force → a.registry.serialOf? id = none := by
  have hrefl : Later a.registry a.registry := .refl _
  cases op with
  | insert id body =>
    simp only [begin, Account.apply]
    split
    · rename_i nid r hins
      split_ifs
      · exact .inl ⟨id, body, nid, rfl, hins⟩
      · exact .inr (.inr ⟨hrefl, by simp⟩)
    · exact .inr (.inr ⟨hrefl, by simp⟩)
  | acquire id =>
    refine .inr (.inr ⟨?_, by simp⟩)
    simp only [begin, Account.apply]
    split
    · rename_i hacq
      exact .acquire h.balanced.toConsistent hacq
    · exact hrefl
  | acquireKind id kind =>
    refine .inr (.inr ⟨?_, by simp⟩)
    simp only [begin, Account.apply]
    split
    · rename_i hacq
      exact .acquire h.balanced.toConsistent (acquire_of_acquireKind hacq)
    · exact hrefl
  | remove id force =>
    simp only [begin]
    split
    · rename_i ref hfind
      obtain ⟨i, o, hi, -, rfl⟩ := findId_eq_ok_iff.1 hfind
      exact .inr (.inl ⟨id, force, i, rfl, hi, rfl⟩)
    · rename_i e hfind
      refine .inr (.inr ⟨hrefl, fun id' force' heq => ?_⟩)
      cases heq
      by_contra hsome
      obtain ⟨i, hi⟩ := Option.ne_none_iff_exists'.1 hsome
      obtain ⟨o, ho, -⟩ := h.balanced.toIndexed.get?_of_serialOf? hi
      rw [findId_eq_ok_iff.2 ⟨i, o, hi, ho, rfl⟩] at hfind
      cases hfind
  | release serial => exact .inr (.inr ⟨hrefl, by simp⟩)
  | replace serial body =>
    refine .inr (.inr ⟨?_, by simp⟩)
    simp only [begin, Account.apply]
    split
    · split_ifs
      · exact .modify fun o => ⟨rfl, rfl, rfl⟩
      · exact hrefl
    · exact hrefl

/-- What is known of the objects when an operation begins. -/
theorem Recorded.begin (h : Recorded operations (run operations).registry) (op : Operation β) :
    Recorded (operations ++ [op]) ((run operations).begin op).1 := by
  have hsound := sound_run operations
  have hindexed := (consistent_begin hsound op).toIndexed
  rcases begin_cases hsound op with ⟨id, body, nid, rfl, hins⟩ | ⟨id, force, i₀, rfl, hi₀, hbegin⟩ |
    ⟨hlater, hnone⟩
  · obtain ⟨-, hobjects, hfree, hserial, hother⟩ := hsound.balanced.toIndexed.insert hins
    have hsame {i : Nat} : TakenOut (operations ++ [.insert id body]) i ↔ TakenOut operations i := by
      simp [takenOut_concat]
    constructor
    case serials =>
      intro i o ho
      rw [hsame]
      rcases get?_concat hobjects ho with ho | ⟨rfl, rfl⟩
      · rw [← h.serials ho]
        by_cases hid : o.id = id
        · have hne := Nat.ne_of_lt (lt_length_of_get? ho)
          simp [hid, hserial, hfree, hne.symm]
        · rw [hother _ hid]
      · refine iff_of_true hserial fun htaken => ?_
        obtain ⟨o, ho⟩ := h.known htaken
        exact absurd (lt_length_of_get? ho) (Nat.lt_irrefl _)
    case known =>
      intro i htaken
      obtain ⟨o, ho⟩ := h.known (hsame.1 htaken)
      refine ⟨o, ?_⟩
      rw [Registry.get?, hobjects, List.getElem?_append_left (lt_length_of_get? ho)]
      exact ho
    case positive =>
      intro i o ho
      rcases get?_concat hobjects ho with ho' | ⟨-, rfl⟩
      · exact h.positive ho'
      · exact ((hindexed.used nid).1 (by rw [hindexed.live ho rfl]; rfl)).1
  · rw [hbegin]
    have htaken {i : Nat} : TakenOut (operations ++ [.remove id force]) i ↔
        TakenOut operations i ∨ i = i₀ := by
      rw [takenOut_concat]
      refine or_congr_right ⟨?_, ?_⟩
      · rintro ⟨id', force', heq, hi⟩
        cases heq
        exact Option.some.inj (hi.symm.trans hi₀)
      · rintro rfl
        exact ⟨id, force, rfl, hi₀⟩
    obtain ⟨o₀, ho₀, hid₀, -⟩ := hsound.balanced.toIndexed.get?_of_serialOf? hi₀
    constructor
    case serials =>
      intro i o ho
      have ho : (run operations).registry.get? i = some o := ho
      rw [htaken, not_or, ← h.serials ho]
      by_cases hid : o.id = id
      · rw [hid, hi₀]
        simp [serialOf?, eq_comm]
      · have hne : i ≠ i₀ := by
          rintro rfl
          obtain rfl : o = o₀ := Option.some.inj (ho.symm.trans ho₀)
          exact hid hid₀
        simp only [serialOf?, SortedMap.get?_erase_of_ne _ hid, hne, not_false_eq_true, and_true]
    case known =>
      intro i hi
      rcases htaken.1 hi with hi | rfl
      · exact h.known hi
      · exact ⟨o₀, ho₀⟩
    case positive => exact h.positive
  · have hsame {i : Nat} : TakenOut (operations ++ [op]) i ↔ TakenOut operations i := by
      rw [takenOut_concat, or_iff_left]
      rintro ⟨id, force, rfl, hi⟩
      simp [hnone id force rfl] at hi
    have hrec := h.later hlater
    exact ⟨fun ho => by rw [hsame]; exact hrec.serials ho, fun hi => hrec.known (hsame.1 hi),
      hrec.positive⟩

/-- No cleanup is under way when an operation begins. -/
theorem retirements_begin (a : Account β) (op : Operation β) :
    retirements (a.begin op).2 = [] := by
  cases op with
  | remove id force =>
    rw [begin]
    split <;> rfl
  | release serial =>
    rw [begin]
    split_ifs
    · exact retirements_endRefs _
    · rfl
  | _ => rfl

/-- What is known of the objects in every state of the cascade of an operation. -/
theorem recorded_advance (h : Recorded operations (run operations).registry) (op : Operation β)
    (n : Nat) : Recorded (operations ++ [op]) (advance^[n] ((run operations).begin op)).1 :=
  (h.begin op).later ((consistent_begin (sound_run operations) op).advance n).2

/-- The end of the cascade of an operation. -/
theorem exists_advance_eq_run (operations : List (Operation β)) (op : Operation β) :
    ∃ n, advance^[n] ((run operations).begin op) = ((run (operations ++ [op])).registry, []) := by
  obtain ⟨n, hn⟩ := exists_advance_eq_settle ((run operations).begin op).1
    ((run operations).begin op).2
  rw [settle_begin (sound_run operations), ← run_concat] at hn
  exact ⟨n, hn⟩

theorem recorded_run (operations : List (Operation β)) :
    Recorded operations (run operations).registry := by
  induction operations using List.reverseRecOn with
  | nil => exact recorded_start
  | append_singleton operations op ih =>
    obtain ⟨n, hn⟩ := exists_advance_eq_run operations op
    have hend := recorded_advance ih op n
    rwa [hn] at hend

/-- What identifiers and NIDs lead to after some operations, in a state of the cascade of the last
one. The cascade has `tasks` to run and began with the registry `before`. -/
structure Identified (operations : List (Operation β)) (before r : Registry (Tallied β))
    (tasks : List Task) : Prop where
  /-- An identifier leads to an object that has it and the NID, was not cleaned up, and is the only
  one with a place in the index that has the NID. -/
  named : ∀ {id nid}, r.ids.get? id = some nid → ∃ i o, r.serialOf? id = some i ∧
    r.get? i = some o ∧ o.id = id ∧ o.nid = nid ∧ o.cleaned = false ∧
    ∀ j o', r.HasPlace j → r.get? j = some o' → o'.nid = nid → j = i
  /-- No two objects with a place in the index share a NID. -/
  sole : ∀ {i j o o'}, r.HasPlace i → r.HasPlace j → r.get? i = some o → r.get? j = some o' →
    o.nid = o'.nid → i = j
  /-- No two objects that were not taken out share an identifier. -/
  distinct : ∀ {i j o o'}, ¬ TakenOut operations i → ¬ TakenOut operations j →
    r.get? i = some o → r.get? j = some o' → o.id = o'.id → i = j
  /-- An object is found by its identifier exactly if it was not taken out. -/
  findId : ∀ {i ref}, r.ref? i = some ref →
    (r.findId ref.id = .ok ref ↔ ¬ TakenOut operations i)
  /-- An object is found by its NID exactly until its cleanup is over. -/
  findNid : ∀ {i ref}, r.ref? i = some ref →
    (r.findNid ref.nid = .ok ref ↔ ¬ CleanupOver before r tasks i)
  /-- The NIDs of the objects with a place in the index and those in the pool are all the numbers
  from one to the one before the next, each of them once. -/
  numbers : (r.placedNids ++ r.pool.free).Perm (List.range' 1 (r.pool.next - 1))
  /-- Zero was never handed out. -/
  positive : ∀ {i o}, r.get? i = some o → o.nid ≠ 0
  /-- An object is registered at once, or the registry and the object are as they were. -/
  registers : ∀ id body known, (∃ nid r', known = none ∧ r.insert id body = .ok (nid, r') ∧
      InPlace.register id body (r, known) = .ok nid (r', some (id, nid))) ∨
    ∃ e, InPlace.register id body (r, known) = .error e (r, known)

theorem Recorded.identified {before r : Registry (Tallied β)} {tasks : List Task}
    (h : Recorded operations r) (hbefore : before.Indexed [])
    (hindexed : r.Indexed (retirements tasks)) (hlater : Later before r) :
    Identified operations before r tasks := by
  have hplace {i : Nat} {o : Registered (Tallied β)} (hi : r.HasPlace i) (ho : r.get? i = some o) :
      r.nids.get? o.nid = some i := by
    obtain ⟨nid, hnid⟩ := hi
    obtain ⟨o', ho', rfl⟩ := hindexed.owner hnid
    obtain rfl : o = o' := Option.some.inj (ho.symm.trans ho')
    exact hnid
  constructor
  case named =>
    intro id nid hid
    obtain ⟨i, o, hi, ho, hoid, hc⟩ := hindexed.named hid
    obtain ⟨o', ho', hnid⟩ := hindexed.owner hi
    obtain rfl : o = o' := Option.some.inj (ho.symm.trans ho')
    refine ⟨i, o, serialOf?_eq_some_iff.2 ⟨nid, hid, hi⟩, ho, hoid, hnid, hc, ?_⟩
    rintro j o' hj ho' rfl
    exact Option.some.inj ((hplace hj ho').symm.trans hi)
  case sole =>
    intro i j o o' hi hj ho ho' heq
    exact Option.some.inj ((hplace hi ho).symm.trans (heq ▸ hplace hj ho'))
  case distinct =>
    intro i j o o' hi hj ho ho' heq
    exact Option.some.inj (((h.serials ho).2 hi).symm.trans (heq ▸ (h.serials ho').2 hj))
  case findId =>
    intro i ref href
    obtain ⟨o, ho, rfl⟩ := ref?_eq_some_iff.1 href
    rw [findId_eq_ok_ref_iff ho, h.serials ho]
  case findNid =>
    intro i ref href
    obtain ⟨o, ho, rfl⟩ := ref?_eq_some_iff.1 href
    rw [findNid_eq_ok_ref_iff ho, get?_nid_iff hbefore hindexed hlater ho]
  case numbers => exact hindexed.perm_range
  case positive => exact h.positive
  case registers => exact InPlace.register_cases r

/-- Whatever the operations are: between them and in every state of a cascade, identifiers and NIDs
lead to what they should, and the numbers in use and in the pool are told apart. The cleanup of an
object is over between operations exactly if it was cleaned up. -/
theorem identified_run (operations : List (Operation β)) :
    (Identified operations (run operations).registry (run operations).registry [] ∧
      ∀ i, CleanupOver (run operations).registry (run operations).registry [] i ↔
        ∃ o, (run operations).registry.get? i = some o ∧ o.body.cleanups = 1) ∧
    ∀ op, (∀ n, Identified (operations ++ [op]) ((run operations).begin op).1
        (advance^[n] ((run operations).begin op)).1 (advance^[n] ((run operations).begin op)).2) ∧
      ∃ n, advance^[n] ((run operations).begin op) =
        ((run (operations ++ [op])).registry, []) := by
  have hsound := sound_run operations
  have hindexed := hsound.balanced.toIndexed
  have hrecorded := recorded_run operations
  refine ⟨⟨hrecorded.identified hindexed hindexed (.refl _), fun i => ?_⟩,
    fun op => ⟨fun n => ?_, exists_advance_eq_run operations op⟩⟩
  · refine exists_congr fun o => and_congr_right fun ho => ?_
    rw [hsound.once ho]
    simp [retirements]
  · have hbegin := consistent_begin hsound op
    obtain ⟨hbalanced, hlater⟩ := hbegin.advance n
    exact (recorded_advance hrecorded op n).identified
      (retirements_begin (run operations) op ▸ hbegin.toIndexed) hbalanced.toIndexed hlater

/-- An object is replaced under its identifier while a reference to it is held. -/
def replacement : List (Operation Object) :=
  [.insert "a" (.flowCounter .flow), .acquire "a", .remove "a" false,
    .insert "a" (.flowCounter .flow)]

/-- An identifier that is given to a new object while the old one is still referred to belongs to two
objects that are found by their NIDs. -/
theorem shared_id_of_replacement :
    (∃ ref, (run replacement).registry.findNid 1 = .ok ref ∧ ref.serial = 0 ∧ ref.id = "a") ∧
      ∃ ref, (run replacement).registry.findNid 2 = .ok ref ∧ ref.serial = 1 ∧ ref.id = "a" := by
  have hremoved : run (replacement.take 3) =
      ⟨⟨[⟨"a", 1, 1, 1, false, ⟨.flowCounter .flow, 0⟩⟩], .empty, ⟨[(1, 0)], by simp⟩, ⟨2, []⟩⟩,
        {0}, []⟩ := by
    change (⟨Registry.settle _ [.release 0 false], {0}, []⟩ : Account Object) = _
    rw [Registry.settle]
    change (⟨Registry.settle _ [], {0}, []⟩ : Account Object) = _
    rw [Registry.settle]
    rfl
  have hreplaced : run replacement =
      (run (replacement.take 3)).apply (.insert "a" (.flowCounter .flow)) := rfl
  rw [hreplaced, hremoved]
  exact ⟨⟨_, rfl, rfl, rfl⟩, ⟨_, rfl, rfl, rfl⟩⟩

end Account

end Dataplane

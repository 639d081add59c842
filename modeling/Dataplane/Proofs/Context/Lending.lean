import Dataplane.Context.Basic
import Dataplane.Proofs.Context.Sharing
import Dataplane.Proofs.Registry.Taking

/-!
# Actions that are lent

The actions of a table or a port may be held outside as well. Each of them lets its references go
once, with the last who holds it: an object that gives up an action that is lent releases nothing,
and someone outside who lets go of an action that an object holds releases nothing either.

## The model

`Registry.Lending held aside n r` says that the objects of the registry `r` have lent those of their
actions that are among the parts `held` outside, and no others. The parts in `aside` are those of
ports that are not registered; no object holds any of them. Serial numbers are given to new actions
from `n` on. Together with the counts of references (`Registry.Balanced`) this says that everything
that is held anywhere counts once (`Lending.perm_refs`).
-/

namespace Dataplane

namespace Object

variable (serials : List Nat) (b : Object)

theorem actions_lend : (b.lend serials).actions = b.actions := by
  cases b <;> rfl

theorem parts_lend : (b.lend serials).parts = b.parts := by
  rw [parts, parts, actions_lend]

theorem kind_lend : Composite.kind (b.lend serials) = Composite.kind b := by
  cases b <;> rfl

theorem actions_vacate : (Composite.vacate b).actions = [] := by
  cases b <;> rfl

theorem parts_vacate : (Composite.vacate b).parts = [] := by
  rw [parts, actions_vacate]
  rfl

theorem lent_vacate : (Composite.vacate b).lent = b.lent := by
  cases b <;> rfl

theorem lent_countCleanup : (Composite.countCleanup b).lent = b.lent := by
  cases b <;> rfl

variable {b : Object}

theorem eq_of_port? {p : Port} (h : b.port? = some p) : ∃ lent, b = .port p lent := by
  cases b with
  | port p' lent =>
    cases h
    exact ⟨lent, rfl⟩
  | _ => cases h

theorem eq_of_table? {t : Table (Listed Action)} (h : b.table? = some t) :
    ∃ lent, b = .table t lent := by
  cases b with
  | table t' lent =>
    cases h
    exact ⟨lent, rfl⟩
  | _ => cases h

end Object

theorem Port.mem_of_mem_actions {p : Port} {dir : Direction} :
    ∀ a ∈ p.actions dir, a ∈ p.rx ++ p.tx := by
  cases dir with
  | ingress => exact fun a ha => List.mem_append_left _ ha
  | egress => exact fun a ha => List.mem_append_right _ ha

namespace Registry

variable {r r' : Registry Object} {held held' aside aside' new gone kept : List Part}
  {n m i : Nat} {o : Registered Object}

/-- The actions that objects hold and those in their lists, one by one. -/
def placed (r : Registry Object) : List Part := r.objects.flatMap fun o => o.body.parts

theorem mem_placed {p : Part} : p ∈ r.placed ↔ ∃ o ∈ r.objects, p ∈ o.body.parts :=
  List.mem_flatMap

theorem mem_placed_of_get? (ho : r.get? i = some o) {p : Part} (hp : p ∈ o.body.parts) :
    p ∈ r.placed :=
  mem_placed.2 ⟨o, List.mem_of_getElem? ho, hp⟩

theorem placed_lend (r : Registry Object) (serials : List Nat) :
    (r.mapBodies (Object.lend serials)).placed = r.placed := by
  simp [placed, mapBodies, List.flatMap_map, Object.parts_lend]

/-- What objects hold, apart from one of them. -/
theorem exists_perm_placed (ho : r.get? i = some o) (f : Object → Object) :
    ∃ rest, r.placed.Perm (o.body.parts ++ rest) ∧
      (r.modifyBody i f).placed.Perm ((f o.body).parts ++ rest) := by
  refine ⟨(r.objects.eraseIdx i).flatMap fun o => o.body.parts, ?_, ?_⟩
  · obtain ⟨hlt, rfl⟩ := List.getElem?_eq_some_iff.1 ho
    exact (List.getElem_cons_eraseIdx_perm hlt).symm.flatMap_right fun o => o.body.parts
  · have hset : (r.modifyBody i f).objects = r.objects.set i { o with body := f o.body } := by
      have ho' : r.objects[i]? = some o := ho
      rw [modifyBody, modify, List.modify_eq_set_getElem?, ho']
      rfl
    rw [placed, hset]
    exact (List.set_perm_cons_eraseIdx (lt_length_of_get? ho) _).flatMap_right fun o => o.body.parts

/-- Objects have lent those of their actions that are held outside. Actions have their serial numbers
to themselves, and no action is in two objects. -/
structure Lending (held aside : List Part) (n : Nat) (r : Registry Object) : Prop where
  nodup : ((aside ++ r.placed).map (·.serial)).Nodup
  agree : Part.Agree (held ++ r.placed)
  aside : ∀ p ∈ aside, p ∈ held
  below : ∀ p ∈ held ++ r.placed, p.serial < n
  lent : ∀ o ∈ r.objects, ∀ p ∈ o.body.parts,
    p.serial ∈ o.body.lent ↔ p.serial ∈ held.map (·.serial)
  /-- No action that is still to be built is lent. -/
  lentBelow : ∀ o ∈ r.objects, ∀ s ∈ o.body.lent, s < n
  /-- An object that was cleaned up holds nothing. -/
  vacant : ∀ o ∈ r.objects, o.cleaned = true → o.body.parts = []

theorem lending_empty (n : Nat) : (empty : Registry Object).Lending [] [] n where
  nodup := .nil
  agree := nofun
  aside := nofun
  below := nofun
  lent := nofun
  lentBelow := nofun
  vacant := nofun

namespace Lending

theorem mono (h : r.Lending held aside n) (hn : n ≤ m) : r.Lending held aside m :=
  ⟨h.nodup, h.agree, h.aside, fun p hp => Nat.lt_of_lt_of_le (h.below p hp) hn, h.lent,
    fun o ho s hs => Nat.lt_of_lt_of_le (h.lentBelow o ho s hs) hn, h.vacant⟩

theorem nodup_placed (h : r.Lending held aside n) : (r.placed.map (·.serial)).Nodup :=
  h.nodup.sublist ((List.sublist_append_right _ _).map _)

/-- New actions have other serial numbers than what is held. -/
theorem apart (h : r.Lending held aside n) (hnew : Part.Numbered n m new) {p q : Part}
    (hp : p ∈ new) (hq : q ∈ held ++ r.placed) : q.serial ≠ p.serial :=
  Nat.ne_of_lt (Nat.lt_of_lt_of_le (h.below q hq) (hnew.bounded p hp).1)

/-- It matters only which parts are held. -/
theorem congr (h : r.Lending held aside n) (hmem : ∀ p, p ∈ held' ↔ p ∈ held) :
    r.Lending held' aside n where
  nodup := h.nodup
  agree := h.agree.subset fun p hp => by simpa [hmem] using hp
  aside p hp := (hmem p).2 (h.aside p hp)
  below p hp := h.below p (by simpa [hmem] using hp)
  lent o ho p hp := by simp [h.lent o ho p hp, hmem]
  lentBelow := h.lentBelow
  vacant := h.vacant

/-- Some of what was set aside is not any more. -/
theorem setFree (h : r.Lending held aside n) (hperm : aside.Perm (gone ++ aside')) :
    r.Lending held aside' n where
  nodup := by
    have hall := (hperm.append_right r.placed).map (·.serial) |>.nodup_iff.1 h.nodup
    rw [List.append_assoc] at hall
    exact hall.sublist ((List.sublist_append_right _ _).map _)
  agree := h.agree
  aside p hp := h.aside p (hperm.mem_iff.2 (List.mem_append_right _ hp))
  below := h.below
  lent := h.lent
  lentBelow := h.lentBelow
  vacant := h.vacant

/-- New actions are held outside and set aside. -/
theorem gain (h : r.Lending held aside n) (hnew : Part.Numbered n m new) (hn : n ≤ m) :
    r.Lending (new ++ held) (new ++ aside) m where
  nodup := by
    have haside : ∀ p ∈ aside ++ r.placed, p.serial < n := fun p hp => by
      rcases List.mem_append.1 hp with hp | hp
      · exact h.below p (List.mem_append_left _ (h.aside p hp))
      · exact h.below p (List.mem_append_right _ hp)
    have hold : Part.Numbered 0 n (aside ++ r.placed) :=
      ⟨h.nodup, fun p hp => ⟨Nat.zero_le _, haside p hp⟩⟩
    rw [List.append_assoc]
    exact (List.perm_append_comm.map _).nodup_iff.1 (hold.append hnew (Nat.zero_le n) hn).nodup
  agree := by
    rw [List.append_assoc]
    exact hnew.agree h.below h.agree
  aside p hp := by
    rcases List.mem_append.1 hp with hp | hp
    · exact List.mem_append_left _ hp
    · exact List.mem_append_right _ (h.aside p hp)
  below p hp := by
    rw [List.append_assoc] at hp
    rcases List.mem_append.1 hp with hp | hp
    · exact (hnew.bounded p hp).2
    · exact Nat.lt_of_lt_of_le (h.below p hp) hn
  lent o ho p hp := by
    rw [h.lent o ho p hp, List.map_append, List.mem_append]
    refine ⟨.inr, fun hs => hs.resolve_left fun hs => ?_⟩
    obtain ⟨q, hq, heq⟩ := List.mem_map.1 hs
    exact absurd heq.symm (h.apart hnew hq (List.mem_append_right _ (mem_placed.2 ⟨o, ho, hp⟩)))
  lentBelow o ho s hs := Nat.lt_of_lt_of_le (h.lentBelow o ho s hs) hn
  vacant := h.vacant

/-- New actions are held outside. -/
theorem hold (h : r.Lending held aside n) (hnew : Part.Numbered n m new) (hn : n ≤ m) :
    r.Lending (new ++ held) aside m :=
  (h.gain hnew hn).setFree (.refl _)

/-! ### Changes of objects -/

/-- An object after it has lost all of its actions, or none. -/
structure Wanes (o o' : Registered Object) : Prop where
  parts : o'.body.parts = o.body.parts ∧ o'.cleaned = o.cleaned ∨ o'.body.parts = []
  lent : o'.body.lent = o.body.lent

theorem Wanes.of_change {o o' : Registered Object} (h : Registered.Change o o') : Wanes o o' := by
  cases h with
  | counted => exact ⟨.inl ⟨rfl, rfl⟩, rfl⟩
  | cleanedUp =>
    exact ⟨.inr (Object.parts_vacate _), (Object.lent_vacate _).trans (Object.lent_countCleanup _)⟩
  | abandoned => exact ⟨.inr (Object.parts_vacate _), Object.lent_vacate _⟩

theorem forall₂_of_rel {R : Registered Object → Registered Object → Prop}
    {l l' : List (Registered Object)} (h : ∀ i : Nat, Option.Rel R l[i]? l'[i]?) :
    List.Forall₂ R l l' := by
  induction l generalizing l' with
  | nil =>
    cases l' with
    | nil => exact .nil
    | cons o' os' => simpa using h 0
  | cons o os ih =>
    cases l' with
    | nil => simpa using h 0
    | cons o' os' => exact .cons (by simpa using h 0) (ih fun i => by simpa using h (i + 1))

theorem sublist_parts {l l' : List (Registered Object)} (h : List.Forall₂ Wanes l l') :
    (l'.flatMap fun o => o.body.parts).Sublist (l.flatMap fun o => o.body.parts) := by
  induction h with
  | nil => exact .refl _
  | cons ho _ ih =>
    rw [List.flatMap_cons, List.flatMap_cons]
    refine List.Sublist.append ?_ ih
    rcases ho.parts with ⟨hparts, -⟩ | hparts
    · rw [hparts]
    · rw [hparts]
      exact List.nil_sublist _

/-- Objects may lose actions. -/
theorem wane (h : r.Lending held aside n) (hobjects : ∀ i, Option.Rel Wanes (r.get? i) (r'.get? i)) :
    r'.Lending held aside n := by
  have hback {o' : Registered Object} (ho' : o' ∈ r'.objects) : ∃ o ∈ r.objects, Wanes o o' := by
    obtain ⟨i, hi⟩ := List.mem_iff_getElem?.1 ho'
    have hrel := hobjects i
    rw [show r'.get? i = some o' from hi] at hrel
    generalize hold : r.get? i = old at hrel
    cases hrel with
    | some hwanes => exact ⟨_, List.mem_of_getElem? hold, hwanes⟩
  have hsub : r'.placed.Sublist r.placed := sublist_parts (forall₂_of_rel hobjects)
  have hmem {p : Part} (hp : p ∈ held ++ r'.placed) : p ∈ held ++ r.placed :=
    ((List.Sublist.refl held).append hsub).subset hp
  constructor
  case nodup => exact h.nodup.sublist (((List.Sublist.refl aside).append hsub).map _)
  case agree => exact h.agree.subset fun _ => hmem
  case aside => exact h.aside
  case below => exact fun p hp => h.below p (hmem hp)
  case lent =>
    intro o' ho' p hp
    obtain ⟨o, ho, hwanes⟩ := hback ho'
    rcases hwanes.parts with ⟨hparts, -⟩ | hparts
    · rw [hwanes.lent]
      exact h.lent o ho p (hparts ▸ hp)
    · rw [hparts] at hp
      cases hp
  case lentBelow =>
    intro o' ho' s hs
    obtain ⟨o, ho, hwanes⟩ := hback ho'
    exact h.lentBelow o ho s (hwanes.lent ▸ hs)
  case vacant =>
    intro o' ho' hc
    obtain ⟨o, ho, hwanes⟩ := hback ho'
    rcases hwanes.parts with ⟨hparts, hcleaned⟩ | hparts
    · rw [hparts]
      exact h.vacant o ho (hcleaned ▸ hc)
    · exact hparts

theorem settle (h : r.Lending held aside n) (ts : List Task) : (r.settle ts).Lending held aside n :=
  settle_induction (P := fun r _ => r.Lending held aside n) (fun r t _ h => h.wane fun i => by
    have hi := step_change r t i
    generalize r.get? i = x at hi ⊢
    generalize (r.step t).1.get? i = y at hi ⊢
    cases hi with
    | none => exact .none
    | some h => exact .some (.of_change h)) r ts h

theorem releaseAll (h : r.Lending held aside n) (serials : List Nat) :
    (r.releaseAll serials).Lending held aside n := by
  induction serials generalizing r with
  | nil => exact h
  | cons i serials ih => exact ih (h.settle _)

theorem takeAll (h : r.Lending held aside n) (serials : List Nat) :
    (r.takeAll serials).Lending held aside n := by
  induction serials generalizing r with
  | nil => exact h
  | cons i serials ih =>
    exact ih (h.wane (rel_modify (fun _ => ⟨.inl ⟨rfl, rfl⟩, rfl⟩) fun _ _ => ⟨.inl ⟨rfl, rfl⟩, rfl⟩))

/-- An object gives up some actions and gets new ones. -/
theorem replace {f : Object → Object} (h : r.Lending held aside n) (ho : r.get? i = some o)
    (hc : o.cleaned = false) (hlent : (f o.body).lent = o.body.lent)
    (hnew : Part.Numbered n m new) (hn : n ≤ m) (hold : o.body.parts.Perm (gone ++ kept))
    (hparts : (f o.body).parts.Perm (new ++ kept)) : (r.modifyBody i f).Lending held aside m := by
  obtain ⟨rest, hplaced, hplaced'⟩ := exists_perm_placed ho f
  replace hplaced := hplaced.trans (hold.append_right rest)
  replace hplaced' := hplaced'.trans (hparts.append_right rest)
  have hsub {p : Part} (hp : p ∈ kept ++ rest) : p ∈ r.placed := by
    rw [hplaced.mem_iff, List.append_assoc]
    exact List.mem_append_right _ hp
  have hobject {o' : Registered Object} (ho' : o' ∈ (r.modifyBody i f).objects) :
      o' = { o with body := f o.body } ∨ o' ∈ r.objects := by
    obtain ⟨j, hj⟩ := List.mem_iff_getElem?.1 ho'
    rcases get?_modify_cases ho hj with ⟨-, rfl⟩ | ⟨-, hj⟩
    · exact .inl rfl
    · exact .inr (List.mem_of_getElem? hj)
  have hmem := List.mem_of_getElem? ho
  have hgain : ∀ p ∈ (new ++ held) ++ r.placed, p.serial < m := (h.hold hnew hn).below
  have hall {p : Part} (hp : p ∈ held ++ (r.modifyBody i f).placed) :
      p ∈ (new ++ held) ++ r.placed := by
    rcases List.mem_append.1 hp with hp | hp
    · exact List.mem_append_left _ (List.mem_append_right _ hp)
    · rw [hplaced'.mem_iff, List.append_assoc] at hp
      rcases List.mem_append.1 hp with hp | hp
      · exact List.mem_append_left _ (List.mem_append_left _ hp)
      · exact List.mem_append_right _ (hsub hp)
  constructor
  case nodup =>
    have hwide := (h.gain hnew hn).nodup
    have hperm : (new ++ aside ++ r.placed).Perm (gone ++ (aside ++ (new ++ kept ++ rest))) := by
      refine (hplaced.append_left _).trans (List.perm_iff_count.2 fun p => ?_)
      simp only [List.count_append]
      omega
    have hnodup := ((hperm.map _).nodup_iff.1 hwide).sublist
      ((List.sublist_append_right gone _).map _)
    exact ((hplaced'.append_left aside).map _).nodup_iff.2 hnodup
  case agree => exact (h.hold hnew hn).agree.subset fun _ => hall
  case aside => exact h.aside
  case below => exact fun p hp => hgain p (hall hp)
  case lent =>
    intro o' ho' p hp
    rcases hobject ho' with rfl | ho'
    · change p.serial ∈ (f o.body).lent ↔ _
      rw [hlent]
      rcases List.mem_append.1 (hparts.mem_iff.1 hp) with hp | hp
      · refine ⟨fun hs => ?_, fun hs => ?_⟩
        · have hlow := h.lentBelow o hmem _ hs
          exact absurd hlow (Nat.not_lt.2 (hnew.bounded p hp).1)
        · obtain ⟨q, hq, heq⟩ := List.mem_map.1 hs
          exact absurd heq (h.apart hnew hp (List.mem_append_left _ hq))
      · exact h.lent o hmem p (hold.mem_iff.2 (List.mem_append_right _ hp))
    · exact h.lent o' ho' p hp
  case lentBelow =>
    intro o' ho' s hs
    rcases hobject ho' with rfl | ho'
    · exact Nat.lt_of_lt_of_le (h.lentBelow o hmem s (hlent ▸ hs)) hn
    · exact Nat.lt_of_lt_of_le (h.lentBelow o' ho' s hs) hn
  case vacant =>
    intro o' ho' hc'
    rcases hobject ho' with rfl | ho'
    · simp [hc] at hc'
    · exact h.vacant o' ho' hc'

/-- An object is registered with actions that were set aside, and lends those that are still held
outside. -/
theorem insert {body : Object} {id : String} {nid : Nat} (h : r.Lending held aside n)
    (hins : r.insert id body = .ok (nid, r')) (haside : aside.Perm (body.parts ++ aside'))
    (hheld : ∀ p, p ∈ held ↔ p ∈ body.parts ∨ p ∈ held') (hkept : ∀ p ∈ aside', p ∈ held')
    (hlent : ∀ p ∈ body.parts, p.serial ∈ body.lent ↔ p.serial ∈ held'.map (·.serial))
    (hbelow : ∀ s ∈ body.lent, s < n) : r'.Lending held' aside' n := by
  have hobjects := objects_of_insert hins
  have hplaced : r'.placed = r.placed ++ body.parts := by simp [placed, hobjects]
  have hobject {o' : Registered Object} (ho' : o' ∈ r'.objects) :
      o' ∈ r.objects ∨ o' = ⟨id, nid, 1, 0, false, body⟩ := by
    rw [hobjects] at ho'
    simpa using ho'
  have hall {p : Part} (hp : p ∈ held' ++ r'.placed) : p ∈ held ++ r.placed := by
    rw [hplaced] at hp
    rcases List.mem_append.1 hp with hp | hp
    · exact List.mem_append_left _ ((hheld p).2 (.inr hp))
    · rcases List.mem_append.1 hp with hp | hp
      · exact List.mem_append_right _ hp
      · exact List.mem_append_left _ ((hheld p).2 (.inl hp))
  have hperm : (aside ++ r.placed).Perm (aside' ++ r'.placed) := by
    refine (haside.append_right _).trans (List.perm_iff_count.2 fun p => ?_)
    simp only [hplaced, List.count_append]
    omega
  constructor
  case nodup => exact (hperm.map _).nodup_iff.1 h.nodup
  case agree => exact h.agree.subset fun _ => hall
  case aside => exact hkept
  case below => exact fun p hp => h.below p (hall hp)
  case lent =>
    intro o' ho' p hp
    rcases hobject ho' with ho' | rfl
    · have hbody : p.serial ∉ body.parts.map (·.serial) := fun hs => by
        have hnodup := ((haside.append_right r.placed).map _).nodup_iff.1 h.nodup
        rw [List.map_append, List.map_append, List.append_assoc] at hnodup
        exact List.disjoint_of_nodup_append hnodup hs
          (List.mem_append_right _ (List.mem_map_of_mem (mem_placed.2 ⟨o', ho', hp⟩)))
      rw [h.lent o' ho' p hp]
      constructor
      · intro hs
        obtain ⟨q, hq, heq⟩ := List.mem_map.1 hs
        rcases (hheld q).1 hq with hq | hq
        · exact absurd (heq ▸ List.mem_map_of_mem hq) hbody
        · exact heq ▸ List.mem_map_of_mem hq
      · intro hs
        obtain ⟨q, hq, heq⟩ := List.mem_map.1 hs
        exact heq ▸ List.mem_map_of_mem ((hheld q).2 (.inr hq))
    · exact hlent p hp
  case lentBelow =>
    intro o' ho' s hs
    rcases hobject ho' with ho' | rfl
    · exact h.lentBelow o' ho' s hs
    · exact hbelow s hs
  case vacant =>
    intro o' ho' hc
    rcases hobject ho' with ho' | rfl
    · exact h.vacant o' ho' hc
    · cases hc

/-- An object is registered with new actions. -/
theorem insertNew {body : Object} {id : String} {nid : Nat} (h : r.Lending held aside n)
    (hins : r.insert id body = .ok (nid, r')) (hnew : Part.Numbered n m body.parts) (hn : n ≤ m)
    (hlent : body.lent = []) : r'.Lending held aside m := by
  refine (h.gain hnew hn).insert hins (.refl _) (fun p => List.mem_append) h.aside (fun p hp => ?_)
    (by simp [hlent])
  simp only [hlent, List.not_mem_nil, false_iff]
  intro hs
  obtain ⟨q, hq, heq⟩ := List.mem_map.1 hs
  exact absurd heq (h.apart hnew hp (List.mem_append_left _ hq))

/-- What is lent is put right. -/
theorem lend (h : r.Lending held aside n) (hheld : ∀ p ∈ held', p ∈ held ++ r.placed)
    (haside : ∀ p ∈ aside, p ∈ held') :
    (r.mapBodies (Object.lend (held'.map (·.serial)))).Lending held' aside n := by
  have hobject {o' : Registered Object}
      (ho' : o' ∈ (r.mapBodies (Object.lend (held'.map (·.serial)))).objects) :
      ∃ o ∈ r.objects, o' = { o with body := o.body.lend (held'.map (·.serial)) } := by
    obtain ⟨o, ho, rfl⟩ := List.mem_map.1 ho'
    exact ⟨o, ho, rfl⟩
  have hall {p : Part} (hp : p ∈ held' ++ r.placed) : p ∈ held ++ r.placed := by
    rcases List.mem_append.1 hp with hp | hp
    · exact hheld p hp
    · exact List.mem_append_right _ hp
  constructor
  case nodup => exact placed_lend r _ ▸ h.nodup
  case agree =>
    rw [placed_lend]
    exact h.agree.subset fun _ => hall
  case aside => exact haside
  case below =>
    rw [placed_lend]
    exact fun p hp => h.below p (hall hp)
  case lent =>
    intro o' ho' p hp
    obtain ⟨o, -, rfl⟩ := hobject ho'
    cases hbody : o.body with
    | port | table => rfl
    | counter | flowCounter =>
      rw [hbody] at hp
      cases hp
  case lentBelow =>
    intro o' ho' s hs
    obtain ⟨o, -, rfl⟩ := hobject ho'
    cases hbody : o.body with
    | port | table =>
      rw [hbody] at hs
      obtain ⟨p, hp, rfl⟩ := List.mem_map.1 hs
      exact h.below p (hheld p hp)
    | counter | flowCounter =>
      rw [hbody] at hs
      cases hs
  case vacant =>
    intro o' ho' hc
    obtain ⟨o, ho, rfl⟩ := hobject ho'
    rw [Object.parts_lend]
    exact h.vacant o ho hc

/-! ### Counting everything once -/

theorem ownedRefs_eq (h : r.Lending held aside n) :
    ownedRefs r.objects = Part.refsOf (Part.beyond (held.map (·.serial)) r.placed) := by
  have hown : ∀ o ∈ r.objects, Composite.owned o.body =
      Part.refsOf (Part.beyond (held.map (·.serial)) o.body.parts) := fun o ho => by
    change Part.refsOf (Part.beyond o.body.lent o.body.parts) = _
    refine congrArg Part.refsOf (List.filter_congr fun p hp => ?_)
    simp [h.lent o ho p hp]
  rw [ownedRefs, List.flatMap_congr hown, placed, Part.refsOf, Part.beyond, List.filter_flatMap,
    List.flatMap_assoc]
  rfl

/-- What is held outside and what objects own is what everything that is held anywhere refers to,
each action counted once. -/
theorem perm_refs (h : r.Lending held aside n) :
    (Part.refsOf (Part.distinct held) ++ ownedRefs r.objects).Perm
      (Part.refsOf (Part.distinct (held ++ r.placed))) := by
  rw [h.ownedRefs_eq, ← Part.refsOf_append]
  exact Part.perm_refsOf (Part.perm_distinct_append h.agree h.nodup_placed)

end Lending

end Registry

/-- What lending and releasing keep is kept when actions are let go outside. -/
theorem Context.letGo_induction {P : Context → Prop}
    (hlend : ∀ {c : Context} (serials : List Nat), P c → P (c.lend serials))
    (hrelease : ∀ {c : Context} (serials : List Nat), P c → P (c.release serials))
    (held gone : List Part) {c : Context} (h : P c) : P (c.letGo held gone) := by
  induction gone generalizing c with
  | nil => exact h
  | cons p rest ih =>
    rw [Context.letGo]
    split_ifs
    · exact ih (hlend _ h)
    · exact ih (hrelease _ (hlend _ h))

end Dataplane

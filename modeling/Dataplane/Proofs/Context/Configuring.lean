import Dataplane.Context.Objects
import Dataplane.Proofs.Context.Building
import Dataplane.Proofs.Context.Lending
import Mathlib.Data.Multiset.OrderedMonoid

/-!
# Counts while objects are configured

Registering and configuring objects keeps the counts of references right: what a table or a port
comes to own was taken when its actions were built, and what it owns no longer is released, or left to
those outside who hold the same actions.

## The model

`Context.Ready held forced n c` says that the counts in the context `c` are right while the
references in `held` are held outside and the objects in `forced` were forced out, and
`Context.Lends outside aside c` that objects have lent what is held outside. Each operation has a
lemma that starts from a context with both and ends in one; an operation that builds actions has one
that says besides that a failure leaves the registry as it was. `Ready.exchange` is the change of an
object that all of them are made of, and `Ready.letGo` the change of what is held outside.
-/

namespace Dataplane

namespace Table

variable {α : Type} {t t' : Table α} {id : String} {actions : List α}

theorem allActions_insert? {pos : Position} (h : t.insert? id actions pos = some t') :
    t'.allActions.Perm (actions ++ t.allActions) := by
  unfold insert? at h
  split_ifs at h
  cases pos with
  | head =>
    cases h
    simp [allActions]
  | tail =>
    cases h
    simp only [allActions, ← List.append_assoc]
    exact List.perm_append_comm.append_right _

theorem allActions_remove? (h : t.remove? id = some (t', actions)) :
    t.allActions.Perm (actions ++ t'.allActions) := by
  obtain ⟨span, -, heq⟩ := Option.map_eq_some_iff.1 h
  cases heq
  have hlist : t.list = t.list.take span.start ++
      (t.slice span ++ t.list.drop (span.start + span.len)) := by
    rw [slice, ← List.drop_drop, List.take_append_drop, List.take_append_drop]
  have hperm : t.list.Perm
      (t.slice span ++ (t.list.take span.start ++ t.list.drop (span.start + span.len))) := by
    conv_lhs => rw [hlist]
    exact List.perm_append_comm_assoc _ _ _
  simpa [allActions] using hperm.append_right t.default

theorem mem_of_mem_lookup {a : α} (h : a ∈ t.lookup) : a ∈ t.allActions := by
  unfold lookup at h
  split_ifs at h
  · exact List.mem_append_right _ h
  · exact List.mem_append_left _ h

end Table

namespace Context

open Attempt

variable {r : Registry Object} {held : Multiset Nat} {forced taken serials : List Nat}
  {outside aside new gone kept : List Part} {n m : Nat} {c c' : Context} {i : Nat}
  {o : Registered Object}

/-- The context is open, the counts in it are right, and serial numbers are given to actions from
the given one on. -/
structure Ready (held : Multiset Nat) (forced : List Nat) (n : Nat) (c : Context) : Prop where
  balanced : c.registry.Balanced held forced []
  isOpen : c.isOpen = true
  serial : n ≤ c.nextSerial

theorem Holding.ready (h : Holding r taken n c) (hr : r.Balanced held forced []) :
    Ready ((taken : Multiset Nat) + held) forced n c :=
  ⟨h.registry ▸ hr.takeAll h.anchored, h.isOpen, h.serial⟩

theorem Ready.holding (h : Ready held forced n c) : Holding c.registry [] n c :=
  ⟨rfl, by simp, h.isOpen, h.serial⟩

/-- Held references are released. -/
theorem Ready.release (h : Ready ((serials : Multiset Nat) + held) forced n c) :
    Ready held forced n (c.release serials) := by
  rw [Context.release, if_pos h.isOpen]
  exact ⟨h.balanced.dropAll, h.isOpen, h.serial⟩

theorem Ready.notify (h : Ready held forced n c) (e : Notification) :
    Ready held forced n (c.notify e) := by
  rw [Context.notify]
  split_ifs
  · exact ⟨h.balanced, h.isOpen, h.serial⟩
  · exact h

/-- Objects have lent those of their actions that are held outside. -/
def Lends (outside aside : List Part) (c : Context) : Prop :=
  c.registry.Lending outside aside c.nextSerial

theorem Holding.lends (h : Holding r taken n c) (hl : r.Lending outside aside n) :
    c.Lends outside aside := by
  rw [Lends, h.registry]
  exact (hl.takeAll taken).mono h.serial

theorem nextSerial_release (c : Context) (serials : List Nat) :
    (c.release serials).nextSerial = c.nextSerial := by
  rw [Context.release]
  split_ifs <;> rfl

theorem Lends.release (h : c.Lends outside aside) (serials : List Nat) :
    (c.release serials).Lends outside aside := by
  rw [Lends, nextSerial_release, Context.release]
  split_ifs
  · exact h.releaseAll serials
  · exact h

theorem Lends.notify (h : c.Lends outside aside) (e : Notification) :
    (c.notify e).Lends outside aside := by
  rw [Context.notify]
  split_ifs <;> exact h

/-- An object that was not cleaned up gives up some actions and gets new ones. The references of those
that it gives up and has not lent are held outside then. -/
theorem Ready.exchange {f : Object → Object}
    (h : Ready ((Part.refsOf new : Multiset Nat) + held) forced n c)
    (hl : c.registry.Lending outside aside n) (ho : c.registry.get? i = some o)
    (hc : o.cleaned = false) (hlent : (f o.body).lent = o.body.lent)
    (hnew : Part.Numbered n m new) (hn : n ≤ m) (hm : m ≤ c.nextSerial)
    (hold : o.body.parts.Perm (gone ++ kept)) (hparts : (f o.body).parts.Perm (new ++ kept)) :
    Ready ((Part.refsOf (Part.beyond o.body.lent gone) : Multiset Nat) + held) forced n
      (c.modifyBody i f) ∧ (c.modifyBody i f).Lends outside aside := by
  refine ⟨⟨h.balanced.modifyBody ho (fun hc' => by simp [hc] at hc') ?_, h.isOpen, h.serial⟩,
    (hl.replace ho hc hlent hnew hn hold hparts).mono hm⟩
  have hunlent : Part.beyond o.body.lent new = new := Part.beyond_of_disjoint fun p hp hs => by
    have := hl.lentBelow o (List.mem_of_getElem? ho) _ hs
    have := (hnew.bounded p hp).1
    omega
  have hown := Part.perm_refsOf (Part.perm_beyond o.body.lent hold)
  have hown' := Part.perm_refsOf (Part.perm_beyond o.body.lent hparts)
  rw [Part.beyond_append, Part.refsOf_append] at hown hown'
  rw [hunlent] at hown'
  change (_ : Multiset Nat) + (Part.refsOf (Part.beyond (f o.body).lent (f o.body).parts) :
    Multiset Nat) = _ + (Part.refsOf (Part.beyond o.body.lent o.body.parts) : Multiset Nat)
  rw [hlent, Multiset.coe_eq_coe.2 hown, Multiset.coe_eq_coe.2 hown', ← Multiset.coe_add,
    ← Multiset.coe_add]
  ac_rfl

/-- An object that was not cleaned up gives up some actions. -/
theorem Ready.giveUp {f : Object → Object} (h : Ready held forced n c)
    (hl : c.registry.Lending outside aside n) (ho : c.registry.get? i = some o)
    (hc : o.cleaned = false) (hlent : (f o.body).lent = o.body.lent)
    (hold : o.body.parts.Perm (gone ++ (f o.body).parts)) :
    Ready ((Part.refsOf (Part.beyond o.body.lent gone) : Multiset Nat) + held) forced n
      (c.modifyBody i f) ∧ (c.modifyBody i f).Lends outside aside :=
  Ready.exchange (by simpa [Part.refsOf] using h) hl ho hc hlent (Part.numbered_nil n n)
    (Nat.le_refl n) h.serial hold (.refl _)

theorem givenUp_eq (ho : c.registry.get? i = some o) (l : ActionList) :
    c.givenUp i l = Part.refsOf (Part.beyond o.body.lent (Action.partsOfList l)) := by
  simp [givenUp, body?, ho]

theorem get?_of_table {t : Table (Listed Action)} (h : (c.body? i >>= Object.table?) = some t) :
    ∃ o lent, c.registry.get? i = some o ∧ o.body = .table t lent := by
  obtain ⟨b, hb, ht⟩ := Option.bind_eq_some_iff.1 h
  obtain ⟨o, ho, rfl⟩ := Option.map_eq_some_iff.1 hb
  cases hbody : o.body with
  | table t' lent =>
    rw [hbody] at ht
    cases ht
    exact ⟨o, lent, ho, hbody⟩
  | _ =>
    rw [hbody] at ht
    cases ht

/-! ### Registering and removing -/

theorem insert_of_addObject {id : String} {body : Object} {nid : Nat}
    (hadd : c.addObject id body = .ok (nid, c')) :
    c.registry.insert id body = .ok (nid, c'.registry) ∧ c'.nextSerial = c.nextSerial := by
  obtain ⟨⟨nid', r'⟩, hins, heq⟩ := bind_eq_ok_iff.1 hadd
  cases heq
  rw [hins, Context.notify]
  split_ifs <;> exact ⟨rfl, rfl⟩

/-- An object is registered with the references it owns, or nothing changes. -/
theorem addObject_spec {id : String} {body : Object} {nid : Nat}
    (h : Ready ((Composite.owned body : Multiset Nat) + held) forced n c)
    (hadd : c.addObject id body = .ok (nid, c')) : Ready held forced n c' := by
  obtain ⟨⟨nid', r'⟩, hins, heq⟩ := bind_eq_ok_iff.1 hadd
  cases heq
  have hready : Ready held forced n (c.withRegistry r') :=
    ⟨h.balanced.insert hins, h.isOpen, h.serial⟩
  exact hready.notify _

/-- An object is taken out, or forced out. -/
theorem Ready.remove {id : String} {force : Bool} {nid : Nat} (h : Ready held forced n c)
    (hrem : c.registry.remove id force = .ok (nid, r)) :
    ∃ i, Ready held (if force then i :: forced else forced) n (c.withRegistry r) := by
  rw [h.balanced.toIndexed.remove_eq] at hrem
  obtain ⟨ref, hfind, heq⟩ := map_eq_ok_iff.1 hrem
  cases heq
  obtain ⟨i, o, hi, -, rfl⟩ := Registry.findId_eq_ok_iff.1 hfind
  exact ⟨i, h.balanced.remove force hi, h.isOpen, h.serial⟩

theorem Lends.remove {id : String} {force : Bool} {nid : Nat} (h : c.Lends outside aside)
    (hrem : c.registry.remove id force = .ok (nid, r)) :
    (c.withRegistry r).Lends outside aside := by
  unfold Registry.remove at hrem
  split at hrem
  · cases hrem
  · split at hrem
    · cases hrem
    · cases hrem
      exact Registry.Lending.settle (r := { c.registry with ids := c.registry.ids.erase id })
        ⟨h.nodup, h.agree, h.aside, h.below, h.lent, h.lentBelow, h.vacant⟩ _

theorem removeObject_spec {id : String} (h : Ready held forced n c) (hl : c.Lends outside aside)
    (hremoved : c.removeObject id = .ok c') :
    Ready held forced n c' ∧ c'.Lends outside aside := by
  obtain ⟨⟨nid, r'⟩, hrem, heq⟩ := bind_eq_ok_iff.1 hremoved
  cases heq
  obtain ⟨i, hready⟩ := h.remove hrem
  exact ⟨hready.notify _, (hl.remove hrem).notify _⟩

/-! ### Tables -/

/-- A table is registered with its default actions, or nothing is taken. -/
theorem createTable_spec (hr : r.Balanced held forced []) (hl : r.Lending outside aside n)
    (id : String) (config : TableConfig) :
    Triple (Holding r [] n) (createTable id config)
      (fun _ c => Ready held forced n c ∧ c.Lends outside aside) (Holding r [] n) := by
  unfold createTable
  refine Triple.bind (Build.actions_spec hr config.defaultActions) fun actions => ?_
  refine Triple.get_bind fun s hs => ?_
  obtain ⟨m, hn, hnew, hs⟩ := hs
  have hready : Ready ((Action.refsOfList actions : Multiset Nat) + held) forced n s :=
    (hs.mono hn).ready hr
  split
  · rename_i nid c hadd
    have hunlent : Part.beyond [] (Action.partsOfList actions) = Action.partsOfList actions :=
      Part.beyond_of_disjoint fun p _ => List.not_mem_nil
    have howned : Composite.owned (Object.table (.empty actions) []) = Action.refsOfList actions :=
      congrArg Part.refsOf hunlent
    obtain ⟨hins, hserial⟩ := insert_of_addObject hadd
    have hlent : s.registry.Lending outside aside n := hs.registry ▸ hl.takeAll _
    have hlends : c.Lends outside aside :=
      (hlent.insertNew hins hnew hn rfl).mono (hserial ▸ hs.serial)
    exact Triple.bind (R := fun _ c => Ready held forced n c ∧ c.Lends outside aside)
      (Triple.set fun _ _ => ⟨addObject_spec (howned ▸ hready) hadd, hlends⟩)
      fun _ => Triple.pure fun _ h => h
  · refine Triple.bind (R := fun _ => Holding r [] n) (Triple.modify ?_) fun _ =>
      Triple.throw fun _ h => h
    rintro c rfl
    exact Holding.release (hs.mono hn)

/-- An entry is added to a table, or nothing is taken. -/
theorem addEntryTo_spec (hr : r.Balanced held forced []) (hl : r.Lending outside aside n)
    (ho : r.get? i = some o) (hc : o.cleaned = false) (entry : String) (config : EntryConfig) :
    Triple (Holding r [] n) (addEntryTo i entry config)
      (fun _ c => Ready held forced n c ∧ c.Lends outside aside) (Holding r [] n) := by
  unfold addEntryTo
  refine Triple.bind (Build.actions_spec hr config.actions).adapt fun actions => ?_
  refine Triple.get_bind fun s hs => ?_
  obtain ⟨m, hn, hnew, hs⟩ := hs
  split
  · rename_i t' hins
    refine Triple.modify ?_
    rintro c rfl
    obtain ⟨t, ht, hins⟩ := Option.bind_eq_some_iff.1 hins
    obtain ⟨o', lent, ho', hbody⟩ := get?_of_table ht
    obtain ⟨o'', ho'', -, hcleaned⟩ := Registry.get?_takeAll ho (Action.refsOfList actions)
    rw [← hs.registry] at ho''
    obtain rfl : o' = o'' := Option.some.inj (ho'.symm.trans ho'')
    have hparts : (Object.modifyTable (fun _ => t') o'.body).parts.Perm
        (Action.partsOfList actions ++ o'.body.parts) := by
      rw [hbody, Object.parts, Object.parts, ← Action.partsOfList_append]
      exact Action.perm_partsOfList (Table.allActions_insert? hins)
    have hold : o'.body.parts.Perm ([] ++ o'.body.parts) := .refl _
    obtain ⟨hready, hlends⟩ := Ready.exchange ((hs.mono hn).ready hr)
      (hs.registry ▸ hl.takeAll _) ho' (hcleaned.trans hc) (by rw [hbody]; rfl) hnew hn hs.serial
      hold hparts
    exact ⟨by simpa [Part.beyond, Part.refsOf] using hready, hlends⟩
  · refine Triple.bind (R := fun _ => Holding r [] n) (Triple.modify ?_) fun _ =>
      Triple.throw fun _ h => h
    rintro c rfl
    exact Holding.release (hs.mono hn)

/-- An entry is removed from a table, or nothing changes. -/
theorem removeEntryOf_spec (hr : r.Balanced held forced []) (hl : r.Lending outside aside n)
    (ho : r.get? i = some o) (hc : o.cleaned = false) (entry : String) :
    Triple (Holding r [] n) (removeEntryOf i entry)
      (fun _ c => Ready held forced n c ∧ c.Lends outside aside) (Holding r [] n) := by
  unfold removeEntryOf
  refine Triple.get_bind fun s hs => ?_
  split
  · rename_i t' actions hrem
    refine Triple.modify ?_
    rintro c rfl
    obtain ⟨t, ht, hrem⟩ := Option.bind_eq_some_iff.1 hrem
    obtain ⟨o', lent, ho', hbody⟩ := get?_of_table ht
    have hregistry : c.registry = r := hs.registry
    obtain rfl : o = o' := Option.some.inj (ho.symm.trans (hregistry ▸ ho'))
    have hold : o.body.parts.Perm (Action.partsOfList actions ++
        (Object.modifyTable (fun _ => t') o.body).parts) := by
      rw [hbody, Object.parts, Object.parts, ← Action.partsOfList_append]
      exact Action.perm_partsOfList (Table.allActions_remove? hrem)
    have hnow : Ready held forced n c := by simpa using hs.ready hr
    obtain ⟨hready, hlends⟩ := hnow.giveUp (hregistry.symm ▸ hl) ho' hc (by rw [hbody]; rfl) hold
    rw [givenUp_eq ho']
    exact ⟨hready.release, hlends.release _⟩
  · exact Triple.throw fun c hc => hc ▸ hs

/-- The entries of a table are removed. -/
theorem clearTable_spec (h : Ready held forced n c) (hl : c.registry.Lending outside aside n)
    (ho : c.registry.get? i = some o) (hc : o.cleaned = false) :
    Ready held forced n (c.clearTable i) ∧ (c.clearTable i).Lends outside aside := by
  unfold clearTable
  split
  · rename_i t ht
    obtain ⟨o', lent, ho', hbody⟩ := get?_of_table ht
    obtain rfl : o = o' := Option.some.inj (ho.symm.trans ho')
    have hold : o.body.parts.Perm (Action.partsOfList t.list ++
        (Object.modifyTable Table.clear o.body).parts) := by
      rw [hbody, Object.parts, Object.parts, ← Action.partsOfList_append]
      exact .refl _
    obtain ⟨hready, hlends⟩ := h.giveUp hl ho hc (by rw [hbody]; rfl) hold
    rw [givenUp_eq ho]
    exact ⟨hready.release, hlends.release _⟩
  · exact ⟨h, hl.mono h.serial⟩

/-! ### Ports -/

/-- What a port holds besides its actions for a direction. -/
theorem exists_perm_setActions (p : Port) (dir : Direction) (actions : ActionList) (lent : List Nat) :
    ∃ kept, (Object.port p lent).parts.Perm (Action.partsOfList (p.actions dir) ++ kept) ∧
      (Object.port (p.setActions dir actions) lent).parts.Perm
        (Action.partsOfList actions ++ kept) := by
  cases dir with
  | ingress =>
    refine ⟨Action.partsOfList p.tx, ?_, ?_⟩
    · rw [Object.parts, Object.actions, Action.partsOfList_append]
      exact .refl _
    · rw [Object.parts, Object.actions, Action.partsOfList_append]
      exact .refl _
  | egress =>
    refine ⟨Action.partsOfList p.rx, ?_, ?_⟩
    · rw [Object.parts, Object.actions, Action.partsOfList_append]
      exact List.perm_append_comm
    · rw [Object.parts, Object.actions, Action.partsOfList_append]
      exact List.perm_append_comm

/-- The actions of a port are replaced, or nothing is taken. -/
theorem updatePort_spec (hr : r.Balanced held forced []) (hl : r.Lending outside aside n)
    (ho : r.get? i = some o) (hc : o.cleaned = false) {p : Port} {lent : List Nat}
    (hp : o.body = .port p lent) (config : PortConfig) :
    Triple (Holding r [] n) (updatePort i config)
      (fun _ c => Ready held forced n c ∧ c.Lends outside aside) (Holding r [] n) := by
  unfold updatePort
  refine Triple.bind (Build.actions_spec hr config.actions) fun actions => ?_
  refine Triple.get_bind fun s hs => ?_
  obtain ⟨m, hn, hnew, hs⟩ := hs
  refine Triple.modify ?_
  rintro c rfl
  obtain ⟨o', ho', hbody, hcleaned⟩ := Registry.get?_takeAll ho (Action.refsOfList actions)
  rw [← hs.registry] at ho'
  have hport : (c.body? i >>= Object.port?) = some p := by
    simp [body?, ho', hbody, hp, Object.port?]
  obtain ⟨kept, hold, hparts⟩ := exists_perm_setActions p config.dir actions lent
  rw [hport, givenUp_eq ho']
  have hbody' : o'.body = .port p lent := hbody.trans hp
  obtain ⟨hready, hlends⟩ := Ready.exchange ((hs.mono hn).ready hr) (hs.registry ▸ hl.takeAll _) ho'
    (f := .modifyPort (·.setActions config.dir actions)) (hcleaned.trans hc)
    (by rw [hbody']; rfl) hnew hn hs.serial (hbody' ▸ hold) (hbody' ▸ hparts)
  exact ⟨hready.release, hlends.release _⟩

/-! ### What is held outside -/

/-- The references of actions that are held outside, each action counted once. -/
def heldRefs (outside : List Part) : Multiset Nat := (Part.refsOf (Part.distinct outside) : List Nat)

/-- The references of new actions come besides those of the others. -/
theorem heldRefs_append (hnew : Part.Numbered n m new) (houtside : ∀ p ∈ outside, p.serial < n) :
    heldRefs (new ++ outside) = (Part.refsOf new : Multiset Nat) + heldRefs outside := by
  rw [heldRefs, heldRefs, hnew.distinct_append houtside, Part.refsOf_append, Multiset.coe_add]

theorem keeps_iff {serial : Nat} :
    c.keeps serial = true ↔ serial ∈ c.registry.placed.map (·.serial) := by
  simp only [keeps, List.any_eq_true, beq_iff_eq, List.mem_map, Registry.mem_placed]
  constructor
  · rintro ⟨o, ho, p, hp, hs⟩
    exact ⟨p, ⟨o, ho, hp⟩, hs⟩
  · rintro ⟨p, ⟨o, ho, hp⟩, hs⟩
    exact ⟨o, ho, p, hp, hs⟩

/-- Other actions are held outside. What they and the objects refer to no longer is still held. -/
theorem Ready.lend (h : Ready (heldRefs outside) forced n c) (hl : c.Lends outside aside)
    (outside' : List Part) (lost : List Nat)
    (houtside : ∀ p ∈ outside', p ∈ outside ++ c.registry.placed) (haside : ∀ p ∈ aside, p ∈ outside')
    (hlost : (Part.refsOf (Part.distinct (outside ++ c.registry.placed))).Perm
      (lost ++ Part.refsOf (Part.distinct (outside' ++ c.registry.placed)))) :
    Ready ((lost : Multiset Nat) + heldRefs outside') forced n
        (c.lend (outside'.map (·.serial))) ∧
      (c.lend (outside'.map (·.serial))).Lends outside' aside := by
  have hlends := hl.lend houtside haside
  have hall := Multiset.coe_eq_coe.2 hl.perm_refs
  have hall' := Multiset.coe_eq_coe.2 hlends.perm_refs
  rw [Registry.placed_lend] at hall'
  rw [Multiset.coe_eq_coe.2 hlost, ← Multiset.coe_add, ← Multiset.coe_add, ← hall',
    ← Multiset.coe_add] at hall
  refine ⟨⟨h.balanced.mapBodies (fun o ho hc => ?_) ?_, h.isOpen, h.serial⟩, hlends⟩
  · change Part.refsOf (Part.beyond _ (o.body.lend _).parts) = []
    rw [Object.parts_lend, hl.vacant o ho hc]
    rfl
  · rw [heldRefs, heldRefs, hall, add_assoc]

/-- Actions are let go outside. -/
theorem Ready.letGo (h : Ready (heldRefs (gone ++ outside)) forced n c)
    (hl : c.Lends (gone ++ outside) aside) (haside : ∀ p ∈ aside, p ∈ outside) :
    Ready (heldRefs outside) forced n (c.letGo outside gone) ∧
      (c.letGo outside gone).Lends outside aside := by
  induction gone generalizing c with
  | nil => exact ⟨h, hl⟩
  | cons p rest ih =>
    have hrest : ∀ q ∈ rest ++ outside, q ∈ p :: rest ++ outside ++ c.registry.placed :=
      fun q hq => List.mem_append_left _ (List.mem_cons_of_mem p hq)
    have haside' : ∀ q ∈ aside, q ∈ rest ++ outside :=
      fun q hq => List.mem_append_right rest (haside q hq)
    have hplaced := Registry.placed_lend c.registry ((rest ++ outside).map (·.serial))
    rw [Context.letGo]
    split_ifs with hkept
    · -- Someone else holds the action as well, so all that is held is what was held before.
      rw [keeps_iff] at hkept
      have hp : p ∈ rest ++ outside ++ c.registry.placed := by
        refine hl.agree.mem (fun q hq => List.mem_cons_of_mem p hq) List.mem_cons_self ?_
        rw [List.map_append, List.mem_append]
        exact hkept.imp_right fun hs => hplaced ▸ hs
      have hsame : (Part.distinct (rest ++ outside ++ c.registry.placed)).Perm
          (Part.distinct (p :: rest ++ outside ++ c.registry.placed)) :=
        Part.perm_distinct_of_mem hl.agree fun q => by
          simp only [List.cons_append, List.mem_cons]
          exact ⟨.inr, fun hq => hq.elim (fun hq => hq ▸ hp) fun hq => hq⟩
      obtain ⟨hready, hlends⟩ := h.lend hl _ [] hrest haside' (Part.perm_refsOf hsame.symm)
      exact ih (by simpa using hready) hlends
    · rw [keeps_iff, not_or] at hkept
      have hp : p.serial ∉ (rest ++ outside ++ c.registry.placed).map (·.serial) := by
        rw [List.map_append, List.mem_append, not_or]
        exact ⟨hkept.1, fun hs => hkept.2 (hplaced.symm ▸ hs)⟩
      obtain ⟨hready, hlends⟩ := h.lend hl _ p.refs hrest haside' (by
        rw [List.cons_append, List.cons_append, Part.distinct_cons hp]
        exact .refl _)
      exact ih hready.release (hlends.release _)

end Context

end Dataplane

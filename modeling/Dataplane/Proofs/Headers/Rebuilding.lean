import Dataplane.Proofs.Header.Uncovering
import Dataplane.Proofs.Headers.Wire
import Dataplane.Proofs.Packet.Checksums
import Mathlib.Data.List.Basic

/-!
# Rebuilding tables

What is in the places of a table after some groups of it have been rebuilt: each header of them has
been rebuilt once, before the kind that followed it all along, and is clean; the others are as they
were.

## The model

Adding a header, or taking one off a stack, comes down to `Headers.refreshed t g h`: the header of a
group is replaced, and the table is rebuilt from it outwards. Removing the last header of a group
comes down to `Headers.removed t g`: the table is rebuilt from the nearest header outside.
-/

namespace Dataplane

theorem Header.kind?_first (h : Header) : h.kind? .first = h.stack.head? := by
  unfold kind?
  cases h.stack <;> rfl

namespace Headers

variable {t t' : Headers} {a g g' : HeaderGroup} {e : Entry} {h : Header}

/-! ### Kinds -/

/-- The kinds of the headers of some groups. -/
def kindsOf (t : Headers) (gs : List HeaderGroup) : List (List HeaderKind) :=
  (t.entriesOf gs).map (·.header.stack)

/-- Headers of the same kinds stand in the same places. -/
def SameKinds (t t' : Headers) : Prop :=
  ∀ g, (t'.get g).map (·.header.stack) = (t.get g).map (·.header.stack)

theorem SameKinds.trans {t'' : Headers} (h : t.SameKinds t') (h' : t'.SameKinds t'') :
    t.SameKinds t'' := fun g => (h' g).trans (h g)

theorem SameKinds.kindsOf (h : t.SameKinds t') (gs : List HeaderGroup) :
    t'.kindsOf gs = t.kindsOf gs := by
  simp only [Headers.kindsOf, entriesOf, List.map_filterMap, h _]

theorem kinds_eq (t : Headers) : t.kinds = (t.kindsOf HeaderGroup.all).flatMap (·.take 255) := by
  rw [kinds, entries, kindsOf, List.flatMap_map]
  rfl

theorem innerKind_eq (t : Headers) (g : HeaderGroup) :
    (t.around g).innerKind = (t.kindsOf g.inside).head? >>= List.head? := by
  simp only [around, kindsOf, List.head?_map, Header.kind?_first, Option.bind_eq_bind,
    Option.bind_map]
  rfl

theorem SameKinds.kinds (h : t.SameKinds t') : t'.kinds = t.kinds := by
  rw [kinds_eq, kinds_eq, h.kindsOf]

theorem SameKinds.innerKind (h : t.SameKinds t') (g : HeaderGroup) :
    (t'.around g).innerKind = (t.around g).innerKind := by
  rw [innerKind_eq, innerKind_eq, h.kindsOf]

/-- What follows an Ethernet header is the first header of the network layer, if there is one. -/
theorem innerKind_l2 (he : t.l3 = some e) :
    (t.around .l2).innerKind = e.header.stack.head? := by
  rw [innerKind_eq, kindsOf, HeaderGroup.inside, entriesOf_cons (g := .l3) he]
  rfl

theorem mem_kinds_of_get {e : Entry} {k : HeaderKind} (he : t.get g = some e)
    (hk : e.header.stack.head? = some k) : k ∈ t.kinds := by
  refine List.mem_flatMap.mpr ⟨e, List.mem_filterMap.mpr ⟨g, ?_, he⟩, ?_⟩
  · cases g <;> decide
  · obtain ⟨ks, hks⟩ := List.head?_eq_some_iff.mp hk
    rw [Header.kinds, hks]
    exact List.mem_cons_self

theorem group_of_mem_kinds {k : HeaderKind} (hp : t.Placed) (hk : k ∈ t.kinds) :
    ∃ g, k.group? = some g ∧ (t.get g).isSome := by
  obtain ⟨e, he, hk⟩ := List.mem_flatMap.mp hk
  obtain ⟨g, -, hget⟩ := List.mem_filterMap.mp he
  have hgroup := Header.group_of_mem_stack (List.mem_of_mem_take hk)
  rw [hp g e hget] at hgroup
  exact ⟨g, hgroup, by rw [hget]; rfl⟩

/-- A header in a place that was empty shows among the kinds. -/
theorem kinds_ne_of_get {t' : Headers} {e : Entry} {k : HeaderKind} (hp : t.Placed)
    (hfree : t.get g = none) (he : t'.get g = some e) (hk : e.header.stack.head? = some k)
    (hkg : k.group? = some g) : t'.kinds ≠ t.kinds := by
  intro hkinds
  obtain ⟨g', hg', hsome⟩ := group_of_mem_kinds hp (hkinds ▸ mem_kinds_of_get he hk)
  cases hkg.symm.trans hg'
  rw [hfree] at hsome
  cases hsome

/-! ### Rebuilding some groups -/

theorem get_modify_self (t : Headers) (g : HeaderGroup) (f : Entry → Entry) :
    (t.modify g f).get g = (t.get g).map f := get_set_self _ _ _

theorem get_modify_of_ne (t : Headers) (h : g' ≠ g) (f : Entry → Entry) :
    (t.modify g f).get g' = t.get g' := get_set_of_ne _ h _

theorem sameKinds_rebuildAt (t : Headers) (g : HeaderGroup) : t.SameKinds (t.rebuildAt g) := by
  intro g'
  by_cases hg : g' = g
  · subst hg
    rw [rebuildAt, get_modify_self, Option.map_map]
    congr 1
    funext e
    exact e.header.stack_rebuild _ _
  · rw [rebuildAt, get_modify_of_ne _ hg]

theorem sameKinds_foldl_rebuildAt (t : Headers) (gs : List HeaderGroup) :
    t.SameKinds (gs.foldl rebuildAt t) :=
  List.foldlRecOn gs rebuildAt (fun _ => rfl) fun s hs g _ => hs.trans (s.sameKinds_rebuildAt g)

theorem get_foldl_rebuildAt_of_not_mem {gs : List HeaderGroup} (hg : g ∉ gs) (t : Headers) :
    (gs.foldl rebuildAt t).get g = t.get g :=
  List.foldlRecOn gs rebuildAt (motive := fun s => s.get g = t.get g) rfl fun s hs g' hg' => by
    have hne : g ≠ g' := fun heq => hg (heq ▸ hg')
    rw [rebuildAt, get_modify_of_ne _ hne, hs]

/-- A group among those that are rebuilt is rebuilt once, in a table with the same kinds. -/
theorem get_foldl_rebuildAt {gs : List HeaderGroup} (hnodup : gs.Nodup) (hg : g ∈ gs)
    (t : Headers) : ∃ s, t.SameKinds s ∧ (gs.foldl rebuildAt t).get g =
      (t.get g).map fun e => { e with header := e.header.rebuild (s.around g) e.dirty } := by
  induction gs generalizing t with
  | nil => cases hg
  | cons g₀ gs ih =>
    obtain ⟨hfirst, hnodup⟩ := List.nodup_cons.mp hnodup
    obtain rfl | hg := List.mem_cons.mp hg
    · refine ⟨t, fun _ => rfl, ?_⟩
      rw [List.foldl_cons, get_foldl_rebuildAt_of_not_mem hfirst, rebuildAt, get_modify_self]
    · have hne : g ≠ g₀ := fun heq => hfirst (heq ▸ hg)
      obtain ⟨s, hs, hget⟩ := ih hnodup hg (t.rebuildAt g₀)
      refine ⟨s, (t.sameKinds_rebuildAt g₀).trans hs, ?_⟩
      rw [List.foldl_cons, hget, rebuildAt, get_modify_of_ne _ hne]

theorem get_foldl_cleanAt (gs : List HeaderGroup) (t : Headers) (g : HeaderGroup) :
    (gs.foldl cleanAt t).get g = (t.get g).map fun e =>
      { e with dirty := e.dirty && !decide (g ∈ gs) } := by
  induction gs generalizing t with
  | nil =>
    simp
  | cons g₀ gs ih =>
    rw [List.foldl_cons, ih, cleanAt]
    by_cases hg : g = g₀
    · subst hg
      rw [get_modify_self, Option.map_map]
      simp [Function.comp_def]
    · rw [get_modify_of_ne _ hg]
      simp [hg]

/-- A group that is rebuilt is rebuilt before the kind that follows it, and is then clean. -/
theorem get_rebuildGroups {gs : List HeaderGroup} (hnodup : gs.Nodup) (hg : g ∈ gs)
    (t : Headers) : ∃ around, around.innerKind = (t.around g).innerKind ∧
      (t.rebuildGroups gs).get g =
        (t.get g).map fun e => ⟨e.header.rebuild around e.dirty, false⟩ := by
  obtain ⟨s, hs, hget⟩ := get_foldl_rebuildAt hnodup hg t
  refine ⟨s.around g, hs.innerKind g, ?_⟩
  rw [rebuildGroups, get_foldl_cleanAt, hget, Option.map_map]
  simp [hg, Function.comp_def]

/-- The other groups are as they were. -/
theorem get_rebuildGroups_of_not_mem {gs : List HeaderGroup} (hg : g ∉ gs) (t : Headers) :
    (t.rebuildGroups gs).get g = t.get g := by
  rw [rebuildGroups, get_foldl_cleanAt, get_foldl_rebuildAt_of_not_mem hg]
  simp [hg]

theorem sameKinds_rebuildGroups (t : Headers) (gs : List HeaderGroup) :
    t.SameKinds (t.rebuildGroups gs) := by
  intro g
  rw [rebuildGroups, get_foldl_cleanAt, Option.map_map, ← t.sameKinds_foldl_rebuildAt gs g]
  rfl

theorem nodup_outward (g : HeaderGroup) : (g :: g.outside).Nodup := by
  cases g <;> decide

theorem ne_of_mem_outside (h : a ∈ g.outside) : a ≠ g := by
  rintro rfl
  exact (List.nodup_cons.mp (nodup_outward a)).1 h

theorem not_mem_outward (hg : g' ∈ g.inside) : g' ∉ g :: g.outside := by
  revert hg
  cases g <;> cases g' <;> decide

theorem Placed.rebuildGroups (ht : t.Placed) (gs : List HeaderGroup) :
    (t.rebuildGroups gs).Placed :=
  List.foldlRecOn gs Headers.cleanAt
    (List.foldlRecOn gs Headers.rebuildAt ht fun _ h g _ => h.rebuildAt g) fun _ h g _ => h.cleanAt g

/-- No header is dirty. -/
def Clean (t : Headers) : Prop := ∀ g e, t.get g = some e → e.dirty = false

theorem clean_rebuildGroups {gs : List HeaderGroup} (hnodup : gs.Nodup)
    (h : ∀ g ∉ gs, ∀ e, t.get g = some e → e.dirty = false) : (t.rebuildGroups gs).Clean := by
  intro g e he
  by_cases hg : g ∈ gs
  · obtain ⟨around, -, hget⟩ := get_rebuildGroups hnodup hg t
    obtain ⟨e₀, -, rfl⟩ := Option.map_eq_some_iff.mp (hget.symm.trans he)
    rfl
  · rw [get_rebuildGroups_of_not_mem hg] at he
    exact h g hg e he

/-! ### Replacing a header -/

/-- The table with the header of a group replaced, and rebuilt from it outwards. -/
def refreshed (t : Headers) (g : HeaderGroup) (h : Header) : Headers :=
  (t.set g (some ⟨h, true⟩)).rebuildOutward g

theorem kindsOf_set_inside (t : Headers) (g : HeaderGroup) (e : Option Entry) :
    (t.set g e).kindsOf g.inside = t.kindsOf g.inside := by
  simp only [kindsOf]
  congr 1
  refine List.filterMap_congr fun g' hg' => get_set_of_ne _ ?_ _
  rintro rfl
  revert hg'
  cases g' <;> decide

theorem get_refreshed_self (t : Headers) (g : HeaderGroup) (h : Header) :
    ∃ around, around.innerKind = (t.around g).innerKind ∧
      (t.refreshed g h).get g = some ⟨h.rebuild around true, false⟩ := by
  obtain ⟨around, hk, hget⟩ := get_rebuildGroups (nodup_outward g) List.mem_cons_self
    (t.set g (some ⟨h, true⟩))
  rw [innerKind_eq, kindsOf_set_inside, ← innerKind_eq] at hk
  refine ⟨around, hk, ?_⟩
  rw [refreshed, rebuildOutward, hget, get_set_self]
  rfl

theorem get_refreshed_outside (ha : a ∈ g.outside) (t : Headers) (h : Header) :
    ∃ around, around.innerKind = ((t.set g (some ⟨h, true⟩)).around a).innerKind ∧
      (t.refreshed g h).get a =
        (t.get a).map fun e => ⟨e.header.rebuild around e.dirty, false⟩ := by
  obtain ⟨around, hk, hget⟩ := get_rebuildGroups (nodup_outward g) (List.mem_cons_of_mem _ ha)
    (t.set g (some ⟨h, true⟩))
  refine ⟨around, hk, ?_⟩
  rw [refreshed, rebuildOutward, hget, get_set_of_ne _ (ne_of_mem_outside ha)]

theorem get_refreshed_inside (ha : a ∈ g.inside) (t : Headers) (h : Header) :
    (t.refreshed g h).get a = t.get a := by
  have hout := not_mem_outward ha
  rw [refreshed, rebuildOutward, get_rebuildGroups_of_not_mem hout,
    get_set_of_ne _ (List.ne_of_not_mem_cons hout)]

theorem Placed.refreshed (ht : t.Placed) (hg : h.group = g) : (t.refreshed g h).Placed :=
  (ht.set hg).rebuildGroups _

theorem Clean.refreshed (ht : t.Clean) (g : HeaderGroup) (h : Header) : (t.refreshed g h).Clean := by
  refine clean_rebuildGroups (nodup_outward g) fun g' hg' e he => ?_
  rw [get_set_of_ne _ (List.ne_of_not_mem_cons hg')] at he
  exact ht g' e he

/-! ### Removing a header -/

/-- The table without the header of a group, and rebuilt from the nearest header outside. -/
def removed (t : Headers) (g : HeaderGroup) : Headers :=
  match (t.set g none).prev? g with
  | some outer => (t.set g none).rebuildOutward outer
  | none => t.set g none

/-- What is outside a group further out is what is outside that group. -/
theorem outside_split {outer : HeaderGroup} {near far : List HeaderGroup}
    (h : g.outside = near ++ outer :: far) : far = outer.outside := by
  have hcons (g : HeaderGroup) : g.outside = (g.outer?.map fun o => o :: o.outside).getD [] := by
    cases g <;> rfl
  induction near generalizing g with
  | nil =>
    rw [hcons] at h
    cases ho : g.outer? with
    | none => rw [ho] at h; cases h
    | some o =>
      rw [ho] at h
      cases h
      rfl
  | cons x near ih =>
    rw [hcons] at h
    cases ho : g.outer? with
    | none => rw [ho] at h; cases h
    | some o =>
      rw [ho] at h
      exact ih (List.cons.inj h).2

theorem get_removed_outside (ha : a ∈ g.outside) (t : Headers) :
    ∃ around, around.innerKind = ((t.set g none).around a).innerKind ∧
      (t.removed g).get a = (t.get a).map fun e => ⟨e.header.rebuild around e.dirty, false⟩ := by
  have hget : (t.set g none).get a = t.get a := get_set_of_ne _ (ne_of_mem_outside ha) _
  have hfree (h : t.get a = none) : ∃ around,
      around.innerKind = ((t.set g none).around a).innerKind ∧
        (t.set g none).get a = (t.get a).map fun e => ⟨e.header.rebuild around e.dirty, false⟩ :=
    ⟨_, rfl, by rw [hget, h]; rfl⟩
  rw [removed]
  split
  · rename_i outer ho
    obtain ⟨-, near, far, hsplit, hnear⟩ := List.find?_eq_some_iff_append.mp ho
    by_cases hout : a ∈ outer :: outer.outside
    · obtain ⟨around, hk, h⟩ := get_rebuildGroups (nodup_outward outer) hout (t.set g none)
      exact ⟨around, hk, by rw [rebuildOutward, h, hget]⟩
    · -- Between the group and the nearest occupied one outside there is nothing.
      rw [rebuildOutward, get_rebuildGroups_of_not_mem hout]
      refine hfree ?_
      have hmem := ha
      rw [hsplit, outside_split hsplit, List.mem_append] at hmem
      have hnone := hnear a (hmem.resolve_right hout)
      rw [isPresent, hget] at hnone
      simpa using hnone
  · rename_i ho
    have hnone := List.find?_eq_none.mp ho a ha
    rw [isPresent, hget] at hnone
    exact hfree (by simpa using hnone)

theorem get_removed_of_not_outside (ha : a ∉ g.outside) (t : Headers) :
    (t.removed g).get a = (t.set g none).get a := by
  rw [removed]
  split
  · rename_i outer ho
    refine get_rebuildGroups_of_not_mem ?_ _
    have hout := List.mem_of_find?_eq_some ho
    revert hout ha
    cases g <;> cases outer <;> cases a <;> decide
  · rfl

theorem sameKinds_removed (t : Headers) (g : HeaderGroup) :
    (t.set g none).SameKinds (t.removed g) := by
  rw [removed]
  split
  · exact sameKinds_rebuildGroups _ _
  · exact fun _ => rfl

theorem Placed.removed (ht : t.Placed) (g : HeaderGroup) : (t.removed g).Placed := by
  rw [Headers.removed]
  split
  · exact (ht.remove g).rebuildGroups _
  · exact ht.remove g

theorem Clean.removed (ht : t.Clean) (g : HeaderGroup) : (t.removed g).Clean := by
  intro a e he
  by_cases ha : a ∈ g.outside
  · obtain ⟨around, -, hget⟩ := get_removed_outside ha t
    obtain ⟨_, -, rfl⟩ := Option.map_eq_some_iff.mp (hget.symm.trans he)
    rfl
  · rw [get_removed_of_not_outside ha] at he
    by_cases hag : a = g
    · subst hag
      rw [get_set_self] at he
      cases he
    · rw [get_set_of_ne _ hag] at he
      exact ht a e he

end Headers

end Dataplane

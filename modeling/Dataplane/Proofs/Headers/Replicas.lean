import Dataplane.Proofs.Header.Announcing
import Dataplane.Proofs.Headers.Orderly

/-!
# Tables that are read back

A table that has been rebuilt and read back has not seen what it is rebuilt for a second time: its
upper-layer header has had a first look at the addresses that are there, and nothing is dirty. So the
second rebuild finds nothing to do, and the bytes are the same again (`Headers.emit_of_readBack`).

The kinds of a table tell which header is where (`Headers.map_kinds_of_kinds`).
-/

namespace Dataplane

/-! ### Rebuilding what has been rebuilt -/

theorem Udp.length_rebuild (h : Udp) (around : Surroundings) (dirty : Bool) :
    (h.rebuild around dirty).base.num lengthSlot = min (8 + around.innerLen) 65535 := by
  have apart : checksumSlot.Apart lengthSlot := by decide
  have hnum : (h.base.setNum lengthSlot (min (8 + around.innerLen) 65535)).num lengthSlot =
      min (8 + around.innerLen) 65535 := by
    rw [Block.num_setNum]
    exact Nat.mod_eq_of_lt (Nat.lt_succ_of_le (Nat.min_le_right _ _))
  rw [rebuild]
  split
  · exact hnum
  · rw [Block.num, Block.get_set_of_apart apart, Block.get_setNum_of_apart apart]
    exact hnum

section Seen

/-! Nothing is stale if nothing is dirty and the addresses are those that have been seen. -/

variable {around : Surroundings} (houter : around.outerDirty = false)
  (hinner : around.innerDirty = false)
include houter hinner

theorem PseudoHeader.stale?_of_seen {p : PseudoHeader} (hseen : p.seen = around.addrs) :
    p.stale? around false = (p, none) := by
  simp [stale?, houter, hinner, hseen]

theorem Tcp.rebuild_of_seen {h : Tcp} (hseen : h.pseudo.seen = around.addrs) :
    h.rebuild around false = h := by
  rw [rebuild, PseudoHeader.stale?_of_seen houter hinner hseen]

theorem Icmp6.rebuild_of_seen {h : Icmp6} (hseen : h.pseudo.seen = around.addrs) :
    h.rebuild around false = h := by
  rw [rebuild, PseudoHeader.stale?_of_seen houter hinner hseen]

theorem Udp.rebuild_of_seen {h : Udp} (hseen : h.pseudo.seen = around.addrs)
    (hlen : h.base.num lengthSlot = min (8 + around.innerLen) 65535) :
    h.rebuild around false = h := by
  have hstale := PseudoHeader.stale?_of_seen houter hinner hseen
  simp only [rebuild, ← hlen, Block.setNum_num, ne_eq, not_true_eq_false, decide_false,
    Bool.or_self, hstale]

end Seen

/-- A header that has been rebuilt, and had its first look at the addresses that are there, is as
before when it is rebuilt again. -/
theorem Header.emit_rebuild_again {around around₀ around' : Surroundings} (h : Header)
    (hk : around'.innerKind = around.innerKind)
    (hi : h.group = .l3 ∨ h.group = .l4 → around'.inner = around.inner)
    (hseen : h.group = .l4 → around'.outerDirty = false ∧ around'.innerDirty = false ∧
      around₀.addrs = around'.addrs) (dirty : Bool) :
    (((h.rebuild around dirty).attach around₀).rebuild around' false).emit =
      (h.rebuild around dirty).emit := by
  cases h with
  | ethernet e =>
    show ((e.rebuild around).rebuild around').emit = (e.rebuild around).emit
    rw [Ethernet.rebuild_rebuild (by rw [hk]), Ethernet.rebuild_congr hk]
  | ip c =>
    show ((c.rebuild around dirty).rebuild around' false).emit = (c.rebuild around dirty).emit
    rw [IpChain.rebuild_congr hk (hi (.inl rfl)), IpChain.rebuild_self]
  | tcp t =>
    obtain ⟨houter, hinner, hseen⟩ := hseen rfl
    show (((t.rebuild around dirty).attach around₀).rebuild around' false).emit = _
    rw [Tcp.rebuild_of_seen houter hinner hseen]
    rfl
  | udp u =>
    obtain ⟨houter, hinner, hseen⟩ := hseen rfl
    have hlen := u.length_rebuild around dirty
    rw [Surroundings.innerLen, ← hi (.inr rfl)] at hlen
    show (((u.rebuild around dirty).attach around₀).rebuild around' false).emit = _
    rw [Udp.rebuild_of_seen (h := (u.rebuild around dirty).attach around₀) houter hinner
      hseen hlen]
    rfl
  | icmp4 i =>
    obtain ⟨-, hinner, -⟩ := hseen rfl
    show ((i.rebuild around dirty).rebuild around' false).emit = (i.rebuild around dirty).emit
    rw [Icmp4.rebuild, hinner]
    rfl
  | icmp6 i =>
    obtain ⟨houter, hinner, hseen⟩ := hseen rfl
    show (((i.rebuild around dirty).attach around₀).rebuild around' false).emit = _
    rw [Icmp6.rebuild_of_seen houter hinner hseen]
    rfl
  | metadata _ | arp _ | mpls _ | payload _ => rfl

namespace Headers

variable {t s u : Headers} {g : HeaderGroup} {e : Entry} {start start' : HeaderKind}

/-! ### Kinds -/

theorem sameKinds_attachAll (t : Headers) : t.SameKinds t.attachAll := by
  intro g
  obtain ⟨around, hget⟩ := t.get_attachAll g
  rw [hget, Option.map_map]
  congr 1
  funext e
  exact e.header.stack_attach around

theorem filter_kinds_outside (hp : t.Placed) {gs : List HeaderGroup} (hg : g ∉ gs) :
    ((t.entriesOf gs).flatMap (·.header.kinds)).filter (·.group? = some g) = [] := by
  refine List.filter_eq_nil_iff.mpr fun k hk => ?_
  obtain ⟨e, he, hk⟩ := List.mem_flatMap.mp hk
  obtain ⟨g', hg', hget⟩ := List.mem_filterMap.mp he
  have hgroup := Header.group_of_mem_stack (List.mem_of_mem_take hk)
  rw [hp g' e hget] at hgroup
  rw [hgroup]
  simp only [Option.some.injEq, decide_eq_true_eq]
  rintro rfl
  exact hg hg'

/-- The kinds that belong in a group are those of its header. -/
theorem filter_kinds (hp : t.Placed) (g : HeaderGroup) :
    t.kinds.filter (·.group? = some g) = ((t.get g).map (·.header.kinds)).getD [] := by
  have hout : g ∉ g.outside.reverse := by cases g <;> decide
  have hin : g ∉ g.inside := HeaderGroup.not_mem_inside_self g
  have hall : t.entries = t.entriesOf g.outside.reverse ++ t.entriesOf (g :: g.inside) := by
    rw [entries, g.all_eq, entriesOf, List.filterMap_append]
    rfl
  rw [kinds, hall, List.flatMap_append, List.filter_append, filter_kinds_outside hp hout,
    List.nil_append]
  cases he : t.get g with
  | none => rw [entriesOf_cons_none he, filter_kinds_outside hp hin]; rfl
  | some e =>
    rw [entriesOf_cons he, List.flatMap_cons, List.filter_append, filter_kinds_outside hp hin,
      List.append_nil]
    refine List.filter_eq_self.mpr fun k hk => ?_
    have hgroup := Header.group_of_mem_stack (List.mem_of_mem_take hk)
    rw [hgroup, hp g e he]
    simp

theorem Orderly.kinds_ne_nil (ht : t.Orderly start) (he : t.get g = some e) :
    e.header.kinds ≠ [] := by
  have hne := (ht.regular g e he).stack_ne_nil
  simpa [Header.kinds] using hne

/-- Tables that show the same kinds have headers of the same kinds in the same places. -/
theorem map_kinds_of_kinds (ht : t.Orderly start) (hs : s.Orderly start')
    (hkinds : t.kinds = s.kinds) (g : HeaderGroup) :
    (t.get g).map (·.header.kinds) = (s.get g).map (·.header.kinds) := by
  have hfilter := filter_kinds ht.placed g
  rw [hkinds, filter_kinds hs.placed] at hfilter
  cases he : t.get g with
  | none =>
    cases he' : s.get g with
    | none => rfl
    | some e' =>
      rw [he, he'] at hfilter
      exact absurd hfilter (hs.kinds_ne_nil he')
  | some e =>
    cases he' : s.get g with
    | none =>
      rw [he, he'] at hfilter
      exact absurd hfilter.symm (ht.kinds_ne_nil he)
    | some e' =>
      rw [he, he'] at hfilter
      exact congrArg some hfilter.symm

/-! ### Bytes -/

/-- The first look of an upper-layer header is at the addresses that are there afterwards. -/
theorem l4_attachAll (t : Headers) : ∃ around, around.addrs = (t.attachAll.around .l4).addrs ∧
    t.attachAll.l4 = t.l4.map fun e => { e with header := e.header.attach around } :=
  ⟨(((t.attachAt .packet).attachAt .l2).attachAt .l3).around .l4, rfl, rfl⟩

theorem innerDirty_of_clean (hc : t.Clean) (g : HeaderGroup) : (t.around g).innerDirty = false := by
  refine List.any_eq_false.mpr fun e he => ?_
  obtain ⟨g', -, hget⟩ := List.mem_filterMap.mp he
  simp [hc g' e hget]

/-- `u` has the headers of `s` inside the metadata, clean, and each has had a first look. -/
structure ReadBack (s u : Headers) : Prop where
  placed : u.Placed
  clean : u.Clean
  get : ∀ g ∈ HeaderGroup.packet.inside, ∃ around,
    (g = .l4 → around.addrs = (u.around .l4).addrs) ∧
      u.get g = (s.get g).map fun e => .clean (e.header.attach around)

namespace ReadBack

/-- The same bytes are inside each header. -/
theorem inner (h : s.ReadBack u) (g : HeaderGroup) : (u.around g).inner = (s.around g).inner := by
  refine emitAll_congr fun g' hg' => ?_
  obtain ⟨around, -, hget⟩ := h.get g' (by revert hg'; cases g <;> cases g' <;> decide)
  rw [hget, Option.map_map]
  congr 1
  funext e
  simp [Entry.clean]

/-- The same kind follows each header. -/
theorem innerKind (h : s.ReadBack u) (g : HeaderGroup) :
    (u.around g).innerKind = (s.around g).innerKind := by
  have hkinds : u.kindsOf g.inside = s.kindsOf g.inside := by
    rw [kindsOf, kindsOf, entriesOf, entriesOf, List.map_filterMap, List.map_filterMap]
    refine List.filterMap_congr fun g' hg' => ?_
    obtain ⟨around, -, hget⟩ := h.get g' (by revert hg'; cases g <;> cases g' <;> decide)
    rw [hget, Option.map_map]
    congr 1
    funext e
    exact e.header.stack_attach around
  rw [innerKind_eq, hkinds, innerKind_eq]

end ReadBack

/-- The upper-layer header is rebuilt in the table as it was. -/
theorem get_l4_rebuildAll (hp : t.Placed) : t.rebuildAll.get .l4 =
    (t.get .l4).map fun e => ⟨e.header.rebuild (t.around .l4) e.dirty, false⟩ := by
  show t.rebuildAll.l4 = _
  rw [l4_rebuildAll hp]
  show ((t.l4.map _).map _) = _
  rw [Option.map_map]
  rfl

/-- Each header is rebuilt before the kind that followed it all along and, where it counts, before
the bytes that are inside it afterwards. -/
theorem get_rebuildAll (hp : t.Placed) (g : HeaderGroup) : ∃ around : Surroundings,
    around.innerKind = (t.around g).innerKind ∧
      (g = .l3 ∨ g = .l4 → around.inner = (t.rebuildAll.around g).inner) ∧
      (g = .l4 → around = t.around .l4) ∧
      t.rebuildAll.get g = (t.get g).map fun e => ⟨e.header.rebuild around e.dirty, false⟩ := by
  cases g with
  | l4 =>
    exact ⟨t.around .l4, rfl, fun _ => (inner_rebuildAll hp).symm, fun _ => rfl,
      get_l4_rebuildAll hp⟩
  | l3 =>
    exact ⟨(t.rebuildAt .l4).around .l3, (t.sameKinds_rebuildAt .l4).innerKind .l3,
      fun _ => (inner_l3_rebuildAll hp).symm, by simp, l3_rebuildAll hp⟩
  | packet | l2 | payload =>
    obtain ⟨around, hk, hget⟩ := get_rebuildGroups nodup_all (mem_all _) t
    exact ⟨around, hk, by simp, by simp, hget⟩

/-- What the header of a group writes, in front of everything inside it and behind. -/
def wire? (t : Headers) (g : HeaderGroup) : Option (Bytes × Bytes) :=
  (t.get g).map fun e => (e.header.emit, e.header.trailer)

/-- A table is rebuilt to the bytes of another one if each header writes what the other one's does
as soon as the bytes inside it are the same. -/
theorem emit_rebuildAll_eq (hu : u.Placed) (hs : s.Placed)
    (hwire : ∀ g ∈ HeaderGroup.packet.inside, ∀ around : Surroundings,
      (u.rebuildAll.get g = (u.get g).map fun e => ⟨e.header.rebuild around e.dirty, false⟩) →
      around.innerKind = (u.around g).innerKind →
      (g = .l3 ∨ g = .l4 → around.inner = (s.around g).inner) →
      (g = .l4 → around = u.around .l4) → u.rebuildAll.wire? g = s.wire? g) :
    u.rebuildAll.emit = s.emit := by
  have step (g : HeaderGroup) (hg : g ∈ HeaderGroup.packet.inside)
      (hinside : ∀ g' ∈ g.inside, u.rebuildAll.wire? g' = s.wire? g') :
      u.rebuildAll.wire? g = s.wire? g := by
    obtain ⟨around, hk, hi, hl4, hget⟩ := get_rebuildAll hu g
    exact hwire g hg around hget hk (fun h => (hi h).trans (emitAll_congr hinside)) hl4
  -- from the innermost group out
  have hpayload := step .payload (by decide) (by simp [HeaderGroup.inside])
  have hl4 := step .l4 (by decide) (by simp [HeaderGroup.inside, hpayload])
  have hl3 := step .l3 (by decide) (by simp [HeaderGroup.inside, hpayload, hl4])
  have hl2 := step .l2 (by decide) (by simp [HeaderGroup.inside, hpayload, hl4, hl3])
  rw [emit_eq_inside (t := u.rebuildAll) (hu.rebuildGroups _), emit_eq_inside hs]
  refine emitAll_congr fun g hg => ?_
  cases g with
  | packet => exact absurd hg (by decide)
  | l2 => exact hl2
  | l3 => exact hl3
  | l4 => exact hl4
  | payload => exact hpayload

section

variable (hp : t.Placed) (h : t.rebuildAll.ReadBack u)
include hp h

/-- A header writes the same if it is rebuilt before the same kind and, where it counts, before the
same bytes. -/
theorem wire_of_readBack (hg : g ∈ HeaderGroup.packet.inside) {around around' : Surroundings}
    (ht : t.rebuildAll.get g = (t.get g).map fun e => ⟨e.header.rebuild around e.dirty, false⟩)
    (hu : u.rebuildAll.get g = (u.get g).map fun e => ⟨e.header.rebuild around' e.dirty, false⟩)
    (hk : around'.innerKind = around.innerKind)
    (hi : g = .l3 ∨ g = .l4 → around'.inner = around.inner)
    (haround : g = .l4 → around' = u.around .l4) :
    u.rebuildAll.wire? g = t.rebuildAll.wire? g := by
  obtain ⟨around₀, hseen, hget⟩ := h.get g hg
  rw [wire?, wire?, hu, hget, ht]
  cases he : t.get g with
  | none => rfl
  | some e =>
    have hgroup := hp g e he
    have hbytes : (((e.header.rebuild around e.dirty).attach around₀).rebuild around' false).emit =
        (e.header.rebuild around e.dirty).emit := by
      refine e.header.emit_rebuild_again hk (hgroup.symm ▸ hi) (fun hl4 => ?_) e.dirty
      obtain rfl := hgroup.symm.trans hl4
      rw [haround rfl]
      exact ⟨outerDirty_of_clean h.clean _, innerDirty_of_clean h.clean _, hseen rfl⟩
    simp [Entry.clean, hbytes]

omit hp in
theorem innerKind_of_readBack (g : HeaderGroup) :
    (u.around g).innerKind = (t.around g).innerKind :=
  (h.innerKind g).trans ((t.sameKinds_rebuildGroups _).innerKind g)

/-- A table that was rebuilt and read back is rebuilt to the same bytes. -/
theorem emit_of_readBack : u.rebuildAll.emit = t.rebuildAll.emit := by
  refine emit_rebuildAll_eq h.placed (hp.rebuildGroups _) fun g hg around' hu hk' hi' hl4 => ?_
  obtain ⟨around, hk, hi, -, ht⟩ := get_rebuildAll hp g
  exact wire_of_readBack hp h hg ht hu (hk'.trans ((innerKind_of_readBack h g).trans hk.symm))
    (fun hg => (hi' hg).trans (hi hg).symm) hl4

end

end Headers

end Dataplane

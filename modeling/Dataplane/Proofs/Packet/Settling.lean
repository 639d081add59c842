import Dataplane.Proofs.Packet.Normal

/-!
# One pass is enough

What a header stores when it is rebuilt depends on what is inside it and on the addresses of the
packet. A pass from the inside out rebuilds each header when everything inside it is finished, and no
rebuild changes an address. So each header has been rebuilt for the table that the pass ends with
(`Headers.get_rebuildAll_final`), and a second pass finds nothing to do
(`Headers.rebuildAll_rebuildAll`).

## The model

A table is `Headers.Settled` if no header of it is dirty and each of them is what a rebuild would
make of it. Nothing is said of the groups the headers lie in: a header that stands in the wrong place
settles as well.
-/

namespace Dataplane

/-! ### Headers -/

/-- The memory after a rebuild is of the addresses that were there. -/
theorem PseudoHeader.seen_stale? (p : PseudoHeader) (around : Surroundings) (dirty : Bool) :
    (p.stale? around dirty).1.seen = around.addrs := by
  rw [stale?]
  split
  · rfl
  · rename_i hsame
    simp only [Bool.or_eq_true, not_or, bne_iff_ne, ne_eq, not_not] at hsame
    exact hsame.2.symm

section

variable {around around' : Surroundings} {dirty : Bool}

theorem Tcp.seen_rebuild (h : Tcp) : (h.rebuild around dirty).pseudo.seen = around.addrs := by
  have hseen := h.pseudo.seen_stale? around dirty
  rw [rebuild]
  split <;> simp_all only

theorem Udp.seen_rebuild (h : Udp) : (h.rebuild around dirty).pseudo.seen = around.addrs := by
  rw [rebuild]
  split <;> rename_i heq <;> rw [← PseudoHeader.seen_stale?, heq]

theorem Icmp6.seen_rebuild (h : Icmp6) : (h.rebuild around dirty).pseudo.seen = around.addrs := by
  have hseen := h.pseudo.seen_stale? around dirty
  rw [rebuild]
  split <;> simp_all only

theorem Metadata.cacheLength_cacheLength (m : Metadata) (hi : around'.inner = around.inner) :
    (m.cacheLength around).cacheLength around' = m.cacheLength around := by
  simp only [cacheLength, Surroundings.innerLen, hi, Block.setNum, Block.set_set]

/-- A header that has been rebuilt is as it is when it is rebuilt again before the same bytes and
with the same addresses, and nothing is dirty. -/
theorem Header.rebuild_again (h : Header) (hk : around'.innerKind = around.innerKind)
    (hi : around'.inner = around.inner) (ha : around'.addrs = around.addrs)
    (houter : around'.outerDirty = false) (hinner : around'.innerDirty = false) :
    (h.rebuild around dirty).rebuild around' false = h.rebuild around dirty := by
  cases h with
  | metadata m => exact congrArg metadata (m.cacheLength_cacheLength hi)
  | ethernet e =>
    refine congrArg ethernet ?_
    rw [Ethernet.rebuild_rebuild (by rw [hk]), Ethernet.rebuild_congr hk]
  | ip c =>
    refine congrArg ip ?_
    rw [IpChain.rebuild_congr hk hi, IpChain.rebuild_self]
  | tcp t =>
    exact congrArg tcp (Tcp.rebuild_of_seen houter hinner (t.seen_rebuild.trans ha.symm))
  | udp u =>
    have hlen := u.length_rebuild around dirty
    rw [Surroundings.innerLen, ← hi] at hlen
    exact congrArg udp (Udp.rebuild_of_seen houter hinner (u.seen_rebuild.trans ha.symm) hlen)
  | icmp4 i =>
    show icmp4 ((i.rebuild around dirty).rebuild around' false) = _
    rw [Icmp4.rebuild, hinner]
    rfl
  | icmp6 i =>
    exact congrArg icmp6 (Icmp6.rebuild_of_seen houter hinner (i.seen_rebuild.trans ha.symm))
  | arp _ | mpls _ | payload _ => rfl

end

namespace Headers

variable {t : Headers} {g : HeaderGroup}

/-! ### What a header sees when it is rebuilt -/

/-- A rebuild changes no address. -/
theorem addrs_foldl_rebuildAt (gs : List HeaderGroup) (t : Headers) (g : HeaderGroup) :
    ((gs.foldl rebuildAt t).around g).addrs = (t.around g).addrs := by
  refine List.foldlRecOn gs rebuildAt (motive := fun s => (s.around g).addrs = (t.around g).addrs)
    rfl fun s hs g' _ => ?_
  rw [← hs, addrs_around, addrs_around, rebuildAt]
  by_cases hg : g' = .l3
  · subst hg
    rw [get_modify_self, Option.map_map]
    congr 3
    funext e
    exact e.header.addrs_rebuild _ _
  · rw [get_modify_of_ne _ (Ne.symm hg)]

/-- Each header is rebuilt before what is inside it, and with the addresses that are there, when all
headers have been rebuilt. -/
theorem get_rebuildAll_final (t : Headers) (g : HeaderGroup) : ∃ around : Surroundings,
    around.innerKind = (t.rebuildAll.around g).innerKind ∧
      around.inner = (t.rebuildAll.around g).inner ∧
      around.addrs = (t.rebuildAll.around g).addrs ∧
      t.rebuildAll.get g = (t.get g).map fun e => ⟨e.header.rebuild around e.dirty, false⟩ := by
  have hall : HeaderGroup.all.reverse = g.inside.reverse ++ g :: g.outside := by cases g <;> rfl
  -- `s` is the table when the header is rebuilt, `u` the table before the bits are cleared.
  set s := g.inside.reverse.foldl rebuildAt t with hs
  set u := HeaderGroup.all.reverse.foldl rebuildAt t with hu
  have hsplit : u = g.outside.foldl rebuildAt (s.rebuildAt g) := by
    rw [hu, hall, List.foldl_append, List.foldl_cons]
  have hfinal (g' : HeaderGroup) :
      t.rebuildAll.get g' = (u.get g').map fun e => ⟨e.header, false⟩ := by
    rw [rebuildAll, rebuildGroups, get_foldl_cleanAt]
    simp [List.mem_reverse.mp (mem_all g'), ← hu]
  refine ⟨s.around g, ?_, ?_, ?_, ?_⟩
  · exact ((t.sameKinds_foldl_rebuildAt _).innerKind g).trans
      ((t.sameKinds_rebuildGroups _).innerKind g).symm
  · refine (emitAll_congr fun g' hg' => ?_).symm
    have hlater := not_mem_outward hg'
    rw [hfinal, hsplit, get_foldl_rebuildAt_of_not_mem (fun h => hlater (List.mem_cons_of_mem _ h)),
      rebuildAt, get_modify_of_ne _ (List.ne_of_not_mem_cons hlater), Option.map_map]
    rfl
  · rw [hs, addrs_foldl_rebuildAt, ← addrs_foldl_rebuildAt HeaderGroup.all.reverse, ← hu,
      addrs_around, addrs_around, hfinal, Option.map_map]
    rfl
  · have hself : g ∉ g.outside := fun h => ne_of_mem_outside h rfl
    have hbefore : g ∉ g.inside.reverse := by simpa using HeaderGroup.not_mem_inside_self g
    rw [hfinal, hsplit, get_foldl_rebuildAt_of_not_mem hself, rebuildAt, get_modify_self, hs,
      get_foldl_rebuildAt_of_not_mem hbefore, Option.map_map]
    rfl

/-! ### Settled tables -/

/-- No header is dirty, and none would be changed by a rebuild. -/
structure Settled (t : Headers) : Prop where
  clean : t.Clean
  fixed : ∀ g e, t.get g = some e → e.header.rebuild (t.around g) false = e.header

/-- A table is settled by one pass. -/
theorem settled_rebuildAll (t : Headers) : t.rebuildAll.Settled := by
  have hclean : t.rebuildAll.Clean :=
    clean_rebuildGroups nodup_all fun g hg => absurd (mem_all g) hg
  refine ⟨hclean, fun g e he => ?_⟩
  obtain ⟨around, hk, hi, ha, hget⟩ := t.get_rebuildAll_final g
  obtain ⟨e₀, -, rfl⟩ := Option.map_eq_some_iff.mp (hget.symm.trans he)
  exact e₀.header.rebuild_again hk.symm hi.symm ha.symm (outerDirty_of_clean hclean g)
    (innerDirty_of_clean hclean g)

theorem Settled.rebuildAt (ht : t.Settled) (g : HeaderGroup) : t.rebuildAt g = t := by
  have hself : (t.get g).map (fun e => { e with header := e.header.rebuild (t.around g) e.dirty }) =
      t.get g := by
    cases he : t.get g with
    | none => rfl
    | some e =>
      rw [Option.map_some, ht.clean g e he, ht.fixed g e he, ← ht.clean g e he]
  rw [Headers.rebuildAt, modify, hself]
  cases g <;> rfl

theorem Clean.cleanAt (ht : t.Clean) (g : HeaderGroup) : t.cleanAt g = t := by
  have hself : (t.get g).map (fun e => { e with dirty := false }) = t.get g := by
    cases he : t.get g with
    | none => rfl
    | some e => rw [Option.map_some, ← ht g e he]
  rw [Headers.cleanAt, modify, hself]
  cases g <;> rfl

/-- A pass over a settled table changes nothing. -/
theorem Settled.rebuildAll (ht : t.Settled) : t.rebuildAll = t := by
  rw [Headers.rebuildAll, rebuildGroups]
  have hrebuilt : HeaderGroup.all.reverse.foldl Headers.rebuildAt t = t :=
    List.foldlRecOn _ Headers.rebuildAt (motive := (· = t)) rfl fun s hs g _ => by
      rw [hs, ht.rebuildAt]
  rw [hrebuilt]
  exact List.foldlRecOn _ Headers.cleanAt (motive := (· = t)) rfl fun s hs g _ => by
    rw [hs, ht.clean.cleanAt]

theorem rebuildAll_rebuildAll (t : Headers) : t.rebuildAll.rebuildAll = t.rebuildAll :=
  t.settled_rebuildAll.rebuildAll

end Headers

namespace Packet

/-- The frame is as long as the packet says, nothing is dirty once it has been given, and giving it
again gives the same frame and leaves the packet as it is: the headers, the addresses they remember
and the dirty bits. -/
theorem serialize_twice (p : Packet) :
    p.serialize.1.length = p.length ∧
      (∀ g e, p.serialize.2.headers.get g = some e → e.dirty = false) ∧
      p.serialize.2.serialize = p.serialize := by
  have hrebuilt : p.rebuilt.rebuilt = p.rebuilt := by
    rw [rebuilt, rebuilt, Headers.rebuildAll_rebuildAll]
  refine ⟨?_, p.headers.settled_rebuildAll.clean, ?_⟩
  · exact p.headers.rebuildAll.length_emit.trans p.headers.wireLen_rebuildAll
  · rw [serialize, serialize, hrebuilt]

end Packet

end Dataplane

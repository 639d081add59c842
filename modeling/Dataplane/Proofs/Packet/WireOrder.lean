import Dataplane.Proofs.Header.Stacks
import Dataplane.Proofs.Headers.Orderly
import Dataplane.Proofs.Packet.Reached

/-!
# Packets in wire order

Whatever is done to a packet, its metadata stays, every other header lies where its kind belongs, no
chain and no label stack is empty, and no GRE header stands directly outside another one
(`Headers.InOrder`). So the kinds a packet shows begin with metadata and follow the order of the
groups.

## The model

All but the presence of the metadata is a property of single headers, which every change keeps
(`Header.lasting_wellStacked`). The metadata is present because removing it is refused, and every
other edit puts a header where one was.
-/

namespace Dataplane

theorem Header.lasting_wellStacked : Header.Lasting fun _ h => h.WellStacked where
  read _ e := (regular_of_read e).1.wellStacked
  fresh _ e := wellStacked_singleton (stack_of_fresh e)
  attach _ h _ hs := hs.congr (h.stack_attach _)
  rebuild _ h _ _ hs := hs.congr (h.stack_rebuild _ _)
  update hs e := hs.congr (stack_update e)
  write hs e := hs.congr (stack_writeRaw e)
  push hs e := hs.push e
  pop hs e := hs.pop e

namespace Headers

variable {t t' : Headers} {g : HeaderGroup}

/-! ### The metadata stays -/

theorem isSome_set (t : Headers) (g g' : HeaderGroup) (e : Entry) (ht : (t.get g').isSome) :
    ((t.set g (some e)).get g').isSome := by
  by_cases hg : g' = g
  · rw [hg, get_set_self]
    rfl
  · rwa [get_set_of_ne _ hg]

theorem isSome_rebuildGroups (t : Headers) (gs : List HeaderGroup) (g : HeaderGroup) :
    ((t.rebuildGroups gs).get g).isSome = (t.get g).isSome := by
  have hsame := congrArg Option.isSome (t.sameKinds_rebuildGroups gs g)
  simpa only [Option.isSome_map] using hsame

theorem isSome_attachAt (t : Headers) (g g' : HeaderGroup) :
    ((t.attachAt g).get g').isSome = (t.get g').isSome := by
  by_cases hg : g' = g
  · rw [hg, attachAt, get_modify_self, Option.isSome_map]
  · rw [attachAt, get_modify_of_ne _ hg]

/-- No edit but the removal of the metadata takes it out. -/
theorem Step.isSome_packet {x : Edit} (hx : Step t x t') (hne : x ≠ .decap .metadata)
    (ht : (t.get .packet).isSome) : (t'.get .packet).isSome := by
  have removed {kind : HeaderKind} {g : HeaderGroup} (hg : kind.group? = some g)
      (hkind : Edit.decap kind ≠ .decap .metadata) : ((t.set g none).get .packet).isSome := by
    have hpacket : HeaderGroup.packet ≠ g := by
      rintro rfl
      cases kind <;> cases hg
      exact hkind rfl
    rwa [get_set_of_ne _ hpacket]
  cases hx with
  | refused => exact ht
  | field he hu => exact isSome_set _ _ _ _ ht
  | raw he hw => exact isSome_set _ _ _ _ ht
  | pushed hg hp he hu =>
    rw [rebuildOutward, isSome_rebuildGroups]
    exact isSome_set _ _ _ _ ht
  | placed hg hp he hf =>
    rw [rebuildOutward, isSome_rebuildGroups, isSome_attachAt]
    exact isSome_set _ _ _ _ ht
  | popped hg he hu =>
    rw [rebuildOutward, isSome_rebuildGroups]
    exact isSome_set _ _ _ _ ht
  | removed hg he hu ho =>
    rw [rebuildOutward, isSome_rebuildGroups]
    exact removed hg hne
  | bared hg he hu => exact removed hg hne
  | serialized =>
    rw [rebuildAll, isSome_rebuildGroups]
    exact ht

/-! ### Order -/

/-- There is metadata; every header is of a kind that belongs in its place, and what is in the last
place is opaque; no chain or label stack is empty; GRE does not stand directly outside GRE. -/
structure InOrder (t : Headers) : Prop where
  metadata : ∃ m dirty, t.packet = some ⟨.metadata m, dirty⟩
  grouped : ∀ g e, t.get g = some e →
    e.header.stack ≠ [] ∧ ∀ k ∈ e.header.stack, k.group? = some g
  payload : ∀ e, t.payload = some e → ∃ b, e.header = .payload b
  chain : ∀ g e c, t.get g = some e → e.header = .ip c →
    c.headers ≠ [] ∧ c.headers.IsChain fun h h' => ¬(h.kind = .gre ∧ h'.kind = .gre)
  labels : ∀ g e s, t.get g = some e → e.header = .mpls s → s.entries ≠ []

theorem inOrder_of_wellStacked (hplaced : t.Placed) (hpacket : (t.get .packet).isSome)
    (hstacked : t.Every fun _ h => h.WellStacked) : t.InOrder where
  metadata := by
    obtain ⟨⟨h, dirty⟩, he⟩ := Option.isSome_iff_exists.mp hpacket
    have hgroup := hplaced _ _ he
    cases h with
    | metadata m => exact ⟨m, dirty, he⟩
    | _ => cases hgroup
  grouped g e he :=
    ⟨(hstacked g e he).ne_nil, fun k hk => by rw [Header.group_of_mem_stack hk, hplaced g e he]⟩
  payload e he := by
    have hgroup := hplaced .payload e he
    cases hh : e.header with
    | payload b => exact ⟨b, rfl⟩
    | _ =>
      rw [hh] at hgroup
      cases hgroup
  chain g e c he hc := by
    have hs := hstacked g e he
    rw [hc] at hs
    exact ⟨mt List.map_eq_nil_iff.mpr hs.ne_nil, (List.isChain_map _).mp hs.apart⟩
  labels g e s he hs := by
    have hstack := (hstacked g e he).ne_nil
    rw [hs] at hstack
    exact mt List.map_eq_nil_iff.mpr hstack

/-- The kinds begin with metadata. -/
theorem InOrder.head?_kinds (ht : t.InOrder) : t.kinds.head? = some .metadata := by
  obtain ⟨m, dirty, he⟩ := ht.metadata
  have hentries : t.entries = ⟨.metadata m, dirty⟩ :: t.entriesOf HeaderGroup.packet.inside :=
    entriesOf_cons (g := .packet) he _
  rw [kinds, hentries]
  rfl

/-- The kinds follow the order of the groups. -/
theorem InOrder.pairwise_kinds (ht : t.InOrder) : t.kinds.Pairwise fun k k' =>
    ∃ g g', k.group? = some g ∧ k'.group? = some g' ∧ g.index ≤ g'.index := by
  have hkind {g : HeaderGroup} {e : Entry} {k : HeaderKind} (he : t.get g = some e)
      (hk : k ∈ e.header.kinds) : k.group? = some g :=
    (ht.grouped g e he).2 k (List.mem_of_mem_take hk)
  have hgroups : HeaderGroup.all.Pairwise (·.index ≤ ·.index) := by decide
  refine List.pairwise_flatMap.mpr ⟨fun e he => ?_, ?_⟩
  · obtain ⟨g, -, hget⟩ := List.mem_filterMap.mp he
    exact List.pairwise_of_forall_mem_list fun k hk k' hk' =>
      ⟨g, g, hkind hget hk, hkind hget hk', le_rfl⟩
  · refine List.pairwise_filterMap.mpr (hgroups.imp fun {g g'} hle e he e' he' k hk k' hk' => ?_)
    exact ⟨g, g', hkind he hk, hkind he' hk', hle⟩

end Headers

namespace Packet

open Headers

variable {p : Packet}

theorem Reached.isSome_packet (hp : p.Reached) : (p.headers.get .packet).isSome := by
  refine hp.headers_induction (Q := fun t => (t.get .packet).isSome)
    (fun e => (orderly_of_parse e).metadata) (fun hne hx ht => hx.isSome_packet hne ht) ?_
  intro q f hq
  unfold modifyMetadata
  split
  · rfl
  · exact hq

theorem Reached.wellStacked (hp : p.Reached) : p.headers.Every fun _ h => h.WellStacked :=
  hp.every Header.lasting_wellStacked fun _ _ _ => Header.wellStacked_singleton rfl

/-- Every packet that operations reach is in wire order, and so are the kinds it shows. -/
theorem Reached.inOrder (hp : p.Reached) :
    p.headers.InOrder ∧ p.headers.kinds.head? = some .metadata ∧
      p.headers.kinds.Pairwise fun k k' =>
        ∃ g g', k.group? = some g ∧ k'.group? = some g' ∧ g.index ≤ g'.index := by
  have hordered := inOrder_of_wellStacked hp.placed hp.isSome_packet hp.wellStacked
  exact ⟨hordered, hordered.head?_kinds, hordered.pairwise_kinds⟩

/-- A datagram. -/
def datagram : Bytes :=
  [69, 0, 0, 29, 0, 0, 64, 0, 64, 17, 38, 206, 10, 0, 0, 1, 10, 0, 0, 2, 0, 53, 0, 53, 0, 9, 228,
    111, 7]

/-- A datagram is put into a GRE tunnel, which is put into another one. -/
theorem inOrder_of_tunnels : ∃ p q r, parse .ip4 datagram = .ok p ∧ p.encap .gre = .ok q ∧
    q.encap .gre = .error (.precondition .gre .greOverGre) ∧ q.encap .ip4 = .ok r ∧
    r.headers.kinds = [.metadata, .ip4, .gre, .ip4, .udp, .payload] ∧ r.headers.InOrder := by
  have reached : ∃ p ∈ (parse .ip4 datagram).toOption, ∃ q ∈ (p.encap .gre).toOption,
      q.encap .gre = .error (.precondition .gre .greOverGre) ∧
      ∃ r ∈ (q.encap .ip4).toOption,
        r.headers.kinds = [.metadata, .ip4, .gre, .ip4, .udp, .payload] := by
    decide +kernel
  obtain ⟨p, hp, q, hq, hrefused, r, hr, hkinds⟩ := reached
  have hp := toOption_eq_some_iff.mp hp
  have hq := toOption_eq_some_iff.mp hq
  have hr := toOption_eq_some_iff.mp hr
  have hreached : r.Reached := .encap (.encap (.parse hp) hq) hr
  exact ⟨p, q, r, hp, hq, hrefused, hr, hkinds, hreached.inOrder.1⟩

end Packet

end Dataplane

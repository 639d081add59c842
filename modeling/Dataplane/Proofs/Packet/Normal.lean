import Dataplane.Proofs.Headers.Exact
import Dataplane.Proofs.Packet.Replicas

/-!
# Frames that serializing gives

Serializing a parsed frame need not give the frame back: lengths inside a tunnel, types, and the
checksums of GRE are stored anew. It gives a normal form. The frame is parsed as headers of the same
kinds and serialized to itself, and a frame that is exact in what would be stored is its own normal
form (`Packet.serialize_settles`).

## The model

Parsing leaves a table that is `Headers.Accepted`: every header would be read back where it stands,
after what the header before it says. A rebuild changes neither what a header says of the next one
nor what it is found as, so the rebuilt table is linked again (`Accepted.linked_rebuildAll`); and a
rebuild keeps the lengths of headers, so what was claimed by a length before can be claimed after
(`Accepted.fits_rebuildAll`).
-/

namespace Dataplane

theorem Header.head?_of_foundAs {h : Header} {kind : HeaderKind} (hk : h.FoundAs kind)
    (hg : h.group ≠ .l2) : h.stack.head? = some kind := by
  cases h with
  | metadata m => exact hk.elim
  | ethernet e => exact absurd rfl hg
  | _ => exact hk

namespace Headers

variable {t t' : Headers} {kind start : HeaderKind} {g last : HeaderGroup} {gs : List HeaderGroup}
  {e : Entry}

/-! ### Linked tables -/

/-- A table stays linked if each header gives way to one that is found as the old one was and names
the same. -/
theorem Linked.map (hl : t.Linked kind gs)
    (hmap : ∀ g ∈ gs, ∃ f : Entry → Entry, t'.get g = (t.get g).map f ∧
      ∀ e, t.get g = some e → (f e).header.next = e.header.next ∧
        ∀ kind, e.header.FoundAs kind → (f e).header.FoundAs kind) : t'.Linked kind gs := by
  induction gs generalizing kind with
  | nil => exact hl
  | cons g gs ih =>
    obtain ⟨f, hget, hf⟩ := hmap g List.mem_cons_self
    have hrest := fun g' hg' => hmap g' (List.mem_cons_of_mem g hg')
    cases he : t.get g with
    | none =>
      rw [he] at hget
      exact (linked_cons_none hget).mpr (ih ((linked_cons_none he).mp hl) hrest)
    | some e =>
      rw [he] at hget
      obtain ⟨hk, hnext⟩ := (linked_cons he).mp hl
      obtain ⟨hsame, hfound⟩ := hf e he
      exact (linked_cons hget).mpr ⟨hfound kind hk, hsame ▸ ih hnext hrest⟩

/-- The first header of a linked table is of the kind that is looked for. -/
theorem Linked.head (hp : t.Placed) (hl : t.Linked kind gs) (hl2 : .l2 ∉ gs) :
    ∀ k ∈ (t.entriesOf gs).head? >>= (·.header.kind? .first), kind = k := by
  induction gs with
  | nil => rintro _ ⟨⟩
  | cons g gs ih =>
    obtain ⟨hne, hl2⟩ := List.ne_and_not_mem_of_not_mem_cons hl2
    cases he : t.get g with
    | none =>
      rw [entriesOf_cons_none he]
      exact ih ((linked_cons_none he).mp hl) hl2
    | some e =>
      have hfirst := Header.head?_of_foundAs ((linked_cons he).mp hl).1
        (by rw [hp g e he]; exact Ne.symm hne)
      rw [entriesOf_cons he]
      intro k hk
      have hk : e.header.kind? .first = some k := hk
      rw [Header.kind?_first, hfirst] at hk
      exact Option.some.inj hk

/-- Each header of a linked table announces what follows it. -/
theorem Linked.announces (hp : t.Placed) (hl : t.Linked kind gs) (hgs : gs <:+ last.inside)
    (hg : g ∈ gs) (he : t.get g = some e) :
    ∀ k ∈ (t.around g).innerKind, e.header.Announces k := by
  induction gs generalizing kind with
  | nil => cases hg
  | cons g' gs ih =>
    have hrest : gs <:+ last.inside := (List.suffix_cons g' gs).trans hgs
    obtain rfl | hmem := List.mem_cons.mp hg
    · have hinside := HeaderGroup.inside_of_suffix hgs
      have hl2 : .l2 ∉ g.inside := by
        have hlast := HeaderGroup.index_lt_of_mem_inside (hgs.subset List.mem_cons_self)
        revert hlast
        cases last <;> cases g <;> decide
      intro k hk
      obtain rfl := ((linked_cons he).mp hl).2.head hp (hinside ▸ hl2) k (hinside ▸ hk)
      exact e.header.announces_next
    · cases he' : t.get g' with
      | none => exact ih ((linked_cons_none he').mp hl) hrest hmem
      | some e' => exact ih ((linked_cons he').mp hl).2 hrest hmem

/-! ### Lengths -/

/-- Rebuilding changes no length. -/
theorem map_wireLen_rebuildAll (t : Headers) (gs : List HeaderGroup) :
    (t.rebuildAll.entriesOf gs).map (·.wireLen) = (t.entriesOf gs).map (·.wireLen) := by
  rw [entriesOf, entriesOf, List.map_filterMap, List.map_filterMap]
  refine List.filterMap_congr fun g' _ => ?_
  obtain ⟨around, -, hget⟩ := get_rebuildGroups nodup_all (mem_all g') t
  rw [rebuildAll, hget, Option.map_map]
  congr 1
  funext e
  simp [Entry.wireLen]

theorem innerLen_rebuildAll (t : Headers) (g : HeaderGroup) :
    (t.rebuildAll.around g).innerLen = (t.around g).innerLen := by
  have hsum (u : Headers) : (u.around g).innerLen =
      ((u.entriesOf g.inside).map (·.wireLen)).foldr (· + ·) 0 := by
    rw [List.foldr_map]
    exact Entry.length_emitAll _
  rw [hsum, map_wireLen_rebuildAll, ← hsum]

theorem wireLen_rebuildAll (t : Headers) : t.rebuildAll.wireLen = t.wireLen := by
  have hsum (u : Headers) : u.wireLen =
      ((u.entriesOf HeaderGroup.all).map (·.wireLen)).foldr (· + ·) 0 := List.foldr_map.symm
  rw [hsum, map_wireLen_rebuildAll, ← hsum]

/-! ### Accepted tables -/

/-- What parsing leaves of a frame: every header would be read back where it stands, after what the
one before it says; nothing is dirty; and the upper-layer checksum stands for the addresses that are
there. -/
structure Accepted (start : HeaderKind) (t : Headers) : Prop where
  orderly : t.Orderly start
  clean : t.Clean
  legible : ∀ g ≠ .packet, ∀ e, t.get g = some e → e.header.Legible (t.around g).inner
  linked : t.Linked start HeaderGroup.packet.inside
  seen : ∀ e, t.get .l4 = some e → e.header.Seen (t.around .l4).addrs

namespace Accepted

theorem announces (ht : t.Accepted start) (hg : g ∈ HeaderGroup.packet.inside)
    (he : t.get g = some e) : ∀ k ∈ (t.around g).innerKind, e.header.Announces k :=
  ht.linked.announces ht.orderly.placed List.suffix_rfl hg he

theorem linked_rebuildAll (ht : t.Accepted start) :
    t.rebuildAll.Linked start HeaderGroup.packet.inside := by
  refine ht.linked.map fun g hg => ?_
  obtain ⟨around, hk, hget⟩ := get_rebuildGroups nodup_all (mem_all g) t
  refine ⟨_, hget, fun e he => ?_⟩
  have ha : ∀ k ∈ around.innerKind, e.header.Announces k := hk ▸ ht.announces hg he
  exact ⟨Header.next_rebuild ha, fun _ hfound => hfound.rebuild ha⟩

theorem fits_rebuildAll (ht : t.Accepted start) : t.rebuildAll.Fits := by
  intro e he
  obtain ⟨e₀, he₀, rfl⟩ :=
    Option.map_eq_some_iff.mp ((l3_rebuildAll ht.orderly.placed).symm.trans he)
  rw [innerLen_rebuildAll]
  exact (ht.legible .l3 (by decide) e₀ he₀).fits.rebuild

section

variable (ht : t.Accepted start) (hx : t.Exact)
include ht hx

/-- A header of an exact table writes the same if it is rebuilt before the same kind and, where it
counts, before the same bytes. -/
theorem wire_of_exact (hg : g ∈ HeaderGroup.packet.inside) {around : Surroundings}
    (hget : t.rebuildAll.get g = (t.get g).map fun e => ⟨e.header.rebuild around e.dirty, false⟩)
    (hk : around.innerKind = (t.around g).innerKind)
    (hi : g = .l3 ∨ g = .l4 → around.inner = (t.around g).inner)
    (haround : g = .l4 → around = t.around .l4) : t.rebuildAll.wire? g = t.wire? g := by
  rw [wire?, wire?, hget]
  cases he : t.get g with
  | none => rfl
  | some e =>
    have hgroup := ht.orderly.placed g e he
    have hpacket : g ≠ .packet := by
      rintro rfl
      exact HeaderGroup.not_mem_inside_self _ hg
    have hbytes : (e.header.rebuild around e.dirty).emit = e.header.emit := by
      rw [ht.clean g e he]
      refine Header.emit_rebuild_of_exact (ht.legible g hpacket e he) (ht.announces hg he)
        (hx g (List.mem_reverse.mp (mem_all g)) e he) hk (hgroup.symm ▸ hi) fun hl4 => ?_
      obtain rfl := hgroup.symm.trans hl4
      rw [haround rfl]
      exact ⟨outerDirty_of_clean ht.clean _, innerDirty_of_clean ht.clean _, ht.seen e he⟩
    simp [hbytes]

/-- An exact table is rebuilt to the same bytes. -/
theorem emit_rebuildAll_of_exact : t.rebuildAll.emit = t.emit :=
  emit_rebuildAll_eq ht.orderly.placed ht.orderly.placed fun _ hg _ => ht.wire_of_exact hx hg

end

end Accepted

end Headers

/-! ### Parsing -/

namespace Packet

open Headers

variable {start : HeaderKind} {b : Bytes} {p : Packet} {g : HeaderGroup} {t : Headers}

section

variable {f : Frame} (hs : start ≠ .none)
  (e : parseHeaders 4 .packet start f
    (Headers.empty.set .packet (some (.clean (.metadata .fresh)))) = .ok t)
include hs e

/-- Every header that was read would be read back where it stands. -/
theorem legible_of_parseHeaders (hg : g ≠ .packet) {x : Entry} (hx : t.get g = some x) :
    x.header.Legible (t.around g).inner := by
  have hplaced := (orderly_of_parseHeaders e).placed
  obtain ⟨-, -, hoff⟩ := emitAll_parseHeaders (by decide) (fun h => absurd h hs) e
  obtain ⟨kind, next, f₀, f₁, hread, hunread⟩ :=
    hoff g (by revert hg; cases g <;> decide) x hx
  have hinner : (t.around g).inner = f₁.unread := by
    have hwhole := (Header.read_eq hread).1.symm.trans hunread
    rw [entriesOf_cons hx, Entry.emitAll_cons] at hwhole
    exact (List.append_cancel_left (List.append_cancel_right hwhole)).symm
  rw [hinner]
  exact Header.legible_of_read (by rwa [hplaced g x hx]) hread

/-- Every header that was read is found as what the one before it says. -/
theorem linked_self_of_parseHeaders : t.Linked start HeaderGroup.packet.inside := by
  have horderly := orderly_of_parseHeaders e
  obtain ⟨-, hemit, -⟩ := emitAll_parseHeaders (by decide) (fun h => absurd h hs) e
  exact linked_of_parseHeaders horderly.placed
    (fun g hg x hx => legible_of_parseHeaders hs e hg hx) List.suffix_rfl
    (fun g hin hout => absurd hin hout) horderly.trailer (by decide) hemit.symm e fun _ _ => rfl

end

theorem accepted_of_parse (hs : start ≠ .none) (e : parse start b = .ok p) :
    p.headers.Accepted start := by
  have horderly := orderly_of_parse e
  have hclean := clean_of_parse e
  obtain ⟨t, ht, rfl⟩ := parse_eq_ok_iff.mp e
  refine ⟨horderly, hclean, fun g hg x hx => ?_, ?_, fun x hx => ?_⟩
  · obtain ⟨around, x₀, hx₀, rfl⟩ := get_of_attachAll hx
    show (x₀.header.attach around).Legible (t.attachAll.around g).inner
    rw [inner_attachAll]
    exact (legible_of_parseHeaders hs ht hg hx₀).attach around
  · refine (linked_self_of_parseHeaders hs ht).map fun g _ => ?_
    obtain ⟨around, hget⟩ := t.get_attachAll g
    exact ⟨_, hget, fun x _ => ⟨x.header.next_attach around, fun _ hfound => hfound.attach around⟩⟩
  · obtain ⟨around, haddrs, hl4⟩ := t.l4_attachAll
    obtain ⟨x₀, -, rfl⟩ := Option.map_eq_some_iff.mp (hl4.symm.trans hx)
    exact haddrs ▸ x₀.header.seen_attach around

/-- The frame of a rebuilt table that is linked is parsed as a packet that reads the table back. -/
theorem readBack_of_linked (ht : t.Orderly start) (hfits : t.rebuildAll.Fits)
    (hlinked : t.rebuildAll.Linked start HeaderGroup.packet.inside) :
    ∃ q, parse start t.rebuildAll.emit = .ok q ∧ t.rebuildAll.ReadBack q.headers := by
  have hrebuilt : t.rebuildAll.Orderly start := ht.rebuildGroups _
  have hlegible : ∀ g ≠ .packet, ∀ e, t.rebuildAll.get g = some e →
      e.header.Legible (t.rebuildAll.around g).inner :=
    fun g hg e he => ht.legible_rebuildAll hfits hg he
  have hframe : (Frame.ofBytes t.rebuildAll.emit).unread =
      Entry.emitAll (t.rebuildAll.entriesOf HeaderGroup.packet.inside) :=
    emit_eq_inside hrebuilt.placed
  have hfree : ∀ g ∈ HeaderGroup.packet.inside,
      (Headers.empty.set .packet (some (.clean (.metadata .fresh)))).get g = none := by decide
  obtain ⟨u, hu, -, hget⟩ := parseHeaders_of_linked hrebuilt.placed hlegible List.suffix_rfl
    (Nat.le_refl 4) hlinked hrebuilt.trailer hfree hframe
  exact ⟨_, parse_eq_ok_iff.mpr ⟨u, hu, rfl⟩, readBack_attachAll hu hget⟩

/-- The frame that serializing a parsed frame gives is parsed as headers of the same kinds, and
serialized to itself. It is the frame that was parsed if the IP and UDP lengths in there say how much
follows and the GRE checksums are those that a rebuild stores. -/
theorem serialize_settles (e : parse start b = .ok p) :
    (∃ q, parse start p.serialize.1 = .ok q ∧ q.headers.kinds = p.headers.kinds ∧
        q.serialize.1 = p.serialize.1) ∧
      (start ≠ .none → p.headers.Exact → p.serialize.1 = b) := by
  by_cases hs : start = .none
  · subst hs
    cases e
    exact ⟨⟨_, rfl, rfl, rfl⟩, fun h => absurd rfl h⟩
  have haccepted := accepted_of_parse hs e
  have horderly := haccepted.orderly
  constructor
  · obtain ⟨q, hq, hback⟩ :=
      readBack_of_linked horderly haccepted.fits_rebuildAll haccepted.linked_rebuildAll
    have hsame := hback.sameKinds (horderly.rebuildGroups _) (orderly_of_parse hq)
    exact ⟨q, hq, hsame.kinds.trans (p.headers.sameKinds_rebuildGroups _).kinds,
      emit_of_readBack horderly.placed hback⟩
  · intro _ hexact
    obtain ⟨t, ht, -, hemit, -⟩ := emit_of_parse hs e
    calc p.serialize.1 = p.headers.emit := haccepted.emit_rebuildAll_of_exact hexact
      _ = t.emit := ht ▸ t.emitAll_attachAll HeaderGroup.all
      _ = b := hemit

/-- A padded frame with a datagram in IPv6, GRE and IPv4. The lengths inside the tunnel and the GRE
checksum are wrong, and right once the frame has been serialized. -/
theorem serialize_settles_in_tunnel : ∃ b p q, parse .eth b = .ok p ∧
    p.headers.kinds = [.metadata, .eth, .ip4, .gre, .ip6, .udp, .payload] ∧
    ¬p.headers.Exact ∧ p.serialize.1 ≠ b ∧
    parse .eth p.serialize.1 = .ok q ∧ q.headers.kinds = p.headers.kinds ∧ q.headers.Exact ∧
    q.serialize.1 = p.serialize.1 := by
  let b : Bytes := [2, 0, 0, 0, 0, 1, 2, 0, 0, 0, 0, 2, 8, 0,
    69, 0, 0, 79, 0, 0, 0, 0, 64, 47, 0, 0, 10, 0, 0, 1, 10, 0, 0, 2,
    128, 0, 134, 221, 18, 52, 0, 0,
    96, 0, 0, 0, 0, 5, 17, 64, 32, 1, 0, 0, 0, 0, 0, 0, 0, 0, 0, 0, 0, 0, 0, 1,
    32, 1, 0, 0, 0, 0, 0, 0, 0, 0, 0, 0, 0, 0, 0, 2,
    0, 53, 0, 53, 0, 40, 0, 0, 1, 2, 3,
    0, 0]
  have tunnel : ∃ p ∈ (parse .eth b).toOption,
      p.headers.kinds = [.metadata, .eth, .ip4, .gre, .ip6, .udp, .payload] ∧
      ¬p.headers.Exact ∧ p.serialize.1 ≠ b ∧
      ∃ q ∈ (parse .eth p.serialize.1).toOption, q.headers.Exact := by
    decide +kernel
  obtain ⟨p, hp, hkinds, hloose, hne, q, hq, hexact⟩ := tunnel
  have hp := toOption_eq_some_iff.mp hp
  have hq := toOption_eq_some_iff.mp hq
  obtain ⟨q', hq', hsame, -⟩ := (serialize_settles hp).1
  cases hq.symm.trans hq'
  exact ⟨b, p, q, hp, hkinds, hloose, hne, hq, hsame, hexact,
    (serialize_settles hq).2 (by decide) hexact⟩

end Packet

end Dataplane

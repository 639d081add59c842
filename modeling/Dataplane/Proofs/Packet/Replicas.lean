import Dataplane.Proofs.Headers.Replicas
import Dataplane.Proofs.Packet.Linked
import Dataplane.Proofs.Packet.Reached

/-!
# Replicas

A replica is read off the frame that serializing gives, as one that starts with the kind the packet
was parsed as. Headers that have been put on or taken off since may announce each other wrongly, and
the first of them may be another one than it was. A replica is faithful exactly if the rebuilt table
is linked (`Packet.replica_iff`).
-/

namespace Dataplane

namespace Headers

variable {s u : Headers} {start start' : HeaderKind}

/-- Metadata aside, a table that is read back has headers of the same kinds, and so does the whole. -/
theorem ReadBack.sameKinds (h : s.ReadBack u) (hs : s.Orderly start) (hu : u.Orderly start') :
    s.SameKinds u := by
  intro g
  by_cases hg : g = .packet
  · subst hg
    obtain ⟨m, hm⟩ := Option.isSome_iff_exists.mp hs.metadata
    obtain ⟨m', hm'⟩ := Option.isSome_iff_exists.mp hu.metadata
    show u.packet.map _ = s.packet.map _
    rw [hm, hm', Option.map_some, Option.map_some, (stack_packet hs.placed hm).1,
      (stack_packet hu.placed hm').1]
  · obtain ⟨around, -, hget⟩ := h.get g (by revert hg; cases g <;> decide)
    rw [hget, Option.map_map]
    congr 1
    funext e
    exact e.header.stack_attach around

end Headers

namespace Packet

open Headers

variable {p q r : Packet} {kind start : HeaderKind} {b : Bytes}

/-- Packets that come from a parsed frame by adding and removing headers. -/
inductive Recapped : Packet → Prop
  /-- A parsed frame. -/
  | parse {start : HeaderKind} {b : Bytes} {p : Packet} (h : parse start b = .ok p) : Recapped p
  /-- A header is added. -/
  | encap {p q : Packet} {kind : HeaderKind} (hp : Recapped p) (h : p.encap kind = .ok q) :
      Recapped q
  /-- A header is removed. -/
  | decap {p q : Packet} {kind : HeaderKind} (hp : Recapped p) (h : p.decap kind = .ok q) :
      Recapped q

/-- Adding a header does not change what the packet was parsed as. -/
theorem start_encap (h : p.encap kind = .ok q) : q.start = p.start := by
  rw [encap] at h
  split at h
  · cases h
  · cases h
  · cases h
  · split at h
    all_goals
      obtain ⟨_, -, h⟩ := bind_eq_ok_iff.mp h
      cases h
      rfl

theorem start_decap (h : p.decap kind = .ok q) : q.start = p.start := by
  rw [decap] at h
  split at h
  · cases h
  · cases h
  · split at h
    · cases h
    · obtain ⟨⟨h', done⟩, -, h⟩ := bind_eq_ok_iff.mp h
      cases done with
      | false =>
        cases h
        rfl
      | true =>
        simp only [if_true] at h
        split at h
        all_goals
          cases h
          rfl

/-- The metadata is never removed. -/
theorem group_of_decap (h : p.decap kind = .ok q) : kind.group? ≠ some .packet := by
  intro hg
  rw [decap, hg] at h
  cases h

theorem Recapped.orderly (hp : p.Recapped) : p.headers.Orderly p.start := by
  induction hp with
  | parse h =>
    have horderly := orderly_of_parse h
    obtain ⟨t, -, rfl⟩ := parse_eq_ok_iff.mp h
    exact horderly
  | encap _ h ih => exact start_encap h ▸ ih.encap (step_encap h)
  | decap _ h ih => exact start_decap h ▸ ih.decap (step_decap h) (group_of_decap h)

/-- A replica without fields is what its frame is parsed as, with what the packet carries. -/
theorem replica_eq_ok_iff : p.replica [] = .ok r ↔ ∃ q, parse p.start p.serialize.1 = .ok q ∧
    { q with attrs := p.attrs, debug := p.debug, log := p.log } = r := by
  simp only [replica, reparse, copyFields, List.nil_append, bind_eq_ok_iff, mapError_eq_ok_iff,
    Except.ok.injEq, pure, Except.pure, exists_eq_left']

/-- Where parsing gives the headers of a table, the parsed packet has read the table back. -/
theorem readBack_attachAll {s t : Headers}
    (e : parseHeaders 4 .packet start (.ofBytes b)
      (Headers.empty.set .packet (some (.clean (.metadata .fresh)))) = .ok t)
    (hget : ∀ g ∈ HeaderGroup.packet.inside, t.get g = (s.get g).map fun e => .clean e.header.bare) :
    s.ReadBack t.attachAll where
  placed := (placed_parseHeaders (placed_empty.set (g := .packet) rfl) e).attachAll
  clean := clean_of_parse (parse_eq_ok_iff.mpr ⟨t, e, rfl⟩)
  get g hg := by
    have hattach (around : Surroundings) :
        (t.get g).map (fun e => { e with header := e.header.attach around }) =
          (s.get g).map fun e => .clean (e.header.attach around) := by
      rw [hget g hg, Option.map_map]
      congr 1
      funext e
      simp [Entry.clean]
    by_cases hl4 : g = .l4
    · subst hl4
      obtain ⟨around, hseen, hl4⟩ := t.l4_attachAll
      exact ⟨around, fun _ => hseen, hl4.trans (hattach around)⟩
    · obtain ⟨around, hget'⟩ := t.get_attachAll g
      exact ⟨around, fun h => absurd h hl4, hget'.trans (hattach around)⟩

/-- A replica of a packet whose lengths have room for its content can be made and is faithful, in
its kinds and in its frame, exactly if every header that serializing gives is announced by the one
before it, the first one by what the packet was parsed as. -/
theorem replica_iff (hp : p.Recapped) (hfits : p.serialize.2.headers.Fits) :
    (∃ r, p.replica [] = .ok r ∧ r.headers.kinds = p.headers.kinds ∧
        r.serialize.1 = p.serialize.1) ↔
      p.serialize.2.headers.Linked p.start HeaderGroup.packet.inside := by
  have horderly := hp.orderly
  have hrebuilt : p.headers.rebuildAll.Orderly p.start := horderly.rebuildGroups _
  have hframe : (Frame.ofBytes p.serialize.1).unread =
      Entry.emitAll (p.headers.rebuildAll.entriesOf HeaderGroup.packet.inside) :=
    emit_eq_inside hrebuilt.placed
  have hlegible : ∀ g ≠ .packet, ∀ e, p.headers.rebuildAll.get g = some e →
      e.header.Legible (p.headers.rebuildAll.around g).inner :=
    fun g hg e he => horderly.legible_rebuildAll hfits hg he
  have hfree : ∀ g ∈ HeaderGroup.packet.inside,
      (Headers.empty.set .packet (some (.clean (.metadata .fresh)))).get g = none := by decide
  have hkinds : p.headers.rebuildAll.kinds = p.headers.kinds :=
    (p.headers.sameKinds_rebuildGroups _).kinds
  constructor
  · rintro ⟨r, hr, hsame, -⟩
    obtain ⟨q, hq, rfl⟩ := replica_eq_ok_iff.mp hr
    obtain ⟨t, ht, rfl⟩ := parse_eq_ok_iff.mp hq
    have htable : t.kinds = p.headers.rebuildAll.kinds :=
      t.sameKinds_attachAll.kinds.symm.trans (hsame.trans hkinds.symm)
    exact linked_of_parseHeaders hrebuilt.placed hlegible List.suffix_rfl
      (fun g hin hout => absurd hin hout) hrebuilt.trailer hfree hframe ht
      fun g _ => map_kinds_of_kinds (orderly_of_parseHeaders ht) hrebuilt htable g
  · intro hlinked
    obtain ⟨t, ht, -, hget⟩ := parseHeaders_of_linked hrebuilt.placed hlegible List.suffix_rfl
      (Nat.le_refl 4) hlinked hrebuilt.trailer hfree hframe
    have hback := readBack_attachAll ht hget
    refine ⟨_, replica_eq_ok_iff.mpr ⟨_, parse_eq_ok_iff.mpr ⟨t, ht, rfl⟩, rfl⟩, ?_, ?_⟩
    · exact ((hback.sameKinds hrebuilt (orderly_of_parseHeaders ht).attachAll).kinds).trans hkinds
    · exact emit_of_readBack horderly.placed hback

/-- A datagram in GRE and IPv6, as it is after the two headers have been put on. -/
theorem replica_of_tunnel : ∃ b p q q', parse .eth b = .ok p ∧ p.encap .gre = .ok q ∧
    q.encap .ip6 = .ok q' ∧
    q'.headers.kinds = [.metadata, .eth, .ip6, .gre, .ip4, .udp, .payload] ∧
    ∃ r, q'.replica [] = .ok r ∧ r.headers.kinds = q'.headers.kinds ∧
      r.serialize.1 = q'.serialize.1 := by
  let b : Bytes := [2, 0, 0, 0, 0, 1, 2, 0, 0, 0, 0, 2, 8, 0,
    69, 0, 0, 30, 0, 0, 0, 0, 64, 17, 102, 205, 10, 0, 0, 1, 10, 0, 0, 2,
    0, 53, 0, 53, 0, 10, 0, 0, 1, 2]
  have tunnel : ∃ p ∈ (parse .eth b).toOption, ∃ q ∈ (p.encap .gre).toOption,
      ∃ q' ∈ (q.encap .ip6).toOption,
        q'.headers.kinds = [.metadata, .eth, .ip6, .gre, .ip4, .udp, .payload] ∧
        q'.serialize.2.headers.Fits ∧
        q'.serialize.2.headers.Linked q'.start HeaderGroup.packet.inside := by
    decide +kernel
  obtain ⟨p, hp, q, hq, q', hq', hkinds, hfits, hlinked⟩ := tunnel
  have hp := toOption_eq_some_iff.mp hp
  have hq := toOption_eq_some_iff.mp hq
  have hq' := toOption_eq_some_iff.mp hq'
  exact ⟨b, p, q, q', hp, hq, hq', hkinds,
    (replica_iff (((Recapped.parse hp).encap hq).encap hq') hfits).mpr hlinked⟩

/-- An Ethernet header is put around an IPv4 packet. The frame starts with Ethernet, but a replica
is read off it as an IPv4 packet, and refused. -/
theorem replica_refused : ∃ b p q, parse .ip4 b = .ok p ∧ p.encap .eth = .ok q ∧ q.Recapped ∧
    q.headers.kinds = [.metadata, .eth, .ip4, .udp, .payload] ∧ q.start = .ip4 ∧
    ¬∃ r, q.replica [] = .ok r := by
  let b : Bytes := [69, 0, 0, 30, 0, 0, 0, 0, 64, 17, 102, 205, 10, 0, 0, 1, 10, 0, 0, 2,
    0, 53, 0, 53, 0, 10, 0, 0, 1, 2]
  have covered : ∃ p ∈ (parse .ip4 b).toOption, ∃ q ∈ (p.encap .eth).toOption,
      q.headers.kinds = [.metadata, .eth, .ip4, .udp, .payload] ∧ q.start = .ip4 ∧
      (q.replica []).toOption = none := by
    decide +kernel
  obtain ⟨p, hp, q, hq, hkinds, hstart, hnone⟩ := covered
  have hp := toOption_eq_some_iff.mp hp
  have hq := toOption_eq_some_iff.mp hq
  refine ⟨b, p, q, hp, hq, (Recapped.parse hp).encap hq, hkinds, hstart, ?_⟩
  rintro ⟨r, hr⟩
  rw [hr] at hnone
  cases hnone

end Packet

end Dataplane

import Dataplane.Proofs.Header.Announcing
import Dataplane.Proofs.Headers.Agreement
import Dataplane.Proofs.Packet.Wire

/-!
# A header put into an empty place and removed

A header that is put into an empty place and removed again leaves its traces in the headers outside:
they go on naming its kind as what follows. So the table is serialized to the same frame only if the
nearest header outside named that kind already, or has no name for it (`Headers.emit_detour_iff`).

## The model

`Headers.detour t g h` is the table after the header `h` has been put into the empty place of the
group `g` and removed from it. Inside the Ethernet header it agrees with the old table
(`Headers.AgreeInside`), unless a chain of IP headers lies outside the place. A chain has been rebuilt
before the new header and then before what was there, and the comparison is exact, down to the
checksums that get computed on the way (`IpChain.rebuildHeaders_back_iff`).
-/

namespace Dataplane

theorem Header.wireLen_pos_of_group {h : Header} (hg : h.group = .l4) : 0 < h.wireLen := by
  cases h with
  | tcp _ | udp _ | icmp4 _ | icmp6 _ =>
    simp only [Header.wireLen, Tcp.wireLen, Icmp6.wireLen]
    omega
  | _ => cases hg

namespace Headers

variable {t : Headers} {a g : HeaderGroup} {kind : HeaderKind} {h : Header}

/-! ### Announcing -/

/-- The nearest header outside a place announces a kind, or cannot announce it. -/
def Announces (t : Headers) (g : HeaderGroup) (kind : HeaderKind) : Prop :=
  ∀ e ∈ (t.entriesOf g.outside).head?, e.header.Announces kind

instance (t : Headers) (g : HeaderGroup) (kind : HeaderKind) : Decidable (t.Announces g kind) := by
  unfold Announces; infer_instance

/-- The metadata announce nothing. -/
theorem announces_l2 (hp : t.Placed) (kind : HeaderKind) : t.Announces .l2 kind := by
  intro x hx
  obtain ⟨g, hg, hget⟩ := List.mem_filterMap.mp (List.mem_of_mem_head? hx)
  cases List.mem_singleton.mp hg
  have hgroup := hp .packet x hget
  cases h : x.header with
  | metadata m => trivial
  | _ => rw [h] at hgroup; cases hgroup

/-- Outside the network layer stands the Ethernet header. -/
theorem announces_l3_iff (hp : t.Placed) :
    t.Announces .l3 kind ↔ ∀ x ∈ t.l2, x.header.Announces kind := by
  have houtside : t.entriesOf HeaderGroup.l3.outside = t.entriesOf [.l2, .packet] := rfl
  rw [Announces, houtside]
  cases he : t.l2 with
  | some x => rw [entriesOf_cons (g := .l2) he]; simp
  | none =>
    rw [entriesOf_cons_none (g := .l2) he]
    exact iff_of_true (announces_l2 hp kind) nofun

theorem announces_l4_iff (hp : t.Placed) (hkind : EtherType.ofKind? kind = none) :
    t.Announces .l4 kind ↔ ∀ x ∈ t.l3, x.header.Announces kind := by
  have houtside : t.entriesOf HeaderGroup.l4.outside =
    t.entriesOf (.l3 :: HeaderGroup.l3.outside) := rfl
  rw [Announces, houtside]
  cases he : t.l3 with
  | some x => rw [entriesOf_cons (g := .l3) he]; simp
  | none =>
    rw [entriesOf_cons_none (g := .l3) he, ← Announces, announces_l3_iff hp]
    refine iff_of_true (fun x hx => ?_) nofun
    obtain ⟨e, he⟩ := Header.ethernet_of_group (hp .l2 x hx)
    rw [he]
    intro type htype
    rw [hkind] at htype
    cases htype

/-! ### There and back -/

/-- The table after a header has been put into a place and removed from it. -/
def detour (t : Headers) (g : HeaderGroup) (h : Header) : Headers := (t.refreshed g h).removed g

section Detour

variable (hfree : t.get g = none)

include hfree

theorem get_detour_of_not_outside (ha : a ∉ g.outside) (h : Header) :
    (t.detour g h).get a = t.get a := by
  rw [detour, get_removed_of_not_outside ha]
  by_cases hag : a = g
  · subst hag
    rw [get_set_self, hfree]
  · have hin : a ∈ g.inside := by
      revert ha hag
      cases a <;> cases g <;> decide
    rw [get_set_of_ne _ hag, get_refreshed_inside hin]

theorem sameKinds_without (h : Header) : t.SameKinds ((t.refreshed g h).set g none) := by
  intro a
  by_cases hag : a = g
  · subst hag
    rw [get_set_self, hfree]
  · have hsame := sameKinds_rebuildGroups (t.set g (some ⟨h, true⟩)) (g :: g.outside) a
    rw [get_set_of_ne _ hag] at hsame ⊢
    exact hsame

theorem sameKinds_detour (h : Header) : t.SameKinds (t.detour g h) :=
  (sameKinds_without hfree h).trans (sameKinds_removed _ g)

/-- A header outside the place has been rebuilt twice: with the new header behind it, and without. -/
theorem get_detour_outside (ha : a ∈ g.outside) (h : Header) :
    ∃ with' without, with'.innerKind = ((t.set g (some ⟨h, true⟩)).around a).innerKind ∧
      without.innerKind = (t.around a).innerKind ∧
      (t.detour g h).get a = (t.get a).map fun e =>
        ⟨(e.header.rebuild with' e.dirty).rebuild without false, false⟩ := by
  obtain ⟨with', hwith, hget⟩ := get_refreshed_outside ha t h
  obtain ⟨without, hwithout, hget'⟩ := get_removed_outside ha (t.refreshed g h)
  rw [(sameKinds_without hfree h).innerKind] at hwithout
  refine ⟨with', without, hwith, hwithout, ?_⟩
  rw [detour, hget', hget, Option.map_map]
  rfl

end Detour

/-! ### What serializing gives after the detour -/

theorem rebuildAt_of_free (hfree : t.get g = none) : t.rebuildAt g = t := by
  obtain ⟨packet, l2, l3, l4, payload⟩ := t
  cases g <;> cases hfree <;> rfl

/-- What follows a header lies in the groups inside. -/
theorem inside_congr {u : Headers} (h : ∀ a ∈ g.inside, u.get a = t.get a) :
    (u.around g).innerKind = (t.around g).innerKind ∧ (u.around g).inner = (t.around g).inner := by
  have hentries : u.entriesOf g.inside = t.entriesOf g.inside := List.filterMap_congr h
  exact ⟨by simp only [around, hentries], by simp only [around, hentries]⟩

section Serialized

variable (hp : t.Placed) (hc : t.Clean) (hfree : t.get g = none) (hg : h.group = g)

include hp hc hfree hg in
/-- The detour keeps what is inside the Ethernet header, unless it went through a chain. -/
theorem agreeInside_detour (hpay : g ≠ .payload) (hchain : g = .l4 → t.chain? = none) :
    t.AgreeInside (t.detour g h) where
  placed := (hp.refreshed hg).removed g
  clean := (hc.refreshed g h).removed g
  l3 := by
    by_cases hout : .l3 ∈ g.outside
    · have hl4 : g = .l4 := by
        revert hout hpay
        cases g <;> decide
      obtain ⟨_, _, -, -, hget⟩ := get_detour_outside hfree hout h
      change (t.detour g h).l3 = t.l3.map _ at hget
      rw [hget]
      cases he : t.l3 with
      | none => exact .none
      | some e =>
        refine .some ?_
        have hgroup := hp .l3 e he
        cases hh : e.header with
        | ip c =>
          obtain ⟨header, dirty⟩ := e
          cases hh
          have hsome := chain?_eq_some_iff.mpr ⟨dirty, he⟩
          rw [hchain hl4] at hsome
          cases hsome
        | arp _ | mpls _ =>
          simp only [hh, Header.rebuild]
          exact .refl _ _
        | _ => rw [hh] at hgroup; cases hgroup
    · have hget : (t.detour g h).l3 = t.l3 := get_detour_of_not_outside hfree hout h
      rw [hget]
      cases t.l3 with
      | none => exact .none
      | some e => exact .some (.refl _ _)
  l4 := get_detour_of_not_outside (a := .l4) hfree (by revert hpay; cases g <;> decide) h
  payload := get_detour_of_not_outside (a := .payload) hfree (by cases g <;> decide) h

include hp hfree in
/-- The Ethernet header on its way: rebuilt before the new header and then, any number of times,
before the old ones. -/
theorem emit_l2_detour (hout : .l2 ∈ g.outside) : ∃ with' without,
    with'.innerKind = ((t.set g (some ⟨h, true⟩)).around .l2).innerKind ∧
      without.innerKind = (t.around .l2).innerKind ∧
      t.rebuildAll.l2.map (·.header.emit) =
        t.l2.map (fun x => (x.header.rebuild without false).emit) ∧
      (t.detour g h).rebuildAll.l2.map (·.header.emit) =
        t.l2.map (fun x => ((x.header.rebuild with' false).rebuild without false).emit) := by
  obtain ⟨with', without, hwith, hwithout, hget⟩ := get_detour_outside hfree hout h
  obtain ⟨around, hk, hall⟩ := t.l2_rebuildAll
  obtain ⟨around', hk', hall'⟩ := (t.detour g h).l2_rebuildAll
  rw [(sameKinds_detour hfree h).innerKind] at hk'
  change (t.detour g h).l2 = t.l2.map _ at hget
  refine ⟨with', without, hwith, hwithout, ?_, ?_⟩
  · rw [hall, Option.map_map]
    refine Option.map_congr fun x hx => ?_
    obtain ⟨e, he⟩ := Header.ethernet_of_group (hp .l2 x hx)
    simp only [Function.comp_apply, he, Header.rebuild,
      Ethernet.rebuild_congr (hk.trans hwithout.symm)]
  · rw [hall', hget, Option.map_map, Option.map_map]
    refine Option.map_congr fun x hx => ?_
    obtain ⟨e, he⟩ := Header.ethernet_of_group (hp .l2 x hx)
    simp only [Function.comp_apply, he, Header.rebuild,
      Ethernet.rebuild_congr (hk'.trans hwithout.symm), Ethernet.rebuild_rebuild rfl]

include hp hc hg in
theorem emit_detour_l2 (hfree : t.l2 = none) (hl2 : g = .l2) :
    (t.detour g h).rebuildAll.emit = t.rebuildAll.emit := by
  subst hl2
  have hag := agreeInside_detour hp hc (g := .l2) hfree hg nofun nofun
  have hnone (u : Headers) (h : u.l2 = none) : u.rebuildAll.l2 = none := by
    obtain ⟨_, -, hall⟩ := u.l2_rebuildAll
    rw [hall, h]
    rfl
  have hdetour : (t.detour .l2 h).l2 = none :=
    (get_detour_of_not_outside (a := .l2) (g := .l2) hfree (by decide) h).trans hfree
  rw [emit_eq_l2 (t := (t.detour .l2 h).rebuildAll) (hag.placed.rebuildGroups _),
    emit_eq_l2 (t := t.rebuildAll) (hp.rebuildGroups _), hnone _ hfree, hnone _ hdetour,
    hag.emit_inside hp hc]

end Serialized

/-- A network-layer header leaves its type in the Ethernet header. -/
theorem emit_detour_l3 (hp : t.Placed) (hc : t.Clean) (hfree : t.l3 = none) (hg : h.group = .l3)
    (hstack : h.stack = [kind]) :
    (t.detour .l3 h).rebuildAll.emit = t.rebuildAll.emit ↔ t.Announces .l3 kind := by
  have hag := agreeInside_detour hp hc (g := .l3) hfree hg nofun nofun
  obtain ⟨with', without, hwith, hwithout, hold, hnew⟩ :=
    emit_l2_detour (g := .l3) hp hfree (h := h) (by decide)
  rw [announces_l3_iff hp,
    emit_eq_l2 (t := (t.detour .l3 h).rebuildAll) (hag.placed.rebuildGroups _),
    emit_eq_l2 (t := t.rebuildAll) (hp.rebuildGroups _), hag.emit_inside hp hc,
    List.append_left_inj, hold, hnew]
  cases hx : t.l2 with
  | none => exact iff_of_true rfl nofun
  | some x =>
    obtain ⟨e, he⟩ := Header.ethernet_of_group (hp .l2 x hx)
    have hkind : with'.innerKind = some kind := by
      rw [hwith, innerKind_l2 (t := t.set .l3 (some ⟨h, true⟩)) rfl, hstack]
      rfl
    have hunannounced : without.innerKind >>= EtherType.ofKind? = none :=
      hwithout ▸ unannounced hp hfree
    have hself : e.rebuild with' = e ↔ _ := Ethernet.rebuild_eq_self_iff
    rw [hkind] at hself
    simp only [Option.map_some, Option.getD_some, he, Header.rebuild, Header.emit,
      Ethernet.rebuild_of_unannounced hunannounced, Option.mem_def, Option.some.injEq, forall_eq',
      Header.Announces]
    exact Iff.trans ⟨Ethernet.rebuild_of_emit, congrArg Ethernet.emit⟩ hself

/-- The Ethernet header does not notice an upper-layer header. -/
theorem emit_l2_detour_l4 (hp : t.Placed) (hfree : t.l4 = none) (hg : h.group = .l4) :
    (t.detour .l4 h).rebuildAll.l2.map (·.header.emit) =
      t.rebuildAll.l2.map (·.header.emit) := by
  obtain ⟨with', without, hwith, hwithout, hold, hnew⟩ :=
    emit_l2_detour (g := .l4) hp hfree (h := h) (by decide)
  have hsame : with'.innerKind >>= EtherType.ofKind? =
      without.innerKind >>= EtherType.ofKind? := by
    rw [hwith, hwithout]
    cases hl3 : t.l3 with
    | none =>
      rw [unannounced (t := t.set .l4 (some ⟨h, true⟩)) (hp.set hg) hl3, unannounced hp hl3]
    | some y => rw [innerKind_l2 (t := t.set .l4 (some ⟨h, true⟩)) hl3, innerKind_l2 hl3]
  rw [hold, hnew]
  refine Option.map_congr fun x hx => ?_
  obtain ⟨e, he⟩ := Header.ethernet_of_group (hp .l2 x hx)
  simp only [he, Header.rebuild, Ethernet.rebuild_rebuild hsame]

/-! ### Behind a chain -/

/-- What is outside an upper-layer header has been rebuilt before a longer packet that starts with
it. -/
theorem l3_refreshed_l4 (hfree : t.l4 = none) (hg : h.group = .l4) :
    ∃ with' more, with'.innerKind = h.stack.head? ∧ 0 < more ∧
      with'.innerLen = (t.around .l3).innerLen + more ∧
      (t.refreshed .l4 h).l3 = t.l3.map fun e => ⟨e.header.rebuild with' e.dirty, false⟩ := by
  set s := (t.set .l4 (some ⟨h, true⟩)).rebuildAt .l4 with hs
  set h' := h.rebuild ((t.set .l4 (some ⟨h, true⟩)).around .l4) true with hh'
  have hl4 : s.l4 = some ⟨h', true⟩ := rfl
  have hgroup : h'.group = .l4 := (h.group_rebuild _ _).trans hg
  have hinner : (s.around .l3).inner = h'.emit ++ (t.around .l3).inner := by
    have hinside : HeaderGroup.l3.inside = [.l4, .payload] := rfl
    have hpayload : s.entriesOf [.payload] = t.entriesOf [.payload] := rfl
    simp only [around, hinside]
    rw [entriesOf_cons (g := .l4) hl4, Entry.emitAll_cons, hpayload,
      Packet.trailer_of_group (by rw [hgroup]; decide), List.append_nil,
      entriesOf_cons_none (g := .l4) hfree]
  refine ⟨s.around .l3, h'.emit.length, ?_, ?_, ?_, ?_⟩
  · have hinside : (t.set .l4 (some ⟨h, true⟩)).kindsOf HeaderGroup.l3.inside =
        h.stack :: t.kindsOf [.payload] := rfl
    rw [hs, (sameKinds_rebuildAt _ .l4).innerKind, innerKind_eq, hinside]
    rfl
  · rw [Header.length_emit]
    exact Header.wireLen_pos_of_group hgroup
  · rw [Surroundings.innerLen, hinner, List.length_append, Nat.add_comm]
    rfl
  · change (t.l3.map _).map _ = _
    rw [Option.map_map]
    rfl

/-- What is outside is rebuilt once more when the upper-layer header is removed. -/
theorem l3_removed_l4 (t : Headers) : (t.removed .l4).l3 =
    t.l3.map fun e => ⟨e.header.rebuild ((t.set .l4 none).around .l3) e.dirty, false⟩ := by
  cases hl3 : t.l3 with
  | none =>
    obtain ⟨_, -, hget⟩ := get_removed_outside (a := .l3) (g := .l4) (by decide) t
    change (t.removed .l4).l3 = t.l3.map _ at hget
    rw [hget, hl3]
    rfl
  | some e =>
    have hpresent : (t.set .l4 none).isPresent .l3 = true := by
      change t.l3.isSome = true
      rw [hl3]
      rfl
    have hprev : (t.set .l4 none).prev? .l4 = some .l3 := List.find?_cons_of_pos hpresent
    rw [removed, hprev]
    change (t.l3.map _).map _ = _
    rw [hl3]
    rfl

/-- Behind the network layer everything is as it was. -/
theorem get_detour_l4 (hfree : t.l4 = none) (ha : a ∈ HeaderGroup.l3.inside) :
    (t.detour .l4 h).get a = t.get a := by
  refine get_detour_of_not_outside (g := .l4) hfree ?_ h
  revert ha
  cases a <;> decide

/-- A chain on its way: rebuilt before the upper-layer header and then before what was there. -/
theorem l3_detour_chain (hp : t.Placed) (hfree : t.l4 = none) (hg : h.group = .l4) {c : IpChain}
    (hl3 : t.l3 = some ⟨.ip c, false⟩) :
    ∃ with' more, with'.innerKind = h.stack.head? ∧ 0 < more ∧
      with'.innerLen = (t.around .l3).innerLen + more ∧
      t.rebuildAll.l3 = some ⟨.ip (c.rebuild (t.around .l3) false), false⟩ ∧
      (t.detour .l4 h).rebuildAll.l3 =
        some ⟨.ip ((c.rebuild with' false).rebuild (t.around .l3) false), false⟩ := by
  obtain ⟨with', more, hkind, hmore, hlen, hrefreshed⟩ := l3_refreshed_l4 hfree hg
  -- What is behind the chain, once without the header and once after the detour, is what was there.
  have hwithout := inside_congr (g := .l3) (u := (t.refreshed .l4 h).set .l4 none) fun a ha => by
    rw [← get_detour_l4 hfree ha, detour, get_removed_of_not_outside]
    revert ha
    cases a <;> decide
  have hafter := inside_congr (g := .l3) (u := t.detour .l4 h) fun _ => get_detour_l4 hfree
  have hdetour : (t.detour .l4 h).l3 = some ⟨.ip ((c.rebuild with' false).rebuild
      (((t.refreshed .l4 h).set .l4 none).around .l3) false), false⟩ := by
    rw [detour, l3_removed_l4, hrefreshed, hl3]
    rfl
  refine ⟨with', more, hkind, hmore, hlen, ?_, ?_⟩
  · rw [l3_rebuildAll hp, rebuildAt_of_free (g := .l4) hfree, hl3]
    rfl
  · have hfree' : (t.detour .l4 h).l4 = none :=
      (get_detour_l4 (a := .l4) hfree (by decide)).trans hfree
    rw [l3_rebuildAll (t := t.detour .l4 h) ((hp.refreshed hg).removed _),
      rebuildAt_of_free (g := .l4) hfree', hdetour, Option.map_some]
    simp only [Header.rebuild, IpChain.rebuild_congr hwithout.1 hwithout.2,
      IpChain.rebuild_congr hafter.1 hafter.2, IpChain.rebuild_self]

/-- Nothing announces the payload. -/
theorem innerKind_l3 (hp : t.Placed) (hfree : t.l4 = none) :
    ∀ k ∈ (t.around .l3).innerKind, k = .payload := by
  have hkinds : t.kindsOf HeaderGroup.l3.inside = t.kindsOf [.payload] := by
    rw [kindsOf, HeaderGroup.inside, entriesOf_cons_none (g := .l4) hfree, kindsOf]
  intro k hk
  rw [innerKind_eq, hkinds] at hk
  obtain ⟨stack, hstack, hk⟩ := Option.bind_eq_some_iff.mp hk
  obtain ⟨e, he, rfl⟩ := List.mem_map.mp (List.mem_of_mem_head? hstack)
  obtain ⟨g, hg, hget⟩ := List.mem_filterMap.mp he
  cases List.mem_singleton.mp hg
  have hgroup := Header.group_of_mem_stack (List.mem_of_mem_head? hk)
  rw [hp .payload e hget] at hgroup
  exact kind_group_eq_payload hgroup

/-- An upper-layer header has a protocol number, and no type. -/
theorem numbered_of_group (hkind : kind.group? = some .l4) :
    (∃ number, IpProtocol.ofKind? kind = some number) ∧ Gre.typeOfKind? kind = none ∧
      EtherType.ofKind? kind = none := by
  cases kind with
  | tcp | udp | icmp4 | icmp6 => exact ⟨⟨_, rfl⟩, rfl, rfl⟩
  | _ => cases hkind

/-- Without a chain outside, an upper-layer header leaves no trace. -/
theorem emit_detour_of_no_chain (hp : t.Placed) (hc : t.Clean) (hfree : t.l4 = none)
    (hg : h.group = .l4) (hchain : t.chain? = none) :
    (t.detour .l4 h).rebuildAll.emit = t.rebuildAll.emit := by
  have hag := agreeInside_detour hp hc (g := .l4) hfree hg nofun fun _ => hchain
  rw [emit_eq_l2 (t := (t.detour .l4 h).rebuildAll) (hag.placed.rebuildGroups _),
    emit_eq_l2 (t := t.rebuildAll) (hp.rebuildGroups _), emit_l2_detour_l4 hp hfree hg,
    hag.emit_inside hp hc]

theorem chain?_rebuildAll_eq_none (hp : t.Placed) (hchain : t.chain? = none) :
    t.rebuildAll.chain? = none := by
  rw [Option.eq_none_iff_forall_not_mem]
  intro c hc
  obtain ⟨dirty, hl3⟩ := chain?_eq_some_iff.mp hc
  rw [l3_rebuildAll hp] at hl3
  obtain ⟨⟨header, dirty⟩, hx, heq⟩ := Option.map_eq_some_iff.mp hl3
  cases header with
  | ip c => cases hchain.symm.trans (chain?_eq_some_iff.mpr ⟨dirty, hx⟩)
  | _ => cases heq

/-- The frames before and after the detour differ in the chain, if at all. -/
theorem emit_detour_chain (hp : t.Placed) (hfree : t.l4 = none) (hg : h.group = .l4)
    {c c' : IpChain} (hold : t.rebuildAll.l3 = some ⟨.ip c, false⟩)
    (hnew : (t.detour .l4 h).rebuildAll.l3 = some ⟨.ip c', false⟩) (htrailer : c'.trailer = c.trailer) :
    (t.detour .l4 h).rebuildAll.emit = t.rebuildAll.emit ↔ c'.emit = c.emit := by
  have placed : (t.detour .l4 h).Placed := (hp.refreshed hg).removed _
  have hfree' : (t.detour .l4 h).l4 = none :=
    (get_detour_l4 (a := .l4) hfree (by decide)).trans hfree
  have hpayload : (t.detour .l4 h).payload = t.payload :=
    get_detour_l4 (a := .payload) hfree (by decide)
  have hrest : Entry.emitAll ((t.detour .l4 h).rebuildAll.entriesOf [.l4, .payload]) =
      Entry.emitAll (t.rebuildAll.entriesOf [.l4, .payload]) := by
    refine emitAll_congr fun g hg => ?_
    obtain rfl | hg := List.mem_cons.mp hg
    · rw [get, get, l4_rebuildAll placed, l4_rebuildAll hp, rebuildAt_of_free (g := .l4) hfree,
        rebuildAt_of_free (g := .l4) hfree', hfree, hfree']
    · cases List.mem_singleton.mp hg
      rw [get, get, payload_rebuildAll placed, payload_rebuildAll hp, hpayload]
  have hinside : HeaderGroup.l2.inside = .l3 :: [.l4, .payload] := rfl
  rw [emit_eq_l2 (t := (t.detour .l4 h).rebuildAll) (placed.rebuildGroups _),
    emit_eq_l2 (t := t.rebuildAll) (hp.rebuildGroups _), emit_l2_detour_l4 hp hfree hg,
    List.append_right_inj, hinside, entriesOf_cons (g := .l3) hnew, entriesOf_cons (g := .l3) hold,
    Entry.emitAll_cons, Entry.emitAll_cons, hrest]
  simp only [Header.emit, Header.trailer, htrailer, List.append_left_inj]

/-- An upper-layer header leaves its protocol in the innermost header of a chain. -/
theorem emit_detour_l4 (hp : t.Placed) (hc : t.Clean) (hfree : t.l4 = none) (hg : h.group = .l4)
    (hstack : h.stack = [kind]) :
    (t.detour .l4 h).rebuildAll.emit = t.rebuildAll.emit ↔
      t.Announces .l4 kind ∧ ∀ c ∈ t.rebuildAll.chain?, ∀ v ∈ c.headers, v.Settled := by
  have hkind : kind.group? = some .l4 :=
    (Header.group_of_mem_stack (hstack ▸ List.mem_singleton_self kind)).trans (congrArg some hg)
  obtain ⟨⟨number, hnumber⟩, hungre, huntyped⟩ := numbered_of_group hkind
  rw [announces_l4_iff hp huntyped]
  cases hchain : t.chain? with
  | none =>
    rw [chain?_rebuildAll_eq_none hp hchain]
    refine iff_of_true (emit_detour_of_no_chain hp hc hfree hg hchain) ⟨fun x hx => ?_, nofun⟩
    obtain ⟨header, dirty⟩ := x
    cases header with
    | ip c => cases hchain.symm.trans (chain?_eq_some_iff.mpr ⟨dirty, hx⟩)
    | ethernet e => cases hp .l3 _ hx
    | _ => trivial
  | some c =>
    obtain ⟨dirty, hl3⟩ := chain?_eq_some_iff.mp hchain
    cases hc .l3 _ hl3
    obtain ⟨with', more, hwith, hmore, hlen, hold, hnew⟩ := l3_detour_chain hp hfree hg hl3
    rw [hstack] at hwith
    have hproto : (t.around .l3).innerKind >>= IpProtocol.ofKind? = none :=
      Option.bind_eq_none_iff.mpr fun k hk => by rw [innerKind_l3 hp hfree k hk]; rfl
    have htype : (t.around .l3).innerKind >>= Gre.typeOfKind? = none :=
      Option.bind_eq_none_iff.mpr fun k hk => by rw [innerKind_l3 hp hfree k hk]; rfl
    have hback := IpChain.rebuildHeaders_back_iff hproto htype hwith hnumber hungre hmore hlen
      c.headers
    rw [emit_detour_chain hp hfree hg hold hnew rfl, chain?_eq_some_iff.mpr ⟨false, hold⟩, hl3]
    simp only [IpChain.emit, IpChain.rebuild, Option.mem_def, Option.some.injEq, forall_eq',
      Header.Announces]
    exact Iff.trans
      ⟨IpChain.rebuildHeaders_back_of_emit hproto htype hwith hnumber hungre hmore hlen,
        congrArg IpChain.emitHeaders⟩ (hback.trans And.comm)

/-- Whether a frame is as before: the nearest header outside has to announce the kind, and an
upper-layer header has the checksums of a chain computed. -/
theorem emit_detour_iff (hp : t.Placed) (hc : t.Clean) (hfree : t.get g = none) (hg : h.group = g)
    (hstack : h.stack = [kind]) (hpacket : g ≠ .packet) (hpay : g ≠ .payload) :
    (t.detour g h).rebuildAll.emit = t.rebuildAll.emit ↔
      t.Announces g kind ∧
        (g = .l4 → ∀ c ∈ t.rebuildAll.chain?, ∀ v ∈ c.headers, v.Settled) := by
  cases g with
  | packet => exact absurd rfl hpacket
  | payload => exact absurd rfl hpay
  | l2 =>
    exact iff_of_true (emit_detour_l2 hp hc hg hfree rfl) ⟨announces_l2 hp kind, nofun⟩
  | l3 =>
    rw [emit_detour_l3 hp hc hfree hg hstack]
    exact ⟨fun hann => ⟨hann, nofun⟩, And.left⟩
  | l4 =>
    rw [emit_detour_l4 hp hc hfree hg hstack]
    exact ⟨fun hold => ⟨hold.1, fun _ => hold.2⟩, fun hold => ⟨hold.1, hold.2 rfl⟩⟩

end Headers

end Dataplane

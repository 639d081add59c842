import Dataplane.Proofs.Header.IpChecksums
import Dataplane.Proofs.Headers.Wire
import Dataplane.Proofs.Packet.Edits

/-!
# Checksums of packets

A packet whose checksums hold when it is parsed is serialized with checksums that hold, whatever has
been done to it in between. What a rebuild leaves out because nothing seems to have changed was
right already.

## The model

`Headers.Sound gs t` is what every edit keeps: an IP chain that is clean is balanced, and the
checksum of an upper-layer header holds over the addresses it remembers, if neither the header nor
the payload is dirty. For the groups in `gs`, those just rebuilt, the same is said without looking
at the dirty bits; so the bits may then be cleared.
-/

namespace Dataplane

namespace Headers

/-- The checksums of every header hold. -/
def ChecksumsHold (t : Headers) : Prop :=
  ∀ g e, t.get g = some e → e.header.ChecksumsHold (t.around g).addrs (t.around g).inner

instance (t : Headers) : Decidable t.ChecksumsHold :=
  decidable_of_iff (∀ g ∈ HeaderGroup.all, ∀ e ∈ t.get g,
      e.header.ChecksumsHold (t.around g).addrs (t.around g).inner)
    ⟨fun h g e he => h g (by cases g <;> decide) e he, fun h g _ e he => h g e he⟩

/-- The checksum of every GRE header that carries one holds. -/
def GreChecksumsHold (t : Headers) : Prop :=
  ∀ g e, t.get g = some e → e.header.GreChecksumsHold (t.around g).inner

/-- What edits keep, with the headers of `gs` right whatever their dirty bits say. -/
structure Sound (gs : List HeaderGroup) (t : Headers) : Prop where
  /-- Every header lies in the place of its group. -/
  placed : t.Placed
  /-- A clean chain is balanced. -/
  chain : ∀ c dirty, t.l3 = some ⟨.ip c, dirty⟩ → (.l3 ∈ gs ∨ dirty = false) → c.Balanced
  /-- A clean checksum over a clean payload holds over the addresses it remembers. -/
  upper : ∀ h dirty, t.l4 = some ⟨h, dirty⟩ →
    (.l4 ∈ gs ∨ dirty = false ∧ (t.around .l4).innerDirty = false) →
    h.Remembers (t.around .l4).inner

variable {t t' : Headers} {gs : List HeaderGroup} {g : HeaderGroup}

theorem Sound.mono {gs' : List HeaderGroup} (ht : t.Sound gs) (h : gs' ⊆ gs) : t.Sound gs' where
  placed := ht.placed
  chain := fun c dirty hc hd => ht.chain c dirty hc (hd.imp_left (@h _))
  upper := fun u dirty hu hd => ht.upper u dirty hu (hd.imp_left (@h _))

theorem wellFormed_addrs {a : IpAddrs} (ha : a ∈ (t.around g).addrs) : a.WellFormed := by
  simp only [around, Option.mem_def] at ha
  split at ha
  · cases ha
  · obtain ⟨e, -, he⟩ := Option.bind_eq_some_iff.mp ha
    cases h : e.header with
    | ip c =>
      rw [h] at he
      exact IpChain.wellFormed_addrs he
    | _ =>
      rw [h] at he
      cases he

/-- A payload is not changed by a rebuild. -/
theorem rebuildAt_payload (ht : t.Placed) : t.rebuildAt .payload = t := by
  obtain ⟨p, l2, l3, l4, payload⟩ := t
  cases payload with
  | none => rfl
  | some e =>
    obtain ⟨h, dirty⟩ := e
    have hg := ht .payload ⟨h, dirty⟩ rfl
    cases h with
    | payload b => rfl
    | _ => cases hg

/-! ### Rebuilding -/

/-- A group that has been rebuilt is right whatever its dirty bit says. -/
theorem Sound.rebuildAt (ht : t.Sound gs) (g : HeaderGroup) : (t.rebuildAt g).Sound (g :: gs) := by
  have placed := ht.placed.rebuildAt g
  have old {a g' : HeaderGroup} {P : Prop} (hd : a ∈ g' :: gs ∨ P) (hne : a ≠ g') : a ∈ gs ∨ P :=
    hd.imp_left (List.mem_of_ne_of_mem hne)
  cases g with
  | packet =>
    exact ⟨placed, fun c d hc hd => ht.chain c d hc (old hd nofun),
      fun h d hu hd => ht.upper h d hu (old hd nofun)⟩
  | l2 =>
    exact ⟨placed, fun c d hc hd => ht.chain c d hc (old hd nofun),
      fun h d hu hd => ht.upper h d hu (old hd nofun)⟩
  | l3 =>
    refine ⟨placed, fun c d hc _ => ?_, fun h d hu hd => ht.upper h d hu (old hd nofun)⟩
    obtain ⟨⟨h, d'⟩, he, hr⟩ := Option.map_eq_some_iff.mp (show t.l3.map _ = _ from hc)
    simp only [Entry.mk.injEq] at hr
    obtain ⟨hr, rfl⟩ := hr
    cases h with
    | ip c' =>
      cases hr
      exact IpChain.balanced_of_checksumsHold
        (IpChain.rebuild_holds (fun hd => ht.chain c' _ he (.inr hd)) none [])
    | _ => cases hr
  | l4 =>
    refine ⟨placed, fun c d hc hd => ht.chain c d hc (old hd nofun), fun h d hu _ => ?_⟩
    obtain ⟨⟨h', d'⟩, he, hr⟩ := Option.map_eq_some_iff.mp (show t.l4.map _ = _ from hu)
    simp only [Entry.mk.injEq] at hr
    obtain ⟨rfl, rfl⟩ := hr
    exact (Header.rebuild_holds (ht.placed .l4 _ he) (fun a => wellFormed_addrs)
      (fun hd hi => ht.upper h' _ he (.inr ⟨hd, hi⟩))).2
  | payload =>
    rw [rebuildAt_payload ht.placed]
    exact ⟨ht.placed, fun c d hc hd => ht.chain c d hc (old hd nofun),
      fun h d hu hd => ht.upper h d hu (old hd nofun)⟩

/-- The dirty bit of a group that has been rebuilt may be cleared; that of the payload only if the
upper-layer header has been rebuilt. -/
theorem Sound.cleanAt (ht : t.Sound gs) (hg : g ∈ gs) (hp : g = .payload → .l4 ∈ gs) :
    (t.cleanAt g).Sound gs := by
  have placed := ht.placed.cleanAt g
  cases g with
  | packet => exact ⟨placed, ht.chain, ht.upper⟩
  | l2 => exact ⟨placed, ht.chain, ht.upper⟩
  | l3 =>
    refine ⟨placed, fun c d hc _ => ?_, ht.upper⟩
    obtain ⟨⟨h, d'⟩, he, hr⟩ := Option.map_eq_some_iff.mp (show t.l3.map _ = _ from hc)
    cases hr
    exact ht.chain c _ he (.inl hg)
  | l4 =>
    refine ⟨placed, ht.chain, fun h d hu _ => ?_⟩
    obtain ⟨⟨h', d'⟩, he, hr⟩ := Option.map_eq_some_iff.mp (show t.l4.map _ = _ from hu)
    cases hr
    exact ht.upper h' _ he (.inl hg)
  | payload =>
    refine ⟨placed, ht.chain, fun h d hu _ => ?_⟩
    have same : ((t.cleanAt .payload).around .l4).inner = (t.around .l4).inner := by
      obtain ⟨p, l2, l3, l4, payload⟩ := t
      cases payload <;> rfl
    rw [same]
    exact ht.upper h d hu (.inl (hp rfl))

theorem Sound.rebuildAll_of (ht : t.Sound gs) (gs' : List HeaderGroup) :
    (gs'.foldl Headers.rebuildAt t).Sound (gs'.reverse ++ gs) := by
  induction gs' generalizing t gs with
  | nil => exact ht
  | cons g gs' ih =>
    rw [List.foldl_cons, List.reverse_cons, List.append_assoc]
    exact ih (ht.rebuildAt g)

theorem Sound.cleanAll_of (ht : t.Sound gs) {gs' : List HeaderGroup} (h : gs' ⊆ gs)
    (hp : .payload ∈ gs' → .l4 ∈ gs) : (gs'.foldl Headers.cleanAt t).Sound gs := by
  refine List.foldlRecOn gs' Headers.cleanAt ht fun t ht g hg => ?_
  exact ht.cleanAt (h hg) fun hgp => hp (hgp ▸ hg)

/-- Rebuilding groups keeps a table sound, unless it is the payload without the upper layer. -/
theorem Sound.rebuildGroups (ht : t.Sound []) (hp : .payload ∈ gs → .l4 ∈ gs) :
    (t.rebuildGroups gs).Sound [] := by
  have hall : ∀ g, g ∈ gs → g ∈ gs.reverse ++ [] := fun g hg => by simpa using hg
  have h := (ht.rebuildAll_of gs).cleanAll_of hall fun h => hall _ (hp h)
  exact h.mono (List.nil_subset _)

theorem Sound.rebuildOutward (ht : t.Sound []) (hg : g ≠ .payload) :
    (t.rebuildOutward g).Sound [] := by
  refine ht.rebuildGroups fun h => ?_
  cases g <;> simp [HeaderGroup.outside] at h hg

/-! ### Edits -/

/-- A header placed as dirty says nothing that has to hold. -/
theorem Sound.set_dirty (ht : t.Sound []) {h : Header} (hg : h.group = g) :
    (t.set g (some ⟨h, true⟩)).Sound [] := by
  have placed := ht.placed.set (e := ⟨h, true⟩) hg
  cases g with
  | packet => exact ⟨placed, ht.chain, ht.upper⟩
  | l2 => exact ⟨placed, ht.chain, ht.upper⟩
  | l3 =>
    refine ⟨placed, fun c d hc hd => ?_, ht.upper⟩
    cases hc
    simp at hd
  | l4 =>
    refine ⟨placed, ht.chain, fun h d hu hd => ?_⟩
    cases hu
    simp at hd
  | payload =>
    refine ⟨placed, ht.chain, fun u d hu hd => ?_⟩
    have dirty : ((t.set .payload (some ⟨h, true⟩)).around .l4).innerDirty = true := rfl
    simp [dirty] at hd

/-- Any header but the payload may be taken out. -/
theorem Sound.remove (ht : t.Sound []) (hg : g ≠ .payload) : (t.set g none).Sound [] := by
  have placed := ht.placed.remove g
  cases g with
  | packet => exact ⟨placed, ht.chain, ht.upper⟩
  | l2 => exact ⟨placed, ht.chain, ht.upper⟩
  | l3 => exact ⟨placed, nofun, ht.upper⟩
  | l4 => exact ⟨placed, ht.chain, nofun⟩
  | payload => exact absurd rfl hg

/-- A change of a field that leaves its header clean keeps what the checksums need. -/
theorem Sound.update (ht : t.Sound []) {e : Entry} (he : t.get g = some e) {h : Header}
    {num : FieldNum} {inst : Instance} {op : FieldOp} {arg : Bytes} {dirty : Bool}
    (hu : e.header.update num inst op arg = .ok (h, dirty)) :
    (t.set g (some ⟨h, e.dirty || dirty⟩)).Sound [] := by
  have hg : h.group = g := (Header.group_update hu).trans (ht.placed g e he)
  by_cases hdirty : (e.dirty || dirty) = true
  · rw [hdirty]
    exact ht.set_dirty hg
  · rw [Bool.not_eq_true, Bool.or_eq_false_iff] at hdirty
    obtain ⟨hclean, rfl⟩ := hdirty
    obtain ⟨h₀, d₀⟩ := e
    cases hclean
    cases h₀ with
    | ip c =>
      obtain ⟨⟨c', d'⟩, hc, hr⟩ := map_eq_ok_iff.mp hu
      cases hr
      cases ht.placed g _ he
      refine ⟨ht.placed.set rfl, fun c₁ d hc₁ _ => ?_, ht.upper⟩
      cases hc₁
      exact IpChain.update_balanced (ht.chain c false he (.inr rfl)) hc
    | payload b => cases hu
    | _ =>
      obtain ⟨_, -, hr⟩ := map_eq_ok_iff.mp hu
      cases hr

theorem payload_not_outside (g : HeaderGroup) : .payload ∉ g.outside := by
  cases g <;> decide

theorem attachAt_set (h : Header) (d : Bool) :
    (t.set g (some ⟨h, d⟩)).attachAt g =
      t.set g (some ⟨h.attach ((t.set g (some ⟨h, d⟩)).around g), d⟩) := by
  cases g <;> rfl

theorem kind_group_eq_payload {kind : HeaderKind} (h : kind.group? = some .payload) :
    kind = .payload := by
  cases kind <;> first | rfl | cases h

/-- Every edit but taking the payload out keeps a table sound. -/
theorem Sound.step (ht : t.Sound []) {x : Edit} (hx : x ≠ .decap .payload) (h : Step t x t') :
    t'.Sound [] := by
  have decaps {kind : HeaderKind} (hx : Edit.decap kind ≠ .decap .payload) {g : HeaderGroup}
      (hg : kind.group? = some g) : g ≠ .payload := by
    rintro rfl
    exact hx (by rw [kind_group_eq_payload hg])
  cases h with
  | refused => exact ht
  | field he hu => exact ht.update he hu
  | raw he hw => exact ht.set_dirty ((Header.group_writeRaw hw).trans (ht.placed _ _ he))
  | pushed hg hp he hu =>
    exact (ht.set_dirty ((Header.group_push hu).trans (ht.placed _ _ he))).rebuildOutward hp
  | placed hg hp he hf =>
    have hgroup := Option.some.inj ((Header.group_fresh hf).symm.trans hg)
    rw [attachAt_set]
    exact (ht.set_dirty ((Header.group_attach _ _).trans hgroup)).rebuildOutward hp
  | popped hg he hu =>
    have hp := decaps hx hg
    exact (ht.set_dirty ((Header.group_pop hu).trans (ht.placed _ _ he))).rebuildOutward hp
  | removed hg he hu ho =>
    refine (ht.remove (decaps hx hg)).rebuildOutward ?_
    rintro rfl
    exact payload_not_outside _ (List.mem_of_find?_eq_some ho)
  | bared hg he hu => exact ht.remove (decaps hx hg)
  | serialized => exact ht.rebuildGroups fun _ => by decide

/-! ### First look -/

/-- After its first look at a packet a header remembers the addresses that are there. -/
theorem attach_remembers {h : Header} {around : Surroundings}
    (hold : (h.attach around).ChecksumsHold around.addrs around.inner) :
    (h.attach around).Remembers around.inner := by
  cases h <;> exact hold

/-- A table whose checksums hold at the first look is sound. -/
theorem sound_attachAll (ht : t.Placed) (hold : t.attachAll.ChecksumsHold) :
    t.attachAll.Sound [] := by
  refine ⟨ht.attachAll, fun c d hc _ => ?_, fun h d hu _ => ?_⟩
  · exact IpChain.balanced_of_checksumsHold (hold .l3 _ hc)
  · have hold4 := hold .l4 _ hu
    -- The table when the upper-layer header has its first look.
    generalize hs : ((t.attachAt .packet).attachAt .l2).attachAt .l3 = s at hu
    have inner : (t.attachAll.around .l4).inner = (s.around .l4).inner := by
      rw [inner_attachAll, ← hs]
      rfl
    have addrs : (t.attachAll.around .l4).addrs = (s.around .l4).addrs := by
      rw [← hs]
      rfl
    have hu' : (t.l4.map fun e => { e with header := e.header.attach (s.around .l4) }) =
        some ⟨h, d⟩ := by
      rw [← hs]
      exact hu
    obtain ⟨⟨h', d'⟩, -, hr⟩ := Option.map_eq_some_iff.mp hu'
    cases hr
    rw [inner, addrs] at hold4
    rw [inner]
    exact attach_remembers hold4

/-! ### Serializing -/

theorem addrs_rebuildAll (t : Headers) :
    (t.rebuildAll.around .l4).addrs = (t.around .l4).addrs := by
  obtain ⟨p, l2, l3, l4, payload⟩ := t
  cases l3 with
  | none => rfl
  | some e =>
    obtain ⟨h, d⟩ := e
    cases h with
    | ip c => exact c.innermostAddrs_rebuild
    | _ => rfl

theorem inner_rebuildAll (ht : t.Placed) :
    (t.rebuildAll.around .l4).inner = (t.around .l4).inner := by
  have before := rebuildAt_payload ht
  refine emitAll_congr fun g hg => ?_
  cases List.mem_singleton.mp hg
  have hp : t.rebuildAll.payload =
      ((t.rebuildAt .payload).payload.map fun e => { e with dirty := false }) := rfl
  rw [before] at hp
  rw [get, get, hp]
  cases t.payload <;> rfl

/-- A header without a checksum holds it. -/
theorem checksumsHold_of_group {h : Header} (h3 : h.group ≠ .l3) (h4 : h.group ≠ .l4)
    (addrs : Option IpAddrs) (inner : Bytes) : h.ChecksumsHold addrs inner := by
  cases h <;> trivial

/-- The checksums of a rebuilt table hold. -/
theorem Sound.checksumsHold_rebuildAll (ht : t.Sound []) : t.rebuildAll.ChecksumsHold := by
  have placed : t.rebuildAll.Placed := (ht.rebuildGroups fun _ => by decide).placed
  intro g e he
  by_cases h3 : g = .l3
  · subst h3
    obtain ⟨e₁, he₁, rfl⟩ := Option.map_eq_some_iff.mp
      (show ((((t.rebuildAt .payload).rebuildAt .l4).rebuildAt .l3).l3.map _) = _ from he)
    obtain ⟨⟨h, d⟩, he₀, rfl⟩ := Option.map_eq_some_iff.mp (show (t.l3.map _) = _ from he₁)
    cases h with
    | ip c => exact IpChain.rebuild_holds (fun hd => ht.chain c d he₀ (.inr hd)) _ _
    | arp h => trivial
    | mpls s => trivial
    | _ => cases ht.placed .l3 _ he₀
  · by_cases h4 : g = .l4
    · subst h4
      obtain ⟨e₁, he₁, rfl⟩ := Option.map_eq_some_iff.mp
        (show (((t.rebuildAt .payload).rebuildAt .l4).l4.map _) = _ from he)
      rw [rebuildAt_payload ht.placed] at he₁
      obtain ⟨⟨h, d⟩, he₀, rfl⟩ := Option.map_eq_some_iff.mp (show (t.l4.map _) = _ from he₁)
      rw [addrs_rebuildAll, inner_rebuildAll ht.placed]
      exact (Header.rebuild_holds (ht.placed .l4 _ he₀) (fun a => wellFormed_addrs)
        (fun hd hi => ht.upper h d he₀ (.inr ⟨hd, hi⟩))).1
    · -- The other headers carry no checksum.
      have hg := placed g e he
      exact checksumsHold_of_group (hg ▸ h3) (hg ▸ h4) _ _

/-- The GRE checksums of a rebuilt table hold. -/
theorem greChecksumsHold_rebuildAll (placed : t.rebuildAll.Placed) :
    t.rebuildAll.GreChecksumsHold := by
  intro g e he
  by_cases h3 : g = .l3
  · subst h3
    set s := (t.rebuildAt .payload).rebuildAt .l4 with hs
    have inner : (t.rebuildAll.around .l3).inner = (s.around .l3).inner := by
      refine emitAll_congr fun g hg => ?_
      obtain rfl | hg := List.mem_cons.mp hg
      · change ((s.l4.map _).map _) = s.l4.map _
        cases s.l4 <;> rfl
      · cases List.mem_singleton.mp hg
        change ((s.payload.map _).map _) = s.payload.map _
        cases s.payload <;> rfl
    obtain ⟨e₁, he₁, rfl⟩ := Option.map_eq_some_iff.mp
      (show ((s.rebuildAt .l3).l3.map _) = _ from he)
    obtain ⟨⟨h, d⟩, he₀, rfl⟩ := Option.map_eq_some_iff.mp (show (s.l3.map _) = _ from he₁)
    rw [inner]
    cases h with
    | ip c => exact c.rebuild_greHolds
    | _ => trivial
  · have hg := placed g e he
    cases hh : e.header with
    | ip c =>
      rw [hh] at hg
      exact absurd hg.symm h3
    | _ => trivial

end Headers

namespace Packet

open Headers

/-- Whatever is done to a packet whose checksums hold, short of taking out its payload, the frame
it is then serialized to has checksums that hold, those of its GRE headers included. -/
theorem checksums_of_edits {start : HeaderKind} {b : Bytes} {p : Packet}
    (hp : parse start b = .ok p) (hold : p.headers.ChecksumsHold) {es : List Edit}
    (hes : .decap .payload ∉ es) :
    let (frame, p') := (p.edits es).serialize
    p'.headers.ChecksumsHold ∧ p'.headers.GreChecksumsHold ∧
      ∀ g e, p'.headers.get g = some e →
        e.header.emit ++ (p'.headers.around g).inner <:+: frame := by
  have sound : (p.edits es).headers.Sound [] := by
    refine edits_induction (P := (·.Sound [])) (fun x hx t t' ht hstep => ?_) p ?_
    · exact ht.step (fun h => hes (h ▸ hx)) hstep
    · obtain ⟨t, ht, heq⟩ := placed_parse hp
      rw [heq] at hold ⊢
      exact sound_attachAll ht hold
  have placed : (p.edits es).headers.rebuildAll.Placed :=
    (sound.rebuildGroups fun _ => by decide).placed
  exact ⟨sound.checksumsHold_rebuildAll, greChecksumsHold_rebuildAll placed,
    fun g e he => covered_isInfix he⟩

/-- A datagram in IPv4 is put into a GRE tunnel after its time to live has been decremented. -/
theorem checksums_of_tunnel : ∃ p b es,
    parse .ip4 b = .ok p ∧ p.headers.ChecksumsHold ∧ .decap .payload ∉ es ∧
      (p.edits es).serialize.2.headers.kinds = [.metadata, .ip4, .gre, .ip4, .udp, .payload] ∧
      (p.edits es).serialize.2.headers.ChecksumsHold := by
  let b : Bytes := [69, 0, 0, 29, 0, 0, 64, 0, 64, 17, 38, 206, 10, 0, 0, 1, 10, 0, 0, 2, 0, 53, 0,
    53, 0, 9, 228, 111, 7]
  let es : List Edit := [.update (.first .ipHop) .dec [1], .encap .gre, .encap .ip4]
  have parsed : ∃ p ∈ (parse .ip4 b).toOption, p.headers.ChecksumsHold ∧
      (p.edits es).serialize.2.headers.kinds = [.metadata, .ip4, .gre, .ip4, .udp, .payload] := by
    decide +kernel
  obtain ⟨p, hp, hold, hkinds⟩ := parsed
  have hp : parse .ip4 b = .ok p := toOption_eq_some_iff.mp hp
  have hes : .decap .payload ∉ es := by decide
  exact ⟨p, b, es, hp, hold, hes, hkinds, (checksums_of_edits hp hold hes).1⟩

end Packet

end Dataplane

import Dataplane.Proofs.Header.HopLimits
import Dataplane.Proofs.Headers.Replicas
import Dataplane.Proofs.Packet.RawFields
import Dataplane.Proofs.Packet.Reached

/-!
# Passing a packet on

A router lowers hop limits, writes link-layer addresses, and tags and untags frames. Nothing of that
gets through to the transport header: its checksum is not computed again, be it right or wrong, and
neither is that of a network-layer header that has not been touched
(`Packet.serialize_of_forwards`).

## The model

The edits are those that `Packet.Forwards` lists. They lead to a table that is `Headers.Forwarded`:
equal from the upper layer inwards, and with a network-layer header that has been forwarded and has
the dirty bit it had. The link-layer header may be any. So serializing rebuilds the headers inside it
in the same surroundings, except that the nearest header outside may be dirty; and only a header
that is given addresses asks for that (`Header.rebuild_congr_outer`).
-/

namespace Dataplane

/-- Without addresses no checksum is computed, whether it is stale or not. -/
theorem PseudoHeader.stale?_of_unaddressed (p : PseudoHeader) {around : Surroundings}
    (haddrs : around.addrs = none) (dirty : Bool) : p.stale? around dirty = (unseen, none) := by
  obtain ⟨hstale, -, -, hseen⟩ | hstale := p.stale?_cases around dirty
  · rw [hstale, unseen, ← haddrs, hseen]
  · rw [hstale, haddrs, unseen]

/-! ### Headers -/

namespace Header

variable {touched : Nat → Prop} {h h' h'' : Header} {around around' : Surroundings}
  {inst : Instance} {op : FieldOp} {arg : Bytes} {dirty : Bool}

/-- Without addresses it makes no difference whether the nearest header outside is dirty. -/
theorem rebuild_outerDirty (h : Header) (haddrs : around.addrs = none) (outer dirty : Bool) :
    h.rebuild { around with outerDirty := outer } dirty = h.rebuild around dirty := by
  have haddrs' : { around with outerDirty := outer }.addrs = none := haddrs
  cases h with
  | tcp t =>
    simp only [rebuild, Tcp.rebuild, PseudoHeader.stale?_of_unaddressed _ haddrs,
      PseudoHeader.stale?_of_unaddressed _ haddrs']
  | udp u =>
    simp only [rebuild, Udp.rebuild, PseudoHeader.stale?_of_unaddressed _ haddrs,
      PseudoHeader.stale?_of_unaddressed _ haddrs']
    rfl
  | icmp6 i =>
    simp only [rebuild, Icmp6.rebuild, PseudoHeader.stale?_of_unaddressed _ haddrs,
      PseudoHeader.stale?_of_unaddressed _ haddrs']
  | _ => rfl

/-- Where at most the dirty bit outside differs, and that only without addresses, a header is
rebuilt alike. -/
theorem rebuild_congr_outer (h : Header)
    (hrest : around' = { around with outerDirty := around'.outerDirty })
    (houter : around.addrs = none ∨ around'.outerDirty = around.outerDirty) (dirty : Bool) :
    h.rebuild around' dirty = h.rebuild around dirty := by
  obtain hnone | hsame := houter
  · rw [hrest, h.rebuild_outerDirty hnone]
  · rw [hrest, hsame]

/-- Of the headers in the network layer, only a chain has hop limits. -/
theorem update_hop_cases (hg : h.group = .l3) (hu : h.update .ipHop inst op arg = .ok (h', dirty)) :
    ∃ c c', h = .ip c ∧ h' = .ip c' ∧ c.update .ipHop inst op arg = .ok (c', dirty) := by
  cases h with
  | ip c =>
    obtain ⟨⟨c', dirty'⟩, hc, hh⟩ := map_eq_ok_iff.mp hu
    cases hh
    exact ⟨c, c', rfl, rfl, hc⟩
  | arp a => simp [update, sole, orAbsent, Arp.update?, Arp.slot?, Except.map] at hu
  | mpls s => simp [update, orAbsent, LabelStack.update?, LabelStack.field?, Except.map] at hu
  | _ => cases hg

/-- What has become of a header of the network layer when the hop limits in the `touched` places have
been changed. -/
inductive Forwarded (touched : Nat → Prop) : Header → Header → Prop
  /-- It is as it was. -/
  | same (h : Header) : Forwarded touched h h
  /-- It is a chain that has been forwarded. -/
  | ip {c c' : IpChain} (hc : IpChain.Forwarded touched c.headers c'.headers)
    (ht : c'.trailer = c.trailer) : Forwarded touched (.ip c) (.ip c')

namespace Forwarded

theorem addrs (hf : h.Forwarded touched h') : h'.addrs? = h.addrs? := by
  cases hf with
  | same => rfl
  | ip hc ht => exact IpChain.innermostAddrs_congr (hc.map_eq IpHeader.Forwarded.addrs)

theorem trailer (hf : h.Forwarded touched h') : h'.trailer = h.trailer := by
  cases hf with
  | same => rfl
  | ip hc ht => exact ht

theorem length_emit (hf : h.Forwarded touched h') : h'.emit.length = h.emit.length := by
  cases hf with
  | same => rfl
  | ip hc ht => exact hc.length_emitHeaders

theorem rebuild (hf : h.Forwarded touched h') (around : Surroundings) (dirty : Bool) :
    (h.rebuild around dirty).Forwarded touched (h'.rebuild around dirty) := by
  cases hf with
  | same => exact .same _
  | ip hc ht => exact .ip (hc.rebuild around dirty) ht

/-- A decrement of a hop limit that is touched, or any operation on one of IPv6. -/
theorem update (hf : h.Forwarded touched h') (hg : h'.group = .l3)
    (hop : ∀ c, h = .ip c →
      (op = .dec ∨ ∃ i v, c.place? .ipHop inst = some i ∧ c.headers[i]? = some (.v6 v)) ∧
        ∀ i, c.place? .ipHop inst = some i → touched i)
    (hu : h'.update .ipHop inst op arg = .ok (h'', dirty)) :
    h.Forwarded touched h'' ∧ dirty = false := by
  obtain ⟨c', c'', rfl, rfl, hchange⟩ := update_hop_cases hg hu
  have hchain : ∃ c, h = .ip c ∧ IpChain.Forwarded touched c.headers c'.headers ∧
      c'.trailer = c.trailer := by
    cases hf with
    | same => exact ⟨c', rfl, .refl _ _, rfl⟩
    | ip hc ht => exact ⟨_, rfl, hc, ht⟩
  obtain ⟨c, rfl, hc, ht⟩ := hchain
  obtain ⟨hop, htouched⟩ := hop c rfl
  obtain ⟨hc', ht', hclean⟩ := hc.update hop htouched hchange
  exact ⟨.ip hc' (ht'.trans ht), hclean⟩

end Forwarded

end Header

/-! ### Tables -/

namespace Headers

variable {touched : Nat → Prop} {t t' t'' : Headers} {g : HeaderGroup}

/-- The bytes of some groups behind everything inside them. -/
def trailerBytes (t : Headers) (gs : List HeaderGroup) : Bytes :=
  (t.entriesOf gs).reverse.flatMap (·.header.trailer)

theorem trailerBytes_append (t : Headers) (gs gs' : List HeaderGroup) :
    t.trailerBytes (gs ++ gs') = t.trailerBytes gs' ++ t.trailerBytes gs := by
  simp only [trailerBytes, entriesOf, List.filterMap_append, List.reverse_append,
    List.flatMap_append]

/-- Nothing but a network-layer header has a trailer. -/
theorem trailerBytes_eq_nil (hp : t.Placed) (hg : g ≠ .l3) : t.trailerBytes [g] = [] := by
  refine List.flatMap_eq_nil_iff.mpr fun e he => ?_
  obtain ⟨g', hmem, hget⟩ := List.mem_filterMap.mp (List.mem_reverse.mp he)
  cases List.mem_singleton.mp hmem
  have hgroup := hp g e hget
  cases hh : e.header with
  | ip c =>
    rw [hh] at hgroup
    exact absurd hgroup.symm hg
  | _ => rfl

/-- The parts of a frame. -/
theorem emit_eq_parts (hp : t.Placed) : t.emit = t.headerBytes [.l2] ++ t.headerBytes [.l3] ++
    t.headerBytes [.l4] ++ t.headerBytes [.payload] ++ t.trailerBytes [.l3] := by
  have hsplit : HeaderGroup.packet.inside = [.l2] ++ [.l3] ++ [.l4] ++ [.payload] := rfl
  have hemit : t.emit = t.headerBytes HeaderGroup.packet.inside ++
      t.trailerBytes HeaderGroup.packet.inside := emit_eq_inside hp
  rw [hemit, hsplit]
  simp only [headerBytes_append, trailerBytes_append]
  rw [trailerBytes_eq_nil hp (g := .l2) (by decide),
    trailerBytes_eq_nil hp (g := .l4) (by decide),
    trailerBytes_eq_nil hp (g := .payload) (by decide), List.append_nil, List.nil_append,
    List.nil_append]

theorem headerBytes_congr {gs : List HeaderGroup} (h : ∀ g ∈ gs, t'.get g = t.get g) :
    t'.headerBytes gs = t.headerBytes gs := by
  rw [headerBytes, entriesOf, List.filterMap_congr h, headerBytes, entriesOf]

/-- What has become of a table when the hop limits in the `touched` places have been changed, and
anything outside the network layer. -/
structure Forwarded (touched : Nat → Prop) (t t' : Headers) : Prop where
  /-- Every header lies in the place of its group. -/
  placed : t'.Placed
  /-- The network-layer header has been forwarded, and its dirty bit is as it was. -/
  l3 : Option.Rel (fun e e' => e.header.Forwarded touched e'.header ∧ e'.dirty = e.dirty) t.l3 t'.l3
  /-- The upper-layer headers are the same. -/
  l4 : t'.l4 = t.l4
  /-- The payloads are the same. -/
  payload : t'.payload = t.payload

theorem Forwarded.refl (hp : t.Placed) : t.Forwarded touched t where
  placed := hp
  l3 := by
    cases t.l3 with
    | none => exact .none
    | some e => exact .some ⟨.same _, rfl⟩
  l4 := rfl
  payload := rfl

namespace Forwarded

/-- A change of the link-layer header, or further out, makes no difference. -/
theorem outside (hf : t.Forwarded touched t') (hp : t''.Placed)
    (hkept : ∀ g ∈ HeaderGroup.l2.inside, t''.get g = t'.get g) : t.Forwarded touched t'' where
  placed := hp
  l3 := by
    have h3 : t''.l3 = t'.l3 := hkept .l3 (by decide)
    exact h3 ▸ hf.l3
  l4 := (hkept .l4 (by decide)).trans hf.l4
  payload := (hkept .payload (by decide)).trans hf.payload

theorem addrs (hf : t.Forwarded touched t') (g : HeaderGroup) :
    (t'.around g).addrs = (t.around g).addrs := by
  have hl3 : (t'.get .l3).map (·.header.addrs?) = (t.get .l3).map (·.header.addrs?) :=
    map_eq_of_rel hf.l3 fun _ _ h => h.1.addrs
  rw [addrs_around, hl3, ← addrs_around]

/-- The upper-layer header knows no addresses, or what is next outside it has the dirty bit it
had. -/
theorem outer_l4 (hf : t.Forwarded touched t') : (t.around .l4).addrs = none ∨
    (t'.around .l4).outerDirty = (t.around .l4).outerDirty := by
  obtain ⟨hnone, -⟩ | ⟨e, e', he, he', -, hdirty⟩ := rel_cases hf.l3
  · exact .inl (by simp [around, hnone])
  · refine .inr ?_
    have houter {u : Headers} {x : Entry} (hx : u.l3 = some x) :
        (u.around .l4).outerDirty = x.dirty := by
      rw [around, HeaderGroup.outside, entriesOf_cons (g := .l3) hx]
      rfl
    rw [houter he, houter he', hdirty]

theorem rebuildAt_l4 (hf : t.Forwarded touched t') : (t'.rebuildAt .l4).l4 = (t.rebuildAt .l4).l4 := by
  have haround := around_eq_of_inside (g := .l4)
    (fun g hg => by cases List.mem_singleton.mp hg; exact hf.payload) (hf.addrs .l4)
  change t'.l4.map _ = t.l4.map _
  rw [hf.l4]
  congr 1
  funext e
  rw [e.header.rebuild_congr_outer haround hf.outer_l4]

/-- Serializing does not spread the difference. -/
theorem rebuildAll (hf : t.Forwarded touched t') (hp : t.Placed) :
    t.rebuildAll.Forwarded touched t'.rebuildAll where
  placed := hf.placed.rebuildGroups _
  l3 := by
    -- The network-layer header is given no addresses, so it does not ask for the link layer.
    have haround : (t'.rebuildAt .l4).around .l3 = { (t.rebuildAt .l4).around .l3 with
        outerDirty := ((t'.rebuildAt .l4).around .l3).outerDirty } := by
      refine around_eq_of_inside (fun g hg => ?_) rfl
      obtain rfl | hg := List.mem_cons.mp hg
      · exact hf.rebuildAt_l4
      · cases List.mem_singleton.mp hg
        exact hf.payload
    rw [l3_rebuildAll hf.placed, l3_rebuildAll hp]
    obtain ⟨hnone, hnone'⟩ | ⟨e, e', he, he', hh, hdirty⟩ := rel_cases hf.l3
    · rw [hnone, hnone']
      exact .none
    · rw [he, he', Option.map_some, Option.map_some, hdirty,
        e'.header.rebuild_congr_outer haround (.inl rfl)]
      exact .some ⟨hh.rebuild _ _, rfl⟩
  l4 := by rw [l4_rebuildAll hf.placed, l4_rebuildAll hp, hf.rebuildAt_l4]
  payload := by rw [payload_rebuildAll hf.placed, payload_rebuildAll hp, hf.payload]

/-- What is behind the network-layer header is the same. -/
theorem headerBytes_eq (hf : t.Forwarded touched t') {gs : List HeaderGroup}
    (hgs : gs ⊆ HeaderGroup.l3.inside) : t'.headerBytes gs = t.headerBytes gs := by
  refine headerBytes_congr fun g hg => ?_
  obtain rfl | hg := List.mem_cons.mp (hgs hg)
  · exact hf.l4
  · cases List.mem_singleton.mp hg
    exact hf.payload

theorem trailerBytes_eq (hf : t.Forwarded touched t') :
    t'.trailerBytes [.l3] = t.trailerBytes [.l3] := by
  rw [trailerBytes, trailerBytes]
  obtain ⟨hnone, hnone'⟩ | ⟨e, e', he, he', hh, -⟩ := rel_cases hf.l3
  · rw [entriesOf_cons_none (g := .l3) hnone, entriesOf_cons_none (g := .l3) hnone']
    rfl
  · rw [entriesOf_cons (g := .l3) he, entriesOf_cons (g := .l3) he']
    simpa [entriesOf] using hh.trailer

/-- The network-layer headers are equally long, and the bytes in which they differ are affected. -/
theorem affected (hf : t.Forwarded touched t') :
    (t'.headerBytes [.l3]).length = (t.headerBytes [.l3]).length ∧
      ∀ k, (t'.headerBytes [.l3])[k]? ≠ (t.headerBytes [.l3])[k]? →
        ∃ c, t.chain? = some c ∧ IpChain.Affected touched c.headers k := by
  obtain ⟨hnone, hnone'⟩ | ⟨⟨h, dirty⟩, ⟨h', dirty'⟩, he, he', hh, -⟩ := rel_cases hf.l3
  · rw [headerBytes_cons_none (g := .l3) hnone, headerBytes_cons_none (g := .l3) hnone']
    exact ⟨rfl, fun k hk => absurd rfl hk⟩
  · have hbytes {u : Headers} {e : Entry} (hu : u.l3 = some e) :
        u.headerBytes [.l3] = e.header.emit := by
      rw [headerBytes_cons (g := .l3) hu]
      exact List.append_nil _
    rw [hbytes he, hbytes he']
    refine ⟨hh.length_emit, fun k hk => ?_⟩
    cases hh with
    | same => exact absurd rfl hk
    | @ip c c' hc ht => exact ⟨c, chain?_eq_some_iff.mpr ⟨dirty, he⟩, hc.affected hk⟩

end Forwarded

/-- Adding or removing a header changes nothing inside its group. -/
theorem Step.get_inside {x : Edit} {a : HeaderGroup} (hs : Step t x t') (hx : x.reshapes? = some g)
    (ha : a ∈ g.inside) : t'.get a = t.get a := by
  have hne : a ≠ g := by
    rintro rfl
    exact HeaderGroup.not_mem_inside_self a ha
  have hout : a ∉ g :: g.outside := not_mem_outward ha
  cases hs with
  | refused => rfl
  | field | raw | serialized => cases hx
  | pushed hg hp he hu =>
    cases hx.symm.trans hg
    exact get_refreshed_inside ha _ _
  | placed hg hp he hu =>
    cases hx.symm.trans hg
    rw [rebuildOutward, get_rebuildGroups_of_not_mem hout, attachAt, get_modify_of_ne _ hne,
      get_set_of_ne _ hne]
  | popped hg he hu =>
    cases hx.symm.trans hg
    exact get_refreshed_inside ha _ _
  | removed hg he hu ho =>
    cases hx.symm.trans hg
    have hget := get_removed_of_not_outside (fun h => hout (List.mem_cons_of_mem _ h)) t
    rw [Headers.removed, ho] at hget
    rw [hget, get_set_of_ne _ hne]
  | bared hg he hu =>
    cases hx.symm.trans hg
    exact get_set_of_ne _ hne _

end Headers

/-! ### Edits -/

namespace Packet

open Headers

variable {p q : Packet} {touched : Nat → Prop} {es : List Edit} {x : Edit} {inst : Instance}
  {op : FieldOp} {arg : Bytes}

theorem placed_edit (hp : p.headers.Placed) (x : Edit) : (p.edit x).headers.Placed :=
  have hevery : p.headers.Every fun g h => h.group = g := hp
  hevery.step Header.lasting_group (step_edit p x)

/-- The edits with which a packet is passed on: hop limits are decremented, those of IPv6 headers are
changed in any way, and so are link-layer addresses and VLAN tags. No edit of these changes what
stands where in a chain, so an instance means the same header in the packet all along. -/
inductive Forwards (p : Packet) : Edit → Prop
  /-- A time to live or a hop limit is decremented. -/
  | dec {inst : Instance} {arg : Bytes} : Forwards p (.update (.field .ipHop inst) .dec arg)
  /-- The hop limit of an IPv6 header is changed. -/
  | hop {inst : Instance} {op : FieldOp} {arg : Bytes} {c : IpChain} {i : Nat} {v : Ipv6}
    (hc : p.headers.chain? = some c) (hi : c.place? .ipHop inst = some i)
    (hv : c.headers[i]? = some (.v6 v)) : Forwards p (.update (.field .ipHop inst) op arg)
  /-- A link-layer address, or the identifier or the priority of a tag, is changed. -/
  | link {num : FieldNum} {inst : Instance} {op : FieldOp} {arg : Bytes}
    (hn : num ∈ [.etherMacDst, .etherMacSrc, .vlanId, .vlanPriority]) :
    Forwards p (.update (.field num inst) op arg)
  /-- The frame is tagged. -/
  | tag {kind : HeaderKind} (hk : kind ∈ [.ethVlan, .ethStacked]) : Forwards p (.encap kind)
  /-- A tag, or both together, are removed. -/
  | untag {kind : HeaderKind} (hk : kind ∈ [.ethVlan, .ethStacked]) : Forwards p (.decap kind)

/-- One of the edits changes the hop limit of the header in a place. -/
def Touched (p : Packet) (es : List Edit) (i : Nat) : Prop :=
  ∃ inst op arg c, .update (.field .ipHop inst) op arg ∈ es ∧ FieldNum.ipHop.accepts arg.length ∧
    p.headers.chain? = some c ∧ c.place? .ipHop inst = some i

/-- An operation on a hop limit. -/
theorem forwarded_hop (hf : p.headers.Forwarded touched q.headers)
    (hop : op = .dec ∨ ∃ c i v, p.headers.chain? = some c ∧ c.place? .ipHop inst = some i ∧
      c.headers[i]? = some (.v6 v))
    (htouched : FieldNum.ipHop.accepts arg.length → ∀ c i, p.headers.chain? = some c →
      c.place? .ipHop inst = some i → touched i) :
    p.headers.Forwarded touched (q.edit (.update (.field .ipHop inst) op arg)).headers := by
  rw [edit]
  cases h : q.update (.field .ipHop inst) op arg with
  | error e => exact hf
  | ok q' =>
    obtain ⟨haccepts, e', h'', dirty, he', hu, hq⟩ := update_field_cases h
    change p.headers.Forwarded touched q'.headers
    obtain ⟨-, hnone⟩ | ⟨⟨h₀, dirty₀⟩, e₁, he, he₁, hh, hdirty⟩ := rel_cases hf.l3
    · cases hnone.symm.trans he'
    cases he₁.symm.trans he'
    have hgroup := hf.placed .l3 e' he'
    have hchain (c : IpChain) (hc : h₀ = .ip c) : p.headers.chain? = some c :=
      chain?_eq_some_iff.mpr ⟨dirty₀, hc ▸ he⟩
    have hplace (c : IpChain) (hc : h₀ = .ip c) :
        (op = .dec ∨ ∃ i v, c.place? .ipHop inst = some i ∧ c.headers[i]? = some (.v6 v)) ∧
          ∀ i, c.place? .ipHop inst = some i → touched i := by
      refine ⟨hop.imp_right ?_, fun i => htouched haccepts c i (hchain c hc)⟩
      rintro ⟨c', i, v, hc', hi, hv⟩
      cases hc'.symm.trans (hchain c hc)
      exact ⟨i, v, hi, hv⟩
    obtain ⟨hh', rfl⟩ := hh.update hgroup hplace hu
    rw [hq]
    exact {
      placed := hf.placed.set ((Header.group_update hu).trans hgroup)
      l3 := by
        rw [he]
        exact .some ⟨hh', by rw [Bool.or_false, hdirty]⟩
      l4 := hf.l4
      payload := hf.payload }

/-- Each of the edits keeps the table forwarded. -/
theorem forwarded_edit (hf : p.headers.Forwarded (p.Touched es) q.headers) (hx : x ∈ es)
    (hforwards : p.Forwards x) : p.headers.Forwarded (p.Touched es) (q.edit x).headers := by
  have hplaced := placed_edit hf.placed x
  cases hforwards with
  | dec =>
    exact forwarded_hop hf (.inl rfl) fun ha c i hc hi => ⟨_, _, _, c, hx, ha, hc, hi⟩
  | @hop _ _ _ c i v hc hi hv =>
    exact forwarded_hop hf (.inr ⟨c, i, v, hc, hi, hv⟩)
      fun ha c i hc hi => ⟨_, _, _, c, hx, ha, hc, hi⟩
  | @link num inst op arg hn =>
    have hgroup : num.group = .l2 := by
      revert hn
      cases num <;> decide
    refine hf.outside hplaced fun g hg => ?_
    have hne : g ≠ .l2 := by
      rintro rfl
      exact absurd hg (by decide)
    rw [edit]
    cases h : q.update (.field num inst) op arg with
    | error e => rfl
    | ok q' =>
      obtain ⟨-, e', h', dirty, -, -, hq⟩ := update_field_cases h
      change q'.headers.get g = _
      rw [hq, hgroup, get_set_of_ne _ hne]
  | @tag kind hk | @untag kind hk =>
    have hgroup : kind.group? = some .l2 := by
      revert hk
      cases kind <;> decide
    exact hf.outside hplaced fun g hg => (step_edit q _).get_inside hgroup hg

theorem forwarded_edits (hp : p.headers.Placed) (hes : ∀ x ∈ es, p.Forwards x) :
    p.headers.Forwarded (p.Touched es) (p.edits es).headers :=
  List.foldlRecOn es edit (motive := fun q => p.headers.Forwarded (p.Touched es) q.headers)
    (.refl hp) fun _ hf x hx => forwarded_edit hf hx (hes x hx)

/-- When a packet that has been parsed is passed on, the frame that serializing gives then and the
one it would have given before have the same transport header, payload and trailer, whether the
transport checksum is right or wrong. In the network-layer header they differ at most in the hop
limits that were changed, in the checksums of the IPv4 headers among them, and in the checksums of
GRE headers around them. -/
theorem serialize_of_forwards {start : HeaderKind} {b : Bytes} (hp : parse start b = .ok p)
    (hes : ∀ x ∈ es, p.Forwards x) :
    let (frame, p') := p.serialize
    let (frame', q') := (p.edits es).serialize
    let t := p'.headers
    let t' := q'.headers
    frame = t.headerBytes [.l2] ++ t.headerBytes [.l3] ++ t.headerBytes [.l4] ++
        t.headerBytes [.payload] ++ t.trailerBytes [.l3] ∧
      frame' = t'.headerBytes [.l2] ++ t'.headerBytes [.l3] ++ t'.headerBytes [.l4] ++
        t'.headerBytes [.payload] ++ t'.trailerBytes [.l3] ∧
      t'.headerBytes [.l4] = t.headerBytes [.l4] ∧
      t'.headerBytes [.payload] = t.headerBytes [.payload] ∧
      t'.trailerBytes [.l3] = t.trailerBytes [.l3] ∧
      (t'.headerBytes [.l3]).length = (t.headerBytes [.l3]).length ∧
      ∀ k, (t'.headerBytes [.l3])[k]? ≠ (t.headerBytes [.l3])[k]? →
        ∃ c, t.chain? = some c ∧ IpChain.Affected (p.Touched es) c.headers k := by
  have hplaced := headers_placed_of_parse hp
  have hf := (forwarded_edits hplaced hes).rebuildAll hplaced
  exact ⟨emit_eq_parts (hplaced.rebuildGroups _), emit_eq_parts hf.placed,
    hf.headerBytes_eq (by decide), hf.headerBytes_eq (by decide), hf.trailerBytes_eq, hf.affected⟩

/-- A TCP segment with a wrong checksum, in IPv6 in GRE with a checksum in IPv4, behind which a byte
is left over. Both hop limits are changed, and the frame is tagged. -/
theorem serialize_of_forwards_tunnel : ∃ b p es, parse .eth b = .ok p ∧ (∀ x ∈ es, p.Forwards x) ∧
    (∃ e ∈ p.headers.l4,
      ¬e.header.ChecksumsHold (p.headers.around .l4).addrs (p.headers.around .l4).inner) ∧
    let t := p.serialize.2.headers
    let t' := (p.edits es).serialize.2.headers
    t'.headerBytes [.l2] ≠ t.headerBytes [.l2] ∧ t'.headerBytes [.l3] ≠ t.headerBytes [.l3] ∧
      t'.headerBytes [.l4] = t.headerBytes [.l4] ∧
      t'.headerBytes [.payload] = t.headerBytes [.payload] ∧
      t'.trailerBytes [.l3] = t.trailerBytes [.l3] := by
  let b : Bytes := [
    2, 0, 0, 0, 0, 1, 2, 0, 0, 0, 0, 2, 0x08, 0x00,
    0x45, 0, 0, 90, 0, 0, 0, 0, 64, 47, 0, 0, 10, 0, 0, 1, 10, 0, 0, 2,
    0x80, 0, 0x86, 0xDD, 0, 0, 0, 0,
    0x60, 0, 0, 0, 0, 22, 6, 1, 0xFD, 0, 0, 0, 0, 0, 0, 0, 0, 0, 0, 0, 0, 0, 0, 1,
    0xFD, 0, 0, 0, 0, 0, 0, 0, 0, 0, 0, 0, 0, 0, 0, 2,
    0, 80, 0, 81, 0, 0, 0, 0, 0, 0, 0, 0, 0x50, 0x10, 0, 0, 0, 0, 0, 0,
    0x68, 0x69, 0xFF]
  let es : List Edit := [
    .update (.field .ipHop .first) .dec [1], .update (.field .ipHop .last) .set [9],
    .encap .ethVlan, .update (.field .vlanId .first) .set [0, 7],
    .update (.field .etherMacDst .first) .set [2, 0, 0, 0, 0, 3]]
  have hparse : ∃ p ∈ (parse .eth b).toOption,
      (∃ c ∈ p.headers.chain?, c.place? .ipHop .last = some 2 ∧
        ∃ h ∈ c.headers[2]?, h.kind = .ip6) ∧
      (∃ e ∈ p.headers.l4,
        ¬e.header.ChecksumsHold (p.headers.around .l4).addrs (p.headers.around .l4).inner) ∧
      (p.edits es).serialize.2.headers.headerBytes [.l2] ≠ p.serialize.2.headers.headerBytes [.l2] ∧
      (p.edits es).serialize.2.headers.headerBytes [.l3] ≠ p.serialize.2.headers.headerBytes [.l3] := by
    decide +kernel
  obtain ⟨p, hp, ⟨c, hc, hplace, h, hh, hkind⟩, hwrong, hl2, hl3⟩ := hparse
  have hp := toOption_eq_some_iff.mp hp
  obtain ⟨v, rfl⟩ : ∃ v, h = .v6 v := by
    cases h with
    | v6 v => exact ⟨v, rfl⟩
    | v4 | gre => cases hkind
  have hes : ∀ x ∈ es, p.Forwards x := by
    simp only [es, List.forall_mem_cons]
    exact ⟨.dec, .hop hc hplace hh, .tag (by decide), .link (by decide), .link (by decide),
      by simp⟩
  obtain ⟨-, -, hl4, hpayload, htrailer, -, -⟩ := serialize_of_forwards hp hes
  exact ⟨b, p, es, hp, hes, hwrong, hl2, hl3, hl4, hpayload, htrailer⟩

end Packet

end Dataplane

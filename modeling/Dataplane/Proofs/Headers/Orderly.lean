import Dataplane.Proofs.Packet.Parsed

/-!
# Tables of headers that can be read back

What holds of a table that has just been parsed and stays true when headers are added and removed:
every header is regular and in its place, nothing stands inside a header that takes in the rest of
the frame, and a packet that was parsed as one that starts with GRE has no trailer
(`Headers.Orderly`).

Rebuilding an orderly table makes every header legible, if the lengths have room
(`Headers.Orderly.legible_rebuildAll`).
-/

namespace Dataplane

theorem Header.rebuild_of_payload {h : Header} (hg : h.group = .payload) (around : Surroundings)
    (dirty : Bool) : h.rebuild around dirty = h := by
  cases h with
  | payload b => rfl
  | _ => cases hg

theorem IpChain.fits_of_rebuild {c : IpChain} {around : Surroundings} {dirty : Bool} {innerLen : Nat}
    (h : (c.rebuild around dirty).Fits innerLen) : c.Fits innerLen := by
  intro x hx n hn
  obtain ⟨xs, hheaders⟩ := List.head?_eq_some_iff.mp hx
  have hlimit : (rebuildHeader around dirty x (rebuildHeaders around dirty xs)).lengthLimit? =
      x.lengthLimit? := by
    cases x <;> rfl
  have hfirst : rebuildHeader around dirty x (rebuildHeaders around dirty xs) ∈
      (c.rebuild around dirty).headers.head? := by
    show _ ∈ (rebuildHeaders around dirty c.headers).head?
    rw [hheaders]
    rfl
  have hle := h _ hfirst n (hlimit ▸ hn)
  rwa [wireLen_rebuild] at hle

theorem Header.fits_of_rebuild {h : Header} {around : Surroundings} {dirty : Bool} {innerLen : Nat}
    (hf : (h.rebuild around dirty).Fits innerLen) : h.Fits innerLen := by
  cases h with
  | ip c => exact IpChain.fits_of_rebuild hf
  | _ => trivial

namespace Headers

variable {t t' : Headers} {start kind : HeaderKind} {g : HeaderGroup} {h : Header} {e : Entry}

/-- The length of the first header of a chain has room for what is inside it. -/
def Fits (t : Headers) : Prop := ∀ e ∈ t.l3, e.header.Fits (t.around .l3).innerLen

instance (t : Headers) : Decidable t.Fits := inferInstanceAs (Decidable (∀ e ∈ t.l3, _))

/-- Every header is regular and in its place, and there is metadata; nothing is inside a header that
takes in the rest of the frame; there is no trailer if the packet was parsed as one that starts with
GRE. -/
structure Orderly (start : HeaderKind) (t : Headers) : Prop where
  placed : t.Placed
  regular : ∀ g e, t.get g = some e → e.header.Regular
  metadata : t.packet.isSome
  last : ∀ e, t.l4 = some e → e.header.takesRest → ∀ x, t.payload = some x → x.header.emit = []
  trailer : start = .gre → ∀ g e, t.get g = some e → e.header.trailer = []

/-! ### Surroundings -/

/-- Inside a network-layer header there is none of a chain. -/
theorem unchained_innerKind (hp : t.Placed) : ∀ k ∈ (t.around .l3).innerKind, ¬k.Chained := by
  intro k hk
  rw [innerKind_eq, kindsOf] at hk
  obtain ⟨stack, hstack, hhead⟩ := Option.bind_eq_some_iff.mp hk
  obtain ⟨e, he, rfl⟩ := List.mem_map.mp (List.mem_of_mem_head? hstack)
  obtain ⟨g, hg, hget⟩ := List.mem_filterMap.mp he
  have hgroup := Header.group_of_mem_stack (List.mem_of_mem_head? hhead)
  rw [hp g e hget] at hgroup
  rintro (rfl | rfl | rfl) <;>
  · cases hgroup
    exact absurd hg (by decide)

/-- Nothing is inside the innermost header. -/
theorem inner_l4 (he : t.payload = some e) (hp : t.Placed) :
    (t.around .l4).inner = e.header.emit := by
  have hgroup := hp .payload e he
  have hentries : t.entriesOf HeaderGroup.l4.inside = [e] := entriesOf_cons (g := .payload) he []
  show Entry.emitAll (t.entriesOf HeaderGroup.l4.inside) = _
  rw [hentries, Entry.emitAll_cons, Packet.trailer_of_group (by rw [hgroup]; decide)]
  simp [Entry.emitAll]

theorem inner_l4_none (he : t.payload = none) : (t.around .l4).inner = [] := by
  have hentries : t.entriesOf HeaderGroup.l4.inside = [] := entriesOf_cons_none (g := .payload) he []
  show Entry.emitAll (t.entriesOf HeaderGroup.l4.inside) = _
  rw [hentries]
  rfl

/-- Nothing is inside a header that takes in the rest of the frame. -/
theorem Orderly.inner_of_takesRest (ht : t.Orderly start) (he : t.get g = some e)
    (hrest : e.header.takesRest) : (t.around g).inner = [] := by
  have hgroup := ht.placed g e he
  cases hh : e.header with
  | icmp6 i =>
    rw [hh] at hgroup
    subst hgroup
    cases hx : t.payload with
    | none => exact inner_l4_none hx
    | some x => exact (inner_l4 hx ht.placed).trans (ht.last e he hrest x hx)
  | payload b =>
    rw [hh] at hgroup
    subst hgroup
    rfl
  | _ =>
    rw [hh] at hrest
    cases hrest

/-! ### What changes keep -/

namespace Orderly

/-- What a change of one header has to keep. -/
theorem modify (ht : t.Orderly start) (g : HeaderGroup) {f : Entry → Entry}
    (hf : ∀ e, t.get g = some e → (f e).header.group = e.header.group ∧ (f e).header.Regular ∧
      (f e).header.takesRest = e.header.takesRest ∧ (f e).header.trailer = e.header.trailer ∧
      (g = .payload → (f e).header.emit = e.header.emit)) : (t.modify g f).Orderly start := by
  have hget (g' : HeaderGroup) (e' : Entry) (he : (t.modify g f).get g' = some e') :
      ∃ e, t.get g' = some e ∧ (e' = e ∨ g' = g ∧ e' = f e) := by
    by_cases hg : g' = g
    · subst hg
      rw [get_modify_self] at he
      obtain ⟨e, hget, rfl⟩ := Option.map_eq_some_iff.mp he
      exact ⟨e, hget, .inr ⟨rfl, rfl⟩⟩
    · rw [get_modify_of_ne _ hg] at he
      exact ⟨e', he, .inl rfl⟩
  refine ⟨fun g' e' he => ?_, fun g' e' he => ?_, ?_, fun e' he hrest x' hx => ?_,
    fun hgre g' e' he => ?_⟩
  · obtain ⟨e, hold, rfl | ⟨rfl, rfl⟩⟩ := hget g' e' he
    · exact ht.placed g' _ hold
    · exact (hf e hold).1.trans (ht.placed g' e hold)
  · obtain ⟨e, hold, rfl | ⟨rfl, rfl⟩⟩ := hget g' e' he
    · exact ht.regular g' _ hold
    · exact (hf e hold).2.1
  · have hmeta := ht.metadata
    cases g with
    | packet =>
      show (t.packet.map f).isSome
      rwa [Option.isSome_map]
    | _ => exact hmeta
  · obtain ⟨e, hold, hsame⟩ := hget .l4 e' he
    obtain ⟨x, holdx, hsamex⟩ := hget .payload x' hx
    have hrest' : e.header.takesRest := by
      obtain rfl | ⟨rfl, rfl⟩ := hsame
      · exact hrest
      · exact (hf e hold).2.2.1 ▸ hrest
    have hempty := ht.last e hold hrest' x holdx
    obtain rfl | ⟨rfl, rfl⟩ := hsamex
    · exact hempty
    · rw [(hf x holdx).2.2.2.2 rfl, hempty]
  · obtain ⟨e, hold, rfl | ⟨rfl, rfl⟩⟩ := hget g' e' he
    · exact ht.trailer hgre g' _ hold
    · rw [(hf e hold).2.2.2.1, ht.trailer hgre g' e hold]

theorem rebuildAt (ht : t.Orderly start) (g : HeaderGroup) : (t.rebuildAt g).Orderly start := by
  refine ht.modify g fun e he => ?_
  have hgroup := ht.placed g e he
  have hinner : e.header.group = .l3 → ∀ k ∈ (t.around g).innerKind, ¬k.Chained := by
    intro hl3
    rw [← hgroup, hl3]
    exact unchained_innerKind ht.placed
  refine ⟨by simp, (ht.regular g e he).rebuild hinner e.dirty, by simp, by simp, fun hpay => ?_⟩
  rw [Header.rebuild_of_payload (hgroup.trans hpay)]

theorem attachAt (ht : t.Orderly start) (g : HeaderGroup) : (t.attachAt g).Orderly start :=
  ht.modify g fun e he => ⟨by simp, (ht.regular g e he).attach _, by simp, by simp, fun _ => by simp⟩

theorem attachAll (ht : t.Orderly start) : t.attachAll.Orderly start :=
  List.foldlRecOn HeaderGroup.all Headers.attachAt ht fun _ h g _ => h.attachAt g

theorem cleanAt (ht : t.Orderly start) (g : HeaderGroup) : (t.cleanAt g).Orderly start :=
  ht.modify g fun e he => ⟨rfl, ht.regular g e he, rfl, rfl, fun _ => rfl⟩

theorem rebuildGroups (ht : t.Orderly start) (gs : List HeaderGroup) :
    (t.rebuildGroups gs).Orderly start :=
  List.foldlRecOn gs Headers.cleanAt
    (List.foldlRecOn gs Headers.rebuildAt ht fun _ h g _ => h.rebuildAt g) fun _ h g _ => h.cleanAt g

/-- A header that leaves room for others may be put into its place. -/
theorem set (ht : t.Orderly start) {dirty : Bool} (hg : h.group = g) (hr : h.Regular)
    (hrest : h.takesRest = false) (htr : start = .gre → h.trailer = []) :
    (t.set g (some ⟨h, dirty⟩)).Orderly start := by
  have hget (g' : HeaderGroup) (e' : Entry) (he : (t.set g (some ⟨h, dirty⟩)).get g' = some e') :
      g' = g ∧ e' = ⟨h, dirty⟩ ∨ t.get g' = some e' := by
    by_cases hg' : g' = g
    · subst hg'
      rw [get_set_self] at he
      cases he
      exact .inl ⟨rfl, rfl⟩
    · rw [get_set_of_ne _ hg'] at he
      exact .inr he
  refine ⟨ht.placed.set hg, fun g' e' he => ?_, ?_, fun e' he hrest' x hx => ?_,
    fun hgre g' e' he => ?_⟩
  · obtain ⟨-, rfl⟩ | hold := hget g' e' he
    · exact hr
    · exact ht.regular g' e' hold
  · have hmeta := ht.metadata
    cases g with
    | packet => rfl
    | _ => exact hmeta
  · obtain ⟨-, rfl⟩ | hold := hget .l4 e' he
    · rw [hrest] at hrest'
      cases hrest'
    · obtain ⟨hpay, rfl⟩ | holdx := hget .payload x hx
      · -- A payload takes in the rest.
        subst hpay
        cases h with
        | payload b => cases hrest
        | _ => cases hg
      · exact ht.last e' hold hrest' x holdx
  · obtain ⟨-, rfl⟩ | hold := hget g' e' he
    · exact htr hgre
    · exact ht.trailer hgre g' e' hold

theorem remove (ht : t.Orderly start) (hg : g ≠ .packet) : (t.set g none).Orderly start := by
  have hget (g' : HeaderGroup) (e' : Entry) (he : (t.set g none).get g' = some e') :
      t.get g' = some e' := by
    by_cases hg' : g' = g
    · subst hg'
      rw [get_set_self] at he
      cases he
    · rwa [get_set_of_ne _ hg'] at he
  refine ⟨ht.placed.remove g, fun g' e' he => ht.regular g' e' (hget g' e' he), ?_,
    fun e' he hrest x hx => ht.last e' (hget .l4 e' he) hrest x (hget .payload x hx),
    fun hgre g' e' he => ht.trailer hgre g' e' (hget g' e' he)⟩
  have hmeta := ht.metadata
  cases g with
  | packet => exact absurd rfl hg
  | _ => exact hmeta

/-- Adding a header keeps a table orderly. -/
theorem encap (ht : t.Orderly start) (hx : Step t (.encap kind) t') : t'.Orderly start := by
  cases hx with
  | refused => exact ht
  | pushed hg hp he hu =>
    obtain ⟨hr, hrest, htr⟩ := (ht.regular _ _ he).push hu
    have hgroup := (Header.group_push hu).trans (ht.placed _ _ he)
    exact (ht.set hgroup hr hrest fun hgre => htr.trans (ht.trailer hgre _ _ he)).rebuildGroups _
  | placed hg hp he hf =>
    obtain ⟨hr, hrest, htr⟩ := Header.regular_fresh hf
    have hgroup := Option.some.inj ((Header.group_fresh hf).symm.trans hg)
    exact ((ht.set hgroup hr hrest fun _ => htr).attachAt _).rebuildGroups _

/-- Removing a header keeps a table orderly, if it is not the metadata. -/
theorem decap (ht : t.Orderly start) (hx : Step t (.decap kind) t')
    (hk : kind.group? ≠ some .packet) : t'.Orderly start := by
  cases hx with
  | refused => exact ht
  | popped hg he hu =>
    obtain ⟨hr, hrest, htr⟩ := (ht.regular _ _ he).pop hu
    have hgroup := (Header.group_pop hu).trans (ht.placed _ _ he)
    exact (ht.set hgroup hr hrest fun hgre => htr.trans (ht.trailer hgre _ _ he)).rebuildGroups _
  | removed hg he hu ho => exact (ht.remove (by rintro rfl; exact hk hg)).rebuildGroups _
  | bared hg he hu => exact ht.remove (by rintro rfl; exact hk hg)

end Orderly

/-! ### Rebuilding -/

theorem inner_l3_rebuildAll (hp : t.Placed) :
    (t.rebuildAll.around .l3).inner = ((t.rebuildAt .l4).around .l3).inner := by
  refine emitAll_congr fun g hg => ?_
  obtain rfl | hg := List.mem_cons.mp hg
  · show t.rebuildAll.l4.map _ = (t.rebuildAt .l4).l4.map _
    rw [l4_rebuildAll hp, Option.map_map]
    rfl
  · cases List.mem_singleton.mp hg
    show t.rebuildAll.payload.map _ = t.payload.map _
    rw [payload_rebuildAll hp, Option.map_map]
    rfl

/-- Rebuilding makes every header of an orderly table legible. -/
theorem Orderly.legible_rebuildAll (ht : t.Orderly start) (hfits : t.rebuildAll.Fits)
    (hg : g ≠ .packet) (he : t.rebuildAll.get g = some e) :
    e.header.Legible (t.rebuildAll.around g).inner := by
  have hs : t.rebuildAll.Orderly start := ht.rebuildGroups _
  have hgroup := hs.placed g e he
  have hrest := hs.inner_of_takesRest he
  cases hh : e.header with
  | metadata m =>
    rw [hh] at hgroup
    exact absurd hgroup.symm hg
  | ip c =>
    have hc : g = .l3 := by rw [← hgroup, hh]; rfl
    subst hc
    obtain ⟨e₀, he₀, rfl⟩ := Option.map_eq_some_iff.mp ((l3_rebuildAll ht.placed).symm.trans he)
    have hroom := hfits _ he
    rw [Surroundings.innerLen, inner_l3_rebuildAll ht.placed] at hroom
    have hinner : ∀ k ∈ ((t.rebuildAt .l4).around .l3).innerKind, ¬k.Chained :=
      unchained_innerKind (ht.placed.rebuildAt .l4)
    rw [← hh, inner_l3_rebuildAll ht.placed]
    refine (ht.regular .l3 e₀ he₀).legible_rebuild (by rw [ht.placed .l3 e₀ he₀]; decide)
      (fun _ => hinner) (fun hrest' => ?_) (Header.fits_of_rebuild hroom) e₀.dirty
    rw [← inner_l3_rebuildAll ht.placed]
    exact hrest (by rw [Header.takesRest_rebuild]; exact hrest')
  | _ =>
    rw [hh] at hrest
    refine ⟨hrest, ?_⟩
    have hregular := hs.regular g e he
    rw [hh] at hregular
    exact hregular

end Headers

/-! ### Parsing -/

namespace Packet

open Headers

variable {start : HeaderKind} {b : Bytes} {p : Packet}

/-- A table that has just been read is orderly. -/
theorem orderly_of_parseHeaders {f : Frame} {t : Headers}
    (e : parseHeaders 4 .packet start f (Headers.empty.set .packet (some (.clean (.metadata .fresh))))
      = .ok t) : t.Orderly start where
  placed := placed_parseHeaders (placed_empty.set (g := .packet) rfl) e
  regular g x hx := by
    obtain hold | ⟨-, _, _, _, _, -, hread⟩ := read_of_parseHeaders e hx
    · cases g <;> cases hold
      trivial
    · exact (Header.regular_of_read hread).1
  metadata := by
    have hself := get_parseHeaders e (HeaderGroup.not_mem_inside_self .packet)
    show (t.get .packet).isSome
    rw [hself]
    rfl
  last x hx hrest y hy := by
    by_cases hs : start = .none
    · subst hs
      cases e
      cases hx
    obtain ⟨-, -, hoff⟩ := emitAll_parseHeaders (by decide) (fun h => absurd h hs) e
    obtain ⟨kind, next, f₀, f₁, hread, hunread⟩ := hoff .l4 (by decide) x hx
    have hplaced : t.Placed := placed_parseHeaders (placed_empty.set (g := .packet) rfl) e
    -- What the header has left is what the payload has.
    have hleft := (Header.regular_of_read hread).2 hrest
    have hinner : Entry.emitAll (t.entriesOf HeaderGroup.l4.inside) = f₁.unread := by
      have hwhole := (Header.read_eq hread).1.symm.trans hunread
      rw [entriesOf_cons (g := .l4) hx, Entry.emitAll_cons] at hwhole
      exact (List.append_cancel_left (List.append_cancel_right hwhole)).symm
    exact (inner_l4 hy hplaced).symm.trans (hinner.trans hleft)
  trailer hgre g x hx := by
    subst hgre
    have hplaced : t.Placed := placed_parseHeaders (placed_empty.set (g := .packet) rfl) e
    by_cases hl3 : g = .l3
    · subst hl3
      obtain ⟨hk, -⟩ | ⟨_, g, h, next, f', -, hg, hlast, hread, hrest⟩ := parseHeaders_cases e
      · cases hk
      · cases hg
        have hself := get_parseHeaders hrest (HeaderGroup.not_mem_inside_self .l3)
        rw [get_set_self] at hself
        cases hself.symm.trans hx
        exact Header.trailer_of_read_gre hread
    · exact trailer_of_group (by rw [hplaced g x hx]; exact hl3)

theorem orderly_of_parse (e : parse start b = .ok p) : p.headers.Orderly start := by
  obtain ⟨t, ht, rfl⟩ := parse_eq_ok_iff.mp e
  exact (orderly_of_parseHeaders ht).attachAll

end Packet

end Dataplane

import Dataplane.Proofs.Headers.Rebuilding

/-!
# Tables that serialize alike

Adding a header to a stack and taking it off again does not give the old table back: lengths,
checksums and types have been stamped over on the way. It gives a table that *agrees* with the old
one (`Headers.Agree`), and tables that agree are serialized to the same frame
(`Agree.emit_rebuildAll`).

## The model

Upper-layer headers and payloads of two tables that agree are equal, and no rebuild tells their
network-layer headers apart. An Ethernet header may have the wrong type while a header that announces
no type, such as GRE, is behind it; so the types of two tables that agree may differ as long as there
is a network-layer header at all. Serializing stamps the type again if that header can be announced
(`Headers.Announced`). What is said of the headers inside the Ethernet header is enough to compare
their bytes (`AgreeInside.emit_inside`).
-/

namespace Dataplane

/-! ### Ethernet -/

namespace Ethernet

variable {e e' : Ethernet} {around around' : Surroundings}

theorem rebuild_congr (hk : around'.innerKind = around.innerKind) :
    e.rebuild around' = e.rebuild around := by
  simp only [rebuild, hk]

@[simp] theorem addrs_rebuild (e : Ethernet) (around : Surroundings) :
    (e.rebuild around).addrs = e.addrs := by
  rw [rebuild]
  split <;> rfl

@[simp] theorem tags_rebuild (e : Ethernet) (around : Surroundings) :
    (e.rebuild around).tags = e.tags := by
  rw [rebuild]
  split <;> rfl

theorem rebuild_of_unannounced (h : around.innerKind >>= EtherType.ofKind? = none) :
    e.rebuild around = e := by
  rw [rebuild, h]

/-- The type takes up its whole word. -/
theorem setNum_typeSlot (word word' : Block 2) (type : Nat) :
    word.setNum typeSlot type = word'.setNum typeSlot type := by
  have hdrop (w : Block 2) : w.bytes.drop (typeSlot.start + typeSlot.width) = [] :=
    List.drop_of_length_le (le_of_eq w.length_eq)
  ext1
  rw [Block.setNum, Block.setNum, Block.bytes_set _ (Bytes.length_ofNat _ _),
    Block.bytes_set _ (Bytes.length_ofNat _ _), hdrop, hdrop]
  rfl

/-- A stamped type does not depend on the one before. -/
theorem rebuild_eq_of_announced (ha : e'.addrs = e.addrs) (ht : e'.tags = e.tags)
    (h : (around.innerKind >>= EtherType.ofKind?).isSome) :
    e'.rebuild around = e.rebuild around := by
  obtain ⟨type, htype⟩ := Option.isSome_iff_exists.mp h
  simp only [rebuild, htype, ha, ht, setNum_typeSlot e'.typeWord e.typeWord]

end Ethernet

/-- Ethernet headers that differ in the type of what follows at most, and not in it if `fixed`. -/
def Header.SameFrame (fixed : Prop) (h h' : Header) : Prop :=
  ∃ e e', h = .ethernet e ∧ h' = .ethernet e' ∧ e'.addrs = e.addrs ∧ e'.tags = e.tags ∧
    (fixed → e'.typeWord = e.typeWord)

theorem Header.SameFrame.stack {fixed : Prop} {h h' : Header} (hsame : h.SameFrame fixed h') :
    h'.stack = h.stack := by
  obtain ⟨e, e', rfl, rfl, -, htags, -⟩ := hsame
  simp only [Header.stack, Ethernet.kind, htags]

theorem Header.ethernet_of_group {h : Header} (hg : h.group = .l2) : ∃ e, h = .ethernet e := by
  cases h with
  | ethernet e => exact ⟨e, rfl⟩
  | _ => cases hg

theorem rel_cases {α : Type} {r : α → α → Prop} {a a' : Option α} (h : Option.Rel r a a') :
    a = none ∧ a' = none ∨ ∃ x x', a = some x ∧ a' = some x' ∧ r x x' := by
  cases h with
  | none => exact .inl ⟨rfl, rfl⟩
  | some hr => exact .inr ⟨_, _, rfl, rfl, hr⟩

theorem map_eq_of_rel {α β : Type} {r : α → α → Prop} {f : α → β} {a a' : Option α}
    (h : Option.Rel r a a') (hf : ∀ x x', r x x' → f x' = f x) : a'.map f = a.map f := by
  cases h with
  | none => rfl
  | some hr => exact congrArg some (hf _ _ hr)

namespace Headers

variable {t t' : Headers}

/-- Serializing makes the two tables equal inside the Ethernet header. -/
structure AgreeInside (t t' : Headers) : Prop where
  /-- Every header lies in the place of its group. -/
  placed : t'.Placed
  /-- No header is dirty. -/
  clean : t'.Clean
  /-- No rebuild tells the network-layer headers apart. -/
  l3 : Option.Rel (fun e e' => e.header.Agrees (t.around .l3).innerKind e'.header) t.l3 t'.l3
  /-- The upper-layer headers are the same. -/
  l4 : t'.l4 = t.l4
  /-- The payloads are the same. -/
  payload : t'.payload = t.payload

/-- Serializing makes the two tables equal. -/
structure Agree (t t' : Headers) : Prop extends AgreeInside t t' where
  /-- There is metadata in both, or in neither. -/
  packet : t'.packet.isSome = t.packet.isSome
  /-- The Ethernet headers differ in their types at most. -/
  l2 : Option.Rel (fun e e' => e.header.SameFrame (t.l3 = none) e'.header) t.l2 t'.l2

theorem Agree.refl (hp : t.Placed) (hc : t.Clean) : t.Agree t where
  placed := hp
  clean := hc
  packet := rfl
  l2 := by
    cases h : t.l2 with
    | none => exact .none
    | some e =>
      obtain ⟨e', he⟩ := Header.ethernet_of_group (hp .l2 e h)
      exact .some ⟨e', e', he, he, rfl, rfl, fun _ => rfl⟩
  l3 := by
    cases t.l3 with
    | none => exact .none
    | some e => exact .some (.refl _ _)
  l4 := rfl
  payload := rfl

theorem stack_packet {e : Entry} (hp : t.Placed) (he : t.packet = some e) :
    e.header.stack = [.metadata] ∧ e.header.emit = [] ∧ e.header.trailer = [] := by
  have hg := hp .packet e he
  cases h : e.header with
  | metadata m => exact ⟨rfl, rfl, rfl⟩
  | _ => rw [h] at hg; cases hg

theorem Agree.sameKinds (h : t.Agree t') (hp : t.Placed) : t.SameKinds t' := by
  intro g
  cases g with
  | packet =>
    have hsome := h.packet
    change t'.packet.map _ = t.packet.map _
    cases he : t.packet with
    | none =>
      cases he' : t'.packet with
      | none => rfl
      | some e' => rw [he, he'] at hsome; cases hsome
    | some e =>
      cases he' : t'.packet with
      | none => rw [he, he'] at hsome; cases hsome
      | some e' =>
        rw [Option.map_some, Option.map_some, (stack_packet h.placed he').1, (stack_packet hp he).1]
  | l2 => exact map_eq_of_rel h.l2 fun _ _ hsame => hsame.stack
  | l3 => exact map_eq_of_rel h.l3 fun _ _ hagrees => hagrees.stack
  | l4 => rw [get, get, h.l4]
  | payload => rw [get, get, h.payload]

/-! ### Surroundings -/

theorem outerDirty_of_clean (hc : t.Clean) (g : HeaderGroup) : (t.around g).outerDirty = false := by
  simp only [around]
  split
  · rename_i e he
    obtain ⟨g', -, hget⟩ := List.mem_filterMap.mp (List.mem_of_mem_head? he)
    exact hc g' e hget
  · rfl

theorem addrs_around (t : Headers) (g : HeaderGroup) : (t.around g).addrs =
    if g = .l3 then none else ((t.get .l3).map (·.header.addrs?)).join := by
  rw [around]
  cases h : t.l3 <;> simp [get, h]

/-- Tables that are equal inside a group, with the same addresses, differ for its header in what is
outside at most. -/
theorem around_eq_of_inside {g : HeaderGroup} (hinside : ∀ g' ∈ g.inside, t'.get g' = t.get g')
    (haddrs : (t'.around g).addrs = (t.around g).addrs) :
    t'.around g = { t.around g with outerDirty := (t'.around g).outerDirty } := by
  have hentries : t'.entriesOf g.inside = t.entriesOf g.inside := List.filterMap_congr hinside
  simp only [around, Surroundings.mk.injEq] at haddrs ⊢
  exact ⟨by rw [hentries], by rw [hentries], trivial, by rw [hentries], haddrs⟩

/-- In tables that are clean, what a header sees are the headers inside and the addresses. -/
theorem around_congr {g : HeaderGroup} (hc : t.Clean) (hc' : t'.Clean)
    (hinside : ∀ g' ∈ g.inside, t'.get g' = t.get g')
    (haddrs : (t'.around g).addrs = (t.around g).addrs) : t'.around g = t.around g := by
  rw [around_eq_of_inside hinside haddrs, outerDirty_of_clean hc', ← outerDirty_of_clean hc g]

theorem Clean.rebuildAt (hc : t.Clean) (g : HeaderGroup) : (t.rebuildAt g).Clean := by
  intro g' e he
  by_cases hg : g' = g
  · subst hg
    rw [Headers.rebuildAt, get_modify_self] at he
    obtain ⟨e₀, he₀, rfl⟩ := Option.map_eq_some_iff.mp he
    exact hc g' e₀ he₀
  · rw [Headers.rebuildAt, get_modify_of_ne _ hg] at he
    exact hc g' e he

/-- No type announces what follows if that is no network-layer header. -/
theorem unannounced (hp : t.Placed) (hl3 : t.l3 = none) :
    (t.around .l2).innerKind >>= EtherType.ofKind? = none := by
  have hkinds : t.kindsOf HeaderGroup.l2.inside = t.kindsOf [.l4, .payload] := by
    rw [kindsOf, HeaderGroup.inside, entriesOf_cons_none (g := .l3) hl3, kindsOf]
  rw [innerKind_eq, hkinds, kindsOf, List.head?_map, Option.bind_eq_bind, Option.bind_eq_bind,
    Option.bind_map, Option.bind_assoc, Option.bind_eq_none_iff]
  intro e he
  obtain ⟨g, hg, hget⟩ := List.mem_filterMap.mp (List.mem_of_mem_head? he)
  have hgroup := hp g e hget
  cases h : e.header with
  | tcp _ | udp _ | icmp4 _ | icmp6 _ | payload _ =>
    rw [Function.comp_apply, h]
    rfl
  | _ =>
    rw [h] at hgroup
    subst hgroup
    simp [Header.group] at hg

/-! ### Serializing -/

/-- A network-layer header behind an Ethernet header can be announced by its type. -/
def Announced (t : Headers) : Prop :=
  t.l2.isSome → t.l3.isSome → ((t.around .l2).innerKind >>= EtherType.ofKind?).isSome

/-- Metadata has no bytes on the wire. -/
theorem emit_eq_inside (hp : t.Placed) :
    t.emit = Entry.emitAll (t.entriesOf HeaderGroup.packet.inside) := by
  have hall : t.entries = t.entriesOf (.packet :: HeaderGroup.packet.inside) := rfl
  rw [emit, hall]
  cases he : t.packet with
  | none => rw [entriesOf_cons_none (g := .packet) he]
  | some e =>
    obtain ⟨-, hemit, htrailer⟩ := stack_packet hp he
    rw [entriesOf_cons (g := .packet) he, Entry.emitAll_cons, hemit, htrailer, List.append_nil,
      List.nil_append]

theorem l4_rebuildAll (hp : t.Placed) :
    t.rebuildAll.l4 = (t.rebuildAt .l4).l4.map fun e => { e with dirty := false } := by
  have h : t.rebuildAll.l4 =
      ((t.rebuildAt .payload).rebuildAt .l4).l4.map fun e => { e with dirty := false } := rfl
  rw [h, rebuildAt_payload hp]

theorem l3_rebuildAll (hp : t.Placed) :
    t.rebuildAll.l3 = t.l3.map fun e =>
      ⟨e.header.rebuild ((t.rebuildAt .l4).around .l3) e.dirty, false⟩ := by
  have h : t.rebuildAll.l3 = (((t.rebuildAt .payload).rebuildAt .l4).rebuildAt .l3).l3.map
      fun e => { e with dirty := false } := rfl
  rw [h, rebuildAt_payload hp]
  change ((t.l3.map _).map _) = _
  rw [Option.map_map]
  rfl

theorem payload_rebuildAll (hp : t.Placed) :
    t.rebuildAll.payload = t.payload.map fun e => { e with dirty := false } := by
  have h : t.rebuildAll.payload =
      (t.rebuildAt .payload).payload.map fun e => { e with dirty := false } := rfl
  rw [h, rebuildAt_payload hp]

theorem nodup_all : HeaderGroup.all.reverse.Nodup := by decide

theorem mem_all (g : HeaderGroup) : g ∈ HeaderGroup.all.reverse := by
  cases g <;> decide

/-- The bytes of a table, those of the Ethernet header first. -/
theorem emit_eq_l2 (hp : t.Placed) : t.emit = (t.l2.map (·.header.emit)).getD [] ++
    Entry.emitAll (t.entriesOf HeaderGroup.l2.inside) := by
  have hinside : t.entriesOf HeaderGroup.packet.inside =
      t.entriesOf (.l2 :: HeaderGroup.l2.inside) := rfl
  rw [emit_eq_inside hp, hinside]
  cases he : t.l2 with
  | none => rw [entriesOf_cons_none (g := .l2) he]; rfl
  | some e =>
    obtain ⟨x, hx⟩ := Header.ethernet_of_group (hp .l2 e he)
    have htrailer : e.header.trailer = [] := by rw [hx]; rfl
    rw [entriesOf_cons (g := .l2) he, Entry.emitAll_cons, htrailer, List.append_nil]
    rfl

/-- What serializing does to the Ethernet header. -/
theorem l2_rebuildAll (t : Headers) : ∃ around, around.innerKind = (t.around .l2).innerKind ∧
    t.rebuildAll.l2 = t.l2.map fun e => ⟨e.header.rebuild around e.dirty, false⟩ :=
  get_rebuildGroups nodup_all (by decide) t

namespace AgreeInside

theorem addrs (h : t.AgreeInside t') : (t'.around .l4).addrs = (t.around .l4).addrs := by
  have hl3 : (t'.get .l3).map (·.header.addrs?) = (t.get .l3).map (·.header.addrs?) :=
    map_eq_of_rel h.l3 fun _ _ hagrees => hagrees.congr Header.addrs_rebuild
  rw [addrs_around, hl3, ← addrs_around]

theorem rebuildAt_l4 (h : t.AgreeInside t') (hc : t.Clean) :
    (t'.rebuildAt .l4).l4 = (t.rebuildAt .l4).l4 := by
  have haround : t'.around .l4 = t.around .l4 :=
    around_congr hc h.clean (fun g hg => by cases List.mem_singleton.mp hg; exact h.payload) h.addrs
  change t'.l4.map _ = t.l4.map _
  rw [haround, h.l4]

theorem l3_rebuildAll (h : t.AgreeInside t') (hp : t.Placed) (hc : t.Clean) :
    t'.rebuildAll.l3 = t.rebuildAll.l3 := by
  have haround : (t'.rebuildAt .l4).around .l3 = (t.rebuildAt .l4).around .l3 := by
    refine around_congr (hc.rebuildAt _) (h.clean.rebuildAt _) (fun g hg => ?_) rfl
    obtain rfl | hg := List.mem_cons.mp hg
    · exact h.rebuildAt_l4 hc
    · cases List.mem_singleton.mp hg
      exact h.payload
  have hkind : ((t.rebuildAt .l4).around .l3).innerKind = (t.around .l3).innerKind :=
    (t.sameKinds_rebuildAt .l4).innerKind .l3
  rw [Headers.l3_rebuildAll h.placed, Headers.l3_rebuildAll hp, haround]
  obtain ⟨hnone, hnone'⟩ | ⟨e, e', he, he', hagrees⟩ := rel_cases h.l3
  · rw [hnone, hnone']
  · rw [he, he', Option.map_some, Option.map_some, hc .l3 e he, h.clean .l3 e' he',
      hagrees _ _ hkind]

theorem emit_inside (h : t.AgreeInside t') (hp : t.Placed) (hc : t.Clean) :
    Entry.emitAll (t'.rebuildAll.entriesOf HeaderGroup.l2.inside) =
      Entry.emitAll (t.rebuildAll.entriesOf HeaderGroup.l2.inside) := by
  refine emitAll_congr fun g hg => ?_
  cases g with
  | packet | l2 => exact absurd hg (by decide)
  | l3 => rw [get, get, h.l3_rebuildAll hp hc]
  | l4 => rw [get, get, l4_rebuildAll h.placed, l4_rebuildAll hp, h.rebuildAt_l4 hc]
  | payload => rw [get, get, payload_rebuildAll h.placed, payload_rebuildAll hp, h.payload]

end AgreeInside

namespace Agree

theorem emit_l2 (h : t.Agree t') (hp : t.Placed) (hann : t.Announced) :
    t'.rebuildAll.l2.map (·.header.emit) = t.rebuildAll.l2.map (·.header.emit) := by
  obtain ⟨around, hk, hget⟩ := t.l2_rebuildAll
  obtain ⟨around', hk', hget'⟩ := t'.l2_rebuildAll
  have hkind : around'.innerKind = around.innerKind := by
    rw [hk', hk, (h.sameKinds hp).innerKind]
  rw [hget, hget', Option.map_map, Option.map_map]
  obtain ⟨hnone, hnone'⟩ | ⟨x, x', hx, hx', e, e', he, he', haddrs, htags, hword⟩ := rel_cases h.l2
  · rw [hnone, hnone']
    rfl
  · simp only [hx, hx', Option.map_some, Function.comp_apply, he, he', Header.rebuild,
      Ethernet.rebuild_congr hkind]
    cases hl3 : t.l3 with
    | none =>
      have heq : e' = e := by
        obtain ⟨addrs, tags, word⟩ := e
        obtain ⟨addrs', tags', word'⟩ := e'
        cases haddrs
        cases htags
        cases hword hl3
        rfl
      rw [heq]
    | some y =>
      have hsome : (around.innerKind >>= EtherType.ofKind?).isSome := by
        rw [hk]
        exact hann (by rw [hx]; rfl) (by rw [hl3]; rfl)
      rw [Ethernet.rebuild_eq_of_announced haddrs htags hsome]

/-- Tables that agree are serialized to the same frame. -/
theorem emit_rebuildAll (h : t.Agree t') (hp : t.Placed) (hc : t.Clean) (hann : t.Announced) :
    t'.rebuildAll.emit = t.rebuildAll.emit := by
  rw [emit_eq_l2 (t := t'.rebuildAll) (h.placed.rebuildGroups _),
    emit_eq_l2 (t := t.rebuildAll) (hp.rebuildGroups _), h.emit_l2 hp hann,
    h.toAgreeInside.emit_inside hp hc]

end Agree

end Headers

end Dataplane

import Dataplane.Proofs.Headers.Agreement

/-!
# Headers put on and taken off again

The network-layer header or the Ethernet header of a table is extended, and what agrees with the
result is shortened: that agrees with the table before (`Headers.Agree.uncover`).

## The model

It takes a table in which nothing is dirty, checksums are sealed and no stack is empty
(`Headers.Tidy`); extending a header leaves such a table.
-/

namespace Dataplane

namespace Headers

variable {t t' : Headers} {a g : HeaderGroup} {e : Entry} {h h₁ : Header} {kind : HeaderKind}

/-- Nothing is dirty or out of place, and the network-layer header has sealed checksums and is no
empty stack. -/
structure Tidy (t : Headers) : Prop where
  placed : t.Placed
  clean : t.Clean
  sealed : ∀ e, t.l3 = some e → e.header.Sealed
  stacked : ∀ e, t.l3 = some e → e.header.stack ≠ []

theorem Tidy.refreshed (ht : t.Tidy) (hg : h.group = g) (houter : g = .l2 ∨ g = .l3)
    (hne : h.stack ≠ []) : (t.refreshed g h).Tidy := by
  have placed := ht.placed.refreshed hg
  have clean := ht.clean.refreshed g h
  obtain rfl | rfl := houter
  · have hl3 : (t.refreshed .l2 h).l3 = t.l3 :=
      get_refreshed_inside (a := .l3) (by decide) t h
    exact ⟨placed, clean, fun e he => ht.sealed e (hl3 ▸ he), fun e he => ht.stacked e (hl3 ▸ he)⟩
  · obtain ⟨around, -, hget⟩ := get_refreshed_self t .l3 h
    have hl3 (e : Entry) (he : (t.refreshed .l3 h).l3 = some e) : e.header = h.rebuild around true := by
      cases hget.symm.trans he
      rfl
    refine ⟨placed, clean, fun e he => ?_, fun e he => ?_⟩
    · rw [hl3 e he]
      exact h.sealed_rebuild around
    · rw [hl3 e he, Header.stack_rebuild]
      exact hne

/-- Replacing a header changes nothing in what is inside of it. -/
theorem innerKind_refreshed (ha : ∀ b ∈ a.inside, b ∈ g.inside) (t : Headers) (h : Header) :
    ((t.refreshed g h).around a).innerKind = (t.around a).innerKind := by
  have hentries : (t.refreshed g h).entriesOf a.inside = t.entriesOf a.inside :=
    List.filterMap_congr fun b hb => get_refreshed_inside (ha b hb) t h
  rw [innerKind_eq, innerKind_eq, kindsOf, kindsOf, hentries]

theorem isSome_refreshed (ha : a ∈ g.outside) (t : Headers) (h : Header) :
    ((t.refreshed g h).get a).isSome = (t.get a).isSome := by
  obtain ⟨_, -, hget⟩ := get_refreshed_outside ha t h
  rw [hget, Option.isSome_map]

/-- The Ethernet header outside a network-layer header has been rebuilt twice, its type stamped in
between. -/
theorem Agree.sameFrame (hp : t.Placed) (hne : t.l3 ≠ none)
    (hag : (t.refreshed .l3 h₁).Agree t') (h : Header) :
    Option.Rel (fun e e' => e.header.SameFrame (t.l3 = none) e'.header) t.l2
      (t'.refreshed .l3 h).l2 := by
  obtain ⟨around, -, hget⟩ := get_refreshed_outside (a := .l2) (g := .l3) (by decide) t h₁
  obtain ⟨around', -, hget'⟩ := get_refreshed_outside (a := .l2) (g := .l3) (by decide) t' h
  change (t.refreshed .l3 h₁).l2 = t.l2.map _ at hget
  change (t'.refreshed .l3 h).l2 = t'.l2.map _ at hget'
  rw [hget']
  have hl2 := hag.l2
  rw [hget] at hl2
  cases hx : t.l2 with
  | none =>
    rw [hx] at hl2
    obtain ⟨-, hnone⟩ | ⟨_, _, hsome, -⟩ := rel_cases hl2
    · rw [hnone]
      exact .none
    · cases hsome
  | some x =>
    rw [hx] at hl2
    obtain ⟨hnone, -⟩ | ⟨_, x', hsome, hx', e₁, e', he₁, he', haddrs, htags, -⟩ := rel_cases hl2
    · cases hnone
    · obtain ⟨e, he⟩ := Header.ethernet_of_group (hp .l2 x hx)
      cases hsome
      simp only [he, Header.rebuild, Header.ethernet.injEq] at he₁
      subst he₁
      rw [Ethernet.addrs_rebuild] at haddrs
      rw [Ethernet.tags_rebuild] at htags
      rw [hx', Option.map_some]
      refine .some ⟨e, e'.rebuild around', he, ?_, ?_, ?_, fun hnone => absurd hnone hne⟩
      · simp only [he', Header.rebuild]
      · rw [Ethernet.addrs_rebuild, haddrs]
      · rw [Ethernet.tags_rebuild, htags]

/-- What a replaced header leaves as it is agrees; the two outer headers remain to be compared. -/
theorem Agree.of_refreshed (hag : (t.refreshed g h₁).Agree t') (houter : g = .l2 ∨ g = .l3)
    (hg : h.group = g)
    (hl2 : Option.Rel (fun e e' => e.header.SameFrame (t.l3 = none) e'.header) t.l2
      (t'.refreshed g h).l2)
    (hl3 : Option.Rel (fun e e' => e.header.Agrees (t.around .l3).innerKind e'.header) t.l3
      (t'.refreshed g h).l3) : t.Agree (t'.refreshed g h) := by
  have hpacket : .packet ∈ g.outside := by obtain rfl | rfl := houter <;> decide
  have hl4 : .l4 ∈ g.inside := by obtain rfl | rfl := houter <;> decide
  have hpayload : .payload ∈ g.inside := by obtain rfl | rfl := houter <;> decide
  exact {
    placed := hag.placed.refreshed hg
    clean := hag.clean.refreshed g h
    packet := (isSome_refreshed hpacket t' h).trans
      (hag.packet.trans (isSome_refreshed hpacket t h₁))
    l2 := hl2
    l3 := hl3
    l4 := (get_refreshed_inside hl4 t' h).trans (hag.l4.trans (get_refreshed_inside hl4 t h₁))
    payload := (get_refreshed_inside hpayload t' h).trans
      (hag.payload.trans (get_refreshed_inside hpayload t h₁)) }

theorem Agree.uncover_l3 (ht : t.Tidy) (he : t.l3 = some e) (hpush : e.header.push kind = .ok h₁)
    (hag : (t.refreshed .l3 h₁).Agree t') :
    ∃ e' h', t'.l3 = some e' ∧ e'.header.pop kind = .ok (h', false) ∧
      t.Agree (t'.refreshed .l3 h') := by
  obtain ⟨around, hk, hself⟩ := get_refreshed_self t .l3 h₁
  have hgroup : e.header.group = .l3 := ht.placed .l3 e he
  have hkind : ((t.refreshed .l3 h₁).around .l3).innerKind = (t.around .l3).innerKind :=
    innerKind_refreshed (fun _ ha => ha) t h₁
  obtain ⟨hnone, -⟩ | ⟨e₁, e', he₁, he', hagrees⟩ := rel_cases hag.l3
  · cases hself.symm.trans hnone
  cases hself.symm.trans he₁
  rw [hkind] at hagrees
  obtain ⟨h', hpop, hold⟩ := Header.pop_of_push hgroup (ht.sealed e he) (ht.stacked e he) hpush hk
    hagrees
  refine ⟨e', h', he', hpop, ?_⟩
  have placed₁ : (t.refreshed .l3 h₁).Placed :=
    ht.placed.refreshed ((Header.group_push hpush).trans hgroup)
  have hgroup' : h'.group = .l3 := (Header.group_pop hpop).trans (hag.placed .l3 e' he')
  obtain ⟨around', hk', hself'⟩ := get_refreshed_self t' .l3 h'
  rw [(hag.sameKinds placed₁).innerKind, hkind] at hk'
  refine hag.of_refreshed (.inr rfl) hgroup' (hag.sameFrame ht.placed (by rw [he]; nofun) h') ?_
  change Option.Rel _ t.l3 ((t'.refreshed .l3 h').get .l3)
  rw [hself', he]
  exact .some (hold.rebuild hgroup (ht.sealed e he) hk')

theorem Agree.uncover_l2 (ht : t.Tidy) (he : t.l2 = some e) (hpush : e.header.push kind = .ok h₁)
    (hag : (t.refreshed .l2 h₁).Agree t') :
    ∃ e' h', t'.l2 = some e' ∧ e'.header.pop kind = .ok (h', false) ∧
      t.Agree (t'.refreshed .l2 h') := by
  obtain ⟨around, hk, hself⟩ := get_refreshed_self t .l2 h₁
  obtain ⟨x, hx⟩ := Header.ethernet_of_group (ht.placed .l2 e he)
  rw [hx] at hpush
  obtain ⟨x₁, hx₁, rfl⟩ := map_eq_ok_iff.mp hpush
  have hl3 : (t.refreshed .l2 (.ethernet x₁)).l3 = t.l3 :=
    get_refreshed_inside (a := .l3) (by decide) t _
  obtain ⟨hnone, -⟩ | ⟨e₁, e', he₁, he', y₁, y, hy₁, hy, haddrs, htags, hword⟩ := rel_cases hag.l2
  · cases hself.symm.trans hnone
  cases hself.symm.trans he₁
  cases hy₁
  rw [Ethernet.addrs_rebuild] at haddrs
  rw [Ethernet.tags_rebuild] at htags
  obtain ⟨haddrs₁, hword₁, huntagged, hpop⟩ := Ethernet.pop_of_push hx₁ htags
  have hpop' : e'.header.pop kind = .ok (.ethernet { y with tags := [] }, false) := by
    simp only [hy, Header.pop, hpop]
    rfl
  refine ⟨e', _, he', hpop', ?_⟩
  obtain ⟨around', hk', hself'⟩ := get_refreshed_self t' .l2 (.ethernet { y with tags := [] })
  refine hag.of_refreshed (.inl rfl) rfl ?_ ?_
  · change Option.Rel _ t.l2 ((t'.refreshed .l2 _).get .l2)
    rw [hself', he]
    refine .some ⟨x, Ethernet.rebuild { y with tags := [] } around', hx, rfl, ?_, ?_, fun hnone => ?_⟩
    · rw [Ethernet.addrs_rebuild]
      exact haddrs.trans haddrs₁
    · rw [Ethernet.tags_rebuild, huntagged]
    · -- Without a network-layer header no type is ever stamped.
      have hnone' : t'.l3 = none := by
        have h := hag.l3
        rw [hl3, hnone] at h
        obtain ⟨-, h⟩ | ⟨_, _, h, -⟩ := rel_cases h
        · exact h
        · cases h
      have hword := hword (hl3.trans hnone)
      rw [Ethernet.rebuild_of_unannounced (hk ▸ unannounced ht.placed hnone)] at hword
      rw [Ethernet.rebuild_of_unannounced (hk' ▸ unannounced hag.placed hnone')]
      exact hword.trans hword₁
  · have h := hag.l3
    have hl3' : (t'.refreshed .l2 (.ethernet { y with tags := [] })).l3 = t'.l3 :=
      get_refreshed_inside (a := .l3) (by decide) t' _
    rw [hl3, innerKind_refreshed (a := .l3) (by decide)] at h
    rw [hl3']
    exact h

/-- A header that can be extended is an Ethernet header or a network-layer header. -/
theorem outer_of_push (hpush : h.push kind = .ok h₁) : h.group = .l2 ∨ h.group = .l3 := by
  cases h with
  | ethernet e => exact .inl rfl
  | ip c | mpls s => exact .inr rfl
  | _ => cases hpush

theorem stack_of_push (hpush : h.push kind = .ok h₁) : h₁.stack ≠ [] := by
  cases h with
  | ethernet e =>
    obtain ⟨e₁, -, rfl⟩ := map_eq_ok_iff.mp hpush
    exact List.cons_ne_nil _ _
  | ip c =>
    obtain ⟨c₁, hc, rfl⟩ := map_eq_ok_iff.mp hpush
    obtain ⟨v, -, rfl⟩ := map_eq_ok_iff.mp hc
    exact List.cons_ne_nil _ _
  | mpls s =>
    obtain ⟨s₁, hs, rfl⟩ := map_eq_ok_iff.mp hpush
    rw [LabelStack.push] at hs
    split at hs
    · cases hs
      exact List.cons_ne_nil _ _
    · cases hs
  | _ => cases hpush

/-- Where a header has been extended, and then anything has happened that no rebuild can tell, it
can be shortened again, and no rebuild can tell the result from the table before. -/
theorem Agree.uncover (ht : t.Tidy) (he : t.get g = some e) (hpush : e.header.push kind = .ok h₁)
    (hag : (t.refreshed g h₁).Agree t') :
    ∃ e' h', t'.get g = some e' ∧ e'.header.pop kind = .ok (h', false) ∧
      t.Agree (t'.refreshed g h') := by
  obtain h | h := outer_of_push hpush <;> rw [ht.placed g e he] at h <;> subst h
  · exact hag.uncover_l2 ht he hpush
  · exact hag.uncover_l3 ht he hpush

theorem Tidy.push (ht : t.Tidy) (he : t.get g = some e) (hpush : e.header.push kind = .ok h₁) :
    (t.refreshed g h₁).Tidy :=
  ht.refreshed ((Header.group_push hpush).trans (ht.placed g e he))
    ((ht.placed g e he) ▸ outer_of_push hpush) (stack_of_push hpush)

end Headers

end Dataplane

import Dataplane.Proofs.Header.Reading
import Dataplane.Proofs.Headers.Placement

/-!
# Parsing loses nothing

A packet that has just been parsed emits the frame it was parsed from.

## The model

Parsing reads one header after the other, each in a group inside the one before, so the bytes that
the table emits from a group inwards are those that were unread when parsing came to that group
(`emitAll_parseHeaders`). Where each header was read is kept too (`Headers.ReadOff`): the trailer of
an IP chain is told from the place the chain was read at.
-/

namespace Dataplane

/-- The groups inside a group begin with some that are skipped on the way to a given one. -/
theorem HeaderGroup.inside_eq {last g : HeaderGroup} (h : last.index < g.index) :
    ∃ skipped, last.inside = skipped ++ g :: g.inside ∧
      ∀ g' ∈ skipped, g' ∈ last.inside ∧ g' ≠ g ∧ g' ∉ g.inside := by
  refine ⟨last.inside.takeWhile (· ≠ g), ?_⟩
  revert h
  cases last <;> cases g <;> decide

theorem HeaderGroup.not_mem_inside_self (g : HeaderGroup) : g ∉ g.inside := by
  cases g <;> decide

namespace Headers

variable {t : Headers} {last : HeaderGroup}

/-- The headers of some groups were read where the bytes from them inwards begin. -/
def ReadOff (t : Headers) (gs : List HeaderGroup) : Prop :=
  ∀ g ∈ gs, ∀ e, t.get g = some e → ∃ kind next f f',
    Header.read kind f = .ok (e.header, next, f') ∧
      f.unread = Entry.emitAll (t.entriesOf (g :: g.inside))

/-- The chain of IP headers, if there is one. -/
def chain? (t : Headers) : Option IpChain :=
  match t.l3 with
  | some ⟨.ip c, _⟩ => some c
  | _ => none

theorem chain?_eq_some_iff {c : IpChain} :
    t.chain? = some c ↔ ∃ dirty, t.l3 = some ⟨.ip c, dirty⟩ := by
  unfold chain?
  split
  · rename_i c' dirty h
    simp [h]
  · rename_i hother
    simp only [reduceCtorEq, false_iff, not_exists]
    exact fun dirty h => hother c dirty h

theorem entriesOf_free {gs : List HeaderGroup} (h : ∀ g ∈ gs, t.get g = none) :
    t.entriesOf gs = [] := List.filterMap_eq_nil_iff.mpr h

theorem entriesOf_skip {gs : List HeaderGroup} (h : ∀ g ∈ gs, t.get g = none)
    (gs' : List HeaderGroup) : t.entriesOf (gs ++ gs') = t.entriesOf gs' := by
  rw [entriesOf, List.filterMap_append, ← entriesOf, entriesOf_free h, List.nil_append]
  rfl

theorem readOff_free {gs : List HeaderGroup} (h : ∀ g ∈ gs, t.get g = none) : t.ReadOff gs := by
  intro g hg e he
  rw [h g hg] at he
  cases he

end Headers

namespace Packet

open Headers

/-- Parsing puts what is unread into the groups inside the last one, and touches no other. -/
theorem emitAll_parseHeaders {room : Nat} {last : HeaderGroup} {kind : HeaderKind} {f : Frame}
    {t t' : Headers} (hfree : ∀ g ∈ last.inside, t.get g = none)
    (hend : kind = .none → f.unread = []) (e : parseHeaders room last kind f t = .ok t') :
    (∀ g ∉ last.inside, t'.get g = t.get g) ∧
      Entry.emitAll (t'.entriesOf last.inside) = f.unread ∧ t'.ReadOff last.inside := by
  have stop (hk : kind = .none) : Entry.emitAll (t.entriesOf last.inside) = f.unread := by
    rw [entriesOf_free hfree, hend hk]
    rfl
  induction room generalizing last kind f t with
  | zero =>
    obtain ⟨hk, rfl⟩ | ⟨_, _, _, _, _, h, -⟩ := parseHeaders_cases e
    · exact ⟨fun _ _ => rfl, stop hk, readOff_free hfree⟩
    · cases h
  | succ room ih =>
    obtain ⟨hk, rfl⟩ | ⟨_, g, h, next, f', hroom, hg, hlast, hread, hrest⟩ := parseHeaders_cases e
    · exact ⟨fun _ _ => rfl, stop hk, readOff_free hfree⟩
    cases hroom
    obtain ⟨skipped, hsplit, hskipped⟩ := HeaderGroup.inside_eq hlast
    have hinside : ∀ g' ∈ g.inside, g' ∈ last.inside := fun g' hg' => by
      rw [hsplit]
      exact List.mem_append_right _ (List.mem_cons_of_mem _ hg')
    obtain ⟨hbytes, hnext⟩ := Header.read_eq hread
    have hfree' : ∀ g' ∈ g.inside, (t.set g (some (.clean h))).get g' = none := fun g' hg' => by
      have hne : g' ≠ g := fun heq => g.not_mem_inside_self (by rwa [heq] at hg')
      rw [get_set_of_ne _ hne]
      exact hfree g' (hinside g' hg')
    obtain ⟨hsame, hemit, hoff⟩ := ih hfree' hnext hrest fun hn => by
      rw [entriesOf_free hfree', hnext hn]
      rfl
    have hself : t'.get g = some (.clean h) := by
      rw [hsame g g.not_mem_inside_self, get_set_self]
    have hempty : ∀ g' ∈ skipped, t'.get g' = none := fun g' hg' => by
      obtain ⟨hin, hne, hout⟩ := hskipped g' hg'
      rw [hsame g' hout, get_set_of_ne _ hne]
      exact hfree g' hin
    have hown : Entry.emitAll (t'.entriesOf (g :: g.inside)) = f.unread := by
      rw [entriesOf_cons hself, Entry.emitAll_cons, hemit, hbytes]
      rfl
    refine ⟨fun g' hg' => ?_, ?_, fun g' hg' e he => ?_⟩
    · have hne : g' ≠ g := by
        rintro rfl
        exact hg' (hsplit ▸ List.mem_append_right _ List.mem_cons_self)
      rw [hsame g' fun hin => hg' (hinside g' hin), get_set_of_ne _ hne]
    · rw [hsplit, entriesOf_skip hempty]
      exact hown
    · rw [hsplit] at hg'
      obtain hg' | hg' := List.mem_append.mp hg'
      · rw [hempty g' hg'] at he
        cases he
      · obtain rfl | hg' := List.mem_cons.mp hg'
        · rw [hself] at he
          cases he
          exact ⟨kind, next, f, f', hread, hown.symm⟩
        · exact hoff g' hg' e he

theorem trailer_of_group {h : Header} (hg : h.group ≠ .l3) : h.trailer = [] := by
  cases h with
  | ip c => exact absurd rfl hg
  | _ => rfl

/-- Nothing outside an IP chain has a trailer. -/
theorem trailer_outside {t : Headers} (ht : t.Placed) :
    (t.entriesOf HeaderGroup.l3.outside.reverse).reverse.flatMap (·.header.trailer) = [] := by
  rw [List.flatMap_eq_nil_iff]
  intro e he
  obtain ⟨g, hg, hget⟩ := List.mem_filterMap.mp (List.mem_reverse.mp he)
  apply trailer_of_group
  rw [ht g e hget]
  rintro rfl
  exact absurd hg (by decide)

/-- A chain is what it was before the first look. -/
theorem chain_attachAll {t : Headers} {c : IpChain} (hc : t.attachAll.chain? = some c) :
    ∃ dirty, t.l3 = some ⟨.ip c, dirty⟩ := by
  obtain ⟨dirty, hc⟩ := chain?_eq_some_iff.mp hc
  obtain ⟨around, h⟩ := t.get_attachAll .l3
  obtain ⟨⟨h₀, d₀⟩, hget, heq⟩ := Option.map_eq_some_iff.mp (h.symm.trans hc)
  simp only [Entry.mk.injEq] at heq
  cases h₀ with
  | ip c₀ =>
    cases heq.1
    exact ⟨d₀, hget⟩
  | _ => cases heq.1

/-- A parsed table, before the first look: it emits the frame, each header was read off it, and the
headers lie where they belong. -/
theorem emit_of_parse {start : HeaderKind} {b : Bytes} {p : Packet} (hs : start ≠ .none)
    (e : parse start b = .ok p) : ∃ t : Headers, p.headers = t.attachAll ∧ t.Placed ∧
      t.emit = b ∧ t.ReadOff HeaderGroup.packet.inside := by
  obtain ⟨t, ht, rfl⟩ := parse_eq_ok_iff.mp e
  have placed := placed_parseHeaders (placed_empty.set (g := .packet) rfl) ht
  obtain ⟨hsame, hemit, hoff⟩ := emitAll_parseHeaders (by decide) (fun h => absurd h hs) ht
  refine ⟨t, rfl, placed, ?_, hoff⟩
  have first : t.get .packet = some (.clean (.metadata .fresh)) := hsame .packet (by decide)
  have htable : t.emit = Entry.emitAll (t.entriesOf (.packet :: HeaderGroup.packet.inside)) := rfl
  rw [htable, entriesOf_cons first, Entry.emitAll_cons, hemit]
  exact List.append_nil b

/-- A packet that has just been parsed emits the frame it was parsed from and is as long. The
trailer of an IP chain is what lies past the end that the first header of the chain names. -/
theorem parse_emits {start : HeaderKind} {b : Bytes} {p : Packet} (hs : start ≠ .none)
    (e : parse start b = .ok p) :
    p.headers.emit = b ∧ p.length = b.length ∧
      ∀ c ∈ p.headers.chain?, ∀ h ∈ c.headers.head?, ∀ n ∈ h.claimedLen?,
        p.headers.offset .l3 + n ≤ b.length ∧ c.trailer = b.drop (p.headers.offset .l3 + n) := by
  obtain ⟨t, hp, placed, hemit, hoff⟩ := emit_of_parse hs e
  have hbytes : p.headers.emit = b := by
    rw [hp, ← hemit]
    exact t.emitAll_attachAll HeaderGroup.all
  refine ⟨hbytes, ?_, fun c hc h hh n hn => ?_⟩
  · rw [length, ← length_emit, hbytes]
  · obtain ⟨dirty, hget⟩ := chain_attachAll (hp ▸ hc)
    obtain ⟨kind, next, f, f', hread, hunread⟩ := hoff .l3 (by decide) _ hget
    obtain ⟨hle, htrailer⟩ := Header.trailer_eq hread hh hn
    have hinwards : Entry.emitAll (p.headers.entriesOf (.l3 :: HeaderGroup.l3.inside)) =
        f.unread := by
      rw [hunread, hp]
      exact t.emitAll_attachAll _
    have hsplit := p.headers.emit_eq .l3
    rw [hbytes, hinwards, trailer_outside (hp ▸ placed.attachAll), List.append_nil] at hsplit
    have hlen := p.headers.length_outside .l3
    generalize (p.headers.entriesOf HeaderGroup.l3.outside.reverse).flatMap (·.header.emit) =
      outside at hsplit hlen
    rw [hsplit, List.length_append, hlen, htrailer, ← hlen, List.drop_append]
    refine ⟨by omega, ?_⟩
    simp

/-- A tagged frame with a datagram in IPv4, padded at the end. -/
theorem parse_emits_padded : ∃ p b, parse .eth b = .ok p ∧
    p.headers.kinds = [.metadata, .ethVlan, .ip4, .udp, .payload] ∧
      p.headers.emit = b ∧ p.length = b.length ∧
        ∃ c ∈ p.headers.chain?, c.trailer = [0, 0, 7] := by
  let b : Bytes := [2, 0, 0, 0, 0, 1, 2, 0, 0, 0, 0, 2, 0x81, 0, 0, 100, 8, 0,
    0x45, 0, 0, 28, 0, 0, 0x40, 0, 64, 17, 0, 0, 10, 0, 0, 1, 10, 0, 0, 2,
    0, 53, 0, 53, 0, 8, 0, 0, 0, 0, 7]
  have parsed : ∃ p ∈ (parse .eth b).toOption,
      p.headers.kinds = [.metadata, .ethVlan, .ip4, .udp, .payload] ∧
        p.headers.offset .l3 = 18 ∧
          ∃ c ∈ p.headers.chain?, ∃ h ∈ c.headers.head?, h.claimedLen? = some 28 := by
    decide +kernel
  obtain ⟨p, hp, hkinds, hoffset, c, hc, h, hh, hn⟩ := parsed
  have hp := toOption_eq_some_iff.mp hp
  obtain ⟨hemit, hlen, htrailer⟩ := parse_emits (by decide) hp
  refine ⟨p, b, hp, hkinds, hemit, hlen, c, hc, ?_⟩
  rw [(htrailer c hc h hh 28 hn).2, hoffset]
  rfl

end Packet

end Dataplane

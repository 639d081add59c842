import Dataplane.Proofs.Headers.Detours
import Dataplane.Proofs.Packet.Tunnels

/-!
# There and back

A header is put into an empty place of a packet and comes off again. This leaves the packet as it was
exactly if nothing was stamped on the way that was not there before (`Packet.decap_encap_iff`).
-/

namespace Dataplane

namespace Packet

open Headers

variable {start kind : HeaderKind} {b : Bytes} {p q : Packet} {g : HeaderGroup}

theorem encap_of_free (hg : kind.group? = some g) (hfree : p.headers.get g = none)
    (hq : p.encap kind = .ok q) : g ≠ .packet ∧ g ≠ .payload ∧ ∃ h around,
      Header.fresh kind = .ok h ∧ q.headers = p.headers.refreshed g (h.attach around) := by
  obtain ⟨hpacket, hpay, ⟨e, _, he, -⟩ | ⟨-, hfresh⟩⟩ := encap_cases hg hq
  · cases hfree.symm.trans he
  · exact ⟨hpacket, hpay, hfresh⟩

/-- A header that is put into an empty place of a packet comes off again. The packet then has the
same headers and is serialized to the same frame exactly if no tag was put on with an Ethernet
header, if the nearest header outside announced the kind already or cannot announce it, and, for an
upper-layer header, if the IPv4 headers outside are serialized with right checksums or with the
largest length. -/
theorem decap_encap_iff (hp : parse start b = .ok p) (hg : kind.group? = some g)
    (hfree : p.headers.get g = none) (hq : p.encap kind = .ok q) :
    ∃ p', q.decap kind = .ok p' ∧
      (p'.headers.kinds = p.headers.kinds ∧ p'.serialize.1 = p.serialize.1 ↔
        kind ≠ .ethVlan ∧ kind ≠ .ethStacked ∧ p.headers.Announces g kind ∧
          (g = .l4 → ∀ c ∈ p.serialize.2.headers.chain?, ∀ v ∈ c.headers, v.Settled)) := by
  have hplaced := headers_placed_of_parse hp
  have hclean := clean_of_parse hp
  obtain ⟨hpacket, hpay, h, around, hfresh, hheaders⟩ := encap_of_free hg hfree hq
  have hgroup : (h.attach around).group = g := by
    rw [Header.group_attach]
    exact Option.some.inj ((Header.group_fresh hfresh).symm.trans hg)
  have hstack : (h.attach around).stack = [kind] := by
    rw [Header.stack_attach, Header.stack_of_fresh hfresh]
  obtain ⟨around', -, hself⟩ := get_refreshed_self p.headers g (h.attach around)
  rw [← hheaders] at hself
  by_cases htag : kind = .ethVlan ∨ kind = .ethStacked
  · -- An Ethernet header without tags is left where there was none.
    obtain ⟨e, hpop⟩ := Header.pop_of_tag hfresh htag around around' true
    refine ⟨_, decap_of_pop hg hpacket hself hpop, iff_of_false ?_ ?_⟩
    · rintro ⟨hkinds, -⟩
      obtain ⟨_, -, hleft⟩ := get_refreshed_self q.headers g (.ethernet e)
      have hl2 : e.kind.group? = some g := by
        rw [Header.group_of_mem_stack (h := .ethernet e) (List.mem_singleton_self _)]
        obtain rfl | rfl := htag <;> exact hg
      exact kinds_ne_of_get hplaced hfree hleft (by rw [Header.stack_rebuild]; rfl) hl2 hkinds
    · rintro ⟨hvlan, hstacked, -⟩
      exact htag.elim hvlan hstacked
  · obtain ⟨hvlan, hstacked⟩ := not_or.mp htag
    have hsole : ((h.attach around).rebuild around' true).stack = [kind] := by
      rw [Header.stack_rebuild, hstack]
    obtain ⟨h', hpop⟩ := Header.pop_of_sole hsole hvlan hstacked
    refine ⟨_, decap_of_pop hg hpacket hself hpop, ?_⟩
    have hdetour : q.headers.removed g = p.headers.detour g (h.attach around) := by
      rw [detour, hheaders]
    have hkinds : (q.headers.removed g).kinds = p.headers.kinds := by
      rw [hdetour, (sameKinds_detour hfree _).kinds]
    have hemit := emit_detour_iff hplaced hclean hfree hgroup hstack hpacket hpay
    rw [← hdetour] at hemit
    exact ⟨fun hold => ⟨hvlan, hstacked, hemit.mp hold.2⟩,
      fun hold => ⟨hkinds, hemit.mpr hold.2.2⟩⟩

/-- The content of an IPv4 fragment is not looked into. The fragment names TCP all the same, so that
a TCP header put behind it leaves no trace. -/
theorem decap_encap_fragment : ∃ b p q, parse .eth b = .ok p ∧
    p.headers.kinds = [.metadata, .eth, .ip4, .payload] ∧ p.headers.get .l4 = none ∧
    p.encap .tcp = .ok q ∧ q.headers.kinds = [.metadata, .eth, .ip4, .tcp, .payload] ∧
    ∃ p', q.decap .tcp = .ok p' ∧ p'.headers.kinds = p.headers.kinds ∧
      p'.serialize.1 = p.serialize.1 := by
  let b : Bytes := [2, 0, 0, 0, 0, 1, 2, 0, 0, 0, 0, 2, 8, 0,
    69, 0, 0, 22, 0, 0, 32, 0, 64, 6, 70, 224, 10, 0, 0, 1, 10, 0, 0, 2, 1, 2]
  have fragment : ∃ p ∈ (parse .eth b).toOption,
      p.headers.kinds = [.metadata, .eth, .ip4, .payload] ∧ p.headers.get .l4 = none ∧
      p.headers.Announces .l4 .tcp ∧
      (∀ c ∈ p.serialize.2.headers.chain?, ∀ v ∈ c.headers, v.Settled) ∧
      ∃ q ∈ (p.encap .tcp).toOption,
        q.headers.kinds = [.metadata, .eth, .ip4, .tcp, .payload] := by
    decide +kernel
  obtain ⟨p, hp, hkinds, hfree, hann, hsettled, q, hq, hkinds'⟩ := fragment
  have hp := toOption_eq_some_iff.mp hp
  have hq := toOption_eq_some_iff.mp hq
  obtain ⟨p', hp', hsame⟩ := decap_encap_iff hp (g := .l4) rfl hfree hq
  exact ⟨b, p, q, hp, hkinds, hfree, hq, hkinds', p', hp',
    hsame.mpr ⟨nofun, nofun, hann, fun _ => hsettled⟩⟩

/-- An IPv4 header in front of a payload of some other type leaves its own type behind. So not every
header that is put into an empty place comes off without a trace. -/
theorem decap_encap_stamped : ¬ ∀ (start kind : HeaderKind) (b : Bytes) (p q : Packet)
    (g : HeaderGroup), parse start b = .ok p → kind.group? = some g → p.headers.get g = none →
      p.encap kind = .ok q → ∃ p', q.decap kind = .ok p' ∧
        p'.headers.kinds = p.headers.kinds ∧ p'.serialize.1 = p.serialize.1 := by
  intro hall
  let addrs : Bytes := [2, 0, 0, 0, 0, 1, 2, 0, 0, 0, 0, 2]
  have stamped : ∃ p ∈ (parse .eth (addrs ++ [0x88, 0xb5, 1, 2])).toOption,
      p.headers.get .l3 = none ∧ p.serialize.1 = addrs ++ [0x88, 0xb5, 1, 2] ∧
      ∃ q ∈ (p.encap .ip4).toOption, ∃ p' ∈ (q.decap .ip4).toOption,
        p'.serialize.1 = addrs ++ [8, 0, 1, 2] := by
    decide +kernel
  obtain ⟨p, hp, hfree, hframe, q, hq, p', hp', hframe'⟩ := stamped
  obtain ⟨p'', hp'', -, hsame⟩ := hall .eth .ip4 _ p q .l3 (toOption_eq_some_iff.mp hp) rfl hfree
    (toOption_eq_some_iff.mp hq)
  cases (toOption_eq_some_iff.mp hp').symm.trans hp''
  rw [hframe, hframe'] at hsame
  revert hsame
  decide

end Packet

end Dataplane

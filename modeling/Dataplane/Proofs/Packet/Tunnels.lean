import Dataplane.Proofs.Packet.Parsed

/-!
# Tunnels

Headers are put around a packet, each in a place that has a header already, and taken off again in
the reverse order. All of them come off, and the packet is then serialized to the frame it would
have been serialized to in the first place.

## The model

`Packet.Covered p ks q` says that `q` is `p` with headers of the kinds `ks` put on, the last one
outermost. The induction goes from the outside in: whatever *agrees* with the covered packet can be
uncovered to something that agrees with the packet before (`Covered.uncover`). Agreement cannot be
replaced by equality, since a GRE header in front of a chain leaves the type in the Ethernet header
as it was stamped for the header that covered it before.
-/

namespace Dataplane

namespace Packet

open Headers

variable {p q : Packet} {kind : HeaderKind} {ks : List HeaderKind} {g : HeaderGroup} {e : Entry}

/-- Headers of the given kinds are put on a packet one after the other, each in a place that has a
header already. -/
inductive Covered : Packet → List HeaderKind → Packet → Prop
  | nil (p : Packet) : Covered p [] p
  | cons {p q r : Packet} {kind : HeaderKind} {ks : List HeaderKind} {g : HeaderGroup}
      (hg : kind.group? = some g) (hplace : (p.headers.get g).isSome) (hq : p.encap kind = .ok q)
      (hr : Covered q ks r) : Covered p (kind :: ks) r

/-- The packet after headers of the given kinds have been removed one after the other. -/
def decapAll (p : Packet) (ks : List HeaderKind) : Except HeaderError Packet :=
  ks.foldlM decap p

/-- Adding a header extends the one in its place, or puts a fresh one there. -/
theorem encap_cases (hg : kind.group? = some g) (hq : p.encap kind = .ok q) :
    g ≠ .packet ∧ g ≠ .payload ∧
      ((∃ e h, p.headers.get g = some e ∧ e.header.push kind = .ok h ∧
          q.headers = p.headers.refreshed g h) ∨
        p.headers.get g = none ∧ ∃ h around, Header.fresh kind = .ok h ∧
          q.headers = p.headers.refreshed g (h.attach around)) := by
  rw [encap] at hq
  split at hq
  · cases hq
  · cases hq
  · cases hq
  · rename_i g' hpacket hpay hg'
    cases hg.symm.trans hg'
    refine ⟨hpacket, hpay, ?_⟩
    split at hq
    · rename_i e he
      obtain ⟨h, hpush, hq⟩ := bind_eq_ok_iff.mp hq
      cases hq
      exact .inl ⟨e, h, he, hpush, rfl⟩
    · rename_i hfree
      obtain ⟨h, hfresh, hq⟩ := bind_eq_ok_iff.mp hq
      cases hq
      refine .inr ⟨hfree, h, (p.headers.set g (some ⟨h, true⟩)).around g, hfresh, ?_⟩
      change ((p.headers.set g _).attachAt g).rebuildOutward g = _
      rw [attachAt_set]
      rfl

theorem encap_of_get (hg : kind.group? = some g) (he : p.headers.get g = some e)
    (hq : p.encap kind = .ok q) :
    ∃ h, e.header.push kind = .ok h ∧ q.headers = p.headers.refreshed g h := by
  obtain ⟨-, -, ⟨e', h, he', hpush, hheaders⟩ | ⟨hfree, -⟩⟩ := encap_cases hg hq
  · cases he.symm.trans he'
    exact ⟨h, hpush, hheaders⟩
  · cases he.symm.trans hfree

/-- A header that can be taken off leaves a shorter one, or an empty place. -/
theorem decap_of_pop {h : Header} {done : Bool} (hg : kind.group? = some g) (hpacket : g ≠ .packet)
    (he : p.headers.get g = some e) (hpop : e.header.pop kind = .ok (h, done)) :
    p.decap kind = .ok (p.withHeaders
      (bif done then p.headers.removed g else p.headers.refreshed g h)) := by
  rw [decap]
  split
  · rename_i hnone
    cases hg.symm.trans hnone
  · rename_i hsome
    exact absurd (Option.some.inj (hg.symm.trans hsome)) hpacket
  · rename_i g' _ hg'
    cases hg.symm.trans hg'
    rw [he]
    refine bind_eq_ok_iff.mpr ⟨_, hpop, ?_⟩
    cases done with
    | false => rfl
    | true =>
      simp only [if_true, cond_true, removed]
      cases (p.headers.set g none).prev? g <;> rfl

theorem Covered.tidy (hq : Covered p ks q) (ht : p.headers.Tidy) : q.headers.Tidy := by
  induction hq with
  | nil p => exact ht
  | cons hg hplace hq hr ih =>
    obtain ⟨e, he⟩ := Option.isSome_iff_exists.mp hplace
    obtain ⟨h, hpush, hheaders⟩ := encap_of_get hg he hq
    exact ih (hheaders ▸ ht.push he hpush)

/-- What agrees with a covered packet can be uncovered, and then agrees with the packet. -/
theorem Covered.uncover (hq : Covered p ks q) (ht : p.headers.Tidy) {q' : Packet}
    (hag : q.headers.Agree q'.headers) :
    ∃ p', q'.decapAll ks.reverse = .ok p' ∧ p.headers.Agree p'.headers := by
  induction hq generalizing q' with
  | nil p => exact ⟨q', rfl, hag⟩
  | @cons p q r kind ks g hg hplace hq hr ih =>
    obtain ⟨e, he⟩ := Option.isSome_iff_exists.mp hplace
    obtain ⟨h, hpush, hheaders⟩ := encap_of_get hg he hq
    rw [hheaders] at ih
    obtain ⟨q₁, hq₁, hag₁⟩ := ih (ht.push he hpush) hag
    obtain ⟨e₁, h₁, he₁, hpop, hag₂⟩ := hag₁.uncover ht he hpush
    have hpacket : g ≠ .packet := by
      rintro rfl
      obtain h | h := outer_of_push hpush <;> rw [ht.placed _ e he] at h <;> cases h
    refine ⟨q₁.withHeaders _, ?_, hag₂⟩
    rw [decapAll, List.reverse_cons, List.foldlM_append, ← decapAll, hq₁]
    exact bind_eq_ok_iff.mpr ⟨q₁, rfl,
      bind_eq_ok_iff.mpr ⟨_, decap_of_pop hg hpacket he₁ hpop, rfl⟩⟩

theorem tidy_of_parse {start : HeaderKind} {b : Bytes} (hp : parse start b = .ok p)
    (hsealed : ∀ c ∈ p.headers.chain?, ∀ h ∈ c.headers, h.Sealed) : p.headers.Tidy where
  placed := headers_placed_of_parse hp
  clean := clean_of_parse hp
  sealed := fun e he => by
    obtain ⟨h, dirty⟩ := e
    cases h with
    | ip c => exact hsealed c (chain?_eq_some_iff.mpr ⟨dirty, he⟩)
    | _ => trivial
  stacked := fun _ he => stacked_of_parse hp he

/-- Headers that were put on a packet with right IPv4 checksums come off again in the reverse order,
and leave a packet with the same headers that is serialized to the same frame. -/
theorem decapAll_of_covered {start : HeaderKind} {b : Bytes} (hp : parse start b = .ok p)
    (hsealed : ∀ c ∈ p.headers.chain?, ∀ h ∈ c.headers, h.Sealed) (hq : Covered p ks q) :
    ∃ p', q.decapAll ks.reverse = .ok p' ∧ p'.headers.kinds = p.headers.kinds ∧
      p'.serialize.1 = p.serialize.1 := by
  have ht := tidy_of_parse hp hsealed
  have htq := hq.tidy ht
  obtain ⟨p', hp', hag⟩ := hq.uncover ht (.refl htq.placed htq.clean)
  exact ⟨p', hp', (hag.sameKinds ht.placed).kinds,
    hag.emit_rebuildAll ht.placed ht.clean (announced_of_parse hp)⟩

/-- A datagram in IPv4 on Ethernet is put into GRE, IPv6 and IPv4 in turn, and its frame is tagged
twice. -/
theorem decapAll_of_tunnels : ∃ p b ks q, parse .eth b = .ok p ∧
    p.headers.kinds = [.metadata, .eth, .ip4, .udp, .payload] ∧
    (∀ c ∈ p.headers.chain?, ∀ h ∈ c.headers, h.Sealed) ∧ Covered p ks q ∧
    q.headers.kinds = [.metadata, .ethStacked, .ip4, .ip6, .gre, .ip4, .udp, .payload] ∧
    ∃ p', q.decapAll ks.reverse = .ok p' ∧ p'.headers.kinds = p.headers.kinds ∧
      p'.serialize.1 = p.serialize.1 := by
  let b : Bytes := [2, 0, 0, 0, 0, 1, 2, 0, 0, 0, 0, 2, 8, 0,
    69, 0, 0, 29, 0, 0, 64, 0, 64, 17, 38, 206, 10, 0, 0, 1, 10, 0, 0, 2,
    0, 53, 0, 53, 0, 9, 228, 111, 7]
  have covered : ∃ p ∈ (parse .eth b).toOption,
      p.headers.kinds = [.metadata, .eth, .ip4, .udp, .payload] ∧
      (∀ c ∈ p.headers.chain?, ∀ h ∈ c.headers, h.Sealed) ∧
      (p.headers.get .l3).isSome ∧ ∃ p₁ ∈ (p.encap .gre).toOption,
      (p₁.headers.get .l3).isSome ∧ ∃ p₂ ∈ (p₁.encap .ip6).toOption,
      (p₂.headers.get .l3).isSome ∧ ∃ p₃ ∈ (p₂.encap .ip4).toOption,
      (p₃.headers.get .l2).isSome ∧ ∃ q ∈ (p₃.encap .ethStacked).toOption,
      q.headers.kinds = [.metadata, .ethStacked, .ip4, .ip6, .gre, .ip4, .udp, .payload] := by
    decide +kernel
  obtain ⟨p, hp, hkinds, hsealed, h₀, p₁, hp₁, h₁, p₂, hp₂, h₂, p₃, hp₃, h₃, q, hq, hkinds'⟩ :=
    covered
  have hp := toOption_eq_some_iff.mp hp
  have hcovered : Covered p [.gre, .ip6, .ip4, .ethStacked] q :=
    .cons rfl h₀ (toOption_eq_some_iff.mp hp₁) <| .cons rfl h₁ (toOption_eq_some_iff.mp hp₂) <|
      .cons rfl h₂ (toOption_eq_some_iff.mp hp₃) <| .cons rfl h₃ (toOption_eq_some_iff.mp hq) <|
        .nil q
  exact ⟨p, b, _, q, hp, hkinds, hsealed, hcovered, hkinds',
    decapAll_of_covered hp hsealed hcovered⟩

end Packet

end Dataplane

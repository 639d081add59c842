import Dataplane.Proofs.Header.Legible

/-!
# Headers that were read

A header that was read off a frame would be read back where it stands: it is legible before the bytes
that the reader left (`Header.legible_of_read`). What it says about the next header does not change
when it is rebuilt before that one, so it still says so afterwards (`Header.next_rebuild`).

## The model

A rebuild stamps the number of what follows, if that has one. A header that names a kind announces
it already (`Header.announces_next`), since no two numbers name the same kind but the one for bytes
without structure, which has no number of its own.
-/

namespace Dataplane

open Dataplane.Frame

/-! ### Numbers -/

theorem EtherType.eq_of_ofKind?_kind {t type : Nat} (h : type ∈ ofKind? (kind t)) : t = type := by
  unfold kind at h
  split_ifs at h with h4 h6 ha hm
  · exact h4.trans (Option.some.inj h)
  · exact h6.trans (Option.some.inj h)
  · exact ha.trans (Option.some.inj h)
  · exact hm.trans (Option.some.inj h)
  · cases h

theorem IpProtocol.eq_of_ofKind?_kind {p number : UInt8} (h : number ∈ ofKind? (kind p)) :
    p = number := by
  unfold kind at h
  split_ifs at h with h₁ h₂ h₃ h₄ h₅ h₆ h₇
  · exact h₁.trans (Option.some.inj h)
  · exact h₂.trans (Option.some.inj h)
  · exact h₃.trans (Option.some.inj h)
  · exact h₄.trans (Option.some.inj h)
  · exact h₅.trans (Option.some.inj h)
  · exact h₆.trans (Option.some.inj h)
  · exact h₇.trans (Option.some.inj h)
  · cases h

theorem Gre.lt_of_typeOfKind? {kind : HeaderKind} {type : Nat} (h : typeOfKind? kind = some type) :
    type < 65536 := by
  cases kind <;> cases h <;> decide

/-- A number that is there already is stamped again. -/
theorem getD_bind_eq {α : Type} {kind : Option HeaderKind} {f : HeaderKind → Option α} {a : α}
    (h : ∀ k ∈ kind, ∀ b ∈ f k, a = b) : (kind >>= f).getD a = a := by
  cases hb : kind >>= f with
  | none => rfl
  | some b =>
    obtain ⟨k, hk, hkb⟩ := Option.bind_eq_some_iff.mp hb
    exact (h k hk b hkb).symm

theorem Block.num_lt {n : Nat} (b : Block n) (s : Slot n) : b.num s < 256 ^ s.width :=
  (Bytes.toNat_lt _).trans_eq (by rw [Block.length_get])

/-! ### One header of a chain -/

namespace IpHeader

variable {h : IpHeader} {around : Surroundings} {dirty : Bool} {inside : List IpHeader}

/-- A header has the number of what it names. -/
theorem announces_nextKind (h : IpHeader) : h.Announces h.nextKind := by
  cases h with
  | v4 v =>
    intro number hn
    rw [nextKind, Ipv4.nextKind] at hn
    split at hn
    · cases hn
    · exact IpProtocol.eq_of_ofKind?_kind hn
  | v6 v =>
    intro number hn
    rw [nextKind, Ipv6.nextKind] at hn
    split at hn
    · cases hn
    · exact IpProtocol.eq_of_ofKind?_kind hn
  | gre g =>
    intro type ht
    rw [nextKind, Gre.nextKind] at ht
    split_ifs at ht with h4 h6
    · exact h4.trans (Option.some.inj ht)
    · exact h6.trans (Option.some.inj ht)
    · cases ht

/-- A header that announces what follows names the same after it has been rebuilt. -/
theorem nextKind_rebuildHeader (ha : ∀ k ∈ IpChain.followedBy around inside, h.Announces k) :
    (IpChain.rebuildHeader around dirty h inside).nextKind = h.nextKind := by
  cases h with
  | v4 v =>
    have hproto := getD_bind_eq (f := IpProtocol.ofKind?) (a := v.proto) ha
    rw [IpChain.rebuildHeader_v4, nextKind, Ipv4.nextKind, Ipv4.isFragment_rebuild,
      Ipv4.proto_rebuild, hproto]
    rfl
  | v6 v =>
    have hnext := getD_bind_eq (f := IpProtocol.ofKind?) (a := v.nextHeader) ha
    rw [IpChain.rebuildHeader_v6, nextKind, Ipv6.nextKind, Ipv6.nextHeader_rebuild, hnext]
    rfl
  | gre g =>
    have htype := getD_bind_eq (f := Gre.typeOfKind?) (a := g.etherType) ha
    have hlt : ∀ t ∈ IpChain.followedBy around inside >>= Gre.typeOfKind?, t < 65536 := fun t ht => by
      obtain ⟨k, -, hk⟩ := Option.bind_eq_some_iff.mp ht
      exact Gre.lt_of_typeOfKind? hk
    rw [IpChain.rebuildHeader_gre, nextKind, Gre.nextKind, Gre.etherType_rebuild _ _ _ hlt, htype]
    rfl

theorem covered_of_read {kind : HeaderKind} {f f' : Frame} (e : read kind f = .ok (h, f')) :
    h.Covered := by
  cases h with
  | v4 v =>
    cases kind with
    | ip4 =>
      obtain ⟨_, hread, e⟩ := bind_eq_ok_iff.mp e
      cases e
      exact (Ipv4.reads_of_read hread).2
    | ip6 | gre =>
      obtain ⟨_, -, e⟩ := bind_eq_ok_iff.mp e
      cases e
    | _ => cases e
  | v6 v => trivial
  | gre g => trivial

end IpHeader

/-! ### Chains -/

namespace IpChain

variable {c : IpChain} {around : Surroundings} {dirty : Bool} {kind next : HeaderKind}
  {f f' : Frame}

theorem covered_of_readHeaders {fuel : Nat} {hs : List IpHeader}
    (e : readHeaders fuel kind f = .ok (hs, next, f')) : ∀ h ∈ hs, h.Covered := by
  induction fuel generalizing kind f hs with
  | zero =>
    cases e
    simp
  | succ fuel ih =>
    rw [readHeaders] at e
    split at e
    · obtain ⟨⟨h₁, f₁⟩, h₁', e⟩ := bind_eq_ok_iff.mp e
      obtain ⟨⟨hs', next', f₂⟩, h₂, e⟩ := bind_eq_ok_iff.mp e
      cases e
      exact List.forall_mem_cons.mpr ⟨IpHeader.covered_of_read h₁', ih h₂⟩
    · cases e
      simp

/-- A chain that was read would be read back before what the reader left. -/
theorem legible_of_read (e : read kind f = .ok (c, next, f')) : c.Legible f'.unread.length := by
  have hregular := regular_of_read e
  obtain ⟨⟨h, f₁⟩, h₁, e⟩ := bind_eq_ok_iff.mp e
  obtain ⟨⟨trailer, f₂⟩, h₂, e⟩ := bind_eq_ok_iff.mp e
  obtain ⟨⟨hs, next', f₃⟩, h₃, e⟩ := bind_eq_ok_iff.mp e
  cases e
  obtain ⟨-, -, hnamed⟩ := named_of_readHeaders (Nat.lt_succ_self _) h₃
  have hwire := congrArg List.length (reads_of_readHeaders h₃)
  rw [List.length_append] at hwire
  have hemit : (emitHeaders hs).length = hs.foldr (·.wireLen + ·) 0 := (IpChain.mk hs []).length_emit
  constructor
  case regular => exact hregular.regular
  case covered =>
    exact List.forall_mem_cons.mpr ⟨IpHeader.covered_of_read h₁, covered_of_readHeaders h₃⟩
  case named => exact (hnamed h rfl).1
  case ended => exact hregular.ended
  case nonempty => exact List.cons_ne_nil _ _
  case length =>
    rintro _ ⟨⟩ n hn
    have hlen := (eq_of_readTrailer h₂).2 n hn
    simp only [wireLen, List.foldr_cons]
    omega

theorem getLast?_rebuildHeaders (hs : List IpHeader) :
    (rebuildHeaders around dirty hs).getLast? =
      hs.getLast?.map fun h => rebuildHeader around dirty h [] := by
  induction hs with
  | nil => rfl
  | cons h hs ih =>
    cases hs with
    | nil => rfl
    | cons x xs =>
      rw [rebuildHeaders_cons, rebuildHeaders_cons, List.getLast?_cons_cons, ← rebuildHeaders_cons,
        ih, List.getLast?_cons_cons]

/-- A chain whose innermost header announces what follows names the same after it has been
rebuilt. -/
theorem next_rebuild (ha : ∀ h ∈ c.headers.getLast?, ∀ k ∈ around.innerKind, h.Announces k) :
    (c.rebuild around dirty).next = c.next := by
  show (((rebuildHeaders around dirty c.headers).getLast?).map _).getD _ = _
  rw [getLast?_rebuildHeaders, next]
  cases hlast : c.headers.getLast? with
  | none => rfl
  | some h =>
    have hlone : ∀ k ∈ followedBy around [], h.Announces k := ha h hlast
    exact IpHeader.nextKind_rebuildHeader hlone

/-- The length of the first header of a legible chain has room for what is inside. -/
theorem Legible.fits {innerLen : Nat} (hl : c.Legible innerLen) : c.Fits innerLen := by
  intro h hh n hn
  have hlen := hl.length h hh
  cases h with
  | v4 v =>
    cases hn
    have hcovered : v.wireLen ≤ v.totalLen := hl.covered _ (List.mem_of_mem_head? hh)
    have hlt : v.totalLen < 256 ^ 2 := v.base.num_lt Ipv4.totalLenSlot
    have hclaim := hlen _ rfl
    rw [IpHeader.wireLen, Ipv4.payloadLen] at hclaim
    omega
  | v6 v =>
    cases hn
    have hlt : v.payloadLen < 256 ^ 2 := v.base.num_lt Ipv6.payloadLenSlot
    have hclaim := hlen _ rfl
    rw [IpHeader.wireLen] at hclaim
    omega
  | gre g => cases hn

theorem Fits.rebuild {innerLen : Nat} (hf : c.Fits innerLen) :
    (c.rebuild around dirty).Fits innerLen := by
  intro x hx n hn
  cases hheaders : c.headers with
  | nil =>
    rw [IpChain.rebuild, hheaders] at hx
    cases hx
  | cons h hs =>
    rw [IpChain.rebuild, hheaders, rebuildHeaders_cons] at hx
    cases hx
    have hlimit : (rebuildHeader around dirty h (rebuildHeaders around dirty hs)).lengthLimit? =
        h.lengthLimit? := by
      cases h <;> rfl
    rw [wireLen_rebuild]
    exact hf h (by rw [hheaders]; rfl) n (hlimit ▸ hn)

end IpChain

/-! ### Any header -/

namespace Header

variable {h : Header} {around : Surroundings} {dirty : Bool} {kind next : HeaderKind} {f f' : Frame}

/-- A header that was read would be read back before what the reader left. -/
theorem legible_of_read (hg : h.group ≠ .packet) (e : read kind f = .ok (h, next, f')) :
    h.Legible f'.unread := by
  obtain ⟨hregular, hrest⟩ := regular_of_read e
  refine ⟨hrest, ?_⟩
  cases h with
  | metadata m => exact absurd rfl hg
  | ip c =>
    cases kind with
    | ip4 | ip6 | gre =>
      obtain ⟨⟨c', next', f₁⟩, hread, e⟩ := bind_eq_ok_iff.mp e
      cases e
      exact IpChain.legible_of_read hread
    | none | sixToFourAuto | sixToFourSecure | metadata | payload => cases e
    | _ =>
      obtain ⟨⟨_, _⟩, -, e⟩ := bind_eq_ok_iff.mp e
      cases e
  | _ => exact hregular

/-- A header has the number of what it names. -/
theorem announces_next (h : Header) : h.Announces h.next := by
  cases h with
  | ethernet e => exact fun type ht => EtherType.eq_of_ofKind?_kind ht
  | ip c =>
    intro v hv
    have hnext : (ip c).next = v.nextKind := by
      rw [Header.next, IpChain.next, hv]
      rfl
    rw [hnext]
    exact v.announces_nextKind
  | _ => trivial

/-- An Ethernet header that announces what follows is as before when it is rebuilt. -/
theorem rebuild_ethernet {e : Ethernet} (ha : ∀ k ∈ around.innerKind, (ethernet e).Announces k) :
    e.rebuild around = e := by
  refine Ethernet.rebuild_eq_self_iff.mpr fun type ht => ?_
  obtain ⟨k, hk, hkt⟩ := Option.bind_eq_some_iff.mp ht
  exact ha k hk type hkt

/-- A header that announces what follows names the same after it has been rebuilt. -/
theorem next_rebuild (ha : ∀ k ∈ around.innerKind, h.Announces k) :
    (h.rebuild around dirty).next = h.next := by
  cases h with
  | ethernet e => rw [Header.rebuild, rebuild_ethernet ha]
  | ip c => exact IpChain.next_rebuild fun v hv k hk => ha k hk v hv
  | _ => rfl

/-- It is found as what it was found as. -/
theorem FoundAs.rebuild (hk : h.FoundAs kind) (ha : ∀ k ∈ around.innerKind, h.Announces k) :
    (h.rebuild around dirty).FoundAs kind := by
  cases h with
  | ethernet e =>
    rw [Header.rebuild, rebuild_ethernet ha]
    exact hk
  | ip c =>
    show ((ip c).rebuild around dirty).stack.head? = some kind
    rw [stack_rebuild]
    exact hk
  | _ => exact hk

@[simp] theorem next_attach (h : Header) (around : Surroundings) :
    (h.attach around).next = h.next := by
  cases h <;> rfl

theorem FoundAs.attach (hk : h.FoundAs kind) (around : Surroundings) :
    (h.attach around).FoundAs kind := by
  cases h <;> exact hk

theorem Legible.fits {inner : Bytes} (hl : h.Legible inner) : h.Fits inner.length := by
  cases h with
  | ip c => exact IpChain.Legible.fits hl.2
  | _ => trivial

theorem Fits.rebuild {innerLen : Nat} (hf : h.Fits innerLen) :
    (h.rebuild around dirty).Fits innerLen := by
  cases h with
  | ip c => exact IpChain.Fits.rebuild hf
  | _ => trivial

@[simp] theorem wireLen_rebuild (h : Header) (around : Surroundings) (dirty : Bool) :
    (h.rebuild around dirty).wireLen = h.wireLen := by
  cases h with
  | ethernet e =>
    rw [rebuild, wireLen, Ethernet.wireLen, Ethernet.rebuild]
    split <;> rfl
  | ip c => exact c.wireLen_rebuild around dirty
  | tcp t =>
    rw [rebuild, wireLen, Tcp.wireLen, Tcp.rebuild]
    split <;> rfl
  | icmp6 i =>
    obtain ⟨hbody, hoptions⟩ := i.parts_rebuild around dirty
    rw [rebuild, wireLen, Icmp6.wireLen, hbody, hoptions]
    rfl
  | _ => rfl

end Header

end Dataplane

import Dataplane.Proofs.Packet.Checksums
import Dataplane.Proofs.Packet.Normal
import Dataplane.Proofs.Packet.Tunnels

/-!
# Taking the payload out

The checksums of TCP and ICMP cover the payload. When the payload is taken out, nothing is left that
is dirty and the addresses are the same, so the checksum is taken for right and kept as it is. It
holds over what is left only if the payload made no difference to it.

## The model

A sum that verifies is a number divisible by 65535. That of an upper-layer packet has three parts:
what the addresses and the protocol add (`IpAddrs.fixedSum`), what the length adds
(`IpAddrs.lengthSum`), and the words of the packet. `Header.Idle` says that the payload and what it
adds to the length come to nothing, and `Headers.get_l4_removed` that the upper-layer header is the
same after the payload has gone and after serializing.
-/

namespace Dataplane

open Checksum

/-! ### Sums over pseudo-headers -/

namespace Checksum

variable {c : Checksum} {n : Nat} {b : Bytes}

/-- The sum may be added to, and stands for a number. -/
structure SumsTo (c : Checksum) (n : Nat) : Prop where
  settled : c.Settled
  sum : endAround c.acc.toNat = endAround n

theorem sumsTo_zero : zero.SumsTo 0 := ⟨settled_zero, rfl⟩

theorem SumsTo.endAround_add (h : c.SumsTo n) (b : Bytes) :
    endAround (c.add b).acc.toNat = endAround (n + wordSum b) :=
  (endAround_add_bytes h.settled b).trans (endAround_congr h.sum _)

theorem SumsTo.add (h : c.SumsTo n) (hb : b.length % 2 = 0) : (c.add b).SumsTo (n + wordSum b) :=
  ⟨h.settled.add hb, h.endAround_add b⟩

end Checksum

namespace IpAddrs

/-- What the addresses and the protocol add to the sum of a pseudo-header. -/
def fixedSum (a : IpAddrs) (proto : UInt8) : Nat :=
  match a with
  | v4 src dst => wordSum src + wordSum dst + wordSum [0, proto]
  | v6 src dst => wordSum src + wordSum dst + wordSum [0, 0, 0, proto]

/-- What the length of an upper-layer packet adds to the sum of its pseudo-header. -/
def lengthSum (a : IpAddrs) (len : Nat) : Nat :=
  match a with
  | v4 .. => wordSum (Bytes.ofNat 2 (min len 65535))
  | v6 .. => wordSum (Bytes.ofNat 4 (min len 4294967295))

variable {a : IpAddrs} {proto : UInt8}

theorem sumsTo_pseudoHeader (ha : a.WellFormed) (proto : UInt8) (len : Nat) :
    (a.pseudoHeader proto len).SumsTo (a.fixedSum proto + a.lengthSum len) := by
  cases a with
  | v4 src dst =>
    obtain ⟨hsrc, hdst⟩ := ha
    have h := (((sumsTo_zero.add (b := src) (by omega)).add (b := dst) (by omega)).add
      (b := [0, proto]) (by simp)).add (b := Bytes.ofNat 2 (min len 65535)) (by simp)
    rwa [Nat.zero_add] at h
  | v6 src dst =>
    obtain ⟨hsrc, hdst⟩ := ha
    have h := (((sumsTo_zero.add (b := src) (by omega)).add (b := dst) (by omega)).add
      (b := Bytes.ofNat 4 (min len 4294967295)) (by simp)).add (b := [0, 0, 0, proto]) (by simp)
    rwa [Nat.zero_add, Nat.add_right_comm] at h

/-- The protocol is part of the sum. -/
theorem fixedSum_pos (hproto : proto ≠ 0) : 0 < a.fixedSum proto := by
  have hne : proto.toNat ≠ 0 := fun h => hproto (UInt8.toNat_inj.mp h)
  cases a <;> simp only [fixedSum, wordSum, sumWords, id_eq, toNat_word, UInt8.toNat_zero] <;> omega

/-- An upper-layer packet has a right checksum if all that is summed up is divisible by 65535. -/
theorem upperSum_verifies_iff (ha : a.WellFormed) (hproto : proto ≠ 0) (b : Bytes) :
    (a.upperSum proto b).Verifies ↔
      (a.fixedSum proto + a.lengthSum b.length + wordSum b) % 65535 = 0 := by
  have hpos := fixedSum_pos (a := a) hproto
  rw [verifies_iff, upperSum, (sumsTo_pseudoHeader ha proto b.length).endAround_add,
    endAround_eq_iff]
  omega

/-- Where the sum of an upper-layer packet is right, that of its front alone is right if what comes
behind, with its part in the length, comes to nothing. -/
theorem upperSum_front_iff (ha : a.WellFormed) (hproto : proto ≠ 0) {x y : Bytes}
    (hx : x.length % 2 = 0) (hold : (a.upperSum proto (x ++ y)).Verifies) :
    (a.upperSum proto x).Verifies ↔
      (a.lengthSum (x.length + y.length) + wordSum y) % 65535 = a.lengthSum x.length % 65535 := by
  rw [upperSum_verifies_iff ha hproto, List.length_append, wordSum_append hx] at hold
  rw [upperSum_verifies_iff ha hproto]
  omega

end IpAddrs

/-! ### Headers -/

/-- The options of a neighbor discovery message count in units of eight bytes. -/
theorem Icmp6.even_wireLen {h : Icmp6} (hr : h.Regular) : h.wireLen % 2 = 0 := by
  have hbody : h.body.length % 2 = 0 := by
    rw [hr.body, bodyLen?]
    split_ifs <;> rfl
  have hoptions : ∀ opts : List NdOption, (∀ o ∈ opts, o.Regular) →
      opts.foldr (·.wireLen + ·) 0 % 2 = 0 := by
    intro opts hopts
    induction opts with
    | nil => rfl
    | cons o opts ih =>
      obtain ⟨ho, hopts⟩ := List.forall_mem_cons.mp hopts
      have hunits : o.units.toNat * 8 = o.wireLen := ho
      have hrest := ih hopts
      rw [List.foldr_cons]
      omega
  have hsum := hoptions h.options hr.options
  rw [wireLen]
  omega

namespace Header

/-- The sum that the checksum of a TCP or ICMP header is about: of the header, of everything inside
it and, for TCP and the IPv6 version of ICMP, of the pseudo-header if there are addresses. -/
def coveredSum (h : Header) (addrs : Option IpAddrs) (inner : Bytes) : Checksum :=
  match h, addrs with
  | tcp h, some a => a.upperSum IpProtocol.tcp (h.emit ++ inner)
  | icmp6 h, some a => a.upperSum IpProtocol.icmp6 (h.emit ++ inner)
  | h, _ => compute (h.emit ++ inner)

/-- Taking `inner` out of the header makes no difference to its checksum: the words of `inner`, and
what it adds to the length in the pseudo-header, come to nothing. -/
def Idle (h : Header) (addrs : Option IpAddrs) (inner : Bytes) : Prop :=
  match h, addrs with
  | tcp _, some a | icmp6 _, some a =>
    (a.lengthSum (h.wireLen + inner.length) + wordSum inner) % 65535 = a.lengthSum h.wireLen % 65535
  | h, _ => wordSum h.emit ≠ 0 ∧ wordSum inner % 65535 = 0

instance (inner : Bytes) :
    (h : Header) → (addrs : Option IpAddrs) → Decidable (h.Idle addrs inner)
  | tcp _, some _ | icmp6 _, some _ => inferInstanceAs (Decidable (_ = _))
  | tcp _, none | icmp6 _, none => inferInstanceAs (Decidable (_ ∧ _))
  | metadata _, _ | ethernet _, _ | ip _, _ | arp _, _ | mpls _, _ | udp _, _ | icmp4 _, _
  | payload _, _ => inferInstanceAs (Decidable (_ ∧ _))

/-- An upper-layer header takes up whole words. -/
theorem even_wireLen {h : Header} (hr : h.Regular) (hg : h.group = .l4) : h.wireLen % 2 = 0 := by
  cases h with
  | tcp h =>
    have hwords : (h.base.byte 12).toNat / 16 * 4 = h.wireLen := hr
    show h.wireLen % 2 = 0
    omega
  | udp h => simp [wireLen]
  | icmp4 h => simp [wireLen]
  | icmp6 h => exact Icmp6.even_wireLen hr
  | _ => cases hg

/-- Where the sum of whole words and more is right, that of the words alone is right if what comes
behind comes to nothing. -/
theorem compute_front_iff {x y : Bytes} (hx : x.length % 2 = 0) (hold : (compute (x ++ y)).Verifies) :
    (compute x).Verifies ↔ wordSum x ≠ 0 ∧ wordSum y % 65535 = 0 := by
  rw [verifies_compute_iff, wordSum_append hx] at hold
  rw [verifies_compute_iff]
  omega

/-- Where the checksum of an upper-layer header is right, it is right without what is inside if that
is idle. -/
theorem coveredSum_nil_iff {h : Header} (hr : h.Regular) (hg : h.group = .l4)
    {addrs : Option IpAddrs} (haddrs : ∀ a ∈ addrs, a.WellFormed) {inner : Bytes}
    (hold : (h.coveredSum addrs inner).Verifies) :
    (h.coveredSum addrs []).Verifies ↔ h.Idle addrs inner := by
  have hlen := h.length_emit
  have heven : h.emit.length % 2 = 0 := hlen ▸ even_wireLen hr hg
  cases h with
  | tcp h =>
    cases addrs with
    | some a =>
      simp only [coveredSum, Idle, List.append_nil, ← hlen]
      exact IpAddrs.upperSum_front_iff (haddrs a rfl) (by decide) heven hold
    | none =>
      simp only [coveredSum, Idle, List.append_nil]
      exact compute_front_iff heven hold
  | icmp6 h =>
    cases addrs with
    | some a =>
      simp only [coveredSum, Idle, List.append_nil, ← hlen]
      exact IpAddrs.upperSum_front_iff (haddrs a rfl) (by decide) heven hold
    | none =>
      simp only [coveredSum, Idle, List.append_nil]
      exact compute_front_iff heven hold
  | icmp4 h | udp h =>
    simp only [coveredSum, Idle, List.append_nil]
    exact compute_front_iff heven hold
  | _ => cases hg

/-- A header that is clean among clean ones, and has seen the addresses that are there, is kept as it
is. -/
theorem rebuild_of_seen {h : Header} (hg : h.group = .l4) (hudp : ∀ u, h ≠ udp u)
    {around : Surroundings} (houter : around.outerDirty = false)
    (hinner : around.innerDirty = false) (hseen : h.Seen around.addrs) :
    h.rebuild around false = h := by
  cases h with
  | tcp h => rw [rebuild, Tcp.rebuild_of_seen houter hinner hseen]
  | icmp6 h => rw [rebuild, Icmp6.rebuild_of_seen houter hinner hseen]
  | icmp4 h =>
    rw [rebuild, Icmp4.rebuild, hinner]
    rfl
  | udp u => exact absurd rfl (hudp u)
  | _ => cases hg

end Header

/-! ### Tables -/

namespace Headers

variable {t : Headers} {h : Header}

theorem get_l4_rebuildOutward (t : Headers) : (t.rebuildOutward .l4).get .l4 =
    (t.get .l4).map fun e => ⟨e.header.rebuild (t.around .l4) e.dirty, false⟩ := by
  show ((t.l4.map _).map _) = _
  rw [Option.map_map]
  rfl

theorem addrs_rebuildOutward (t : Headers) :
    ((t.rebuildOutward .l4).around .l4).addrs = (t.around .l4).addrs := by
  obtain ⟨p, l2, l3, l4, payload⟩ := t
  cases l3 with
  | none => rfl
  | some e => exact e.header.addrs_rebuild _ _

theorem Clean.remove (ht : t.Clean) (g : HeaderGroup) : (t.set g none).Clean := by
  intro a e he
  by_cases hag : a = g
  · rw [hag, get_set_self] at he
    cases he
  · rw [get_set_of_ne _ hag] at he
    exact ht a e he

/-- Once the payload has been taken out there is none any more. -/
theorem payload_removed (t : Headers) : (t.removed .payload).rebuildAll.payload = none := by
  obtain ⟨around, -, hget⟩ := get_rebuildGroups nodup_all (mem_all .payload) (t.removed .payload)
  rw [get_removed_of_not_outside (by decide), get_set_self] at hget
  exact hget

/-- Without the payload the upper-layer header stays as it is, then and when the packet is
serialized. -/
theorem get_l4_removed (hp : t.Placed) (hc : t.Clean) (he : t.l4 = some ⟨h, false⟩)
    (hudp : ∀ u, h ≠ .udp u) (hseen : h.Seen (t.around .l4).addrs) :
    (t.removed .payload).rebuildAll.l4 = some ⟨h, false⟩ ∧
      ((t.removed .payload).rebuildAll.around .l4).addrs = (t.around .l4).addrs := by
  have hg : h.group = .l4 := hp .l4 _ he
  have hkept {u : Headers} (hu : u.Clean) (haddrs : (u.around .l4).addrs = (t.around .l4).addrs) :
      h.rebuild (u.around .l4) false = h :=
    Header.rebuild_of_seen hg hudp (outerDirty_of_clean hu _) (innerDirty_of_clean hu _)
      (haddrs ▸ hseen)
  set s := t.set .payload none with hs
  have hremoved : t.removed .payload = s.rebuildOutward .l4 := by
    have hprev : s.prev? .payload = some .l4 := by
      simp [prev?, HeaderGroup.outside, isPresent, hs, set, get, he]
    rw [removed, ← hs, hprev]
  have hclean : s.Clean := hc.remove .payload
  have haddrs : ((t.removed .payload).around .l4).addrs = (t.around .l4).addrs := by
    rw [hremoved, addrs_rebuildOutward]
    rfl
  have hl4 : (t.removed .payload).get .l4 = some ⟨h, false⟩ := by
    have hget : s.get .l4 = some ⟨h, false⟩ := he
    rw [hremoved, get_l4_rebuildOutward, hget, Option.map_some, hkept hclean rfl]
  constructor
  · have hrebuilt := get_l4_rebuildAll (hp.removed .payload)
    rw [hl4, Option.map_some, hkept (hc.removed .payload) haddrs] at hrebuilt
    exact hrebuilt
  · rw [addrs_rebuildAll, haddrs]

end Headers

namespace Packet

open Headers

variable {start : HeaderKind} {b : Bytes} {p q : Packet} {h : Header} {dirty : Bool}

/-- Taking the payload out removes it and rebuilds what is outside. -/
theorem headers_decap_payload (hp : p.headers.Placed) (hq : p.decap .payload = .ok q) :
    q.headers = p.headers.removed .payload := by
  cases he : p.headers.get .payload with
  | none =>
    have hrefused : p.decap .payload = .error (.notPresent .payload) := by
      simp [decap, HeaderKind.group?, he]
    cases hrefused.symm.trans hq
  | some e =>
    have hgroup := hp .payload e he
    have hpop : e.header.pop .payload = .ok (e.header, true) := by
      cases hh : e.header with
      | payload b => rfl
      | _ =>
        rw [hh] at hgroup
        cases hgroup
    cases (decap_of_pop rfl (by decide) he hpop).symm.trans hq
    rfl

/-- The header has seen the addresses that are there when a packet has just been parsed. -/
theorem seen_of_parse (hp : parse start b = .ok p) (he : p.headers.l4 = some ⟨h, dirty⟩) :
    h.Seen (p.headers.around .l4).addrs := by
  obtain ⟨t, -, rfl⟩ := parse_eq_ok_iff.mp hp
  obtain ⟨around, haddrs, hl4⟩ := t.l4_attachAll
  obtain ⟨x, -, hx⟩ := Option.map_eq_some_iff.mp (hl4.symm.trans he)
  cases hx
  exact haddrs ▸ x.header.seen_attach around

/-- The checksum of a TCP or ICMP header that is right when a packet is parsed is not touched when
the payload is taken out and the packet serialized: the header stands in the frame as it was. Over
what is then inside it, which is nothing, the checksum is right exactly if the payload was idle. -/
theorem checksum_of_decap_payload_iff (hp : parse start b = .ok p)
    (he : p.headers.l4 = some ⟨h, dirty⟩)
    (hkinds : h.kinds = [.tcp] ∨ h.kinds = [.icmp4] ∨ h.kinds = [.icmp6])
    (hold : (h.coveredSum (p.headers.around .l4).addrs (p.headers.around .l4).inner).Verifies)
    (hq : p.decap .payload = .ok q) :
    let (frame, q') := q.serialize
    q'.headers.l4 = some ⟨h, false⟩ ∧ h.emit <:+: frame ∧
      (q'.headers.around .l4).inner = [] ∧
      (q'.headers.around .l4).addrs = (p.headers.around .l4).addrs ∧
      ((h.coveredSum (q'.headers.around .l4).addrs (q'.headers.around .l4).inner).Verifies ↔
        h.Idle (p.headers.around .l4).addrs (p.headers.around .l4).inner) := by
  have hudp : ∀ u, h ≠ .udp u := by
    rintro u rfl
    obtain hk | hk | hk := hkinds <;> cases hk
  have horderly := orderly_of_parse hp
  have hclean := clean_of_parse hp
  have hseen := seen_of_parse hp he
  obtain rfl : dirty = false := hclean .l4 _ he
  have hheaders := headers_decap_payload horderly.placed hq
  obtain ⟨hl4, haddrs⟩ := get_l4_removed horderly.placed hclean he hudp hseen
  have hinner := inner_l4_none (payload_removed p.headers)
  have hinfix := covered_isInfix (g := .l4) hl4
  rw [hinner, List.append_nil] at hinfix
  have hiff := Header.coveredSum_nil_iff (horderly.regular .l4 _ he) (horderly.placed .l4 _ he)
    (fun a => wellFormed_addrs) hold
  rw [serialize, rebuilt, hheaders]
  refine ⟨hl4, hinfix, hinner, haddrs, ?_⟩
  rw [haddrs, hinner]
  exact hiff

/-- A TCP segment in IPv4 whose two bytes of payload make up for the shorter length. -/
theorem checksum_of_decap_idle : ∃ b p q e, parse .ip4 b = .ok p ∧ p.headers.l4 = some e ∧
    p.decap .payload = .ok q ∧
    (e.header.coveredSum (p.headers.around .l4).addrs (p.headers.around .l4).inner).Verifies ∧
    (e.header.coveredSum (q.serialize.2.headers.around .l4).addrs
      (q.serialize.2.headers.around .l4).inner).Verifies := by
  let b : Bytes := [69, 0, 0, 42, 0, 0, 64, 0, 64, 6, 38, 204, 10, 0, 0, 1, 10, 0, 0, 2, 0, 53, 0,
    53, 0, 0, 0, 0, 0, 0, 0, 0, 80, 16, 4, 0, 151, 104, 0, 0, 255, 253]
  have parsed : ∃ p ∈ (parse .ip4 b).toOption, ∃ e ∈ p.headers.l4,
      ∃ q ∈ (p.decap .payload).toOption, e.header.kinds = [.tcp] ∧
        (e.header.coveredSum (p.headers.around .l4).addrs (p.headers.around .l4).inner).Verifies ∧
        e.header.Idle (p.headers.around .l4).addrs (p.headers.around .l4).inner := by
    decide +kernel
  obtain ⟨p, hp, e, he, q, hq, hkinds, hold, hidle⟩ := parsed
  have hp : parse .ip4 b = .ok p := toOption_eq_some_iff.mp hp
  have hq : p.decap .payload = .ok q := toOption_eq_some_iff.mp hq
  obtain ⟨-, -, -, -, hiff⟩ := checksum_of_decap_payload_iff hp he (.inl hkinds) hold hq
  exact ⟨b, p, q, e, hp, he, hq, hold, hiff.mpr hidle⟩

/-- The same segment with another payload: its TCP checksum is right when it is parsed, and wrong in
the frame without the payload. -/
theorem checksum_stale_of_decap : ∃ b p q, parse .ip4 b = .ok p ∧ p.decap .payload = .ok q ∧
    (∃ e ∈ p.headers.l4, e.header.kinds = [.tcp] ∧
      (e.header.coveredSum (p.headers.around .l4).addrs (p.headers.around .l4).inner).Verifies) ∧
    ∃ e ∈ q.serialize.2.headers.l4, e.header.kinds = [.tcp] ∧
      ¬(e.header.coveredSum (q.serialize.2.headers.around .l4).addrs
        (q.serialize.2.headers.around .l4).inner).Verifies := by
  let b : Bytes := [69, 0, 0, 42, 0, 0, 64, 0, 64, 6, 38, 204, 10, 0, 0, 1, 10, 0, 0, 2, 0, 53, 0,
    53, 0, 0, 0, 0, 0, 0, 0, 0, 80, 16, 4, 0, 150, 100, 0, 0, 1, 2]
  have parsed : ∃ p ∈ (parse .ip4 b).toOption, ∃ q ∈ (p.decap .payload).toOption,
      (∃ e ∈ p.headers.l4, e.header.kinds = [.tcp] ∧
        (e.header.coveredSum (p.headers.around .l4).addrs (p.headers.around .l4).inner).Verifies) ∧
      ∃ e ∈ q.serialize.2.headers.l4, e.header.kinds = [.tcp] ∧
        ¬(e.header.coveredSum (q.serialize.2.headers.around .l4).addrs
          (q.serialize.2.headers.around .l4).inner).Verifies := by
    decide +kernel
  obtain ⟨p, hp, q, hq, hbefore, hafter⟩ := parsed
  exact ⟨b, p, q, toOption_eq_some_iff.mp hp, toOption_eq_some_iff.mp hq, hbefore, hafter⟩

end Packet

end Dataplane

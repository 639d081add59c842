import Dataplane.Proofs.Header.Accepted
import Dataplane.Proofs.Headers.Replicas

/-!
# Headers that a rebuild leaves alone

A rebuild stores what follows from the surroundings. A header that announces what follows it and is
*exact*, in that its lengths and its GRE checksum say what is there, is rebuilt to itself
(`IpChain.rebuildHeaders_of_exact`, `Header.emit_rebuild_of_exact`).

## The model

What is inside a header of a chain are the headers behind it and what the chain is wrapped around,
without the trailer; so the length of the first header that was read off a frame is exact in any
case (`IpChain.Legible.length`).

The checksum of an IPv4 header is not part of this: a rebuild takes it over if nothing else has
changed, right or wrong. Nor is that of an upper-layer header, as long as the header has *seen* the
addresses that are there.
-/

namespace Dataplane

/-! ### Chains -/

/-- What a header says about the bytes `inside` it, the first of them of a header of kind `next`, is
true: an IP length names exactly these bytes, and a GRE checksum is the one a rebuild stores. -/
def IpHeader.Exact (h : IpHeader) (next : Option HeaderKind) (inside : Bytes) : Prop :=
  match h with
  | v4 h => h.totalLen = h.wireLen + inside.length
  | v6 h => h.payloadLen = inside.length
  | gre h => (h.rebuild (next >>= Gre.typeOfKind?) inside).checksum = h.checksum

instance (h : IpHeader) (next : Option HeaderKind) (inside : Bytes) :
    Decidable (h.Exact next inside) :=
  match h with
  | .v4 h => inferInstanceAs (Decidable (h.totalLen = h.wireLen + inside.length))
  | .v6 h => inferInstanceAs (Decidable (h.payloadLen = inside.length))
  | .gre h =>
    inferInstanceAs (Decidable ((h.rebuild (next >>= Gre.typeOfKind?) inside).checksum = h.checksum))

theorem Ipv4.rebuild_of_exact {h : Ipv4} {innerLen : Nat} {proto : Option UInt8}
    (hlen : h.totalLen = h.wireLen + innerLen) (hproto : proto.getD h.proto = h.proto) :
    h.rebuild innerLen proto false = h := by
  have hlt : h.totalLen < 256 ^ 2 := h.base.num_lt totalLenSlot
  have htotal : h.total innerLen = h.totalLen := by
    rw [total]
    omega
  rw [rebuild_eq, htotal, hproto]
  simp

theorem Ipv6.rebuild_of_exact {h : Ipv6} {innerLen : Nat} {next : Option UInt8}
    (hlen : h.payloadLen = innerLen) (hnext : next.getD h.nextHeader = h.nextHeader) :
    h.rebuild innerLen next = h := by
  have hlt : h.payloadLen < 256 ^ 2 := h.base.num_lt payloadLenSlot
  have hmin : min innerLen 65535 = h.base.num payloadLenSlot := by
    rw [payloadLen] at hlen hlt
    omega
  have hbase : h.base.setNum payloadLenSlot (min innerLen 65535) = h.base := by
    rw [hmin, Block.setNum_num]
  cases next with
  | none => rw [rebuild, hbase]
  | some p =>
    have hget : [p] = h.base.get nextHeaderSlot := by
      rw [Block.get_eq_singleton (s := nextHeaderSlot) _ rfl]
      exact congrArg (fun number => [number]) hnext
    rw [rebuild, hbase, hget, Block.set_get]

namespace Gre

variable {h : Gre} {inner : Bytes}

theorem stampChecksum_of_exact (hsum : (h.stampChecksum inner).checksum = h.checksum) :
    h.stampChecksum inner = h := by
  obtain ⟨base, checksum, key, seq⟩ := h
  cases checksum with
  | none => rfl
  | some word => exact congrArg (Gre.mk base · key seq) hsum

theorem rebuild_of_exact {type : Option Nat} (hsum : (h.rebuild type inner).checksum = h.checksum)
    (htype : type.getD h.etherType = h.etherType) : h.rebuild type inner = h := by
  cases type with
  | none => exact stampChecksum_of_exact hsum
  | some t =>
    have hbase : { h with base := h.base.setNum typeSlot t } = h := by
      obtain rfl : t = h.base.num typeSlot := htype
      rw [Block.setNum_num]
    rw [rebuild, hbase] at hsum ⊢
    exact stampChecksum_of_exact hsum

end Gre

namespace IpChain

variable {around : Surroundings} {h : IpHeader} {hs inside : List IpHeader}

/-- The number of bytes that follow a header is that of the bytes on the wire. -/
theorem length_inside (around : Surroundings) (inside : List IpHeader) :
    (emitHeaders inside ++ around.inner).length = lengthInside around inside := by
  have hemit : (emitHeaders inside).length = inside.foldr (·.wireLen + ·) 0 :=
    (IpChain.mk inside []).length_emit
  rw [List.length_append, hemit, lengthInside_eq, Surroundings.innerLen]

/-- A header that announces what follows and is exact is rebuilt to itself. -/
theorem rebuildHeader_of_exact (ha : ∀ k ∈ followedBy around inside, h.Announces k)
    (he : h.Exact (followedBy around inside) (emitHeaders inside ++ around.inner)) :
    rebuildHeader around false h inside = h := by
  have hlen := length_inside around inside
  cases h with
  | v4 v =>
    rw [rebuildHeader_v4, Ipv4.rebuild_of_exact (hlen ▸ he) (getD_bind_eq ha)]
  | v6 v =>
    rw [rebuildHeader_v6, Ipv6.rebuild_of_exact (he.trans hlen) (getD_bind_eq ha)]
  | gre g =>
    rw [rebuildHeader_gre, Gre.rebuild_of_exact he (getD_bind_eq ha)]

/-- Every header of the list is exact where it stands. -/
def ExactHeaders (around : Surroundings) : List IpHeader → Prop
  | [] => True
  | h :: hs => h.Exact (followedBy around hs) (emitHeaders hs ++ around.inner) ∧
      ExactHeaders around hs

instance decidableExactHeaders (around : Surroundings) :
    (hs : List IpHeader) → Decidable (ExactHeaders around hs)
  | [] => inferInstanceAs (Decidable True)
  | h :: hs =>
    have := decidableExactHeaders around hs
    inferInstanceAs (Decidable (h.Exact (followedBy around hs) (emitHeaders hs ++ around.inner) ∧
      ExactHeaders around hs))

/-- A chain of exact headers, each of which names the next one, is rebuilt to itself. -/
theorem rebuildHeaders_of_exact (hn : hs.IsChain IpHeader.Names)
    (ha : ∀ h ∈ hs.getLast?, ∀ k ∈ around.innerKind, h.Announces k)
    (he : ExactHeaders around hs) : rebuildHeaders around false hs = hs := by
  induction hs with
  | nil => rfl
  | cons h hs ih =>
    cases hs with
    | nil =>
      rw [rebuildHeaders_cons]
      exact congrArg (· :: []) (rebuildHeader_of_exact (ha h rfl) he.1)
    | cons x xs =>
      obtain ⟨hname, hn⟩ := List.isChain_cons_cons.mp hn
      rw [rebuildHeaders_cons, ih hn ha he.2]
      refine congrArg (· :: x :: xs) (rebuildHeader_of_exact (fun k hk => ?_) he.1)
      obtain rfl : x.kind = k := Option.some.inj hk
      exact hname ▸ h.announces_nextKind

end IpChain

/-! ### Any header -/

namespace Header

variable {h : Header} {around around' : Surroundings}

/-- What the header says about the lengths and, in GRE, the checksum of what is inside it is
true. -/
def Exact (h : Header) (around : Surroundings) : Prop :=
  match h with
  | ip c => IpChain.ExactHeaders around c.headers
  | udp h => h.base.num Udp.lengthSlot = 8 + around.innerLen
  | _ => True

instance (h : Header) (around : Surroundings) : Decidable (h.Exact around) :=
  match h with
  | ip c => inferInstanceAs (Decidable (IpChain.ExactHeaders around c.headers))
  | udp h => inferInstanceAs (Decidable (h.base.num Udp.lengthSlot = 8 + around.innerLen))
  | metadata _ | ethernet _ | arp _ | mpls _ | tcp _ | icmp4 _ | icmp6 _ | payload _ =>
    inferInstanceAs (Decidable True)

/-- The addresses that an upper-layer checksum stands for are these. -/
def Seen (h : Header) (addrs : Option IpAddrs) : Prop :=
  match h with
  | tcp h => h.pseudo.seen = addrs
  | udp h => h.pseudo.seen = addrs
  | icmp6 h => h.pseudo.seen = addrs
  | _ => True

theorem seen_attach (h : Header) (around : Surroundings) : (h.attach around).Seen around.addrs := by
  cases h <;> first | rfl | trivial

theorem Legible.attach {inner : Bytes} (hl : h.Legible inner) (around : Surroundings) :
    (h.attach around).Legible inner := by
  refine ⟨fun hrest => hl.1 (by rwa [takesRest_attach] at hrest), ?_⟩
  cases h with
  | icmp6 i => exact Regular.attach (h := icmp6 i) hl.2 around
  | _ => exact hl.2

/-- A legible header that announces what follows and is exact writes the same when it is rebuilt
before the same kind and, where it counts, before the same bytes. -/
theorem emit_rebuild_of_exact (hl : h.Legible around.inner)
    (ha : ∀ k ∈ around.innerKind, h.Announces k) (he : h.Exact around)
    (hk : around'.innerKind = around.innerKind)
    (hi : h.group = .l3 ∨ h.group = .l4 → around'.inner = around.inner)
    (hseen : h.group = .l4 → around'.outerDirty = false ∧ around'.innerDirty = false ∧
      h.Seen around'.addrs) : (h.rebuild around' false).emit = h.emit := by
  cases h with
  | ethernet e =>
    show (e.rebuild around').emit = e.emit
    rw [Ethernet.rebuild_congr hk, rebuild_ethernet ha]
  | ip c =>
    have hlast : ∀ v ∈ c.headers.getLast?, ∀ k ∈ around.innerKind, v.Announces k :=
      fun v hv k hk => ha k hk v hv
    show (c.rebuild around' false).emit = c.emit
    rw [IpChain.rebuild_congr hk (hi (.inl rfl)), IpChain.rebuild,
      IpChain.rebuildHeaders_of_exact hl.2.named hlast he]
  | tcp t =>
    obtain ⟨houter, hinner, hseen⟩ := hseen rfl
    rw [Header.rebuild, Tcp.rebuild_of_seen houter hinner hseen]
  | udp u =>
    obtain ⟨houter, hinner, hseen⟩ := hseen rfl
    have hlt : u.base.num Udp.lengthSlot < 256 ^ 2 := u.base.num_lt Udp.lengthSlot
    have hlen : u.base.num Udp.lengthSlot = min (8 + around'.innerLen) 65535 := by
      have hexact : u.base.num Udp.lengthSlot = 8 + around.innerLen := he
      rw [Surroundings.innerLen, ← hi (.inr rfl), ← Surroundings.innerLen] at hexact
      omega
    rw [Header.rebuild, Udp.rebuild_of_seen houter hinner hseen hlen]
  | icmp4 i =>
    obtain ⟨-, hinner, -⟩ := hseen rfl
    rw [Header.rebuild, Icmp4.rebuild, hinner]
    rfl
  | icmp6 i =>
    obtain ⟨houter, hinner, hseen⟩ := hseen rfl
    rw [Header.rebuild, Icmp6.rebuild_of_seen houter hinner hseen]
  | metadata _ | arp _ | mpls _ | payload _ => rfl

end Header

/-- Every header of the table is exact where it stands. -/
def Headers.Exact (t : Headers) : Prop :=
  ∀ g ∈ HeaderGroup.all, ∀ e ∈ t.get g, e.header.Exact (t.around g)

instance (t : Headers) : Decidable t.Exact :=
  inferInstanceAs (Decidable (∀ g ∈ HeaderGroup.all, ∀ e ∈ t.get g, e.header.Exact (t.around g)))

end Dataplane

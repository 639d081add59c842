import Dataplane.Proofs.Packet.Settling
import Dataplane.Proofs.Packet.WireOrder

/-!
# Lengths and names in the frames that are given

Whatever has been written to a packet, in the frame that serializing gives each header counts the
bytes that are inside it and names the header that comes next (`Packet.Reached.stamped`).

## The model

Inside a header of a chain are the later headers of the chain and what lies in the groups inside,
but not the trailer of the chain. The header that comes next is the first of these;
`Headers.follows` lists those of the groups. A header that is rebuilt looks at the first header of
the next occupied group. The list begins with that one, since no group of a packet reached holds an
empty stack.
-/

namespace Dataplane

/-! ### One header of a chain -/

namespace IpHeader

/-- The length that an IP header stores is that of the bytes inside it, for IPv4 with its own; or the
largest one that fits. -/
def Counts (h : IpHeader) (inside : Bytes) : Prop :=
  match h with
  | v4 v => v.totalLen = min (v.emit.length + inside.length) 65535
  | v6 v => v.payloadLen = min inside.length 65535
  | gre _ => True

variable {around : Surroundings} {dirty : Bool}

theorem counts_rebuildHeader (h : IpHeader) (inside : List IpHeader) :
    (IpChain.rebuildHeader around dirty h inside).Counts
      (IpChain.emitHeaders inside ++ around.inner) := by
  have hlen := IpChain.length_inside around inside
  cases h with
  | v4 v =>
    rw [IpChain.rebuildHeader_v4, Counts, hlen, Ipv4.totalLen_rebuild, Ipv4.total]
    have hown := (v4 (v.rebuild (IpChain.lengthInside around inside)
      (IpChain.followedBy around inside >>= IpProtocol.ofKind?) dirty)).length_emit
    rw [emit, wireLen, Ipv4.wireLen_rebuild] at hown
    rw [hown]
  | v6 v => rw [IpChain.rebuildHeader_v6, Counts, hlen, Ipv6.payloadLen_rebuild]
  | gre g => trivial

/-- A rebuild stores the name of what follows, if there is one. -/
theorem announces_rebuildHeader (h : IpHeader) (inside : List IpHeader) :
    ∀ kind ∈ IpChain.followedBy around inside,
      (IpChain.rebuildHeader around dirty h inside).Announces kind := by
  intro kind hkind
  rw [Option.mem_def] at hkind
  cases h with
  | v4 v =>
    rw [IpChain.rebuildHeader_v4, hkind]
    intro number hnumber
    rw [Ipv4.proto_rebuild, Option.bind_eq_bind, Option.bind_some, hnumber, Option.getD_some]
  | v6 v =>
    rw [IpChain.rebuildHeader_v6, hkind]
    intro number hnumber
    rw [Ipv6.nextHeader_rebuild, Option.bind_eq_bind, Option.bind_some, hnumber, Option.getD_some]
  | gre g =>
    rw [IpChain.rebuildHeader_gre]
    intro type htype
    have hname : IpChain.followedBy around inside >>= Gre.typeOfKind? = some type := by
      rw [hkind]
      exact htype
    have hlt : ∀ t ∈ some type, t < 65536 := by
      rintro _ ⟨⟩
      exact Gre.lt_of_typeOfKind? htype
    rw [hname, Gre.etherType_rebuild _ _ _ hlt, Option.getD_some]

end IpHeader

/-! ### Headers -/

namespace Header

/-- The header counts the bytes `inside` it and names the first of the headers that follow, whose
kinds are `follows`. -/
def Stamped (h : Header) (inside : Bytes) (follows : List HeaderKind) : Prop :=
  match h with
  | ethernet _ => ∀ kind ∈ follows.head?, h.Announces kind
  | ip c => ∀ front v rest, c.headers = front ++ v :: rest →
      v.Counts (IpChain.emitHeaders rest ++ inside) ∧
        ∀ kind ∈ (rest.map (·.kind) ++ follows).head?, v.Announces kind
  | udp u => u.base.num Udp.lengthSlot = min (8 + inside.length) 65535
  | _ => True

variable {around : Surroundings} {follows : List HeaderKind}

theorem stamped_rebuildHeaders (hnext : around.innerKind = follows.head?) (dirty : Bool)
    (hs : List IpHeader) (trailer : Bytes) :
    (ip ⟨IpChain.rebuildHeaders around dirty hs, trailer⟩).Stamped around.inner follows := by
  induction hs with
  | nil =>
    intro front v rest hsplit
    simp [IpChain.rebuildHeaders] at hsplit
  | cons h hs ih =>
    intro front v rest hsplit
    rw [IpChain.rebuildHeaders_cons] at hsplit
    cases front with
    | cons x front =>
      exact ih front v rest (List.cons.inj hsplit).2
    | nil =>
      obtain ⟨rfl, rfl⟩ := List.cons.inj hsplit
      refine ⟨h.counts_rebuildHeader _, fun kind hkind => ?_⟩
      refine h.announces_rebuildHeader _ kind ?_
      rwa [List.head?_append, List.head?_map, ← hnext] at hkind

theorem stamped_rebuild (hnext : around.innerKind = follows.head?) (h : Header) (dirty : Bool) :
    (h.rebuild around dirty).Stamped around.inner follows := by
  cases h with
  | ethernet e =>
    intro kind hkind type htype
    refine Ethernet.rebuild_eq_self_iff.mp (Ethernet.rebuild_rebuild rfl) type ?_
    rw [hnext, Option.mem_def.mp hkind]
    exact htype
  | ip c => exact stamped_rebuildHeaders hnext dirty c.headers c.trailer
  | udp u => exact u.length_rebuild around dirty
  | _ => trivial

end Header

/-! ### Tables -/

namespace Headers

variable {t : Headers} {g : HeaderGroup} {e : Entry}

/-- The kinds of the headers in the groups inside, outermost first. -/
def follows (t : Headers) (g : HeaderGroup) : List HeaderKind :=
  (t.entriesOf g.inside).flatMap (·.header.stack)

theorem innerKind_eq_head? (ht : t.Every fun _ h => h.stack ≠ []) (g : HeaderGroup) :
    (t.around g).innerKind = (t.follows g).head? := by
  have hne : ∀ e ∈ t.entriesOf g.inside, e.header.stack ≠ [] := fun e he => by
    obtain ⟨g', -, hget⟩ := List.mem_filterMap.mp he
    exact ht g' e hget
  simp only [around, follows, Header.kind?_first]
  cases hs : t.entriesOf g.inside with
  | nil => rfl
  | cons e es =>
    rw [List.flatMap_cons, List.head?_append_of_ne_nil]
    · rfl
    · exact hne e (hs ▸ List.mem_cons_self)

/-- Where a header lies on the wire: in front of everything inside it and of its trailer. -/
theorem wire_isInfix (he : t.get g = some e) :
    e.header.emit ++ (t.around g).inner ++ e.header.trailer <:+: t.emit := by
  rw [emit_eq t g, entriesOf_cons he, Entry.emitAll_cons]
  exact List.infix_append _ _ _

end Headers

namespace Packet

open Headers

variable {p : Packet}

/-- Whatever has been done to a packet, in the frame that is given for it each header counts the
bytes that are inside it and names the header that comes next. What is inside a chain stands between
its headers and its trailer. -/
theorem Reached.stamped (hp : p.Reached) :
    let (frame, q) := p.serialize
    ∀ g e, q.headers.get g = some e →
      e.header.emit ++ (q.headers.around g).inner ++ e.header.trailer <:+: frame ∧
        e.header.Stamped (q.headers.around g).inner (q.headers.follows g) := by
  intro g e he
  refine ⟨wire_isInfix he, ?_⟩
  obtain ⟨around, hk, hi, -, hget⟩ := p.headers.get_rebuildAll_final g
  obtain ⟨e₀, -, rfl⟩ := Option.map_eq_some_iff.mp (hget.symm.trans he)
  have hstacks : p.headers.rebuildAll.Every fun _ h => h.stack ≠ [] := fun g e he =>
    (hp.serialize.wellStacked g e he).ne_nil
  have hstamped := e₀.header.stamped_rebuild (hk.trans (innerKind_eq_head? hstacks g)) e₀.dirty
  rwa [hi] at hstamped

/-- The type, the total length and the length of the datagram are overwritten in a frame with two
bytes of padding, which is given as it came. -/
theorem stamped_of_overwritten : ∃ b p q r s, parse .eth b = .ok p ∧
    p.update (.first .etherType) .set [0] = .ok q ∧
    q.update (.udf .l3 2 2 .first) .set [255, 255] = .ok r ∧
    r.update (.udf .l4 4 2 .last) .inc [1] = .ok s ∧ s.serialize.1 = b ∧
    ∀ g e, s.serialize.2.headers.get g = some e →
      e.header.Stamped (s.serialize.2.headers.around g).inner (s.serialize.2.headers.follows g) := by
  let b : Bytes := [2, 0, 0, 0, 0, 1, 2, 0, 0, 0, 0, 2, 8, 0,
    69, 0, 0, 30, 0, 0, 0, 0, 64, 17, 102, 205, 10, 0, 0, 1, 10, 0, 0, 2,
    0, 53, 0, 53, 0, 10, 0, 0, 1, 2, 0, 0]
  have overwritten : ∃ p ∈ (parse .eth b).toOption,
      ∃ q ∈ (p.update (.first .etherType) .set [0]).toOption,
      ∃ r ∈ (q.update (.udf .l3 2 2 .first) .set [255, 255]).toOption,
      ∃ s ∈ (r.update (.udf .l4 4 2 .last) .inc [1]).toOption, s.serialize.1 = b := by
    decide +kernel
  obtain ⟨p, hp, q, hq, r, hr, s, hs, hframe⟩ := overwritten
  have hp := toOption_eq_some_iff.mp hp
  have hq := toOption_eq_some_iff.mp hq
  have hr := toOption_eq_some_iff.mp hr
  have hs := toOption_eq_some_iff.mp hs
  have hreached : s.Reached := .update (.update (.update (.parse hp) hq) hr) hs
  exact ⟨b, p, q, r, s, hp, hq, hr, hs, hframe, fun g e he => (hreached.stamped g e he).2⟩

end Packet

end Dataplane

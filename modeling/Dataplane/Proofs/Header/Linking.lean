import Dataplane.Proofs.Header.Announcing
import Dataplane.Proofs.Header.Rereading
import Mathlib.Data.List.Chain

/-!
# Chains that name their headers

A chain is read header by header, each one looked for as the kind that the one before names. So a
chain is read back only if every header names the next one, and the last one names a header that
belongs to no chain.

## The model

Of a chain that is *regular* this is not yet true: a header that was put in front of it has not been
told what it holds. But every header can be told (`IpHeader.Holds`), and rebuilding a regular chain
makes one that is *legible* (`IpChain.Regular.legible_rebuild`) if the length of its first header
does not have to be cut. A legible chain is read back, with its trailer (`IpChain.read_of_unread`).
-/

namespace Dataplane

open Dataplane.Frame

/-- Do headers of this kind stand in a chain? -/
def HeaderKind.Chained (kind : HeaderKind) : Prop := kind = .ip4 ∨ kind = .ip6 ∨ kind = .gre

instance (kind : HeaderKind) : Decidable kind.Chained := inferInstanceAs (Decidable (_ ∨ _))

/-! ### One header -/

/-- What belongs to no chain has no number that names a header of a chain. -/
theorem IpProtocol.unchained_getD {inner : Option HeaderKind}
    (hinner : ∀ k ∈ inner, ¬k.Chained) {old : UInt8} (hold : ¬(kind old).Chained) :
    ¬(kind ((inner >>= ofKind?).getD old)).Chained := by
  cases inner with
  | none => exact hold
  | some k =>
    have hk := hinner k rfl
    cases k with
    | ip4 | ip6 | gre => exact absurd hk (by decide)
    | tcp => exact show ¬(kind tcp).Chained by decide
    | udp => exact show ¬(kind udp).Chained by decide
    | icmp4 => exact show ¬(kind icmp4).Chained by decide
    | icmp6 => exact show ¬(kind icmp6).Chained by decide
    | _ => exact hold

namespace Ipv4

variable {h : Ipv4} {innerLen : Nat} {proto : Option UInt8} {dirty : Bool}

theorem num_rebuild {s : Slot 20} (hl : totalLenSlot.Apart s) (hp : protoSlot.Apart s)
    (hc : checksumSlot.Apart s) (h : Ipv4) (innerLen : Nat) (proto : Option UInt8) (dirty : Bool) :
    (h.rebuild innerLen proto dirty).base.num s = h.base.num s := by
  rw [Block.num, get_rebuild hl hp hc, Block.num]

@[simp] theorem isFragment_rebuild :
    (h.rebuild innerLen proto dirty).isFragment = h.isFragment := by
  rw [isFragment, num_rebuild (by decide) (by decide) (by decide), isFragment]

theorem Regular.rebuild (hr : h.Regular) (innerLen : Nat) (proto : Option UInt8) (dirty : Bool) :
    (h.rebuild innerLen proto dirty).Regular := by
  have hfirst := h.num_rebuild (s := firstSlot) (by decide) (by decide) (by decide) innerLen proto
    dirty
  exact ⟨by rw [hfirst, hr.version], by rw [hfirst, hr.length, wireLen_rebuild]⟩

/-- The length that a rebuild stores covers the header, which is no longer than 60 bytes. -/
theorem Regular.covered (hr : h.Regular) (innerLen : Nat) (proto : Option UInt8) (dirty : Bool) :
    (h.rebuild innerLen proto dirty).wireLen ≤ (h.rebuild innerLen proto dirty).totalLen := by
  have hlen := hr.length
  rw [totalLen_rebuild, wireLen_rebuild, total]
  omega

theorem regular_fresh : fresh.Regular := by
  constructor <;> decide

theorem base_between (src dst : Bytes) {s : Slot 20} (hs : srcSlot.Apart s) (hd : dstSlot.Apart s) :
    (between src dst).base.num s = fresh.base.num s := by
  rw [Block.num, between, Block.get_set_of_apart hd, Block.get_set_of_apart hs, Block.num]

theorem regular_between (src dst : Bytes) : (between src dst).Regular := by
  have hfirst := base_between src dst (s := firstSlot) (by decide) (by decide)
  exact ⟨by rw [hfirst]; decide, by rw [hfirst]; rfl⟩

end Ipv4

namespace Ipv6

theorem Regular.rebuild {h : Ipv6} (hr : h.Regular) (innerLen : Nat) (next : Option UInt8) :
    (h.rebuild innerLen next).Regular := by
  have hword : (h.rebuild innerLen next).base.num wordSlot = h.base.num wordSlot := by
    rw [Block.num, get_rebuild (by decide) (by decide), Block.num]
  rw [Regular, Block.bits, hword]
  exact hr

theorem regular_fresh : fresh.Regular := by
  show fresh.base.bits wordSlot versionBits = 6
  decide

@[simp] theorem payloadLen_rebuild (h : Ipv6) (innerLen : Nat) (next : Option UInt8) :
    (h.rebuild innerLen next).payloadLen = min innerLen 65535 := by
  have hnum : (h.base.setNum payloadLenSlot (min innerLen 65535)).num payloadLenSlot =
      min innerLen 65535 := by
    rw [Block.num_setNum]
    exact Nat.mod_eq_of_lt (Nat.lt_succ_of_le (Nat.min_le_right _ _))
  cases next with
  | none => exact hnum
  | some p =>
    rw [payloadLen, rebuild, Block.num, Block.get_set_of_apart (by decide), ← Block.num]
    exact hnum

theorem chained_nextKind (h : Ipv6) :
    h.nextKind.Chained ↔ (IpProtocol.kind h.nextHeader).Chained := by
  rw [nextKind]
  split
  · rename_i hkind
    rw [hkind]
    decide
  · rfl

theorem nextHeader_rebuild (h : Ipv6) (innerLen : Nat) (next : Option UInt8) :
    (h.rebuild innerLen next).nextHeader = next.getD h.nextHeader := by
  have hbyte (b : Block 40) : b.get nextHeaderSlot = [b.byte 6] := Block.get_eq_singleton _ rfl
  apply List.singleton_inj.mp
  rw [nextHeader, ← hbyte]
  cases next with
  | none =>
    rw [rebuild, Block.get_setNum_of_apart (by decide), hbyte]
    rfl
  | some p => exact Block.get_set_self _ _ _

end Ipv6

namespace Gre

variable {h : Gre}

@[simp] theorem base_stampChecksum (h : Gre) (inner : Bytes) :
    (h.stampChecksum inner).base = h.base := by
  unfold stampChecksum
  split <;> rfl

theorem Regular.rebuild (hr : h.Regular) (type : Option Nat) (inner : Bytes) :
    (h.rebuild type inner).Regular := by
  refine ⟨?_, hr.flagged.rebuild type inner⟩
  cases type with
  | none => rw [Gre.rebuild, base_stampChecksum, hr.version]
  | some t =>
    rw [Gre.rebuild, base_stampChecksum, Block.num, Block.get_setNum_of_apart (by decide)]
    exact hr.version

theorem regular_fresh : fresh.Regular := ⟨by decide, flagged_fresh⟩

theorem etherType_rebuild (h : Gre) (type : Option Nat) (inner : Bytes)
    (hlt : ∀ t ∈ type, t < 65536) : (h.rebuild type inner).etherType = type.getD h.etherType := by
  cases type with
  | none => rw [etherType, rebuild, base_stampChecksum]; rfl
  | some t =>
    rw [etherType, rebuild, base_stampChecksum, Block.num_setNum]
    exact Nat.mod_eq_of_lt (hlt t rfl)

end Gre

namespace IpHeader

variable {h h' : IpHeader} {around : Surroundings} {dirty : Bool} {inside : List IpHeader}

theorem wireLen_pos (h : IpHeader) : 0 < h.wireLen := by
  cases h with
  | v4 v => exact Nat.lt_of_lt_of_le (by decide) (Nat.le_add_right 20 _)
  | v6 v => exact Nat.succ_pos _
  | gre g => exact Nat.lt_of_lt_of_le (by decide) (Nat.le_add_right 4 _)

theorem chained_kind (h : IpHeader) : h.kind.Chained := by
  cases h <;> simp [kind, HeaderKind.Chained]

/-- What the header writes about its kind and its own length is true. -/
def Regular : IpHeader → Prop
  | v4 h => h.Regular
  | v6 h => h.Regular
  | gre h => h.Regular

/-- The length that an IPv4 header claims covers the header. -/
def Covered : IpHeader → Prop
  | v4 h => h.wireLen ≤ h.totalLen
  | _ => True

/-- The header can name `h'` as what follows: a fragment names nothing, and GRE does not hold
GRE. -/
def Holds (h h' : IpHeader) : Prop :=
  match h with
  | v4 h => ¬h.isFragment
  | v6 _ => True
  | gre _ => h'.kind ≠ .gre

/-- The header names `h'` as what follows. -/
def Names (h h' : IpHeader) : Prop := h.nextKind = h'.kind

/-- The largest number of bytes that the length of the header can claim, the header included. -/
def lengthLimit? : IpHeader → Option Nat
  | v4 _ => some 65535
  | v6 _ => some (40 + 65535)
  | gre _ => none

theorem takes_read (hr : h.Regular) (hc : h.Covered) : Takes (read h.kind) h.emit h := by
  intro f rest hf
  cases h with
  | v4 h =>
    obtain ⟨f', h', hf'⟩ := Ipv4.takes_read hr hc f rest hf
    exact ⟨f', bind_eq_ok_iff.mpr ⟨_, h', rfl⟩, hf'⟩
  | v6 h =>
    obtain ⟨f', h', hf'⟩ := Ipv6.takes_read hr f rest hf
    exact ⟨f', bind_eq_ok_iff.mpr ⟨_, h', rfl⟩, hf'⟩
  | gre h =>
    obtain ⟨f', h', hf'⟩ := Gre.takes_read hr f rest hf
    exact ⟨f', bind_eq_ok_iff.mpr ⟨_, h', rfl⟩, hf'⟩

theorem regular_of_read {kind : HeaderKind} {f f' : Frame} (e : read kind f = .ok (h, f')) :
    h.Regular ∧ h.kind = kind := by
  cases kind with
  | ip4 =>
    obtain ⟨_, hread, e⟩ := bind_eq_ok_iff.mp e
    cases e
    exact ⟨Ipv4.regular_of_read hread, rfl⟩
  | ip6 =>
    obtain ⟨_, hread, e⟩ := bind_eq_ok_iff.mp e
    cases e
    exact ⟨Ipv6.regular_of_read hread, rfl⟩
  | gre =>
    obtain ⟨_, hread, e⟩ := bind_eq_ok_iff.mp e
    cases e
    exact ⟨Gre.regular_of_read hread, rfl⟩
  | _ => cases e

/-- A header that names another one can. -/
theorem Names.holds (hn : h.Names h') : h.Holds h' := by
  cases h with
  | v4 h =>
    intro hfragment
    have hkind : HeaderKind.payload = h'.kind := by
      rw [← hn, nextKind, Ipv4.nextKind, if_pos hfragment]
    have hchained := h'.chained_kind
    rw [← hkind] at hchained
    exact absurd hchained (by decide)
  | v6 h => trivial
  | gre h =>
    intro hgre
    rw [Names, hgre, nextKind, Gre.nextKind] at hn
    split_ifs at hn

theorem Regular.rebuildHeader (hr : h.Regular) (around : Surroundings) (dirty : Bool)
    (inside : List IpHeader) : (IpChain.rebuildHeader around dirty h inside).Regular := by
  cases h with
  | v4 h => exact Ipv4.Regular.rebuild hr _ _ _
  | v6 h => exact Ipv6.Regular.rebuild hr _ _
  | gre h => exact Gre.Regular.rebuild hr _ _

theorem Regular.covered_rebuildHeader (hr : h.Regular) (around : Surroundings) (dirty : Bool)
    (inside : List IpHeader) : (IpChain.rebuildHeader around dirty h inside).Covered := by
  cases h with
  | v4 h => exact Ipv4.Regular.covered hr _ _ _
  | v6 h => trivial
  | gre h => trivial

theorem Holds.of_kind {x : IpHeader} (hh : h.Holds h') (hk : x.kind = h'.kind) : h.Holds x := by
  cases h with
  | v4 h => exact hh
  | v6 h => trivial
  | gre h =>
    show x.kind ≠ .gre
    rw [hk]
    exact hh

theorem Holds.rebuildHeader (hh : h.Holds h') (around : Surroundings) (dirty : Bool)
    (inside : List IpHeader) : (IpChain.rebuildHeader around dirty h inside).Holds h' := by
  cases h with
  | v4 h =>
    show ¬(Ipv4.rebuild h _ _ _).isFragment
    rw [Ipv4.isFragment_rebuild]
    exact hh
  | v6 h => trivial
  | gre h => exact hh

/-- A header that is rebuilt before another one names it, if it can. -/
theorem Holds.names_rebuildHeader {x : IpHeader} (hh : h.Holds x) (hx : inside.head? = some x)
    (around : Surroundings) (dirty : Bool) :
    (IpChain.rebuildHeader around dirty h inside).nextKind = x.kind := by
  have hfollowed : IpChain.followedBy around inside = some x.kind := by
    rw [IpChain.followedBy, hx]
    rfl
  cases h with
  | v4 h =>
    have hwhole : ¬h.isFragment := hh
    rw [IpChain.rebuildHeader_v4, hfollowed, nextKind, Ipv4.nextKind, Ipv4.isFragment_rebuild,
      if_neg hwhole, Ipv4.proto_rebuild]
    cases x <;> rfl
  | v6 h =>
    rw [IpChain.rebuildHeader_v6, hfollowed, nextKind, Ipv6.nextKind, Ipv6.nextHeader_rebuild]
    cases x <;> rfl
  | gre h =>
    have hgre : x.kind ≠ .gre := hh
    have hlt : ∀ t ∈ (some x.kind >>= Gre.typeOfKind?), t < 65536 := by
      cases x <;> simp [kind, Gre.typeOfKind?, EtherType.ip4, EtherType.ip6]
    rw [IpChain.rebuildHeader_gre, hfollowed, nextKind, Gre.nextKind,
      Gre.etherType_rebuild _ _ _ hlt]
    cases x with
    | v4 _ => rfl
    | v6 _ => rfl
    | gre _ => exact absurd rfl hgre

/-- The innermost header of a chain names no header of a chain, and none after it has been rebuilt
before what belongs to no chain. -/
theorem unchained_rebuildHeader (hend : ¬h.nextKind.Chained)
    (hinner : ∀ k ∈ around.innerKind, ¬k.Chained) :
    ¬(IpChain.rebuildHeader around dirty h []).nextKind.Chained := by
  have hfollowed : IpChain.followedBy around [] = around.innerKind := rfl
  cases h with
  | v4 h =>
    rw [nextKind, Ipv4.nextKind] at hend
    rw [IpChain.rebuildHeader_v4, hfollowed, nextKind, Ipv4.nextKind, Ipv4.isFragment_rebuild,
      Ipv4.proto_rebuild]
    split at hend
    · rwa [if_pos ‹_›]
    · rw [if_neg ‹_›]
      exact IpProtocol.unchained_getD hinner hend
  | v6 h =>
    rw [nextKind, Ipv6.chained_nextKind] at hend
    rw [IpChain.rebuildHeader_v6, hfollowed, nextKind, Ipv6.chained_nextKind,
      Ipv6.nextHeader_rebuild]
    exact IpProtocol.unchained_getD hinner hend
  | gre h =>
    have hnone : around.innerKind >>= Gre.typeOfKind? = none := by
      refine Option.bind_eq_none_iff.mpr fun k hk => ?_
      have hk' := hinner k hk
      cases k with
      | ip4 | ip6 | gre => exact absurd hk' (by decide)
      | _ => rfl
    rw [IpChain.rebuildHeader_gre, hfollowed, hnone, nextKind, Gre.nextKind,
      Gre.etherType_rebuild _ _ _ (by simp)]
    exact hend

end IpHeader

/-! ### Chains -/

namespace IpChain

/-- The kind of what follows the chain. -/
def next (c : IpChain) : HeaderKind := (c.headers.getLast?.map (·.nextKind)).getD .none

variable {c c' : IpChain} {around : Surroundings} {dirty : Bool} {kind next : HeaderKind}
  {f f' : Frame}

/-- Every header can name the one after it, and the last one names none of a chain. -/
structure Regular (c : IpChain) : Prop where
  regular : ∀ h ∈ c.headers, h.Regular
  holds : c.headers.IsChain IpHeader.Holds
  ended : ∀ h ∈ c.headers.getLast?, ¬h.nextKind.Chained
  nonempty : c.headers ≠ []

/-- Every header names the one after it, and the last one none of a chain; the length of the first
one names the end of `innerLen` bytes behind the chain. -/
structure Legible (c : IpChain) (innerLen : Nat) : Prop where
  regular : ∀ h ∈ c.headers, h.Regular
  covered : ∀ h ∈ c.headers, h.Covered
  named : c.headers.IsChain IpHeader.Names
  ended : ∀ h ∈ c.headers.getLast?, ¬h.nextKind.Chained
  nonempty : c.headers ≠ []
  length : ∀ h ∈ c.headers.head?, ∀ n ∈ h.payloadLen?, h.wireLen + n = c.wireLen + innerLen

/-- The length of the first header can claim `innerLen` bytes behind the chain. -/
def Fits (c : IpChain) (innerLen : Nat) : Prop :=
  ∀ h ∈ c.headers.head?, ∀ n ∈ h.lengthLimit?, c.wireLen + innerLen ≤ n

instance (c : IpChain) (innerLen : Nat) : Decidable (c.Fits innerLen) :=
  inferInstanceAs (Decidable (∀ h ∈ c.headers.head?, ∀ n ∈ h.lengthLimit?, _))

/-! #### What is read -/

/-- Reading goes on as long as a header names another one of a chain. -/
theorem named_of_readHeaders {fuel : Nat} {hs : List IpHeader} (hfuel : f.length < fuel)
    (e : readHeaders fuel kind f = .ok (hs, next, f')) :
    (∀ h ∈ hs, h.Regular) ∧ ¬next.Chained ∧
      ∀ h : IpHeader, h.nextKind = kind → (h :: hs).IsChain IpHeader.Names ∧
        ∀ x ∈ (h :: hs).getLast?, x.nextKind = next := by
  induction fuel generalizing kind f hs with
  | zero => exact absurd hfuel (Nat.not_lt_zero _)
  | succ fuel ih =>
    rw [readHeaders] at e
    split at e
    · obtain ⟨⟨h₁, f₁⟩, h₁', e⟩ := bind_eq_ok_iff.mp e
      obtain ⟨⟨hs', next', f₂⟩, h₂, e⟩ := bind_eq_ok_iff.mp e
      cases e
      obtain ⟨hreg, hkind⟩ := IpHeader.regular_of_read h₁'
      have hlen := congrArg List.length (IpHeader.reads_of_read h₁')
      have hpos := h₁.wireLen_pos
      rw [List.length_append, IpHeader.length_emit] at hlen
      have hfuel' : f₁.length < fuel := by
        rw [Frame.length] at hfuel ⊢
        omega
      obtain ⟨hregs, hend, hnamed⟩ := ih hfuel' h₂
      refine ⟨List.forall_mem_cons.mpr ⟨hreg, hregs⟩, hend, fun h hh => ?_⟩
      obtain ⟨hchain, hlast⟩ := hnamed h₁ rfl
      exact ⟨List.isChain_cons_cons.mpr ⟨hh.trans hkind.symm, hchain⟩,
        by rwa [List.getLast?_cons_cons]⟩
    · rename_i hend
      cases e
      exact ⟨by simp, hend, fun h hh => ⟨List.isChain_singleton h, by simpa using hh⟩⟩

theorem regular_of_read (e : read kind f = .ok (c, next, f')) : c.Regular := by
  obtain ⟨⟨h, f₁⟩, h₁, e⟩ := bind_eq_ok_iff.mp e
  obtain ⟨⟨trailer, f₂⟩, -, e⟩ := bind_eq_ok_iff.mp e
  obtain ⟨⟨hs, next', f₃⟩, h₃, e⟩ := bind_eq_ok_iff.mp e
  cases e
  obtain ⟨hregs, hend, hnamed⟩ := named_of_readHeaders (Nat.lt_succ_self _) h₃
  obtain ⟨hchain, hlast⟩ := hnamed h rfl
  refine ⟨List.forall_mem_cons.mpr ⟨(IpHeader.regular_of_read h₁).1, hregs⟩,
    hchain.imp fun _ _ => IpHeader.Names.holds, fun x hx => ?_, List.cons_ne_nil _ _⟩
  rw [hlast x hx]
  exact hend

/-- A chain that was read as one that starts with GRE has no trailer. -/
theorem trailer_of_read_gre (e : read .gre f = .ok (c, next, f')) : c.trailer = [] := by
  obtain ⟨⟨h, f₁⟩, h₁, e⟩ := bind_eq_ok_iff.mp e
  obtain ⟨⟨trailer, f₂⟩, h₂, e⟩ := bind_eq_ok_iff.mp e
  obtain ⟨⟨hs, next', f₃⟩, -, e⟩ := bind_eq_ok_iff.mp e
  cases e
  obtain ⟨_, -, h₁⟩ := bind_eq_ok_iff.mp h₁
  cases h₁
  cases h₂
  rfl

/-! #### What adding, removing and rebuilding keep -/

theorem regular_fresh (e : fresh kind = .ok c) : c.Regular := by
  cases kind with
  | ip4 =>
    cases e
    exact ⟨List.forall_mem_singleton.mpr Ipv4.regular_fresh, List.isChain_singleton _,
      by simp; decide, List.cons_ne_nil _ _⟩
  | ip6 =>
    cases e
    exact ⟨List.forall_mem_singleton.mpr Ipv6.regular_fresh, List.isChain_singleton _,
      by simp; decide, List.cons_ne_nil _ _⟩
  | _ => cases e

/-- GRE is refused in front of GRE. -/
theorem outermost_ne_gre {v : IpHeader} (hv : c.freshOuter kind = .ok v) (hgre : v.kind = .gre) :
    c.outermost ≠ .gre := by
  have hkind : kind = .gre := by
    cases kind with
    | gre => rfl
    | sixToFourAuto | sixToFourSecure =>
      obtain ⟨_, -, rfl⟩ := map_eq_ok_iff.mp hv
      cases hgre
    | _ => cases hv <;> cases hgre
  intro houtermost
  rw [hkind, freshOuter, if_pos houtermost] at hv
  cases hv

theorem Regular.push (hc : c.Regular) (e : c.push kind = .ok c') : c'.Regular := by
  obtain ⟨h, hfresh, rfl⟩ := map_eq_ok_iff.mp e
  obtain ⟨x, hs, hheaders⟩ := List.exists_cons_of_ne_nil hc.nonempty
  have houter : h.Regular ∧ h.Holds x := by
    obtain rfl | rfl | rfl | ⟨src, dst, rfl⟩ := freshOuter_cases hfresh
    · exact ⟨Ipv6.regular_fresh, trivial⟩
    · refine ⟨Gre.regular_fresh, fun hgre => ?_⟩
      refine outermost_ne_gre hfresh rfl ?_
      rw [outermost, hheaders]
      exact hgre
    · refine ⟨Ipv4.regular_fresh, ?_⟩
      show ¬Ipv4.fresh.isFragment
      decide
    · refine ⟨Ipv4.regular_between src dst, ?_⟩
      show ¬(Ipv4.between src dst).isFragment
      rw [Ipv4.isFragment, Ipv4.base_between src dst (by decide) (by decide)]
      decide
  have hholds := hc.holds
  have hended := hc.ended
  rw [hheaders] at hholds hended
  exact {
    regular := List.forall_mem_cons.mpr ⟨houter.1, hc.regular⟩
    holds := by
      show (h :: c.headers).IsChain _
      rw [hheaders]
      exact List.isChain_cons_cons.mpr ⟨houter.2, hholds⟩
    ended := by
      show ∀ x ∈ (h :: c.headers).getLast?, _
      rw [hheaders, List.getLast?_cons_cons]
      exact hended
    nonempty := List.cons_ne_nil _ _ }

theorem Regular.pop (hc : c.Regular) (e : c.pop kind = .ok (c', false)) : c'.Regular := by
  obtain ⟨-, -, e⟩ := bind_eq_ok_iff.mp e
  simp only [pure, Except.pure, Except.ok.injEq, Prod.mk.injEq, List.isEmpty_eq_false_iff] at e
  obtain ⟨rfl, hne⟩ := e
  obtain ⟨h, hs, hheaders⟩ := List.exists_cons_of_ne_nil hc.nonempty
  have hregular := hc.regular
  have hholds := hc.holds
  have hended := hc.ended
  rw [hheaders] at hregular hholds hended hne
  obtain ⟨x, xs, rfl⟩ := List.exists_cons_of_ne_nil hne
  refine ⟨?_, ?_, ?_, ?_⟩ <;> show _ <;> simp only [hheaders, List.tail_cons]
  · exact (List.forall_mem_cons.mp hregular).2
  · exact hholds.tail
  · rwa [List.getLast?_cons_cons] at hended
  · exact List.cons_ne_nil _ _

theorem ended_rebuildHeaders {hs : List IpHeader} (hend : ∀ h ∈ hs.getLast?, ¬h.nextKind.Chained)
    (hinner : ∀ k ∈ around.innerKind, ¬k.Chained) :
    ∀ h ∈ (rebuildHeaders around dirty hs).getLast?, ¬h.nextKind.Chained := by
  induction hs with
  | nil => simp [rebuildHeaders]
  | cons h hs ih =>
    cases hs with
    | nil => simpa [rebuildHeaders] using IpHeader.unchained_rebuildHeader (by simpa using hend) hinner
    | cons x xs =>
      rw [List.getLast?_cons_cons] at hend
      rw [rebuildHeaders_cons, rebuildHeaders_cons, List.getLast?_cons_cons, ← rebuildHeaders_cons]
      exact ih hend

theorem holds_rebuildHeaders {hs : List IpHeader} (hh : hs.IsChain IpHeader.Holds) :
    (rebuildHeaders around dirty hs).IsChain IpHeader.Holds := by
  induction hs with
  | nil => exact List.isChain_nil
  | cons h hs ih =>
    cases hs with
    | nil => exact List.isChain_singleton _
    | cons x xs =>
      obtain ⟨hx, hxs⟩ := List.isChain_cons_cons.mp hh
      have hrest := ih hxs
      rw [rebuildHeaders_cons] at hrest ⊢
      rw [rebuildHeaders_cons]
      refine List.isChain_cons_cons.mpr ⟨?_, hrest⟩
      exact (hx.of_kind kind_rebuildHeader).rebuildHeader around dirty _

/-- Rebuilding tells every header what follows it. -/
theorem named_rebuildHeaders {hs : List IpHeader} (hh : hs.IsChain IpHeader.Holds) :
    (rebuildHeaders around dirty hs).IsChain IpHeader.Names := by
  induction hs with
  | nil => exact List.isChain_nil
  | cons h hs ih =>
    cases hs with
    | nil => exact List.isChain_singleton _
    | cons x xs =>
      obtain ⟨hx, hxs⟩ := List.isChain_cons_cons.mp hh
      have hrest := ih hxs
      rw [rebuildHeaders_cons] at hrest ⊢
      rw [rebuildHeaders_cons]
      refine List.isChain_cons_cons.mpr ⟨?_, hrest⟩
      exact (hx.of_kind kind_rebuildHeader).names_rebuildHeader rfl around dirty

theorem forall_rebuildHeaders {P : IpHeader → Prop} {hs : List IpHeader}
    (h : ∀ x ∈ hs, ∀ inside, P (rebuildHeader around dirty x inside)) :
    ∀ x ∈ rebuildHeaders around dirty hs, P x := by
  induction hs with
  | nil => simp [rebuildHeaders]
  | cons x xs ih =>
    obtain ⟨hx, hxs⟩ := List.forall_mem_cons.mp h
    exact List.forall_mem_cons.mpr ⟨hx _, ih hxs⟩

theorem rebuildHeaders_ne_nil {hs : List IpHeader} (h : hs ≠ []) :
    rebuildHeaders around dirty hs ≠ [] := by
  obtain ⟨x, xs, rfl⟩ := List.exists_cons_of_ne_nil h
  exact List.cons_ne_nil _ _

theorem Regular.rebuild (hc : c.Regular) (hinner : ∀ k ∈ around.innerKind, ¬k.Chained)
    (dirty : Bool) : (c.rebuild around dirty).Regular where
  regular := forall_rebuildHeaders fun x hx _ => (hc.regular x hx).rebuildHeader _ _ _
  holds := holds_rebuildHeaders hc.holds
  ended := ended_rebuildHeaders hc.ended hinner
  nonempty := rebuildHeaders_ne_nil hc.nonempty

/-! #### Reading back -/

theorem wireLen_rebuild (c : IpChain) (around : Surroundings) (dirty : Bool) :
    (c.rebuild around dirty).wireLen = c.wireLen := by
  show (rebuildHeaders around dirty c.headers).foldr _ _ = _
  rw [wireLen]
  induction c.headers with
  | nil => rfl
  | cons h hs ih => rw [rebuildHeaders_cons, List.foldr_cons, List.foldr_cons, ih,
      wireLen_rebuildHeader]

theorem lengthInside_eq (around : Surroundings) (hs : List IpHeader) :
    lengthInside around hs = hs.foldr (·.wireLen + ·) 0 + around.innerLen := by
  induction hs with
  | nil => simp [lengthInside]
  | cons h hs ih =>
    simp only [lengthInside, List.foldr_cons] at ih ⊢
    omega

/-- The first header claims what is inside it, if its length has room for it. -/
theorem claims_rebuildHeader {h : IpHeader} {hs : List IpHeader}
    (hfits : ∀ n ∈ h.lengthLimit?, h.wireLen + lengthInside around hs ≤ n) :
    ∀ n ∈ (rebuildHeader around dirty h hs).payloadLen?, n = lengthInside around hs := by
  cases h with
  | v4 v =>
    have hle := hfits _ rfl
    rw [IpHeader.wireLen] at hle
    rw [rebuildHeader_v4]
    rintro _ ⟨⟩
    rw [Ipv4.payloadLen, Ipv4.totalLen_rebuild, Ipv4.wireLen_rebuild, Ipv4.total]
    omega
  | v6 v =>
    have hle := hfits _ rfl
    rw [IpHeader.wireLen] at hle
    rw [rebuildHeader_v6]
    rintro _ ⟨⟩
    rw [Ipv6.payloadLen_rebuild]
    omega
  | gre g =>
    rintro _ ⟨⟩

/-- Rebuilding a regular chain makes it legible. -/
theorem Regular.legible_rebuild (hc : c.Regular) (hinner : ∀ k ∈ around.innerKind, ¬k.Chained)
    (hfits : c.Fits around.innerLen) (dirty : Bool) :
    (c.rebuild around dirty).Legible around.innerLen where
  regular := (hc.rebuild hinner dirty).regular
  covered := forall_rebuildHeaders fun x hx _ => (hc.regular x hx).covered_rebuildHeader _ _ _
  named := named_rebuildHeaders hc.holds
  ended := (hc.rebuild hinner dirty).ended
  nonempty := rebuildHeaders_ne_nil hc.nonempty
  length := by
    obtain ⟨h, hs, hheaders⟩ := List.exists_cons_of_ne_nil hc.nonempty
    have hlen : c.wireLen + around.innerLen = h.wireLen + lengthInside around hs := by
      rw [wireLen, hheaders, lengthInside_eq, List.foldr_cons]
      omega
    rw [wireLen_rebuild, hlen]
    show ∀ x ∈ (rebuildHeaders around dirty c.headers).head?, _
    rw [hheaders, rebuildHeaders_cons]
    rintro _ ⟨⟩ n hn
    rw [wireLen_rebuildHeader]
    have hroom : ∀ m ∈ h.lengthLimit?,
        h.wireLen + lengthInside around (rebuildHeaders around dirty hs) ≤ m := by
      rw [lengthInside_rebuildHeaders, ← hlen]
      exact hfits h (by rw [hheaders]; rfl)
    rw [claims_rebuildHeader hroom n hn, lengthInside_rebuildHeaders]

/-- Headers that name each other are read back one after the other. -/
theorem readHeaders_of_unread {h : IpHeader} {hs : List IpHeader} {fuel : Nat} {rest : Bytes}
    (hreg : ∀ x ∈ hs, x.Regular ∧ x.Covered) (hnamed : (h :: hs).IsChain IpHeader.Names)
    (hend : ∀ x ∈ (h :: hs).getLast?, ¬x.nextKind.Chained) (hfuel : hs.length < fuel)
    (hf : f.unread = emitHeaders hs ++ rest) :
    ∃ f', readHeaders fuel h.nextKind f =
        .ok (hs, (((h :: hs).getLast?).map (·.nextKind)).getD .none, f') ∧ f'.unread = rest := by
  induction hs generalizing h fuel f with
  | nil =>
    obtain ⟨fuel, rfl⟩ := Nat.exists_eq_add_of_le' (Nat.one_le_of_lt hfuel)
    have hstop : ¬h.nextKind.Chained := hend h rfl
    refine ⟨f, ?_, hf⟩
    rw [readHeaders]
    exact if_neg hstop
  | cons x xs ih =>
    obtain ⟨fuel, rfl⟩ := Nat.exists_eq_add_of_le' (Nat.one_le_of_lt hfuel)
    obtain ⟨hx, hxs⟩ := List.isChain_cons_cons.mp hnamed
    obtain ⟨⟨hxreg, hxcov⟩, hreg⟩ := List.forall_mem_cons.mp hreg
    rw [emitHeaders, List.flatMap_cons, List.append_assoc] at hf
    rw [List.getLast?_cons_cons] at hend ⊢
    obtain ⟨f₁, h₁, hf₁⟩ := IpHeader.takes_read hxreg hxcov f _ hf
    obtain ⟨f₂, h₂, hf₂⟩ := ih hreg hxs hend (Nat.lt_of_succ_lt_succ hfuel) hf₁
    refine ⟨f₂, ?_, hf₂⟩
    have hchained : x.kind.Chained := x.chained_kind
    rw [hx, readHeaders]
    refine (if_pos hchained).trans ?_
    exact bind_eq_ok_iff.mpr ⟨_, h₁, bind_eq_ok_iff.mpr ⟨_, h₂, rfl⟩⟩

/-- The trailer is cut off where the first header says that its content ends. -/
theorem readTrailer_of_unread {h : IpHeader} {inside trailer : Bytes}
    (hlen : ∀ n ∈ h.payloadLen?, n = inside.length) (htrailer : h.kind = .gre → trailer = [])
    (hf : f.unread = inside ++ trailer) :
    ∃ f', readTrailer h.kind h f = .ok (trailer, f') ∧ f'.unread = inside := by
  cases hn : h.payloadLen? with
  | none =>
    have hgre : h.kind = .gre := by
      cases h with
      | gre g => rfl
      | _ => cases hn
    obtain rfl := htrailer hgre
    rw [List.append_nil] at hf
    exact ⟨f, by rw [readTrailer, hn], hf⟩
  | some n =>
    have hcount : f.length = n + trailer.length := by
      rw [Frame.length, hf, List.length_append, hlen n hn]
    refine ⟨⟨f.offset, inside⟩, ?_, rfl⟩
    rw [readTrailer, hn]
    dsimp only
    rw [if_neg (by omega), hcount, Nat.add_sub_cancel_left, ofRead_eq_ok_iff]
    exact strip_of_unread hf

/-- A legible chain is read back with its trailer; what is inside is left. -/
theorem read_of_unread {inner : Bytes} (hc : c.Legible inner.length)
    (htrailer : c.outermost = .gre → c.trailer = [])
    (hf : f.unread = c.emit ++ inner ++ c.trailer) :
    ∃ f', read c.outermost f = .ok (c, c.next, f') ∧ f'.unread = inner := by
  obtain ⟨headers, trailer⟩ := c
  obtain ⟨h, hs, rfl⟩ := List.exists_cons_of_ne_nil hc.nonempty
  obtain ⟨hreg, hregs⟩ := List.forall_mem_cons.mp hc.regular
  obtain ⟨hcov, hcovs⟩ := List.forall_mem_cons.mp hc.covered
  simp only [emit, emitHeaders, List.flatMap_cons, List.append_assoc] at hf
  obtain ⟨f₁, h₁, hf₁⟩ := IpHeader.takes_read hreg hcov f _ hf
  have hinner : (emitHeaders hs ++ inner).length = hs.foldr (·.wireLen + ·) 0 + inner.length := by
    rw [List.length_append]
    exact congrArg (· + _) (IpChain.mk hs trailer).length_emit
  have hclaims : ∀ n ∈ h.payloadLen?, n = (emitHeaders hs ++ inner).length := by
    intro n hn
    have hclaim := hc.length h rfl n hn
    have hwire : wireLen ⟨h :: hs, trailer⟩ = h.wireLen + hs.foldr (·.wireLen + ·) 0 := rfl
    omega
  rw [← List.append_assoc] at hf₁
  obtain ⟨f₂, h₂, hf₂⟩ := readTrailer_of_unread hclaims htrailer hf₁
  have hfuel : hs.length < f₂.length + 1 := by
    have hle : hs.length ≤ (emitHeaders hs).length := by
      refine length_le_flatMap fun x _ => ?_
      rw [x.length_emit]
      exact x.wireLen_pos
    rw [Frame.length, hf₂, List.length_append]
    omega
  obtain ⟨f₃, h₃, hf₃⟩ := readHeaders_of_unread (fun x hx => ⟨hregs x hx, hcovs x hx⟩) hc.named
    hc.ended hfuel hf₂
  exact ⟨f₃, bind_eq_ok_iff.mpr ⟨_, h₁, bind_eq_ok_iff.mpr ⟨_, h₂,
    bind_eq_ok_iff.mpr ⟨_, h₃, rfl⟩⟩⟩, hf₃⟩

end IpChain

end Dataplane

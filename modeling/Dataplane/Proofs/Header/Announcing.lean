import Dataplane.Proofs.Header.Uncovering
import Dataplane.Proofs.Headers.Wire

/-!
# Announcing what follows

An IPv4 or IPv6 header names the protocol of what follows it, a GRE or Ethernet header its type. If
a header of another kind is put behind them and taken away again, the name stays as it was stamped
for that kind. So everything is as before only if the kind was announced before.

## The model

`IpChain.rebuildHeaders_back_iff` is about a chain that is rebuilt before a longer packet that starts
with a header of some kind, and then before the old one. The length is stamped back in any case. But
a checksum that a rebuild would have taken over has been computed, since the length has changed in
between; a header that is as long as can be said is the exception (`IpHeader.Settled`).
-/

namespace Dataplane

/-! ### Ethernet -/

theorem EtherType.lt_of_ofKind? {kind : HeaderKind} {type : Nat} (h : ofKind? kind = some type) :
    type < 256 ^ 2 := by
  cases kind <;> cases h <;> decide

namespace Ethernet

variable {e : Ethernet} {around around' : Surroundings}

/-- A rebuild changes nothing exactly if the type is there already, or none is stamped. -/
theorem rebuild_eq_self_iff : e.rebuild around = e ↔
    ∀ type ∈ around.innerKind >>= EtherType.ofKind?, e.etherType = type := by
  cases htype : around.innerKind >>= EtherType.ofKind? with
  | none => simp [rebuild, htype]
  | some type =>
    have hrebuild : e.rebuild around = { e with typeWord := e.typeWord.setNum typeSlot type } := by
      rw [rebuild, htype]
    rw [hrebuild]
    obtain ⟨kind, -, hkind⟩ := Option.bind_eq_some_iff.mp htype
    constructor
    · intro h _ ht
      cases ht
      have hword : e.typeWord.setNum typeSlot type = e.typeWord := congrArg typeWord h
      rw [etherType, ← hword, Block.num_setNum]
      exact Nat.mod_eq_of_lt (EtherType.lt_of_ofKind? hkind)
    · intro h
      rw [← h type rfl, etherType, Block.setNum_num]

theorem rebuild_rebuild (h : around.innerKind >>= EtherType.ofKind? =
    around'.innerKind >>= EtherType.ofKind?) :
    (e.rebuild around).rebuild around' = e.rebuild around' := by
  simp only [rebuild, h]
  cases around'.innerKind >>= EtherType.ofKind? with
  | none => rfl
  | some type => simp only [Block.setNum, Block.set_set]

/-- The bytes of a rebuilt header tell whether it is as before. -/
theorem rebuild_of_emit (h : (e.rebuild around).emit = e.emit) : e.rebuild around = e := by
  cases htype : around.innerKind >>= EtherType.ofKind? with
  | none => simp only [rebuild, htype]
  | some type =>
    simp only [rebuild, htype] at h ⊢
    have hword : e.typeWord.setNum typeSlot type = e.typeWord :=
      Block.ext (List.append_cancel_left h)
    rw [hword]

end Ethernet

/-! ### IPv4 and IPv6 -/

namespace Ipv4

variable {h : Ipv4} {innerLen more : Nat}

theorem total_le (h : Ipv4) (innerLen : Nat) : h.total innerLen ≤ 65535 := Nat.min_le_right _ _

@[simp] theorem totalLen_rebuild (h : Ipv4) (innerLen : Nat) (proto : Option UInt8)
    (dirty : Bool) : (h.rebuild innerLen proto dirty).totalLen = h.total innerLen := by
  rw [rebuild_eq]
  split
  · rw [totalLen_computeChecksum, totalLen_stamp _ (h.total_le innerLen)]
  · rename_i hsame
    simp only [not_or, ne_eq, not_not] at hsame
    exact hsame.1.symm

/-- A second rebuild in the same surroundings changes nothing. -/
theorem rebuild_self (h : Ipv4) (innerLen : Nat) (proto : Option UInt8) (dirty : Bool) :
    (h.rebuild innerLen proto dirty).rebuild innerLen proto false =
      h.rebuild innerLen proto dirty := by
  have hproto : proto.getD (proto.getD h.proto) = proto.getD h.proto := by cases proto <;> rfl
  rw [rebuild_eq, if_neg]
  rw [total, wireLen_rebuild, ← total, totalLen_rebuild, proto_rebuild, hproto]
  simp

/-- A change of length makes a rebuild compute the checksum. -/
theorem rebuild_of_total_ne {innerLen' : Nat} (hne : h.total innerLen' ≠ h.total innerLen)
    (proto : Option UInt8) (dirty dirty' : Bool) :
    (h.rebuild innerLen proto dirty).rebuild innerLen' proto dirty' =
      h.rebuild innerLen' proto true := by
  have htotal : (h.rebuild innerLen proto dirty).total innerLen' = h.total innerLen' := by
    rw [total, wireLen_rebuild, total]
  have hproto : proto.getD (h.rebuild innerLen proto dirty).proto = proto.getD h.proto := by
    rw [proto_rebuild]
    cases proto <;> rfl
  rw [rebuild_eq, if_pos (.inl (by rwa [htotal, totalLen_rebuild])), htotal, hproto, rebuild_dirty,
    rebuild_eq]
  split
  · rw [computeChecksum_stamp_computeChecksum, stamp_stamp]
  · rfl

theorem rebuild_eq_of_sealed_rebuild {proto : Option UInt8}
    (hs : (h.rebuild innerLen proto false).Sealed) :
    h.rebuild innerLen proto false = h.rebuild innerLen proto true := by
  rw [rebuild_eq] at hs ⊢
  split at hs
  · rename_i hchanged
    rw [if_pos hchanged, rebuild_dirty]
  · rename_i hsame
    rw [if_neg hsame, ← hs.rebuild_eq innerLen proto false, rebuild_eq, if_neg hsame]

/-- A rebuild before a longer packet is undone by one before the old packet, but for a checksum that
was wrong. -/
theorem rebuild_back_iff (h : Ipv4) (innerLen : Nat) (hmore : 0 < more) (proto : Option UInt8) :
    (h.rebuild (innerLen + more) proto false).rebuild innerLen proto false =
        h.rebuild innerLen proto false ↔
      (h.rebuild innerLen proto false).Sealed ∨
        (h.rebuild innerLen proto false).totalLen = 65535 := by
  rw [totalLen_rebuild]
  by_cases hfull : h.total innerLen = 65535
  · -- The length is cut to the same number.
    have hsame : h.total (innerLen + more) = h.total innerLen := by
      simp only [total] at hfull ⊢
      omega
    have hrebuild : h.rebuild (innerLen + more) proto false = h.rebuild innerLen proto false := by
      rw [rebuild_eq, hsame, ← rebuild_eq]
    rw [hrebuild, rebuild_self]
    exact iff_of_true rfl (.inr hfull)
  · have hne : h.total innerLen ≠ h.total (innerLen + more) := by
      simp only [total] at hfull ⊢
      omega
    rw [rebuild_of_total_ne hne]
    constructor
    · intro heq
      exact .inl (heq ▸ h.sealed_rebuild_dirty innerLen proto)
    · rintro (hs | hs)
      · exact (rebuild_eq_of_sealed_rebuild hs).symm
      · exact absurd hs hfull

/-- A rebuild before another protocol is not undone, since the protocol is kept. -/
theorem rebuild_back_proto_iff (h : Ipv4) (innerLen : Nat) (hmore : 0 < more) (number : UInt8) :
    (h.rebuild (innerLen + more) (some number) false).rebuild innerLen none false =
        h.rebuild innerLen none false ↔
      ((h.rebuild innerLen none false).Sealed ∨
        (h.rebuild innerLen none false).totalLen = 65535) ∧ h.proto = number := by
  have hstamped : h.proto = number →
      h.rebuild (innerLen + more) (some number) false = h.rebuild (innerLen + more) none false := by
    rintro rfl
    rw [rebuild_eq, rebuild_eq]
    rfl
  constructor
  · intro heq
    have hproto := congrArg Ipv4.proto heq
    rw [proto_rebuild, proto_rebuild, proto_rebuild] at hproto
    rw [hstamped hproto.symm, rebuild_back_iff h innerLen hmore] at heq
    exact ⟨heq, hproto.symm⟩
  · rintro ⟨hold, hproto⟩
    rw [hstamped hproto, rebuild_back_iff h innerLen hmore]
    exact hold

theorem emit_inj {h' : Ipv4} (heq : h.emit = h'.emit) : h = h' := by
  obtain ⟨hbase, hoptions⟩ := List.append_inj heq (by rw [h.base.length_eq, h'.base.length_eq])
  obtain ⟨base, options⟩ := h
  obtain ⟨base', options'⟩ := h'
  cases Block.ext hbase
  cases hoptions
  rfl

end Ipv4

theorem Ipv6.rebuild_back_iff (h : Ipv6) (innerLen innerLen' : Nat) (number : UInt8) :
    (h.rebuild innerLen' (some number)).rebuild innerLen none = h.rebuild innerLen none ↔
      h.nextHeader = number := by
  have apart : nextHeaderSlot.Apart payloadLenSlot := by decide
  have hnext (b : Block 40) : b.get nextHeaderSlot = [b.byte 6] := Block.get_eq_singleton _ rfl
  simp only [rebuild, Block.setNum, Ipv6.mk.injEq]
  rw [Block.set_comm apart, Block.set_set]
  constructor
  · intro heq
    have hget := congrArg (Block.get · nextHeaderSlot) heq
    rw [Block.get_set_self, Block.get_set_of_apart (by decide), hnext] at hget
    exact (List.singleton_inj.mp hget).symm
  · intro hold
    rw [nextHeader] at hold
    have hget : [number] = (h.base.set payloadLenSlot
        (Bytes.ofNat payloadLenSlot.width (min innerLen 65535))).get nextHeaderSlot := by
      rw [Block.get_set_of_apart (by decide), hnext, hold]
    rw [hget, Block.set_get]

/-! ### Chains -/

namespace IpHeader

/-- The header names `kind` as what follows, or has no name for it. -/
def Announces (h : IpHeader) (kind : HeaderKind) : Prop :=
  match h with
  | v4 h => ∀ number ∈ IpProtocol.ofKind? kind, h.proto = number
  | v6 h => ∀ number ∈ IpProtocol.ofKind? kind, h.nextHeader = number
  | gre h => ∀ type ∈ Gre.typeOfKind? kind, h.etherType = type

instance (h : IpHeader) (kind : HeaderKind) : Decidable (h.Announces kind) :=
  match h with
  | v4 h => inferInstanceAs (Decidable (∀ number ∈ IpProtocol.ofKind? kind, h.proto = number))
  | v6 h => inferInstanceAs (Decidable (∀ number ∈ IpProtocol.ofKind? kind, h.nextHeader = number))
  | gre h => inferInstanceAs (Decidable (∀ type ∈ Gre.typeOfKind? kind, h.etherType = type))

/-- The checksum of an IPv4 header would not be computed differently, or the length is the largest
one. -/
def Settled : IpHeader → Prop
  | v4 h => h.Sealed ∨ h.totalLen = 65535
  | _ => True

instance (h : IpHeader) : Decidable h.Settled :=
  match h with
  | v4 h => inferInstanceAs (Decidable (h.Sealed ∨ h.totalLen = 65535))
  | v6 _ => inferInstanceAs (Decidable True)
  | gre _ => inferInstanceAs (Decidable True)

end IpHeader

namespace IpChain

variable {around around' : Surroundings} {dirty : Bool} {kind : HeaderKind} {number : UInt8}
  {h : IpHeader} {inside hs : List IpHeader}

/-- What a rebuild looks at: the kind of what follows, and its bytes. -/
theorem rebuildHeaders_congr (hk : around'.innerKind = around.innerKind)
    (hi : around'.inner = around.inner) (dirty : Bool) (hs : List IpHeader) :
    rebuildHeaders around' dirty hs = rebuildHeaders around dirty hs := by
  have hheader (h : IpHeader) (inside : List IpHeader) :
      rebuildHeader around' dirty h inside = rebuildHeader around dirty h inside := by
    simp only [rebuildHeader, Surroundings.innerLen, hk, hi]
  induction hs with
  | nil => rfl
  | cons h hs ih => rw [rebuildHeaders_cons, ih, hheader, rebuildHeaders_cons]

/-- A second rebuild in the same surroundings changes nothing. -/
theorem rebuildHeaders_self (hs : List IpHeader) :
    rebuildHeaders around false (rebuildHeaders around dirty hs) =
      rebuildHeaders around dirty hs := by
  induction hs with
  | nil => rfl
  | cons h hs ih =>
    rw [rebuildHeaders_cons, rebuildHeaders_cons, ih]
    congr 1
    cases h with
    | v4 v => simp only [rebuildHeader_v4, Ipv4.rebuild_self]
    | v6 v => simp only [rebuildHeader_v6, Ipv6.rebuild_rebuild]
    | gre g => simp only [rebuildHeader_gre, Gre.rebuild_rebuild]

theorem rebuild_congr (hk : around'.innerKind = around.innerKind)
    (hi : around'.inner = around.inner) (dirty : Bool) (c : IpChain) :
    c.rebuild around' dirty = c.rebuild around dirty := by
  rw [rebuild, rebuildHeaders_congr hk hi, rebuild]

theorem rebuild_self (c : IpChain) :
    (c.rebuild around dirty).rebuild around false = c.rebuild around dirty := by
  simp only [rebuild, rebuildHeaders_self]

section Back

/-! Before what is there (`around`) nothing is announced; before what has been put there in between
(`around'`) a kind is. -/

variable (hproto : around.innerKind >>= IpProtocol.ofKind? = none)
  (htype : around.innerKind >>= Gre.typeOfKind? = none)
  (hkind : around'.innerKind = some kind) (hnumber : IpProtocol.ofKind? kind = some number)
  (hungre : Gre.typeOfKind? kind = none) {more : Nat} (hmore : 0 < more)
  (hlen : around'.innerLen = around.innerLen + more)

include hlen in
theorem lengthInside_add (hs : List IpHeader) :
    lengthInside around' hs = lengthInside around hs + more := by
  induction hs with
  | nil => exact hlen
  | cons h hs ih =>
    simp only [lengthInside, List.foldr_cons] at ih ⊢
    omega

include hproto htype hkind hnumber hungre hmore hlen

/-- A header is as before if its checksum was right and, where it is the innermost one, if it
announced the kind. -/
theorem rebuildHeader_back_iff (h : IpHeader) (hs : List IpHeader) :
    rebuildHeader around false (rebuildHeader around' false h (rebuildHeaders around' false hs))
        (rebuildHeaders around false hs) =
        rebuildHeader around false h (rebuildHeaders around false hs) ↔
      (rebuildHeader around false h (rebuildHeaders around false hs)).Settled ∧
        (hs = [] → h.Announces kind) := by
  have hadd := lengthInside_add hlen hs
  cases hs with
  | nil =>
    have hfollowed : followedBy around [] = around.innerKind := rfl
    have hfollowed' : followedBy around' [] = some kind := hkind
    simp only [rebuildHeaders, List.foldr_nil, true_imp_iff] at hadd ⊢
    cases h with
    | v4 v =>
      simp only [rebuildHeader_v4, hfollowed, hfollowed', hproto, hadd, Option.bind_eq_bind,
        Option.bind_some, hnumber, IpHeader.v4.injEq, IpHeader.Settled, IpHeader.Announces,
        Option.mem_def, Option.some.injEq, forall_eq']
      exact v.rebuild_back_proto_iff _ hmore number
    | v6 v =>
      simp only [rebuildHeader_v6, hfollowed, hfollowed', hproto, Option.bind_eq_bind,
        Option.bind_some, hnumber, IpHeader.v6.injEq, IpHeader.Settled, IpHeader.Announces,
        Option.mem_def, Option.some.injEq, forall_eq', true_and]
      exact v.rebuild_back_iff _ _ number
    | gre g =>
      simp only [rebuildHeader_gre, hfollowed, hfollowed', htype, Option.bind_eq_bind,
        Option.bind_some, hungre, IpHeader.Settled, IpHeader.Announces, Gre.rebuild_rebuild]
      simp
  | cons x hs =>
    have hfollowed (a b : Surroundings) : followedBy a (rebuildHeaders b false (x :: hs)) =
        some x.kind := by rw [followedBy_rebuildHeaders]; rfl
    simp only [reduceCtorEq, false_imp_iff, and_true]
    cases h with
    | v4 v =>
      simp only [rebuildHeader_v4, hfollowed, lengthInside_rebuildHeaders, hadd, IpHeader.v4.injEq,
        IpHeader.Settled]
      exact v.rebuild_back_iff _ hmore _
    | v6 v => simp only [rebuildHeader_v6, hfollowed, Ipv6.rebuild_rebuild, IpHeader.Settled]
    | gre g => simp only [rebuildHeader_gre, hfollowed, Gre.rebuild_rebuild, IpHeader.Settled]

/-- A chain is as before if its checksums were right and its innermost header announced the
kind. -/
theorem rebuildHeaders_back_iff (hs : List IpHeader) :
    rebuildHeaders around false (rebuildHeaders around' false hs) =
        rebuildHeaders around false hs ↔
      (∀ h ∈ rebuildHeaders around false hs, h.Settled) ∧
        ∀ h ∈ hs.getLast?, h.Announces kind := by
  induction hs with
  | nil => simp [rebuildHeaders]
  | cons h hs ih =>
    have hhead := rebuildHeader_back_iff hproto htype hkind hnumber hungre hmore hlen h hs
    have hlast : (∀ k ∈ (h :: hs).getLast?, k.Announces kind) ↔
        (hs = [] → h.Announces kind) ∧ ∀ k ∈ hs.getLast?, k.Announces kind := by
      cases hs <;> simp
    simp only [rebuildHeaders_cons, List.cons.injEq, hlast, List.forall_mem_cons]
    constructor
    · rintro ⟨heq, htail⟩
      rw [htail] at heq
      have hh := hhead.mp heq
      have ht := ih.mp htail
      exact ⟨⟨hh.1, ht.1⟩, hh.2, ht.2⟩
    · rintro ⟨⟨hsettled, hrest⟩, hann, hlast⟩
      have htail := ih.mpr ⟨hrest, hlast⟩
      exact ⟨by rw [htail]; exact hhead.mpr ⟨hsettled, hann⟩, htail⟩

/-- The bytes of the chain tell whether it is as before. -/
theorem rebuildHeaders_back_of_emit {hs : List IpHeader}
    (heq : emitHeaders (rebuildHeaders around false (rebuildHeaders around' false hs)) =
      emitHeaders (rebuildHeaders around false hs)) :
    rebuildHeaders around false (rebuildHeaders around' false hs) =
      rebuildHeaders around false hs := by
  induction hs with
  | nil => rfl
  | cons h hs ih =>
    have hwire : (rebuildHeader around false
        (rebuildHeader around' false h (rebuildHeaders around' false hs))
        (rebuildHeaders around false (rebuildHeaders around' false hs))).emit.length =
        (rebuildHeader around false h (rebuildHeaders around false hs)).emit.length := by
      simp only [IpHeader.length_emit, wireLen_rebuildHeader]
    simp only [rebuildHeaders_cons, emitHeaders, List.flatMap_cons] at heq ⊢
    obtain ⟨hhead, htail⟩ := List.append_inj heq hwire
    have htail := ih htail
    rw [htail] at hhead ⊢
    congr 1
    have hsettled := rebuildHeader_back_iff hproto htype hkind hnumber hungre hmore hlen h hs
    cases h with
    | v4 v =>
      simp only [rebuildHeader_v4] at hhead ⊢
      exact congrArg IpHeader.v4 (Ipv4.emit_inj hhead)
    | v6 v =>
      simp only [rebuildHeader_v6] at hhead ⊢
      have hbase := Block.ext hhead
      exact congrArg (fun b => IpHeader.v6 ⟨b⟩) hbase
    | gre g =>
      refine hsettled.mpr ⟨trivial, fun _ => ?_⟩
      intro type ht
      rw [hungre] at ht
      cases ht

end Back

end IpChain

/-! ### Headers -/

namespace Header

/-- The header names `kind` as what follows, or has no name for it. -/
def Announces (h : Header) (kind : HeaderKind) : Prop :=
  match h with
  | ethernet e => ∀ type ∈ EtherType.ofKind? kind, e.etherType = type
  | ip c => ∀ v ∈ c.headers.getLast?, v.Announces kind
  | _ => True

instance (h : Header) (kind : HeaderKind) : Decidable (h.Announces kind) :=
  match h with
  | ethernet e => inferInstanceAs (Decidable (∀ type ∈ EtherType.ofKind? kind, e.etherType = type))
  | ip c => inferInstanceAs (Decidable (∀ v ∈ c.headers.getLast?, v.Announces kind))
  | arp _ | metadata _ | mpls _ | tcp _ | udp _ | icmp4 _ | icmp6 _ | payload _ =>
    inferInstanceAs (Decidable True)

end Header

end Dataplane

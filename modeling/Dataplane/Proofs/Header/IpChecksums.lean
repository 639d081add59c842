import Dataplane.Proofs.Header.Checksums

/-!
# Checksums in chains of IP and GRE headers

A chain that is rebuilt has the checksums of its IPv4 headers right, and those of its GRE headers
that carry one.

## The model

An IPv4 header is `Balanced` if its words sum to a multiple of 65535. That is what a decrement of
the time to live keeps, and it is enough: the only balanced header that does not verify is all
zero, and a rebuilt one has a length.
-/

namespace Dataplane

open Checksum

/-! ### IPv4 -/

namespace Ipv4

/-- The words of the header sum to a multiple of 65535. -/
def Balanced (h : Ipv4) : Prop := wordSum h.emit % 65535 = 0

theorem balanced_of_verifies {h : Ipv4} (hv : (Checksum.compute h.emit).Verifies) : h.Balanced :=
  ((verifies_compute_iff _).mp hv).2

theorem wordSum_emit (h : Ipv4) : wordSum h.emit = wordSum h.base.bytes + wordSum h.options :=
  wordSum_append (by rw [h.base.length_eq]) h.options

/-- A balanced header with a length verifies. -/
theorem Balanced.verifies {h : Ipv4} (hb : h.Balanced) (hlen : h.totalLen ≠ 0) :
    (Checksum.compute h.emit).Verifies := by
  rw [verifies_compute_iff]
  refine ⟨fun hzero => hlen (Block.num_eq_zero (fun d hd => ?_) totalLenSlot), hb⟩
  exact eq_zero_of_wordSum_eq_zero hzero d (List.mem_append_left _ hd)

theorem computeChecksum_verifies (h : Ipv4) :
    (Checksum.compute h.computeChecksum.emit).Verifies := by
  have heven : (h.base.setNum checksumSlot 0).bytes.length % 2 = 0 := by
    rw [(h.base.setNum checksumSlot 0).length_eq]
  have hv := Block.verifies_set_header settled_zero (s := checksumSlot) rfl rfl (x := []) rfl
    h.base h.options
  simp only [List.nil_append] at hv
  rw [add_append heven, ← Checksum.compute] at hv
  exact hv

/-- A rebuilt header verifies, if it was balanced where it is said to be clean. -/
theorem rebuild_verifies {h : Ipv4} {dirty : Bool} (hb : dirty = false → h.Balanced)
    (innerLen : Nat) (proto : Option UInt8) :
    (Checksum.compute (h.rebuild innerLen proto dirty).emit).Verifies := by
  simp only [rebuild]
  split
  · exact computeChecksum_verifies _
  · rename_i hsame
    simp only [not_or, ne_eq, not_not, Bool.not_eq_true] at hsame
    obtain ⟨htotal, hproto, hclean⟩ := hsame
    -- What is stamped is there already.
    have hbase : (h.base.setNum totalLenSlot (min (h.wireLen + innerLen) 65535)).set protoSlot
        [proto.getD h.proto] = h.base := by
      have hp : [h.proto] = h.base.get protoSlot :=
        (h.base.get_eq_singleton (s := protoSlot) rfl).symm
      rw [htotal, hproto, totalLen, Block.setNum_num, hp, Block.set_get]
    simp only [hbase]
    refine (hb hclean).verifies ?_
    rw [← htotal, wireLen]
    omega

/-- Taking the old word out of the closed sum and adding the new one keeps a header balanced. -/
theorem decrementTtl_balanced {h : Ipv4} (hb : h.Balanced) (arg : Bytes) :
    (h.decrementTtl arg).Balanced := by
  set base := h.base.update ttlSlot .dec arg with hbase
  set sum := ((Checksum.ofHeader (h.base.byte 10) (h.base.byte 11)).sub
    (h.base.get ttlWordSlot)).add (base.get ttlWordSlot) with hsum
  have hdec : h.decrementTtl arg = { h with base := base.set checksumSlot sum.header } := rfl
  -- The word with the time to live changes, and then the checksum.
  have hword : wordSum base.bytes + wordSum (h.base.get ttlWordSlot) =
      wordSum h.base.bytes + wordSum (base.get ttlWordSlot) :=
    Block.wordSum_of_agree rfl rfl (Block.take_set (by decide) _ _)
      (Block.drop_set (by decide) _ _)
  have hset := Block.wordSum_set (s := checksumSlot) rfl rfl base sum.length_header
  have hkept : base.get checksumSlot = h.base.get checksumSlot :=
    Block.get_set_of_apart (by decide) _ _
  -- What the adjusted sum is, up to multiples of 65535.
  have hold : (Checksum.ofHeader (h.base.byte 10) (h.base.byte 11)).acc.toNat +
      wordSum (h.base.get checksumSlot) = 65535 := by
    have hlt := toNat_word_lt (h.base.byte 10) (h.base.byte 11)
    rw [Block.get_eq_pair _ rfl]
    simp only [Checksum.ofHeader, toNat_complement hlt, wordSum, sumWords, id_eq, checksumSlot,
      Slot.start_of, Nat.reduceAdd]
    omega
  have hsettled : (Checksum.ofHeader (h.base.byte 10) (h.base.byte 11)).Settled := by
    unfold Settled
    omega
  have hadjusted := endAround_add_bytes
    (hsettled.sub (b := h.base.get ttlWordSlot) (by simp [ttlWordSlot])) (base.get ttlWordSlot)
  rw [← endAround_add, endAround_sub_bytes hsettled, endAround_add, ← hsum] at hadjusted
  have hmod := congrArg (· % 65535) hadjusted
  simp only [endAround_mod] at hmod
  have hcomp : sumWords (fun w => 0xFFFF - w) (h.base.get ttlWordSlot) +
      wordSum (h.base.get ttlWordSlot) = 65535 := by
    rw [sumWords_complement (by rw [Block.length_get]; rfl), Block.length_get]
    rfl
  have hheader := wordSum_header sum
  have hlt := endAround_lt sum.acc.toNat
  have hsame := endAround_mod sum.acc.toNat
  rw [hkept] at hset
  rw [Balanced, wordSum_emit] at hb ⊢
  rw [hdec]
  dsimp only
  omega

end Ipv4

/-! ### GRE -/

namespace Gre

theorem stampChecksum_verifies (h : Gre) (inner : Bytes)
    (hc : (h.stampChecksum inner).checksum.isSome) :
    (Checksum.compute ((h.stampChecksum inner).emit ++ inner)).Verifies := by
  obtain ⟨base, checksum, key, seq⟩ := h
  cases checksum with
  | none => cases hc
  | some word =>
    have heven : base.bytes.length % 2 = 0 := by rw [base.length_eq]
    have hv := Block.verifies_set_header settled_zero (s := checksumSlot) rfl rfl heven
      (.zero 4) ((key.toList ++ seq.toList).flatMap (·.bytes) ++ inner)
    have hzero : (Block.zero 4).setNum checksumSlot 0 = .zero 4 := by decide
    rw [hzero] at hv
    simpa only [stampChecksum, emit, words, Checksum.ofBytes, Checksum.compute,
      Option.toList_some, List.cons_append, List.nil_append, List.flatMap_cons, List.append_assoc]
      using hv

theorem rebuild_verifies (h : Gre) (innerType : Option Nat) (inner : Bytes)
    (hc : (h.rebuild innerType inner).checksum.isSome) :
    (Checksum.compute ((h.rebuild innerType inner).emit ++ inner)).Verifies := by
  cases innerType with
  | none => exact stampChecksum_verifies h inner hc
  | some t => exact stampChecksum_verifies _ inner hc

end Gre

/-! ### Chains -/

namespace IpHeader

/-- The addresses of an IP header have the lengths of their family. -/
theorem wellFormed_addrs {h : IpHeader} {a : IpAddrs} (ha : h.addrs? = some a) : a.WellFormed := by
  cases h with
  | v4 h =>
    cases ha
    exact ⟨Block.length_get _ _, Block.length_get _ _⟩
  | v6 h =>
    cases ha
    exact ⟨Block.length_get _ _, Block.length_get _ _⟩
  | gre h => cases ha

end IpHeader

/-- A rebuild touches the length, the protocol and the checksum only. -/
theorem Ipv4.get_rebuild {s : Slot 20} (hl : totalLenSlot.Apart s) (hp : protoSlot.Apart s)
    (hc : checksumSlot.Apart s) (h : Ipv4) (innerLen : Nat) (proto : Option UInt8) (dirty : Bool) :
    (h.rebuild innerLen proto dirty).base.get s = h.base.get s := by
  simp only [rebuild]
  split
  · simp only [computeChecksum]
    rw [Block.get_set_of_apart hc, Block.get_setNum_of_apart hc, Block.get_set_of_apart hp,
      Block.get_setNum_of_apart hl]
  · rw [Block.get_set_of_apart hp, Block.get_setNum_of_apart hl]

theorem Ipv6.get_rebuild {s : Slot 40} (hl : payloadLenSlot.Apart s) (hn : nextHeaderSlot.Apart s)
    (h : Ipv6) (innerLen : Nat) (next : Option UInt8) :
    (h.rebuild innerLen next).base.get s = h.base.get s := by
  cases next with
  | none => exact Block.get_setNum_of_apart hl _ _
  | some p =>
    simp only [rebuild]
    rw [Block.get_set_of_apart hn, Block.get_setNum_of_apart hl]

namespace IpChain

variable {c c' : IpChain} {around : Surroundings} {dirty : Bool}

/-- Every IPv4 header of the chain is balanced. -/
def Balanced (c : IpChain) : Prop := ∀ v, .v4 v ∈ c.headers → v.Balanced

theorem balanced_of_checksumsHold {addrs : Option IpAddrs} {inner : Bytes}
    (h : (Header.ip c).ChecksumsHold addrs inner) : c.Balanced :=
  fun v hv => Ipv4.balanced_of_verifies (h (.v4 v) hv)

theorem wellFormed_addrs {a : IpAddrs} (ha : c.innermostAddrs? = some a) : a.WellFormed := by
  obtain ⟨h, -, hh⟩ := List.exists_of_findSome?_eq_some ha
  exact IpHeader.wellFormed_addrs hh

theorem addrs_rebuildHeader (h : IpHeader) (inside : List IpHeader) :
    (rebuildHeader around dirty h inside).addrs? = h.addrs? := by
  cases h with
  | v4 h =>
    simp only [rebuildHeader, IpHeader.addrs?, Ipv4.src, Ipv4.dst]
    rw [Ipv4.get_rebuild (by decide) (by decide) (by decide),
      Ipv4.get_rebuild (by decide) (by decide) (by decide)]
  | v6 h =>
    simp only [rebuildHeader, IpHeader.addrs?, Ipv6.src, Ipv6.dst]
    rw [Ipv6.get_rebuild (by decide) (by decide), Ipv6.get_rebuild (by decide) (by decide)]
  | gre h => rfl

theorem addrs_rebuildHeaders (hs : List IpHeader) :
    (rebuildHeaders around dirty hs).map (·.addrs?) = hs.map (·.addrs?) := by
  induction hs with
  | nil => rfl
  | cons h hs ih =>
    rw [rebuildHeaders, List.foldr_cons, List.map_cons, List.map_cons, addrs_rebuildHeader]
    exact congrArg _ ih

theorem innermostAddrs_congr (h : c'.headers.map (·.addrs?) = c.headers.map (·.addrs?)) :
    c'.innermostAddrs? = c.innermostAddrs? := by
  have hmap (hs : List IpHeader) : hs.reverse.findSome? (·.addrs?) =
      (hs.map (·.addrs?)).reverse.findSome? id := by
    rw [← List.map_reverse, List.findSome?_map]
    rfl
  rw [innermostAddrs?, innermostAddrs?, hmap, hmap, h]

/-- A rebuild keeps the addresses. -/
theorem innermostAddrs_rebuild (c : IpChain) :
    (c.rebuild around dirty).innermostAddrs? = c.innermostAddrs? :=
  innermostAddrs_congr (addrs_rebuildHeaders c.headers)

/-- The IPv4 headers of a rebuilt chain verify, if they were balanced where the chain is said to be
clean. -/
theorem rebuild_holds (hb : dirty = false → c.Balanced) (addrs : Option IpAddrs) (inner : Bytes) :
    (Header.ip (c.rebuild around dirty)).ChecksumsHold addrs inner := by
  obtain ⟨hs, trailer⟩ := c
  induction hs with
  | nil =>
    intro k hk
    cases hk
  | cons h hs ih =>
    intro k hk
    obtain rfl | hk := List.mem_cons.mp hk
    · cases h with
      | v4 v => exact Ipv4.rebuild_verifies (fun hd => hb hd v List.mem_cons_self) _ _
      | v6 v => trivial
      | gre v => trivial
    · exact ih (fun hd v hv => hb hd v (List.mem_cons_of_mem _ hv)) k hk

/-- The GRE headers of a rebuilt chain verify. -/
theorem rebuild_greHolds (c : IpChain) :
    (Header.ip (c.rebuild around dirty)).GreChecksumsHold around.inner := by
  obtain ⟨hs, trailer⟩ := c
  induction hs with
  | nil =>
    intro g inside hg
    cases List.suffix_nil.mp hg
  | cons h hs ih =>
    intro g inside hg hc
    obtain hg | hg := List.suffix_cons_iff.mp hg
    · obtain ⟨hhead, rfl⟩ := List.cons.inj hg
      cases h with
      | v4 w => cases hhead
      | v6 w => cases hhead
      | gre w =>
        cases hhead
        exact Gre.rebuild_verifies w _ _ hc
    · exact ih g inside hg hc

/-- An update that leaves the chain clean keeps it balanced: it changed a hop limit, and where that
is a time to live the checksum has been adjusted. -/
theorem update_balanced {num : FieldNum} {inst : Instance} {op : FieldOp} {arg : Bytes}
    (hb : c.Balanced) (hu : c.update num inst op arg = .ok (c', false)) : c'.Balanced := by
  rw [update] at hu
  split at hu
  · rename_i r hr
    cases hu
    simp only [Option.bind_eq_bind, Option.bind_eq_some_iff] at hr
    obtain ⟨i, -, h, hi, ⟨h', d⟩, hup, hr⟩ := hr
    cases hr
    intro v hv
    obtain hv | rfl := List.mem_or_eq_of_mem_set hv
    · exact hb v hv
    · cases h with
      | v4 w =>
        simp only [IpHeader.update?, Option.map_eq_some_iff, Prod.mk.injEq, IpHeader.v4.injEq,
          Prod.exists] at hup
        obtain ⟨w', d, hup, rfl, rfl⟩ := hup
        rw [Ipv4.update?] at hup
        split at hup
        · cases hup
          exact Ipv4.decrementTtl_balanced (hb w (List.mem_of_getElem? hi)) arg
        · split at hup
          · cases hup
          · simp at hup
      | v6 w => simp [IpHeader.update?] at hup
      | gre w => simp [IpHeader.update?] at hup
  · cases hu

end IpChain

end Dataplane

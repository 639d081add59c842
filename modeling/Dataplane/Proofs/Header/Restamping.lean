import Dataplane.Proofs.Header.IpChecksums

/-!
# Rebuilding twice

A rebuild stores lengths, protocols and checksums; what it stores depends on the surroundings and on
the rest of the header, never on what was stored there before. So the last of several rebuilds
counts.

## The model

The exception is a checksum that a rebuild takes over because nothing seems to have changed. An
IPv4 header is `Sealed` if its checksum is the one that would be computed; for such a header it
makes no difference whether the checksum is computed or taken over, and a rebuild of a dirty header
leaves a sealed one. A protocol is stored only if what follows has a number, so both rebuilds have
to see the same kind behind the chain (`IpChain.rebuildHeaders_rebuildHeaders`).
-/

namespace Dataplane

/-! ### IPv4 -/

namespace Ipv4

variable {h h' : Ipv4}

/-- The checksum is the one that would be computed. -/
def Sealed (h : Ipv4) : Prop := h.computeChecksum = h

instance : Decidable h.Sealed := decEq _ _

/-- The header with a total length and a protocol stored. -/
def stamp (h : Ipv4) (total : Nat) (proto : UInt8) : Ipv4 :=
  { h with base := (h.base.setNum totalLenSlot total).set protoSlot [proto] }

theorem computeChecksum_congr
    (hb : h.base.setNum checksumSlot 0 = h'.base.setNum checksumSlot 0)
    (ho : h.options = h'.options) : h.computeChecksum = h'.computeChecksum := by
  simp only [computeChecksum, hb, ho]

theorem sealed_computeChecksum (h : Ipv4) : h.computeChecksum.Sealed :=
  computeChecksum_congr (by simp only [computeChecksum, Block.setNum, Block.set_set]) rfl

theorem stamp_stamp (h : Ipv4) (total total' : Nat) (proto proto' : UInt8) :
    (h.stamp total proto).stamp total' proto' = h.stamp total' proto' := by
  have apart : protoSlot.Apart totalLenSlot := by decide
  simp only [stamp, Block.setNum]
  rw [Block.set_comm apart, Block.set_set, Block.set_set]

/-- Storing what is there changes nothing. -/
theorem stamp_self (h : Ipv4) : h.stamp h.totalLen h.proto = h := by
  have hp : [h.proto] = h.base.get protoSlot :=
    (h.base.get_eq_singleton (s := protoSlot) rfl).symm
  rw [stamp, totalLen, Block.setNum_num, hp, Block.set_get]

theorem computeChecksum_stamp_computeChecksum (h : Ipv4) (total : Nat) (proto : UInt8) :
    (h.computeChecksum.stamp total proto).computeChecksum =
      (h.stamp total proto).computeChecksum := by
  have hl : checksumSlot.Apart totalLenSlot := by decide
  have hp : checksumSlot.Apart protoSlot := by decide
  refine computeChecksum_congr ?_ rfl
  -- The checksum is cleared before anything is computed, so it may as well be cleared first.
  simp only [stamp, computeChecksum, Block.setNum]
  rw [← Block.set_comm hp, ← Block.set_comm hp, ← Block.set_comm hl, ← Block.set_comm hl,
    Block.set_set, Block.set_set]

theorem proto_eq_of_get (hb : h.base.get protoSlot = h'.base.get protoSlot) :
    h.proto = h'.proto := by
  rw [Block.get_eq_singleton _ rfl, Block.get_eq_singleton _ rfl, List.singleton_inj] at hb
  exact hb

@[simp] theorem proto_computeChecksum (h : Ipv4) : h.computeChecksum.proto = h.proto := by
  have apart : checksumSlot.Apart protoSlot := by decide
  refine proto_eq_of_get ?_
  rw [computeChecksum, Block.get_set_of_apart apart, Block.get_setNum_of_apart apart]

@[simp] theorem proto_stamp (h : Ipv4) (total : Nat) (proto : UInt8) :
    (h.stamp total proto).proto = proto := by
  have hget := Block.get_set_self (h.base.setNum totalLenSlot total) protoSlot [proto]
  rw [Block.get_eq_singleton _ rfl] at hget
  exact List.singleton_inj.mp hget

@[simp] theorem totalLen_computeChecksum (h : Ipv4) : h.computeChecksum.totalLen = h.totalLen := by
  have apart : checksumSlot.Apart totalLenSlot := by decide
  rw [totalLen, totalLen, Block.num, computeChecksum, Block.get_set_of_apart apart,
    Block.get_setNum_of_apart apart, Block.num]

@[simp] theorem totalLen_stamp (h : Ipv4) {total : Nat} (ht : total ≤ 65535) (proto : UInt8) :
    (h.stamp total proto).totalLen = total := by
  have apart : protoSlot.Apart totalLenSlot := by decide
  rw [totalLen, Block.num, stamp, Block.get_set_of_apart apart, ← Block.num, Block.num_setNum]
  exact Nat.mod_eq_of_lt (Nat.lt_succ_of_le ht)

/-- The total length a rebuild stores. -/
def total (h : Ipv4) (innerLen : Nat) : Nat := min (h.wireLen + innerLen) 65535

theorem rebuild_eq (h : Ipv4) (innerLen : Nat) (proto : Option UInt8) (dirty : Bool) :
    h.rebuild innerLen proto dirty =
      if h.total innerLen ≠ h.totalLen ∨ proto.getD h.proto ≠ h.proto ∨ dirty then
        (h.stamp (h.total innerLen) (proto.getD h.proto)).computeChecksum
      else h := by
  have hstamped : h.rebuild innerLen proto dirty =
      if h.total innerLen ≠ h.totalLen ∨ proto.getD h.proto ≠ h.proto ∨ dirty then
        (h.stamp (h.total innerLen) (proto.getD h.proto)).computeChecksum
      else h.stamp (h.total innerLen) (proto.getD h.proto) := rfl
  rw [hstamped]
  split
  · rfl
  · rename_i hsame
    simp only [not_or, ne_eq, not_not] at hsame
    have hstamp := h.stamp_self
    rw [← hsame.1, ← hsame.2.1] at hstamp
    exact hstamp

theorem rebuild_dirty (h : Ipv4) (innerLen : Nat) (proto : Option UInt8) :
    h.rebuild innerLen proto true =
      (h.stamp (h.total innerLen) (proto.getD h.proto)).computeChecksum := by
  rw [rebuild_eq, if_pos (.inr (.inr rfl))]

theorem sealed_rebuild_dirty (h : Ipv4) (innerLen : Nat) (proto : Option UInt8) :
    (h.rebuild innerLen proto true).Sealed := by
  rw [rebuild_dirty]
  exact sealed_computeChecksum _

/-- It makes no difference whether a sealed header is dirty. -/
theorem Sealed.rebuild_eq (hs : h.Sealed) (innerLen : Nat) (proto : Option UInt8) (dirty : Bool) :
    h.rebuild innerLen proto dirty = h.rebuild innerLen proto true := by
  rw [rebuild_dirty, Ipv4.rebuild_eq]
  split
  · rfl
  · rename_i hsame
    simp only [not_or, ne_eq, not_not] at hsame
    rw [hsame.1, hsame.2.1, stamp_self, hs]

@[simp] theorem wireLen_rebuild (h : Ipv4) (innerLen : Nat) (proto : Option UInt8) (dirty : Bool) :
    (h.rebuild innerLen proto dirty).wireLen = h.wireLen := by
  rw [rebuild_eq]
  split <;> rfl

@[simp] theorem proto_rebuild (h : Ipv4) (innerLen : Nat) (proto : Option UInt8) (dirty : Bool) :
    (h.rebuild innerLen proto dirty).proto = proto.getD h.proto := by
  rw [rebuild_eq]
  split
  · rw [proto_computeChecksum, proto_stamp]
  · rename_i hsame
    simp only [not_or, ne_eq, not_not] at hsame
    exact hsame.2.1.symm

/-- A rebuild of a dirty header leaves nothing that a later one would miss. -/
theorem rebuild_rebuild (h : Ipv4) (innerLen innerLen' : Nat) (proto : Option UInt8)
    (dirty : Bool) :
    (h.rebuild innerLen proto true).rebuild innerLen' proto dirty =
      h.rebuild innerLen' proto true := by
  have htotal : (h.rebuild innerLen proto true).total innerLen' = h.total innerLen' := by
    rw [total, wireLen_rebuild, total]
  have hproto : proto.getD (h.rebuild innerLen proto true).proto = proto.getD h.proto := by
    rw [proto_rebuild]
    cases proto <;> rfl
  rw [(h.sealed_rebuild_dirty innerLen proto).rebuild_eq, rebuild_dirty _ innerLen', htotal, hproto,
    rebuild_dirty, computeChecksum_stamp_computeChecksum, stamp_stamp, rebuild_dirty]

end Ipv4

/-! ### IPv6 and GRE -/

theorem Ipv6.rebuild_rebuild (h : Ipv6) (innerLen innerLen' : Nat) (next : Option UInt8) :
    (h.rebuild innerLen next).rebuild innerLen' next = h.rebuild innerLen' next := by
  have apart : nextHeaderSlot.Apart payloadLenSlot := by decide
  cases next with
  | none => simp only [rebuild, Block.setNum, Block.set_set]
  | some p =>
    simp only [rebuild, Block.setNum]
    rw [Block.set_comm apart, Block.set_set, Block.set_set]

namespace Gre

theorem stampChecksum_stampChecksum (h : Gre) (inner inner' : Bytes) :
    (h.stampChecksum inner).stampChecksum inner' = h.stampChecksum inner' := by
  obtain ⟨base, checksum, key, seq⟩ := h
  cases checksum <;> rfl

theorem wireLen_stampChecksum (h : Gre) (inner : Bytes) :
    (h.stampChecksum inner).wireLen = h.wireLen := by
  obtain ⟨base, checksum, key, seq⟩ := h
  cases checksum <;> rfl

@[simp] theorem wireLen_rebuild (h : Gre) (innerType : Option Nat) (inner : Bytes) :
    (h.rebuild innerType inner).wireLen = h.wireLen := by
  cases innerType <;> exact wireLen_stampChecksum _ _

theorem rebuild_rebuild (h : Gre) (innerType : Option Nat) (inner inner' : Bytes) :
    (h.rebuild innerType inner).rebuild innerType inner' = h.rebuild innerType inner' := by
  cases innerType with
  | none => exact h.stampChecksum_stampChecksum inner inner'
  | some t =>
    obtain ⟨base, checksum, key, seq⟩ := h
    cases checksum with
    | none => simp only [rebuild, stampChecksum, Block.setNum, Block.set_set]
    | some word => simp only [rebuild, stampChecksum, Block.setNum, Block.set_set]

end Gre

/-! ### Chains -/

namespace IpChain

variable {around around' : Surroundings} {dirty : Bool} {h : IpHeader} {inside hs : List IpHeader}

/-- The kind of what follows a header of a chain. -/
def followedBy (around : Surroundings) (inside : List IpHeader) : Option HeaderKind :=
  (inside.head?.map (·.kind)).or around.innerKind

/-- The number of bytes that follow a header of a chain. -/
def lengthInside (around : Surroundings) (inside : List IpHeader) : Nat :=
  inside.foldr (·.wireLen + ·) around.innerLen

theorem rebuildHeader_v4 (v : Ipv4) : rebuildHeader around dirty (.v4 v) inside =
    .v4 (v.rebuild (lengthInside around inside)
      (followedBy around inside >>= IpProtocol.ofKind?) dirty) := by
  cases inside <;> rfl

theorem rebuildHeader_v6 (v : Ipv6) : rebuildHeader around dirty (.v6 v) inside =
    .v6 (v.rebuild (lengthInside around inside)
      (followedBy around inside >>= IpProtocol.ofKind?)) := by
  cases inside <;> rfl

theorem rebuildHeader_gre (g : Gre) : rebuildHeader around dirty (.gre g) inside =
    .gre (g.rebuild (followedBy around inside >>= Gre.typeOfKind?)
      (emitHeaders inside ++ around.inner)) := by
  cases inside <;> rfl

theorem rebuildHeaders_cons (around : Surroundings) (dirty : Bool) (h : IpHeader)
    (hs : List IpHeader) : rebuildHeaders around dirty (h :: hs) =
      rebuildHeader around dirty h (rebuildHeaders around dirty hs) ::
        rebuildHeaders around dirty hs := rfl

@[simp] theorem kind_rebuildHeader : (rebuildHeader around dirty h inside).kind = h.kind := by
  cases h <;> rfl

@[simp] theorem wireLen_rebuildHeader :
    (rebuildHeader around dirty h inside).wireLen = h.wireLen := by
  cases h with
  | v4 v => rw [rebuildHeader_v4, IpHeader.wireLen, Ipv4.wireLen_rebuild, IpHeader.wireLen]
  | v6 v => rfl
  | gre g => rw [rebuildHeader_gre, IpHeader.wireLen, Gre.wireLen_rebuild, IpHeader.wireLen]

theorem kinds_rebuildHeaders (hs : List IpHeader) :
    (rebuildHeaders around dirty hs).map (·.kind) = hs.map (·.kind) := by
  induction hs with
  | nil => rfl
  | cons h hs ih => rw [rebuildHeaders_cons, List.map_cons, List.map_cons, kind_rebuildHeader, ih]

theorem wireLens_rebuildHeaders (hs : List IpHeader) :
    (rebuildHeaders around dirty hs).map (·.wireLen) = hs.map (·.wireLen) := by
  induction hs with
  | nil => rfl
  | cons h hs ih =>
    rw [rebuildHeaders_cons, List.map_cons, List.map_cons, wireLen_rebuildHeader, ih]

theorem followedBy_congr (h : inside.map (·.kind) = hs.map (·.kind)) :
    followedBy around inside = followedBy around hs := by
  rw [followedBy, ← List.head?_map, h, List.head?_map, followedBy]

theorem lengthInside_congr (h : inside.map (·.wireLen) = hs.map (·.wireLen)) :
    lengthInside around inside = lengthInside around hs := by
  have hsum (l : List IpHeader) :
      lengthInside around l = (l.map (·.wireLen)).foldr (· + ·) around.innerLen :=
    List.foldr_map.symm
  rw [hsum, h, ← hsum]

theorem followedBy_rebuildHeaders (around' : Surroundings) (hs : List IpHeader) :
    followedBy around' (rebuildHeaders around dirty hs) = followedBy around' hs :=
  followedBy_congr (kinds_rebuildHeaders hs)

theorem lengthInside_rebuildHeaders (around' : Surroundings) (hs : List IpHeader) :
    lengthInside around' (rebuildHeaders around dirty hs) = lengthInside around' hs :=
  lengthInside_congr (wireLens_rebuildHeaders hs)

/-- Of two rebuilds before the same kind the second counts, if the first was one of a dirty
chain. -/
theorem rebuildHeaders_rebuildHeaders (hk : around.innerKind = around'.innerKind) (dirty : Bool)
    (hs : List IpHeader) : rebuildHeaders around' dirty (rebuildHeaders around true hs) =
      rebuildHeaders around' true hs := by
  induction hs with
  | nil => rfl
  | cons h hs ih =>
    have hfollowed : followedBy around (rebuildHeaders around true hs) =
        followedBy around' (rebuildHeaders around' true hs) := by
      rw [followedBy_rebuildHeaders, followedBy_rebuildHeaders, followedBy, followedBy, hk]
    rw [rebuildHeaders_cons, rebuildHeaders_cons, ih, rebuildHeaders_cons]
    congr 1
    cases h with
    | v4 v => simp only [rebuildHeader_v4, hfollowed, Ipv4.rebuild_rebuild]
    | v6 v => simp only [rebuildHeader_v6, hfollowed, Ipv6.rebuild_rebuild]
    | gre g => simp only [rebuildHeader_gre, hfollowed, Gre.rebuild_rebuild]

end IpChain

/-- An IPv4 header is sealed. -/
def IpHeader.Sealed : IpHeader → Prop
  | v4 h => h.Sealed
  | _ => True

instance (h : IpHeader) : Decidable h.Sealed :=
  match h with
  | .v4 h => inferInstanceAs (Decidable h.Sealed)
  | .v6 _ => inferInstanceAs (Decidable True)
  | .gre _ => inferInstanceAs (Decidable True)

namespace IpChain

variable {around : Surroundings} {hs : List IpHeader}

/-- It makes no difference whether a chain of sealed headers is dirty. -/
theorem rebuildHeaders_of_sealed (hsealed : ∀ h ∈ hs, h.Sealed) (dirty : Bool) :
    rebuildHeaders around dirty hs = rebuildHeaders around true hs := by
  induction hs with
  | nil => rfl
  | cons h hs ih =>
    rw [rebuildHeaders_cons, ih fun h' hh => hsealed h' (List.mem_cons_of_mem _ hh),
      rebuildHeaders_cons]
    congr 1
    cases h with
    | v4 v =>
      have hv : v.Sealed := hsealed (.v4 v) List.mem_cons_self
      rw [rebuildHeader_v4, rebuildHeader_v4, hv.rebuild_eq]
    | v6 v => rfl
    | gre g => rfl

theorem sealed_rebuildHeaders (hs : List IpHeader) :
    ∀ h ∈ rebuildHeaders around true hs, h.Sealed := by
  induction hs with
  | nil =>
    intro h hh
    cases hh
  | cons h hs ih =>
    intro h' hh
    obtain rfl | hh := List.mem_cons.mp hh
    · cases h with
      | v4 v => exact v.sealed_rebuild_dirty _ _
      | v6 v => trivial
      | gre g => trivial
    · exact ih h' hh

end IpChain

end Dataplane

import Dataplane.Proofs.Fields.Chains
import Dataplane.Proofs.Header.Decrement

/-!
# Hop limits in chains of headers

When a packet is passed on, the time to live of an IPv4 header is decremented and its checksum
adjusted, or the hop limit of an IPv6 header is changed. The header is clean then, so a rebuild of
the chain finds nothing new in it. But a GRE header further out covers it by its checksum.

## The model

`IpChain.Forwarded touched hs hs'` compares two chains place by place: in the places that are
`touched` the hop limits may differ, with the checksums of IPv4 headers, and outside of them the
checksums of GRE headers. An operation on a hop limit that is touched leads from such a chain to
another (`IpChain.Forwarded.update`), and so does a rebuild of both chains
(`IpChain.Forwarded.rebuild`). What the relation says of the bytes is
`IpChain.Forwarded.affected`.
-/

namespace Dataplane

/-! ### IPv4 -/

namespace Ipv4

theorem get_withHop {s : Slot 20} (httl : ttlSlot.Apart s) (hsum : checksumSlot.Apart s)
    (h : Ipv4) (ttl sum : Bytes) : (h.withHop ttl sum).base.get s = h.base.get s := by
  rw [withHop, Block.get_set_of_apart hsum, Block.get_set_of_apart httl]

theorem withHop_withHop (h : Ipv4) (ttl sum ttl' sum' : Bytes) :
    (h.withHop ttl sum).withHop ttl' sum' = h.withHop ttl' sum' := by
  have apart : checksumSlot.Apart ttlSlot := by decide
  simp only [withHop]
  rw [Block.set_comm apart, Block.set_set, Block.set_set]

theorem stamp_withHop (h : Ipv4) (ttl sum : Bytes) (total : Nat) (proto : UInt8) :
    (h.withHop ttl sum).stamp total proto = (h.stamp total proto).withHop ttl sum := by
  have hsl : checksumSlot.Apart totalLenSlot := by decide
  have hsp : checksumSlot.Apart protoSlot := by decide
  have htl : ttlSlot.Apart totalLenSlot := by decide
  have htp : ttlSlot.Apart protoSlot := by decide
  simp only [stamp, withHop, Block.setNum]
  rw [Block.set_comm hsl, Block.set_comm htl, Block.set_comm hsp, Block.set_comm htp]

theorem computeChecksum_withHop (h : Ipv4) (ttl sum : Bytes) :
    ∃ sum', (h.withHop ttl sum).computeChecksum = h.computeChecksum.withHop ttl sum' := by
  have apart : checksumSlot.Apart ttlSlot := by decide
  refine ⟨Checksum.ofBytes ((h.withHop ttl sum).cleared.bytes ++ h.options), ?_⟩
  rw [computeChecksum_eq, computeChecksum_eq]
  simp only [withHop]
  rw [Block.set_set, Block.set_comm apart, Block.set_set]

/-- A rebuild stores the same in both headers but for the checksum. -/
theorem rebuild_withHop (h : Ipv4) (ttl sum : Bytes) (innerLen : Nat) (proto : Option UInt8)
    (dirty : Bool) : ∃ sum', (h.withHop ttl sum).rebuild innerLen proto dirty =
      (h.rebuild innerLen proto dirty).withHop ttl sum' := by
  have htotal : (h.withHop ttl sum).total innerLen = h.total innerLen := rfl
  have hlen : (h.withHop ttl sum).totalLen = h.totalLen := by
    rw [totalLen, Block.num, get_withHop (by decide) (by decide), totalLen, Block.num]
  have hproto : (h.withHop ttl sum).proto = h.proto :=
    proto_eq_of_get (get_withHop (by decide) (by decide) _ _ _)
  rw [rebuild_eq, rebuild_eq, htotal, hlen, hproto]
  split
  · rw [stamp_withHop]
    exact computeChecksum_withHop _ _ _
  · exact ⟨sum, rfl⟩

end Ipv4

/-! ### IPv6 -/

namespace Ipv6

/-- The header with a hop limit stored. -/
def withHop (h : Ipv6) (hops : Bytes) : Ipv6 := ⟨h.base.set hopLimitSlot hops⟩

theorem get_withHop {s : Slot 40} (apart : hopLimitSlot.Apart s) (h : Ipv6) (hops : Bytes) :
    (h.withHop hops).base.get s = h.base.get s :=
  Block.get_set_of_apart apart _ _

theorem withHop_withHop (h : Ipv6) (hops hops' : Bytes) :
    (h.withHop hops).withHop hops' = h.withHop hops' := by
  rw [withHop, withHop, withHop, Block.set_set]

/-- Nothing but the hop limit is touched. -/
theorem getElem?_emit_withHop (h : Ipv6) (hops : Bytes) {i : Nat} (hi : i ≠ 7) :
    (h.withHop hops).emit[i]? = h.emit[i]? := by
  refine Block.getElem?_set_outside ?_ _ _
  simp only [hopLimitSlot, Slot.start_of, Slot.width_of]
  omega

theorem rebuild_withHop (h : Ipv6) (hops : Bytes) (innerLen : Nat) (next : Option UInt8) :
    (h.withHop hops).rebuild innerLen next = (h.rebuild innerLen next).withHop hops := by
  have hlen : hopLimitSlot.Apart payloadLenSlot := by decide
  have hnext : hopLimitSlot.Apart nextHeaderSlot := by decide
  cases next with
  | none => simp only [rebuild, withHop, Block.setNum, Block.set_comm hlen]
  | some p => simp only [rebuild, withHop, Block.setNum, Block.set_comm hlen, Block.set_comm hnext]

end Ipv6

/-! ### GRE -/

namespace Gre

/-- The header with a checksum stored, if it carries one. -/
def withSum (h : Gre) (sum : Bytes) : Gre :=
  { h with checksum := h.checksum.map (·.set checksumSlot sum) }

theorem wireLen_withSum (h : Gre) (sum : Bytes) : (h.withSum sum).wireLen = h.wireLen := by
  obtain ⟨base, checksum, key, seq⟩ := h
  cases checksum <;> rfl

/-- Nothing but the checksum is touched. -/
theorem getElem?_emit_withSum (h : Gre) (sum : Bytes) {i : Nat}
    (hi : h.checksum.isSome → i ∉ [4, 5]) : (h.withSum sum).emit[i]? = h.emit[i]? := by
  obtain ⟨base, checksum, key, seq⟩ := h
  cases checksum with
  | none => rfl
  | some word =>
    have hout := hi rfl
    simp only [List.mem_cons, List.not_mem_nil, or_false, not_or] at hout
    simp only [emit, withSum, words, Option.map_some, Option.toList_some, List.cons_append,
      List.nil_append, List.flatMap_cons, List.getElem?_append, Block.length_eq]
    split
    · rfl
    · split
      · refine Block.getElem?_set_outside ?_ _ _
        simp only [checksumSlot, Slot.start_of, Slot.width_of]
        omega
      · rfl

/-- A rebuild does not look at the checksum that is there. -/
theorem rebuild_withSum (h : Gre) (sum : Bytes) (innerType : Option Nat) (inner : Bytes) :
    (h.withSum sum).rebuild innerType inner = h.rebuild innerType inner := by
  obtain ⟨base, checksum, key, seq⟩ := h
  cases checksum <;> cases innerType <;> rfl

/-- What is inside makes a difference to the checksum only. -/
theorem rebuild_eq_withSum (h : Gre) (innerType : Option Nat) (inner inner' : Bytes) :
    ∃ sum, h.rebuild innerType inner' = (h.rebuild innerType inner).withSum sum := by
  obtain ⟨base, checksum, key, seq⟩ := h
  cases checksum with
  | none => exact ⟨[], by cases innerType <;> rfl⟩
  | some word =>
    cases innerType <;>
      exact ⟨_, by simp only [rebuild, stampChecksum, withSum, Option.map_some, Block.set_set]; rfl⟩

end Gre

/-! ### Headers of a chain -/

namespace IpHeader

variable {here inside : Prop} {h h' h'' : IpHeader} {op : FieldOp} {arg : Bytes} {dirty : Bool}

/-- What has become of a header when hop limits have been changed: its own if it is touched `here`,
and those of headers `inside` it. -/
inductive Forwarded (here inside : Prop) : IpHeader → IpHeader → Prop
  /-- It is as it was. -/
  | same (h : IpHeader) : Forwarded here inside h h
  /-- Its time to live has been changed, and the checksum. -/
  | v4 (hh : here) (v : Ipv4) (ttl sum : Bytes) :
    Forwarded here inside (.v4 v) (.v4 (v.withHop ttl sum))
  /-- Its hop limit has been changed. -/
  | v6 (hh : here) (v : Ipv6) (hops : Bytes) : Forwarded here inside (.v6 v) (.v6 (v.withHop hops))
  /-- Its checksum has been computed anew. -/
  | gre (hi : inside) (g : Gre) (sum : Bytes) : Forwarded here inside (.gre g) (.gre (g.withSum sum))

/-- The bytes that hold the hop limit, and the checksum over them. -/
def hopBytes : IpHeader → List Nat
  | .v4 _ => [8, 10, 11]
  | .v6 _ => [7]
  | .gre _ => []

/-- The bytes that hold a checksum over everything inside. -/
def sumBytes : IpHeader → List Nat
  | .gre h => if h.checksum.isSome then [4, 5] else []
  | _ => []

namespace Forwarded

theorem kind (hf : h.Forwarded here inside h') : h'.kind = h.kind := by
  cases hf <;> rfl

theorem isGre (hf : h.Forwarded here inside h') : h'.isGre = h.isGre := by
  cases hf <;> rfl

theorem wireLen (hf : h.Forwarded here inside h') : h'.wireLen = h.wireLen := by
  cases hf with
  | gre hi g sum => exact g.wireLen_withSum sum
  | _ => rfl

theorem addrs (hf : h.Forwarded here inside h') : h'.addrs? = h.addrs? := by
  cases hf with
  | v4 hh v ttl sum =>
    simp only [addrs?, Ipv4.src, Ipv4.dst]
    rw [Ipv4.get_withHop (by decide) (by decide), Ipv4.get_withHop (by decide) (by decide)]
  | v6 hh v hops =>
    simp only [addrs?, Ipv6.src, Ipv6.dst]
    rw [Ipv6.get_withHop (by decide), Ipv6.get_withHop (by decide)]
  | same | gre => rfl

/-- A header is as it was if nothing that counts for it has been touched. -/
theorem eq_of_untouched (hf : h.Forwarded here inside h') (hhere : ¬here) (hinside : ¬inside) :
    h' = h := by
  cases hf with
  | same => rfl
  | v4 hh | v6 hh => exact absurd hh hhere
  | gre hi => exact absurd hi hinside

/-- A decrement, or any operation on a hop limit of IPv6, leads to such a header again, and leaves
it clean. -/
theorem update (hf : h.Forwarded here inside h') (hhere : here) (hop : op = .dec ∨ ∃ v, h = .v6 v)
    (hu : h'.update? .ipHop op arg = some (h'', dirty)) :
    h.Forwarded here inside h'' ∧ dirty = false := by
  have hv4 (v w : Ipv4) (hw : ∀ ttl sum, w.withHop ttl sum = v.withHop ttl sum) (hdec : op = .dec)
      (hu : (IpHeader.v4 w).update? .ipHop op arg = some (h'', dirty)) :
      (IpHeader.v4 v).Forwarded here inside h'' ∧ dirty = false := by
    subst hdec
    cases hu
    rw [w.decrementTtl_eq, hw]
    exact ⟨.v4 hhere v _ _, rfl⟩
  have hv6 (v w : Ipv6) (hw : ∀ hops, w.withHop hops = v.withHop hops)
      (hu : (IpHeader.v6 w).update? .ipHop op arg = some (h'', dirty)) :
      (IpHeader.v6 v).Forwarded here inside h'' ∧ dirty = false := by
    cases hu
    rw [Block.update, ← Ipv6.withHop, hw]
    exact ⟨.v6 hhere v _, rfl⟩
  cases hf with
  | same =>
    cases h with
    | v4 v => exact hv4 v v (fun _ _ => rfl) (hop.resolve_right (by rintro ⟨_, ⟨⟩⟩)) hu
    | v6 v => exact hv6 v v (fun _ => rfl) hu
    | gre g => cases hu
  | v4 hh v ttl sum =>
    exact hv4 v _ (v.withHop_withHop ttl sum) (hop.resolve_right (by rintro ⟨_, ⟨⟩⟩)) hu
  | v6 hh v hops => exact hv6 v _ (v.withHop_withHop hops) hu
  | gre hi g sum => cases hu

/-- The bytes in which the two headers may differ. -/
theorem mem_of_ne (hf : h.Forwarded here inside h') {j : Nat} (hj : h'.emit[j]? ≠ h.emit[j]?) :
    here ∧ j ∈ h.hopBytes ∨ inside ∧ j ∈ h.sumBytes := by
  cases hf with
  | same => exact absurd rfl hj
  | v4 hh v ttl sum =>
    refine .inl ⟨hh, ?_⟩
    by_contra hout
    exact hj (v.getElem?_emit_withHop ttl sum hout)
  | v6 hh v hops =>
    refine .inl ⟨hh, ?_⟩
    by_contra hout
    exact hj (v.getElem?_emit_withHop hops fun heq => hout (List.mem_singleton.mpr heq))
  | gre hi g sum =>
    refine .inr ⟨hi, ?_⟩
    by_contra hout
    refine hj (g.getElem?_emit_withSum sum fun hsome => ?_)
    rwa [sumBytes, if_pos hsome] at hout

end Forwarded

end IpHeader

/-! ### Chains -/

namespace IpChain

variable {touched : Nat → Prop} {hs hs' inner inner' : List IpHeader} {c c' c'' : IpChain}
  {around : Surroundings} {inst : Instance} {op : FieldOp} {arg : Bytes} {dirty : Bool}

/-- What is inside a GRE header is covered by its checksum. -/
theorem forwarded_gre {here inside : Prop} (hi : inside) (g : Gre)
    (hkind : followedBy around inner' = followedBy around inner) :
    (rebuildHeader around dirty (.gre g) inner).Forwarded here inside
      (rebuildHeader around dirty (.gre g) inner') := by
  obtain ⟨sum, hsum⟩ := g.rebuild_eq_withSum (followedBy around inner >>= Gre.typeOfKind?)
    (emitHeaders inner ++ around.inner) (emitHeaders inner' ++ around.inner)
  rw [rebuildHeader_gre, rebuildHeader_gre, hkind, hsum]
  exact .gre hi _ sum

/-- A rebuild makes such headers of such headers, if it finds the same inside where nothing has been
touched. -/
theorem forwarded_rebuildHeader {here inside : Prop} {h h' : IpHeader}
    (hf : h.Forwarded here inside h') (hsame : ¬inside → inner' = inner)
    (hkind : followedBy around inner' = followedBy around inner)
    (hlen : lengthInside around inner' = lengthInside around inner) :
    (rebuildHeader around dirty h inner).Forwarded here inside
      (rebuildHeader around dirty h' inner') := by
  cases hf with
  | same =>
    cases h with
    | v4 v =>
      rw [rebuildHeader_v4, rebuildHeader_v4, hkind, hlen]
      exact .same _
    | v6 v =>
      rw [rebuildHeader_v6, rebuildHeader_v6, hkind, hlen]
      exact .same _
    | gre g =>
      by_cases hi : inside
      · exact forwarded_gre hi g hkind
      · rw [hsame hi]
        exact .same _
  | v4 hh v ttl sum =>
    obtain ⟨sum', hsum⟩ := v.rebuild_withHop ttl sum (lengthInside around inner)
      (followedBy around inner >>= IpProtocol.ofKind?) dirty
    rw [rebuildHeader_v4, rebuildHeader_v4, hkind, hlen, hsum]
    exact .v4 hh _ ttl sum'
  | v6 hh v hops =>
    rw [rebuildHeader_v6, rebuildHeader_v6, hkind, hlen, Ipv6.rebuild_withHop]
    exact .v6 hh _ hops
  | gre hi g sum =>
    rw [rebuildHeader_gre (g.withSum sum), Gre.rebuild_withSum, ← rebuildHeader_gre]
    exact forwarded_gre hi g hkind

/-- What has become of the headers of a chain when the hop limits in the `touched` places have been
changed. -/
inductive Forwarded : (Nat → Prop) → List IpHeader → List IpHeader → Prop
  /-- No headers. -/
  | nil {touched : Nat → Prop} : Forwarded touched [] []
  /-- A header before others. -/
  | cons {touched : Nat → Prop} {h h' : IpHeader} {hs hs' : List IpHeader}
    (hh : h.Forwarded (touched 0) (∃ i, touched (i + 1)) h')
    (hhs : Forwarded (fun i => touched (i + 1)) hs hs') : Forwarded touched (h :: hs) (h' :: hs')

/-- A byte that may change when hop limits in the `touched` places do: one of a touched hop limit or
of the checksum of its IPv4 header, or one of the checksum of a GRE header around it. -/
def Affected (touched : Nat → Prop) (hs : List IpHeader) (k : Nat) : Prop :=
  ∃ i h j, hs[i]? = some h ∧ k = (emitHeaders (hs.take i)).length + j ∧
    (touched i ∧ j ∈ h.hopBytes ∨ (∃ i' > i, touched i') ∧ j ∈ h.sumBytes)

namespace Forwarded

theorem refl (touched : Nat → Prop) (hs : List IpHeader) : Forwarded touched hs hs := by
  induction hs generalizing touched with
  | nil => exact .nil
  | cons h hs ih => exact .cons (.same h) (ih _)

/-- What depends on the headers one by one, and is kept by them, is the same for the chain. -/
theorem map_eq {α : Type} {f : IpHeader → α}
    (hkept : ∀ {here inside h h'}, IpHeader.Forwarded here inside h h' → f h' = f h)
    (hf : Forwarded touched hs hs') : hs'.map f = hs.map f := by
  induction hf with
  | nil => rfl
  | cons hh _ ih => rw [List.map_cons, List.map_cons, hkept hh, ih]

theorem eq_of_untouched (hf : Forwarded touched hs hs') (hnone : ∀ i, ¬touched i) : hs' = hs := by
  induction hf with
  | nil => rfl
  | cons hh _ ih =>
    rw [hh.eq_of_untouched (hnone 0) fun ⟨i, hi⟩ => hnone _ hi, ih fun i => hnone _]

theorem length_emitHeaders (hf : Forwarded touched hs hs') :
    (emitHeaders hs').length = (emitHeaders hs).length := by
  have hsum (l : List IpHeader) : (emitHeaders l).length = (l.map (·.wireLen)).sum := by
    simp only [emitHeaders, List.length_flatMap, IpHeader.length_emit]
  rw [hsum, hf.map_eq IpHeader.Forwarded.wireLen, ← hsum]

/-- In each place there is what has become of the header that was there. -/
theorem of_getElem? (hf : Forwarded touched hs hs') {i : Nat} {h' : IpHeader}
    (hi : hs'[i]? = some h') :
    ∃ h inside, hs[i]? = some h ∧ h.Forwarded (touched i) inside h' := by
  induction hf generalizing i with
  | nil => cases hi
  | cons hh _ ih =>
    cases i with
    | zero =>
      cases hi
      exact ⟨_, _, rfl, hh⟩
    | succ i => exact ih hi

theorem set (hf : Forwarded touched hs hs') {i : Nat} {h h₁ h₂ : IpHeader} (hi : hs[i]? = some h)
    (hi' : hs'[i]? = some h₁)
    (hstep : ∀ {inside}, h.Forwarded (touched i) inside h₁ → h.Forwarded (touched i) inside h₂) :
    Forwarded touched hs (hs'.set i h₂) := by
  induction hf generalizing i with
  | nil => cases hi
  | cons hh hhs ih =>
    cases i with
    | zero =>
      cases hi
      cases hi'
      exact .cons (hstep hh) hhs
    | succ i => exact .cons hh (ih hi hi' hstep)

/-- A decrement of a hop limit that is touched, or any operation on one of IPv6, leads to such a
chain again, and leaves it clean. -/
theorem update (hf : Forwarded touched c.headers c'.headers)
    (hop : op = .dec ∨ ∃ i v, c.place? .ipHop inst = some i ∧ c.headers[i]? = some (.v6 v))
    (htouched : ∀ i, c.place? .ipHop inst = some i → touched i)
    (hu : c'.update .ipHop inst op arg = .ok (c'', dirty)) :
    Forwarded touched c.headers c''.headers ∧ c''.trailer = c'.trailer ∧ dirty = false := by
  obtain ⟨i, h₁, h₂, hplace, hi', hstep, rfl⟩ := update_eq_ok_iff.mp hu
  rw [place?_congr (hf.map_eq IpHeader.Forwarded.isGre)] at hplace
  obtain ⟨h, inside, hi, hh⟩ := hf.of_getElem? hi'
  have hop' : op = .dec ∨ ∃ v, h = .v6 v := by
    refine hop.imp_right ?_
    rintro ⟨j, v, hj, hv⟩
    cases hplace.symm.trans hj
    exact ⟨v, Option.some.inj (hi.symm.trans hv)⟩
  exact ⟨hf.set hi hi' fun hh => (hh.update (htouched i hplace) hop' hstep).1, rfl,
    (hh.update (htouched i hplace) hop' hstep).2⟩

/-- A rebuild of both chains does not spread the difference. -/
theorem rebuild (hf : Forwarded touched hs hs') (around : Surroundings) (dirty : Bool) :
    Forwarded touched (rebuildHeaders around dirty hs) (rebuildHeaders around dirty hs') := by
  induction hf with
  | nil => exact .nil
  | cons hh _ ih =>
    rw [rebuildHeaders_cons, rebuildHeaders_cons]
    refine .cons (forwarded_rebuildHeader hh (fun hnone => ?_)
      (followedBy_congr (ih.map_eq IpHeader.Forwarded.kind))
      (lengthInside_congr (ih.map_eq IpHeader.Forwarded.wireLen))) ih
    -- A GRE header that covers nothing touched is computed over the same bytes as before.
    exact ih.eq_of_untouched fun i hi => hnone ⟨i, hi⟩

/-- The bytes in which the two chains differ are affected. -/
theorem affected (hf : Forwarded touched hs hs') {k : Nat}
    (hk : (emitHeaders hs')[k]? ≠ (emitHeaders hs)[k]?) : Affected touched hs k := by
  induction hf generalizing k with
  | nil => exact absurd rfl hk
  | @cons touched h h' hs hs' hh _ ih =>
    have hlen : h'.emit.length = h.emit.length := by
      rw [IpHeader.length_emit, hh.wireLen, IpHeader.length_emit]
    simp only [emitHeaders, List.flatMap_cons] at hk
    by_cases hlt : k < h.emit.length
    · rw [List.getElem?_append_left hlt, List.getElem?_append_left (hlen ▸ hlt)] at hk
      refine ⟨0, h, k, rfl, (Nat.zero_add k).symm, (hh.mem_of_ne hk).imp_right ?_⟩
      rintro ⟨⟨i, hi⟩, hmem⟩
      exact ⟨⟨i + 1, Nat.succ_pos i, hi⟩, hmem⟩
    · have hge := Nat.le_of_not_lt hlt
      rw [List.getElem?_append_right hge, List.getElem?_append_right (hlen ▸ hge), hlen] at hk
      obtain ⟨i, h₀, j, hi, hj, hmem⟩ := ih hk
      refine ⟨i + 1, h₀, j, hi, ?_, hmem.imp_right ?_⟩
      · rw [List.take_succ_cons, emitHeaders, List.flatMap_cons, List.length_append]
        rw [emitHeaders] at hj
        omega
      · rintro ⟨⟨i', hlt, hi'⟩, hmem⟩
        exact ⟨⟨i' + 1, Nat.succ_lt_succ hlt, hi'⟩, hmem⟩

end Forwarded

end IpChain

end Dataplane

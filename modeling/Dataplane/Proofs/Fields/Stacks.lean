import Dataplane.Proofs.Fields.Spans
import Dataplane.Proofs.Headers.Wire

/-!
# Where the fields of tags, labels and options lie

Ethernet headers, label stacks and ICMP for IPv6 hold some of their fields in lists: VLAN tags,
label stack entries, neighbor discovery options. A field of the second tag lies one tag further back
than the same field of the first.

For each header `span?` says where a field lies. Reading the field reads the span, and an operation
on the field changes the header at the span and nowhere else.
-/

namespace Dataplane

open BitSpan

/-! ### Occurrences -/

theorem Instance.lt_of_resolve {inst : Instance} {count i : Nat} (h : inst.resolve count = some i) :
    i < count := by
  unfold resolve at h
  split at h
  · cases h
  · split at h
    · cases h
      omega
    · split at h
      · cases h
        assumption
      · cases h

/-! ### Ethernet -/

/-- Where a field lies that occurs once. -/
def soleSpan? (inst : Instance) (s : Option BitSpan) : Option BitSpan :=
  if inst.isSole then s else none

namespace Ethernet

/-- Where a field lies in the header. -/
def span? (e : Ethernet) (num : FieldNum) (inst : Instance) : Option BitSpan :=
  match tagField? num with
  | some (r, width) =>
    (inst.resolve e.tags.length).map fun i => (ofBits tagControlSlot r width).after (12 + 4 * i)
  | none =>
    if inst.isSole then
      match num with
      | .etherMacDst => some (ofSlot dstSlot)
      | .etherMacSrc => some (ofSlot srcSlot)
      | .etherType => some ((ofSlot typeSlot).after e.typeOffset)
      | _ => none
    else none

variable {e : Ethernet} {num : FieldNum} {inst : Instance} {s : BitSpan}

theorem tagField?_fits {r : BitRange} {width : Nat} (h : tagField? num = some (r, width)) :
    r.pos + r.count ≤ 8 * tagControlSlot.width ∧ r.count ≤ 8 * width := by
  unfold tagField? at h
  split at h <;> cases h <;> decide

theorem length_take_tags {i : Nat} (hi : i < e.tags.length) :
    ((e.tags.take i).flatMap (·.bytes)).length = 4 * i := by
  rw [Block.length_flatMap_bytes, List.length_take]
  omega

theorem read_tag {i : Nat} {tag : Block 4} (htag : e.tags[i]? = some tag) (r : BitRange)
    (width : Nat) :
    ((ofBits tagControlSlot r width).after (12 + 4 * i)).read e.emit =
      tag.getBits tagControlSlot r width := by
  obtain ⟨hi, -⟩ := List.getElem?_eq_some_iff.mp htag
  have hfits : (ofBits tagControlSlot r width).start + (ofBits tagControlSlot r width).size ≤
      tag.bytes.length := by rw [tag.length_eq]; exact tagControlSlot.fits
  have hflat := read_flatMap (·.bytes) htag hfits
  rw [length_take_tags hi] at hflat
  have hin : 4 * i + 4 ≤ (e.tags.flatMap (·.bytes)).length := by
    rw [Block.length_flatMap_bytes]; omega
  rw [← after_after, ← e.addrs.length_eq, emit, read_between _ _ (by exact hin), hflat]
  rfl

theorem emit_addrs (e : Ethernet) :
    e.emit = e.addrs.bytes ++ (e.tags.flatMap (·.bytes) ++ e.typeWord.bytes) :=
  List.append_assoc _ _ _

/-- The type stands behind the addresses and the tags. -/
theorem emit_type (e : Ethernet) :
    e.emit = e.addrs.bytes ++ e.tags.flatMap (·.bytes) ++ e.typeWord.bytes ++ [] :=
  (List.append_nil _).symm

theorem length_before_type (e : Ethernet) :
    (e.addrs.bytes ++ e.tags.flatMap (·.bytes)).length = e.typeOffset := by
  rw [List.length_append, e.addrs.length_eq, Block.length_flatMap_bytes, typeOffset]

theorem read_addr (e : Ethernet) (s : Slot 12) : (ofSlot s).read e.emit = e.addrs.get s := by
  rw [emit_addrs, read_slot_front]

theorem read_type (e : Ethernet) :
    ((ofSlot typeSlot).after e.typeOffset).read e.emit = e.typeWord.get typeSlot := by
  rw [← length_before_type, emit_type, read_slot]

theorem get_eq_ok_iff {v : Bytes} :
    e.get num inst = .ok v ↔ ∃ s, e.span? num inst = some s ∧ s.read e.emit = v := by
  unfold get span?
  cases htag : tagField? num with
  | some field =>
    obtain ⟨r, width⟩ := field
    dsimp only
    cases hi : inst.resolve e.tags.length with
    | none => simp
    | some i =>
      obtain ⟨tag, ht⟩ : ∃ tag, e.tags[i]? = some tag :=
        ⟨_, List.getElem?_eq_getElem (Instance.lt_of_resolve hi)⟩
      simp [ht, read_tag ht]
  | none =>
    by_cases hsole : inst.isSole
    · cases num <;> simp [hsole]
      case etherMacDst | etherMacSrc => rw [read_addr]
      case etherType => rw [read_type]
    · simp [hsole]

/-- An operation on a field changes the header at the span of the field. -/
theorem update_span (hs : e.span? num inst = some s) (op : FieldOp) (arg : Bytes) :
    ∃ e', e.update num inst op arg = .ok e' ∧ e'.span? num inst = some s ∧
      s.Change none (op.apply (s.read e.emit) arg).toNat e.emit e'.emit := by
  unfold span? at hs
  unfold update
  cases htag : tagField? num with
  | some field =>
    obtain ⟨r, width⟩ := field
    obtain ⟨i, hi, rfl⟩ := Option.map_eq_some_iff.mp (htag ▸ hs)
    have hlt := Instance.lt_of_resolve hi
    have ht : e.tags[i]? = some e.tags[i] := List.getElem?_eq_getElem hlt
    obtain ⟨hbits, hvalue⟩ := tagField?_fits htag
    refine ⟨_, by simp only [hi]; rfl, ?_, ?_⟩
    · simp [span?, htag, hi]
    · have hc := (change_updateBits e.tags[i] hbits hvalue op arg).flatMap (·.bytes) ht
      rw [← modify_eq_set (·.updateBits tagControlSlot r width op arg) ht] at hc
      rw [read_tag ht, ← after_after, ← length_take_tags hlt, ← e.addrs.length_eq]
      exact hc.between e.addrs.bytes e.typeWord.bytes
  | none =>
    by_cases hsole : inst.isSole
    · simp only [htag, hsole, if_true] at hs ⊢
      cases num <;> simp only [Option.some.injEq, reduceCtorEq] at hs <;> subst hs
      case etherMacDst | etherMacSrc =>
        refine ⟨_, rfl, by simp [span?, htag, hsole], ?_⟩
        rw [read_addr, emit_addrs, emit_addrs]
        exact change_slot_front e.addrs _ op arg _
      case etherType =>
        refine ⟨_, rfl, by simp [span?, htag, hsole, typeOffset], ?_⟩
        rw [read_type, ← length_before_type, emit_type, emit_type]
        exact change_slot _ _ e.typeWord typeSlot op arg
    · simp [htag, hsole] at hs

end Ethernet

/-! ### Label stacks -/

namespace LabelStack

/-- Where a field lies in the stack. -/
def span? (s : LabelStack) (num : FieldNum) (inst : Instance) : Option BitSpan := do
  let (r, width) ← field? num
  let i ← inst.resolve s.depth
  return (ofBits wordSlot r width).after (4 * i)

variable {l : LabelStack} {num : FieldNum} {inst : Instance} {s : BitSpan}

theorem field?_fits {r : BitRange} {width : Nat} (h : field? num = some (r, width)) :
    r.pos + r.count ≤ 8 * wordSlot.width ∧ r.count ≤ 8 * width := by
  unfold field? at h
  split at h <;> cases h <;> decide

/-- A span of an entry is a span of the stack, further back. -/
theorem span?_eq_some_iff : l.span? num inst = some s ↔ ∃ r width i entry,
    field? num = some (r, width) ∧ inst.resolve l.depth = some i ∧ l.entries[i]? = some entry ∧
      (ofBits wordSlot r width).after ((l.entries.take i).flatMap (·.bytes)).length = s := by
  have hlen {i : Nat} (hi : i < l.entries.length) :
      ((l.entries.take i).flatMap (·.bytes)).length = 4 * i := by
    rw [Block.length_flatMap_bytes, List.length_take]
    omega
  constructor
  · intro hs
    obtain ⟨⟨r, width⟩, hf, hs⟩ := Option.bind_eq_some_iff.mp hs
    obtain ⟨i, hi, hs⟩ := Option.bind_eq_some_iff.mp hs
    have hlt : i < l.entries.length := Instance.lt_of_resolve hi
    refine ⟨r, width, i, l.entries[i], hf, hi, List.getElem?_eq_getElem hlt, ?_⟩
    rw [hlen hlt]
    exact Option.some.inj hs
  · rintro ⟨r, width, i, entry, hf, hi, -, rfl⟩
    rw [hlen (Instance.lt_of_resolve hi)]
    simp [span?, hf, hi]

theorem fits_bits {r : BitRange} {width : Nat} (hf : field? num = some (r, width)) (b : Block 4) :
    (ofBits wordSlot r width).Fits b.bytes.length := by
  obtain ⟨hbits, hvalue⟩ := field?_fits hf
  exact ⟨by rw [b.length_eq]; exact wordSlot.fits, hbits, hvalue⟩

theorem get?_eq_some_iff {v : Bytes} :
    l.get? num inst = some v ↔ ∃ s, l.span? num inst = some s ∧ s.read l.emit = v := by
  constructor
  · intro hget
    obtain ⟨⟨r, width⟩, hf, hget⟩ := Option.bind_eq_some_iff.mp hget
    obtain ⟨i, hi, hget⟩ := Option.bind_eq_some_iff.mp hget
    obtain ⟨entry, he, hget⟩ := Option.bind_eq_some_iff.mp hget
    refine ⟨_, span?_eq_some_iff.mpr ⟨r, width, i, entry, hf, hi, he, rfl⟩, ?_⟩
    have hread := read_flatMap Block.bytes he (fits_bits hf entry).bytes
    exact hread.trans (Option.some.inj hget)
  · rintro ⟨s, hs, rfl⟩
    obtain ⟨r, width, i, entry, hf, hi, he, rfl⟩ := span?_eq_some_iff.mp hs
    have hread := read_flatMap Block.bytes he (fits_bits hf entry).bytes
    simp only [get?, hf, hi, he, Option.bind_eq_bind, Option.bind_some, Option.pure_def]
    exact congrArg some hread.symm

theorem update?_span (hs : l.span? num inst = some s) (op : FieldOp) (arg : Bytes) :
    ∃ l', l.update? num inst op arg = some l' ∧ l'.span? num inst = some s ∧
      s.Change none (op.apply (s.read l.emit) arg).toNat l.emit l'.emit := by
  obtain ⟨r, width, i, entry, hf, hi, he, rfl⟩ := span?_eq_some_iff.mp hs
  obtain ⟨hbits, hvalue⟩ := field?_fits hf
  have hread := read_flatMap Block.bytes he (fits_bits hf entry).bytes
  have hc := (change_updateBits entry hbits hvalue op arg).flatMap Block.bytes he
  rw [← modify_eq_set (·.updateBits wordSlot r width op arg) he, ← hread] at hc
  refine ⟨⟨l.entries.modify i (·.updateBits wordSlot r width op arg)⟩, ?_, ?_, hc⟩
  · simp [update?, hf, hi]
  · rw [← hs]
    simp [span?, depth]

end LabelStack

/-! ### ICMP for IPv6 -/

namespace Icmp6

/-- Where a field lies in the header. -/
def span? (h : Icmp6) (num : FieldNum) : Option BitSpan :=
  match Icmp.slot? num, linkOption? num with
  | some s, _ => some (ofSlot s)
  | none, some kind =>
    (h.linkPlace? kind).map fun i =>
      ((ofBytes 0 6).after 2).after
        (8 + h.body.length + ((h.options.take i).flatMap (·.emit)).length)
  | none, none =>
    if num = .ndTarget ∧ hasTarget h.type ∧ 16 ≤ h.body.length then some ((ofBytes 0 16).after 8)
    else none

variable {h : Icmp6} {num : FieldNum} {s : BitSpan}

theorem emit_base (h : Icmp6) :
    h.emit = h.base.bytes ++ (h.body ++ h.options.flatMap (·.emit)) := List.append_assoc _ _ _

theorem emit_body (h : Icmp6) :
    h.emit = h.base.bytes ++ h.body ++ h.options.flatMap (·.emit) := rfl

theorem emit_options (h : Icmp6) :
    h.emit = h.base.bytes ++ h.body ++ h.options.flatMap (·.emit) ++ [] := (List.append_nil _).symm

theorem length_before_options (h : Icmp6) :
    (h.base.bytes ++ h.body).length = 8 + h.body.length := by
  rw [List.length_append, h.base.length_eq]

/-! The first bytes of a byte string as a field. -/

theorem fits_front {n : Nat} {b : Bytes} (hn : n ≤ b.length) : (ofBytes 0 n).Fits b.length :=
  ⟨by simpa [ofBytes] using hn, by simp [ofBytes], le_rfl⟩

theorem read_front {n : Nat} {b : Bytes} (hn : n ≤ b.length) :
    (ofBytes 0 n).read b = b.take n := by
  rw [read_ofBytes (by omega), List.drop_zero]

theorem change_updateFront {n : Nat} {b : Bytes} (hn : n ≤ b.length) (op : FieldOp) (arg : Bytes) :
    (ofBytes 0 n).Change none (op.apply (b.take n) arg).toNat b (updateFront n b op arg) := by
  have hlen : (op.apply (b.take n) arg).length = n := by simp [hn]
  have hwrite : updateFront n b op arg = (ofBytes 0 n).write b (op.apply (b.take n) arg).toNat := by
    rw [write_ofBytes (by omega) hlen, updateFront, List.take_zero, List.nil_append, Nat.zero_add]
  rw [hwrite]
  exact change_write (fits_front hn) _

/-- The option that a link-layer address field lies in is long enough for it. -/
theorem linkPlace?_eq_some_iff {kind : UInt8} {i : Nat} : h.linkPlace? kind = some i ↔
    ∃ o, h.options.findIdx? (·.kind = kind) = some i ∧ h.options[i]? = some o ∧
      6 ≤ o.data.length := by
  constructor
  · intro hi
    obtain ⟨j, hj, hi⟩ := Option.bind_eq_some_iff.mp hi
    obtain ⟨o, ho, hi⟩ := Option.bind_eq_some_iff.mp hi
    split at hi
    · cases hi
      exact ⟨o, hj, ho, ‹_›⟩
    · cases hi
  · rintro ⟨o, hj, ho, hlen⟩
    simp [linkPlace?, hj, ho, hlen]

/-- The option with its link-layer address after an operation. -/
def updateOption (op : FieldOp) (arg : Bytes) (o : NdOption) : NdOption :=
  { o with data := updateFront 6 o.data op arg }

/-- A link-layer address stands behind the type and the length of its option. -/
theorem emit_option (o : NdOption) : o.emit = [o.kind, o.units] ++ o.data ++ [] := by
  simp [NdOption.emit]

theorem fits_option {o : NdOption} (ho : 6 ≤ o.data.length) :
    ((ofBytes 0 6).after 2).Fits o.emit.length := by
  rw [emit_option]
  exact (fits_front ho).between [o.kind, o.units] []

theorem read_option {o : NdOption} (ho : 6 ≤ o.data.length) :
    ((ofBytes 0 6).after 2).read o.emit = o.data.take 6 := by
  rw [emit_option, ← read_front ho]
  exact read_between [o.kind, o.units] [] (fits_front ho).bytes

theorem length_updateOption {o : NdOption} (ho : 6 ≤ o.data.length) (op : FieldOp) (arg : Bytes) :
    (updateOption op arg o).data.length = o.data.length := by
  simp only [updateOption, updateFront, List.length_append, FieldOp.length_apply, List.length_take,
    List.length_drop]
  omega

theorem change_option {o : NdOption} (ho : 6 ≤ o.data.length) (op : FieldOp) (arg : Bytes) :
    ((ofBytes 0 6).after 2).Change none (op.apply (o.data.take 6) arg).toNat o.emit
      (updateOption op arg o).emit := by
  have hunits : (updateOption op arg o).units = o.units := by
    rw [NdOption.units, NdOption.wireLen, length_updateOption ho]
    rfl
  rw [emit_option, emit_option, hunits]
  exact (change_updateFront ho op arg).between [o.kind, o.units] []

/-- Which option holds a link-layer address does not depend on the address. -/
theorem linkPlace?_modify {i : Nat} {o : NdOption} (ho : h.options[i]? = some o)
    (hlen : 6 ≤ o.data.length) (op : FieldOp) (arg : Bytes) (kind : UInt8) :
    linkPlace? { h with options := h.options.modify i (updateOption op arg) } kind =
      h.linkPlace? kind := by
  have hfind : (h.options.modify i (updateOption op arg)).findIdx? (·.kind = kind) =
      h.options.findIdx? (·.kind = kind) := by
    have hkinds : (h.options.modify i (updateOption op arg)).map (·.kind) =
        h.options.map (·.kind) := by
      apply List.ext_getElem?
      intro j
      rw [List.getElem?_map, List.getElem?_map, List.getElem?_modify]
      cases h.options[j]? <;> simp [apply_ite, updateOption]
    have hmap (l : List NdOption) :
        l.findIdx? (·.kind = kind) = (l.map (·.kind)).findIdx? (· = kind) := by
      rw [List.findIdx?_map]
      rfl
    rw [hmap, hkinds, ← hmap]
  apply Option.ext
  intro j
  rw [linkPlace?_eq_some_iff, linkPlace?_eq_some_iff, hfind, List.getElem?_modify]
  by_cases hj : i = j
  · subst hj
    simp [ho, hlen, length_updateOption hlen]
  · simp [hj]

/-- The address fields of an option and of the body, each among what stands around it. -/
theorem read_link {i : Nat} {o : NdOption} (ho : h.options[i]? = some o)
    (hlen : 6 ≤ o.data.length) :
    (((ofBytes 0 6).after 2).after
      (8 + h.body.length + ((h.options.take i).flatMap (·.emit)).length)).read h.emit =
        o.data.take 6 := by
  have hoption := (fits_option hlen).flatMap NdOption.emit ho
  rw [emit_options, ← length_before_options h, ← after_after, read_between _ _ hoption.bytes,
    read_flatMap NdOption.emit ho (fits_option hlen).bytes, read_option hlen]

theorem read_target (hbody : 16 ≤ h.body.length) :
    ((ofBytes 0 16).after 8).read h.emit = h.body.take 16 := by
  rw [← h.base.length_eq, emit_body, read_between _ _ (fits_front hbody).bytes, read_front hbody]

theorem get?_eq (h : Icmp6) (num : FieldNum) : h.get? num = (h.span? num).map (·.read h.emit) := by
  unfold get? span?
  cases hslot : Icmp.slot? num with
  | some slot =>
    show some (h.base.get slot) = some ((ofSlot slot).read h.emit)
    rw [emit, List.append_assoc, read_slot_front]
  | none =>
    cases hlink : linkOption? num with
    | some kind =>
      cases hi : h.linkPlace? kind with
      | none => simp [hi]
      | some i =>
        obtain ⟨o, -, ho, hlen⟩ := linkPlace?_eq_some_iff.mp hi
        simp [hi, ho, ← read_link ho hlen]
    | none =>
      by_cases hc : num = .ndTarget ∧ hasTarget h.type ∧ 16 ≤ h.body.length
      · simp only [if_pos hc, Option.map_some, read_target hc.2.2]
      · simp only [if_neg hc, Option.map_none]

theorem update?_span (hs : h.span? num = some s) (op : FieldOp) (arg : Bytes) :
    ∃ h', h.update? num op arg = some h' ∧ h'.span? num = some s ∧
      s.Change none (op.apply (s.read h.emit) arg).toNat h.emit h'.emit := by
  unfold span? at hs
  cases hslot : Icmp.slot? num with
  | some slot =>
    simp only [hslot, Option.some.injEq] at hs
    subst hs
    refine ⟨{ h with base := h.base.update slot op arg }, by simp only [update?, hslot],
      by simp only [span?, hslot], ?_⟩
    rw [emit_base, emit_base, read_slot_front]
    exact change_slot_front h.base slot op arg _
  | none =>
    cases hlink : linkOption? num with
    | some kind =>
      simp only [hslot, hlink] at hs
      obtain ⟨i, hi, rfl⟩ := Option.map_eq_some_iff.mp hs
      obtain ⟨o, -, ho, hlen⟩ := linkPlace?_eq_some_iff.mp hi
      refine ⟨{ h with options := h.options.modify i (updateOption op arg) }, ?_, ?_, ?_⟩
      · simp only [update?, hslot, hlink, hi, Option.bind_eq_bind, Option.bind_some]
        rfl
      · simp only [span?, hslot, hlink, linkPlace?_modify ho hlen, hi, Option.map_some]
        rw [modify_eq_set _ ho, List.take_set_of_le le_rfl]
      · have hc := (change_option hlen op arg).flatMap NdOption.emit ho
        rw [← modify_eq_set (updateOption op arg) ho] at hc
        rw [read_link ho hlen, ← after_after, ← length_before_options, emit_options, emit_options]
        exact hc.between _ _
    | none =>
      simp only [hslot, hlink, Option.ite_none_right_eq_some, Option.some.injEq] at hs
      obtain ⟨hcond, rfl⟩ := hs
      have hbody := hcond.2.2
      have hbody' : 16 ≤ (updateFront 16 h.body op arg).length := by
        simp [updateFront]; omega
      refine ⟨{ h with body := updateFront 16 h.body op arg }, ?_, ?_, ?_⟩
      · simp only [update?, hslot, hlink, if_pos hcond]
      · simp only [span?, hslot, hlink]
        exact if_pos ⟨hcond.1, hcond.2.1, hbody'⟩
      · rw [read_target hbody, ← h.base.length_eq, emit_body, emit_body]
        exact (change_updateFront hbody op arg).between _ _

end Icmp6

end Dataplane

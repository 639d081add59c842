import Dataplane.Proofs.Fields.Spans
import Dataplane.Proofs.Header.GreFlags
import Dataplane.Proofs.Headers.Wire

/-!
# Where the fields of IP and GRE headers lie

A field of a chain lies in one of its headers, and as far back as the headers outside that one are
long. Reading the field reads its span, and an operation on the field changes the chain at the span.
There are two exceptions. A decrement of the time to live of an IPv4 header also changes its
checksum, which lies beside the span; and the first update of the key or the sequence number of a
GRE header inserts the word, but then the field could not be read before.
-/

namespace Dataplane

open BitSpan

/-! ### IPv4 -/

namespace Ipv4

/-- Where a field lies in a header. -/
def span? (num : FieldNum) : Option BitSpan :=
  if num = .ipVersion then some (ofBits firstSlot versionBits 1) else (slot? num).map ofSlot

/-- The header checksum, under the one operation that adjusts it at once. -/
def beside? (num : FieldNum) (op : FieldOp) : Option BitSpan :=
  if num = .ipHop ∧ op = .dec then some (ofSlot checksumSlot) else none

variable {num : FieldNum} {s : BitSpan}

theorem read_version (h : Ipv4) :
    (ofBits firstSlot versionBits 1).read h.emit = h.base.getBits firstSlot versionBits 1 :=
  read_front h.options (by rw [h.base.length_eq]; decide)

theorem get?_eq (h : Ipv4) (num : FieldNum) : h.get? num = (span? num).map (·.read h.emit) := by
  unfold get? span?
  split
  · rw [Option.map_some, read_version]
  · rw [Option.map_map]
    congr 1
    funext s
    exact (read_slot_front h.base s h.options).symm

theorem fits_span? (h : Ipv4) (hs : span? num = some s) : s.Fits h.emit.length := by
  have hlen : 20 ≤ h.emit.length := by rw [emit, List.length_append, h.base.length_eq]; omega
  unfold span? at hs
  split at hs
  · cases hs
    exact Fits.mono (n := 20) (by constructor <;> decide) hlen
  · obtain ⟨slot, -, rfl⟩ := Option.map_eq_some_iff.mp hs
    exact (fits_ofSlot slot).mono hlen

theorem change_decrementTtl (h : Ipv4) (arg : Bytes) :
    (ofSlot ttlSlot).Change (some (ofSlot checksumSlot))
      (FieldOp.dec.apply (h.base.get ttlSlot) arg).toNat h.emit (h.decrementTtl arg).emit := by
  have hc := change_update h.base ttlSlot .dec arg
  rw [read_ofSlot] at hc
  exact (hc.set_apart (by decide) _).front h.options

theorem update?_span (h : Ipv4) (hs : span? num = some s) (op : FieldOp) (arg : Bytes) :
    ∃ h' dirty, h.update? num op arg = some (h', dirty) ∧
      s.Change (beside? num op) (op.apply (s.read h.emit) arg).toNat h.emit h'.emit := by
  unfold span? at hs
  unfold update? beside?
  by_cases hdec : num = .ipHop ∧ op = .dec
  · obtain ⟨rfl, rfl⟩ := hdec
    cases hs
    refine ⟨_, false, rfl, ?_⟩
    rw [emit, read_slot_front]
    exact change_decrementTtl h arg
  · rw [if_neg hdec, if_neg hdec]
    by_cases hv : num = .ipVersion
    · rw [if_pos hv] at hs ⊢
      cases hs
      refine ⟨_, true, rfl, ?_⟩
      rw [read_version]
      exact (change_updateBits h.base (by decide) (by decide) op arg).front h.options
    · rw [if_neg hv] at hs ⊢
      obtain ⟨slot, hslot, rfl⟩ := Option.map_eq_some_iff.mp hs
      refine ⟨_, true, by rw [hslot]; rfl, ?_⟩
      rw [emit, read_slot_front]
      exact change_slot_front h.base slot op arg h.options

end Ipv4

/-! ### IPv6 -/

namespace Ipv6

/-- Where a field lies in a header. -/
def span? (num : FieldNum) : Option BitSpan :=
  match bitField? num with
  | some (r, width) => some (ofBits wordSlot r width)
  | none => (slot? num).map ofSlot

variable {num : FieldNum} {s : BitSpan}

theorem bitField?_fits {r : BitRange} {width : Nat} (h : bitField? num = some (r, width)) :
    r.pos + r.count ≤ 8 * wordSlot.width ∧ r.count ≤ 8 * width := by
  unfold bitField? at h
  split at h <;> cases h <;> decide

theorem get?_eq (h : Ipv6) (num : FieldNum) : h.get? num = (span? num).map (·.read h.emit) := by
  unfold get? span?
  cases bitField? num with
  | some field => rfl
  | none =>
    show (slot? num).map h.base.get = _
    rw [Option.map_map]
    congr 1
    funext s
    exact (read_ofSlot h.base s).symm

theorem fits_span? (h : Ipv6) (hs : span? num = some s) : s.Fits h.emit.length := by
  rw [emit, h.base.length_eq]
  unfold span? at hs
  split at hs
  · rename_i r width hbit
    cases hs
    obtain ⟨hbits, hvalue⟩ := bitField?_fits hbit
    exact ⟨wordSlot.fits, hbits, hvalue⟩
  · obtain ⟨slot, -, rfl⟩ := Option.map_eq_some_iff.mp hs
    exact fits_ofSlot slot

theorem update?_span (h : Ipv6) (hs : span? num = some s) (op : FieldOp) (arg : Bytes) :
    ∃ h' dirty, h.update? num op arg = some (h', dirty) ∧
      s.Change none (op.apply (s.read h.emit) arg).toNat h.emit h'.emit := by
  unfold span? at hs
  unfold update?
  cases hbit : bitField? num with
  | some field =>
    obtain ⟨r, width⟩ := field
    rw [hbit] at hs
    cases hs
    obtain ⟨hbits, hvalue⟩ := bitField?_fits hbit
    exact ⟨_, true, rfl, change_updateBits h.base hbits hvalue op arg⟩
  | none =>
    rw [hbit] at hs
    obtain ⟨slot, hslot, rfl⟩ := Option.map_eq_some_iff.mp hs
    exact ⟨_, _, by rw [hslot]; rfl, change_update h.base slot op arg⟩

end Ipv6

/-! ### GRE -/

namespace Gre

/-- Where a field lies in a header; the key and the sequence number if they are there. -/
def span? (h : Gre) : FieldNum → Option BitSpan
  | .greProtocol => some (ofSlot typeSlot)
  | .greKey => h.key.map fun _ => (ofSlot wordSlot).after (4 + 4 * h.checksum.toList.length)
  | .greSeq => h.seq.map fun _ =>
    (ofSlot wordSlot).after (4 + 4 * (h.checksum.toList ++ h.key.toList).length)
  | _ => none

variable {h : Gre} {num : FieldNum} {s : BitSpan}

/-- The key stands behind the checksum word. -/
theorem emit_key {w : Block 4} (hk : h.key = some w) :
    h.emit = h.base.bytes ++ h.checksum.toList.flatMap (·.bytes) ++ w.bytes ++
      h.seq.toList.flatMap (·.bytes) := by
  simp [emit, words, hk]

/-- The sequence number stands behind the checksum word and the key. -/
theorem emit_seq {w : Block 4} (hs : h.seq = some w) :
    h.emit = h.base.bytes ++ (h.checksum.toList ++ h.key.toList).flatMap (·.bytes) ++ w.bytes ++
      [] := by
  simp [emit, words, hs]

theorem length_before_word (h : Gre) (words : List (Block 4)) :
    (h.base.bytes ++ words.flatMap (·.bytes)).length = 4 + 4 * words.length := by
  rw [List.length_append, h.base.length_eq, Block.length_flatMap_bytes]

theorem get_wordSlot (w : Block 4) : w.get wordSlot = w.bytes := by
  have hlen := w.length_eq
  rw [Block.get]
  exact List.take_of_length_le hlen.le

theorem read_type (h : Gre) : (ofSlot typeSlot).read h.emit = h.base.get typeSlot :=
  read_slot_front _ _ _

theorem read_key {w : Block 4} (hk : h.key = some w) :
    ((ofSlot wordSlot).after (4 + 4 * h.checksum.toList.length)).read h.emit = w.get wordSlot := by
  rw [← length_before_word h, emit_key hk, read_slot]

theorem read_seq {w : Block 4} (hs : h.seq = some w) :
    ((ofSlot wordSlot).after (4 + 4 * (h.checksum.toList ++ h.key.toList).length)).read h.emit =
      w.get wordSlot := by
  rw [← length_before_word h, emit_seq hs, read_slot]

theorem get?_eq (h : Gre) (num : FieldNum) : h.get? num = (h.span? num).map (·.read h.emit) := by
  cases num <;> simp only [get?, span?, Option.map_none, Option.map_some, Option.map_map]
  case greProtocol => rw [read_type]
  case greKey =>
    cases hk : h.key with
    | none => rfl
    | some w => exact congrArg some ((get_wordSlot w).symm.trans (read_key hk).symm)
  case greSeq =>
    cases hs : h.seq with
    | none => rfl
    | some w => exact congrArg some ((get_wordSlot w).symm.trans (read_seq hs).symm)

theorem fits_span? (hs : h.span? num = some s) : s.Fits h.emit.length := by
  cases num <;> simp only [span?, Option.some.injEq, Option.map_eq_some_iff, reduceCtorEq] at hs
  case greProtocol =>
    subst hs
    exact (fits_ofSlot typeSlot).mono (by rw [emit, List.length_append, h.base.length_eq]; omega)
  case greKey =>
    obtain ⟨w, hk, rfl⟩ := hs
    rw [← length_before_word h, emit_key hk]
    exact Fits.between (by rw [w.length_eq]; exact fits_ofSlot wordSlot) _ _
  case greSeq =>
    obtain ⟨w, hw, rfl⟩ := hs
    rw [← length_before_word h, emit_seq hw]
    exact Fits.between (by rw [w.length_eq]; exact fits_ofSlot wordSlot) _ _

theorem update?_span (hf : h.Flagged) (hs : h.span? num = some s) (op : FieldOp) (arg : Bytes) :
    ∃ h', h.update? num op arg = some h' ∧ h'.span? num = some s ∧
      s.Change none (op.apply (s.read h.emit) arg).toNat h.emit h'.emit := by
  cases num <;> simp only [span?, Option.some.injEq, Option.map_eq_some_iff, reduceCtorEq] at hs
  case greProtocol =>
    subst hs
    refine ⟨_, rfl, rfl, ?_⟩
    rw [read_type]
    exact change_slot_front h.base typeSlot op arg _
  case greKey =>
    obtain ⟨w, hk, rfl⟩ := hs
    refine ⟨_, rfl, rfl, ?_⟩
    rw [read_key hk, ← length_before_word h, emit_key hk, hk, hf.setFlag_key (by simp [hk]),
      emit_key rfl]
    exact change_slot _ _ w wordSlot op arg
  case greSeq =>
    obtain ⟨w, hw, rfl⟩ := hs
    refine ⟨_, rfl, rfl, ?_⟩
    rw [read_seq hw, ← length_before_word h, emit_seq hw, hw, hf.setFlag_seq (by simp [hw]),
      emit_seq rfl]
    exact change_slot _ _ w wordSlot op arg

end Gre

/-! ### Chains -/

namespace IpHeader

/-- Where a field lies in a header. -/
def span? (h : IpHeader) (num : FieldNum) : Option BitSpan :=
  match h with
  | v4 _ => Ipv4.span? num
  | v6 _ => Ipv6.span? num
  | gre h => h.span? num

/-- What an operation changes beside the field: the checksum of an IPv4 header. -/
def beside? (h : IpHeader) (num : FieldNum) (op : FieldOp) : Option BitSpan :=
  match h with
  | v4 _ => Ipv4.beside? num op
  | _ => none

variable {h : IpHeader} {num : FieldNum} {s : BitSpan}

theorem get?_eq (h : IpHeader) (num : FieldNum) :
    h.get? num = (h.span? num).map (·.read h.emit) := by
  cases h with
  | v4 h => exact h.get?_eq num
  | v6 h => exact h.get?_eq num
  | gre h => exact h.get?_eq num

theorem fits_span? (hs : h.span? num = some s) : s.Fits h.emit.length := by
  cases h with
  | v4 h => exact h.fits_span? hs
  | v6 h => exact h.fits_span? hs
  | gre h => exact Gre.fits_span? hs

theorem update?_span (hf : h.Flagged) (hs : h.span? num = some s) (op : FieldOp) (arg : Bytes) :
    ∃ h' dirty, h.update? num op arg = some (h', dirty) ∧ h'.isGre = h.isGre ∧
      h'.span? num = some s ∧
      s.Change (h.beside? num op) (op.apply (s.read h.emit) arg).toNat h.emit h'.emit := by
  cases h with
  | v4 h =>
    obtain ⟨h', dirty, hu, hc⟩ := h.update?_span hs op arg
    exact ⟨v4 h', dirty, by rw [update?, hu]; rfl, rfl, hs, hc⟩
  | v6 h =>
    obtain ⟨h', dirty, hu, hc⟩ := h.update?_span hs op arg
    exact ⟨v6 h', dirty, by rw [update?, hu]; rfl, rfl, hs, hc⟩
  | gre h =>
    obtain ⟨h', hu, hs', hc⟩ := Gre.update?_span (flagged_gre.mp hf) hs op arg
    exact ⟨gre h', true, by rw [update?, hu]; rfl, rfl, hs', hc⟩

end IpHeader

namespace IpChain

/-- Where a field lies in the chain. -/
def span? (c : IpChain) (num : FieldNum) (inst : Instance) : Option BitSpan := do
  let i ← c.place? num inst
  let h ← c.headers[i]?
  let s ← h.span? num
  return s.after (emitHeaders (c.headers.take i)).length

/-- What an operation changes beside the field. -/
def beside? (c : IpChain) (num : FieldNum) (inst : Instance) (op : FieldOp) : Option BitSpan := do
  let i ← c.place? num inst
  let h ← c.headers[i]?
  let s ← h.beside? num op
  return s.after (emitHeaders (c.headers.take i)).length

variable {c : IpChain} {num : FieldNum} {inst : Instance} {s : BitSpan}

theorem span?_eq_some_iff : c.span? num inst = some s ↔
    ∃ i h s', c.place? num inst = some i ∧ c.headers[i]? = some h ∧ h.span? num = some s' ∧
      s'.after (emitHeaders (c.headers.take i)).length = s := by
  simp [span?, Option.bind_eq_some_iff]

theorem read_header {i : Nat} {h : IpHeader} (hh : c.headers[i]? = some h)
    (hs : h.span? num = some s) :
    (s.after (emitHeaders (c.headers.take i)).length).read c.emit = s.read h.emit :=
  read_flatMap IpHeader.emit hh (IpHeader.fits_span? hs).bytes

theorem get_eq_ok_iff {v : Bytes} :
    c.get num inst = .ok v ↔ ∃ s, c.span? num inst = some s ∧ s.read c.emit = v := by
  have hget : (c.place? num inst >>= (c.headers[·]?) >>= (·.get? num)) =
      (c.span? num inst).map (·.read c.emit) := by
    unfold span?
    cases c.place? num inst with
    | none => rfl
    | some i =>
      cases hh : c.headers[i]? with
      | none => simp [hh]
      | some h =>
        cases hs : h.span? num with
        | none => simp [hh, hs, h.get?_eq]
        | some s =>
          simp [hh, hs, h.get?_eq, read_header hh hs]
  rw [get, hget]
  cases c.span? num inst <;> simp

/-- Where the headers of a sort are depends on the sorts only. -/
theorem place?_congr {c' : IpChain} (h : c'.headers.map (·.isGre) = c.headers.map (·.isGre)) :
    c'.place? num inst = c.place? num inst := by
  have hplaces : ∀ c : IpChain, ∀ gre : Bool, c.places gre =
      (((c.headers.map (·.isGre)).zipIdx.filter (·.1 == gre)).map (·.2)) := by
    intro c gre
    rw [List.zipIdx_map, List.filter_map, List.map_map]
    rfl
  rw [place?, place?, hplaces, hplaces, h]

theorem update_span (hf : ∀ h ∈ c.headers, h.Flagged) (hs : c.span? num inst = some s)
    (op : FieldOp) (arg : Bytes) :
    ∃ c' dirty, c.update num inst op arg = .ok (c', dirty) ∧ c'.trailer = c.trailer ∧
      c'.span? num inst = some s ∧
      s.Change (c.beside? num inst op) (op.apply (s.read c.emit) arg).toNat c.emit c'.emit := by
  obtain ⟨i, h, s', hi, hh, hs', rfl⟩ := span?_eq_some_iff.mp hs
  obtain ⟨h', dirty, hu, hgre, hspan, hc⟩ :=
    IpHeader.update?_span (hf h (List.mem_of_getElem? hh)) hs' op arg
  have hread := read_header hh hs'
  obtain ⟨hlt, hget⟩ := List.getElem?_eq_some_iff.mp hh
  refine ⟨_, dirty, update_eq_ok_iff.mpr ⟨i, h, h', hi, hh, hu, rfl⟩, rfl, ?_, ?_⟩
  · have hsame : (c.headers.set i h').map (·.isGre) = c.headers.map (·.isGre) := by
      apply List.ext_getElem?
      intro j
      rw [List.getElem?_map, List.getElem?_map, List.getElem?_set]
      by_cases hj : i = j
      · subst hj
        simp [hlt, hgre, ← hget]
      · simp [hj]
    refine span?_eq_some_iff.mpr ⟨i, h', s', ?_, ?_, hspan, ?_⟩
    · rw [← hi]
      exact place?_congr hsame
    · exact List.getElem?_set_self hlt
    · rw [List.take_set_of_le le_rfl]
  · have hbeside : c.beside? num inst op =
        (h.beside? num op).map (·.after (emitHeaders (c.headers.take i)).length) := by
      simp only [beside?, hi, hh, Option.bind_eq_bind, Option.bind_some]
      cases h.beside? num op <;> rfl
    rw [hbeside, hread]
    exact hc.flatMap IpHeader.emit hh

end IpChain

end Dataplane

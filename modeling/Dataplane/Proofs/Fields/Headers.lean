import Dataplane.Proofs.Fields.Chains
import Dataplane.Proofs.Fields.Stacks

/-!
# Where the fields of headers lie

Every well-known field of a header is a span of the bytes the header stores: its wire bytes, or the
block of the metadata. Reading the field is reading the span (`Header.get_eq_ok_iff`), an operation
that the field supports changes the header at the span and nowhere else (`Header.update_span`), and
the span has the width and the number of bits of the field (`Header.admits_span?`).
-/

namespace Dataplane

open BitSpan

/-! ### Headers -/

/-- The number of bits of a field whose value is `width` bytes wide. -/
def FieldNum.bitCount (num : FieldNum) (width : Nat) : Nat :=
  match num with
  | .vlanId => 12
  | .vlanPriority | .ipVersion => 4
  | .ipFlowLabel | .mplsLabel => 20
  | .mplsTc => 3
  | _ => 8 * width

/-- Can an operation be done on a field? Of the metadata only the scratch attributes can be added to
and subtracted from. -/
def FieldNum.Supports (num : FieldNum) (op : FieldOp) : Prop :=
  op = .set ∨ num.group ≠ .packet ∨
    num ∈ [.attribute8, .attribute16, .attribute24, .attribute32]

instance (num : FieldNum) (op : FieldOp) : Decidable (num.Supports op) := by
  unfold FieldNum.Supports; infer_instance

/-- Is a span one that the field may have: of the width of one of its values, and with as many bits
as the field? -/
def FieldNum.Admits (num : FieldNum) (s : BitSpan) : Prop :=
  s.width ∈ num.widths ∧ s.bits.count = num.bitCount s.width

instance (num : FieldNum) (s : BitSpan) : Decidable (num.Admits s) := by
  unfold FieldNum.Admits; infer_instance

namespace Header

/-- The bytes in which the fields of a header lie: its wire bytes, and for metadata, which has none,
its block. -/
def store : Header → Bytes
  | metadata m => m.block.bytes
  | h => h.emit

/-- Where a field lies in the bytes of a header. -/
def span? (h : Header) (num : FieldNum) (inst : Instance) : Option BitSpan :=
  match h with
  | metadata _ => (Metadata.slot? num inst).map ofSlot
  | ethernet h => h.span? num inst
  | ip c => c.span? num inst
  | arp _ => soleSpan? inst ((Arp.slot? num).map ofSlot)
  | mpls s => s.span? num inst
  | tcp _ => soleSpan? inst ((Tcp.slot? num).map ofSlot)
  | udp _ => soleSpan? inst ((Udp.slot? num).map ofSlot)
  | icmp4 _ => soleSpan? inst ((Icmp.slot? num).map ofSlot)
  | icmp6 h => soleSpan? inst (h.span? num)
  | payload _ => none

/-- What an operation on a field changes beside it: the header checksum, when the time to live of an
IPv4 header is decremented. -/
def beside? (h : Header) (num : FieldNum) (inst : Instance) (op : FieldOp) : Option BitSpan :=
  match h with
  | ip c => c.beside? num inst op
  | _ => none

variable {h : Header} {num : FieldNum} {inst : Instance} {s : BitSpan}

theorem orAbsent_eq_ok_iff {α : Type} {o : Option α} {a : α} :
    orAbsent num inst o = .ok a ↔ o = some a := by
  cases o <;> simp [orAbsent]

theorem soleSpan?_eq_some_iff {o : Option BitSpan} :
    soleSpan? inst o = some s ↔ inst.isSole ∧ o = some s := by
  simp [soleSpan?]

theorem sole_eq_ok_iff {o : Option Bytes} {os : Option BitSpan} {b v : Bytes}
    (ho : o = os.map (·.read b)) :
    sole num inst o = .ok v ↔ ∃ s, soleSpan? inst os = some s ∧ s.read b = v := by
  rw [sole, orAbsent_eq_ok_iff, ho]
  by_cases hsole : inst.isSole <;> simp [hsole, soleSpan?]

/-- Reading a slot of a block that is the header, or stands in front of the rest of it. -/
theorem map_get_eq {n : Nat} (b : Block n) (o : Option (Slot n)) :
    o.map b.get = (o.map ofSlot).map (·.read b.bytes) := by
  cases o with
  | none => rfl
  | some s => exact congrArg some (read_ofSlot b s).symm

theorem map_get_front_eq {n : Nat} (b : Block n) (o : Option (Slot n)) (c : Bytes) :
    o.map b.get = (o.map ofSlot).map (·.read (b.bytes ++ c)) := by
  cases o with
  | none => rfl
  | some s => exact congrArg some (read_slot_front b s c).symm

/-- The value of a field is what its span holds. -/
theorem get_eq_ok_iff {v : Bytes} :
    h.get num inst = .ok v ↔ ∃ s, h.span? num inst = some s ∧ s.read h.store = v := by
  cases h with
  | metadata m =>
    show m.get num inst = .ok v ↔ ∃ s, (Metadata.slot? num inst).map ofSlot = some s ∧ _
    unfold Metadata.get
    cases Metadata.slot? num inst with
    | none => simp
    | some slot => simp [store, read_ofSlot]
  | ethernet h => exact h.get_eq_ok_iff
  | ip c => exact c.get_eq_ok_iff
  | arp h => exact sole_eq_ok_iff (map_get_eq h.base (Arp.slot? num))
  | mpls s => exact orAbsent_eq_ok_iff.trans s.get?_eq_some_iff
  | tcp h => exact sole_eq_ok_iff (map_get_front_eq h.base (Tcp.slot? num) h.options)
  | udp h => exact sole_eq_ok_iff (map_get_eq h.base (Udp.slot? num))
  | icmp4 h => exact sole_eq_ok_iff (map_get_eq h.base (Icmp.slot? num))
  | icmp6 h => exact sole_eq_ok_iff (h.get?_eq num)
  | payload b => simp [get, orAbsent, span?]

/-- An operation on a slot of a header that holds each field once. -/
theorem sole_update {α : Type} {n : Nat} {slot? : FieldNum → Option (Slot n)}
    (hs : soleSpan? inst ((slot? num).map ofSlot) = some s) (change : Slot n → α) :
    ∃ slot, s = ofSlot slot ∧ sole num inst ((slot? num).map change) = .ok (change slot) := by
  obtain ⟨hsole, hs⟩ := soleSpan?_eq_some_iff.mp hs
  obtain ⟨slot, hslot, rfl⟩ := Option.map_eq_some_iff.mp hs
  exact ⟨slot, rfl, by rw [sole, if_pos hsole, hslot]; rfl⟩

/-- A field of the metadata is a scratch attribute or occurs once. -/
theorem metadata_slot_cases {slot : Slot 149} (hslot : Metadata.slot? num inst = some slot) :
    Metadata.scratchSlot? num inst = some slot ∧
        num ∈ [.attribute8, .attribute16, .attribute24, .attribute32] ∨
      Metadata.scratchSlot? num inst = none ∧ Metadata.soleSlot? num = some slot ∧
        num.group = .packet ∧ num ∉ [.attribute8, .attribute16, .attribute24, .attribute32] := by
  unfold Metadata.slot? at hslot
  cases hscratch : Metadata.scratchSlot? num inst with
  | some slot' =>
    rw [hscratch] at hslot
    refine .inl ⟨hslot, ?_⟩
    cases num <;> simp [Metadata.scratchSlot?, Metadata.scratchBase?] at hscratch ⊢
  | none =>
    rw [hscratch] at hslot
    obtain ⟨-, hsole⟩ := Option.ite_none_right_eq_some.mp hslot
    refine .inr ⟨rfl, hsole, ?_⟩
    cases num <;> simp [Metadata.soleSlot?, FieldNum.group] at hsole ⊢

/-- Metadata takes each operation that its field supports, and refuses every other one. -/
theorem metadata_update {m : Metadata} {slot : Slot 149}
    (hslot : Metadata.slot? num inst = some slot) (op : FieldOp) (arg : Bytes) :
    m.update num inst op arg =
      if num.Supports op then .ok ⟨m.block.update slot op arg⟩
      else .error (.badOp (.field num inst) op) := by
  have hrefused : (op ≠ .set ∧ (Metadata.scratchSlot? num inst).isNone) ↔ ¬ num.Supports op := by
    unfold FieldNum.Supports
    obtain ⟨hscratch, hmem⟩ | ⟨hscratch, -, hgroup, hmem⟩ := metadata_slot_cases hslot
    · rw [hscratch]
      simp only [Option.isNone_some, Bool.false_eq_true, and_false, hmem, or_true,
        not_true_eq_false]
    · rw [hscratch]
      simp only [Option.isNone_none, and_true, hgroup, hmem, ne_eq, not_true_eq_false, or_false]
  unfold Metadata.update
  by_cases hop : num.Supports op
  · rw [if_neg (by rw [hrefused]; exact not_not.mpr hop), if_pos hop, hslot]
  · rw [if_pos (hrefused.mpr hop), if_neg hop]

/-- An operation on a field changes the header at the span of the field, and beside it the header
checksum if a time to live is decremented. -/
theorem update_span (hf : h.Flagged) (hs : h.span? num inst = some s) {op : FieldOp}
    (hop : num.Supports op) (arg : Bytes) :
    ∃ h' dirty, h.update num inst op arg = .ok (h', dirty) ∧ h'.trailer = h.trailer ∧
      h'.span? num inst = some s ∧
      s.Change (h.beside? num inst op) (op.apply (s.read h.store) arg).toNat h.store h'.store := by
  cases h with
  | metadata m =>
    obtain ⟨slot, hslot, rfl⟩ := Option.map_eq_some_iff.mp hs
    refine ⟨metadata ⟨m.block.update slot op arg⟩, true, ?_, rfl, hs,
      change_update m.block slot op arg⟩
    rw [update, metadata_update hslot, if_pos hop]
    rfl
  | ethernet h =>
    obtain ⟨h', hu, hs', hc⟩ := h.update_span hs op arg
    exact ⟨ethernet h', true, by rw [update, hu]; rfl, rfl, hs', hc⟩
  | ip c =>
    obtain ⟨c', dirty, hu, htrailer, hs', hc⟩ := IpChain.update_span (flagged_ip.mp hf) hs op arg
    exact ⟨ip c', dirty, by rw [update, hu]; rfl, htrailer, hs', hc⟩
  | arp h =>
    obtain ⟨slot, rfl, hu⟩ := sole_update hs fun s => Arp.mk (h.base.update s op arg)
    refine ⟨arp ⟨h.base.update slot op arg⟩, true, ?_, rfl, hs, change_update h.base slot op arg⟩
    rw [update, Arp.update?, hu]
    rfl
  | mpls l =>
    obtain ⟨l', hu, hs', hc⟩ := l.update?_span hs op arg
    exact ⟨mpls l', true, by rw [update, hu]; rfl, rfl, hs', hc⟩
  | tcp h =>
    obtain ⟨slot, rfl, hu⟩ := sole_update hs fun s => { h with base := h.base.update s op arg }
    refine ⟨tcp { h with base := h.base.update slot op arg }, true, ?_, rfl, hs, ?_⟩
    · rw [update, Tcp.update?, hu]
      rfl
    · show Change _ none (op.apply (BitSpan.read _ (h.base.bytes ++ h.options)) arg).toNat _ _
      rw [read_slot_front]
      exact change_slot_front h.base slot op arg h.options
  | udp h =>
    obtain ⟨slot, rfl, hu⟩ := sole_update hs fun s => { h with base := h.base.update s op arg }
    refine ⟨udp { h with base := h.base.update slot op arg }, true, ?_, rfl, hs,
      change_update h.base slot op arg⟩
    rw [update, Udp.update?, hu]
    rfl
  | icmp4 h =>
    obtain ⟨slot, rfl, hu⟩ := sole_update hs fun s => Icmp4.mk (h.base.update s op arg)
    refine ⟨icmp4 ⟨h.base.update slot op arg⟩, true, ?_, rfl, hs, change_update h.base slot op arg⟩
    rw [update, Icmp4.update?, hu]
    rfl
  | icmp6 h =>
    obtain ⟨hsole, hs'⟩ := soleSpan?_eq_some_iff.mp hs
    obtain ⟨h', hu, hs'', hc⟩ := h.update?_span hs' op arg
    refine ⟨icmp6 h', true, ?_, rfl, soleSpan?_eq_some_iff.mpr ⟨hsole, hs''⟩, hc⟩
    rw [update, sole, if_pos hsole, hu]
    rfl
  | payload b => cases hs

/-! ### Widths -/

theorem admits_metadata {slot : Slot 149} (hslot : Metadata.slot? num inst = some slot) :
    num.Admits (ofSlot slot) := by
  obtain ⟨hscratch, -⟩ | ⟨-, hsole, -⟩ := metadata_slot_cases hslot
  · unfold Metadata.scratchSlot? at hscratch
    split at hscratch
    · rename_i base width i hbase _
      split at hscratch
      · cases hscratch
        cases num <;> simp only [Metadata.scratchBase?, Option.some.injEq, Prod.mk.injEq,
          reduceCtorEq] at hbase
        all_goals
          obtain ⟨-, rfl⟩ := hbase
          exact ⟨List.mem_singleton.mpr rfl, rfl⟩
      · cases hscratch
    · cases hscratch
  · cases num <;> simp only [Metadata.soleSlot?, Option.some.injEq, reduceCtorEq] at hsole
    all_goals
      subst hsole
      decide

theorem admits_ethernet {e : Ethernet} (hs : e.span? num inst = some s) : num.Admits s := by
  unfold Ethernet.span? at hs
  cases htag : Ethernet.tagField? num with
  | some field =>
    rw [htag] at hs
    obtain ⟨i, -, rfl⟩ := Option.map_eq_some_iff.mp hs
    cases num <;> simp only [Ethernet.tagField?, Option.some.injEq, reduceCtorEq] at htag
    all_goals
      subst htag
      exact ⟨List.mem_singleton.mpr rfl, rfl⟩
  | none =>
    simp only [htag, Option.ite_none_right_eq_some] at hs
    obtain ⟨-, hs⟩ := hs
    cases num <;> simp only [Option.some.injEq, reduceCtorEq] at hs
    all_goals
      subst hs
      exact ⟨List.mem_singleton.mpr rfl, rfl⟩

theorem admits_ip {h : IpHeader} (hs : h.span? num = some s) : num.Admits s := by
  cases h with
  | v4 h =>
    cases num <;> simp [IpHeader.span?, Ipv4.span?, Ipv4.slot?] at hs
    all_goals
      subst hs
      decide
  | v6 h =>
    cases num <;> simp [IpHeader.span?, Ipv6.span?, Ipv6.bitField?, Ipv6.slot?] at hs
    all_goals
      subst hs
      decide
  | gre h =>
    cases num <;> simp only [IpHeader.span?, Gre.span?, Option.map_eq_some_iff, Option.some.injEq,
      reduceCtorEq] at hs
    case greProtocol =>
      subst hs
      decide
    all_goals
      obtain ⟨_, -, rfl⟩ := hs
      exact ⟨List.mem_singleton.mpr rfl, rfl⟩

theorem admits_labels {l : LabelStack} (hs : l.span? num inst = some s) : num.Admits s := by
  obtain ⟨r, width, i, entry, hf, -, -, rfl⟩ := LabelStack.span?_eq_some_iff.mp hs
  cases num <;> simp only [LabelStack.field?, Option.some.injEq, Prod.mk.injEq, reduceCtorEq] at hf
  all_goals
    obtain ⟨rfl, rfl⟩ := hf
    exact ⟨List.mem_singleton.mpr rfl, rfl⟩

theorem admits_icmp6 {h : Icmp6} (hs : h.span? num = some s) : num.Admits s := by
  cases num <;> simp [Icmp6.span?, Icmp.slot?, Icmp6.linkOption?] at hs
  case icmpType | icmpCode =>
    subst hs
    decide
  case ndTarget =>
    obtain ⟨-, rfl⟩ := hs
    decide
  all_goals
    obtain ⟨_, -, rfl⟩ := hs
    exact ⟨List.mem_singleton.mpr rfl, rfl⟩

theorem admits_sole {n : Nat} {slot? : FieldNum → Option (Slot n)}
    (h : ∀ num slot, slot? num = some slot → num.Admits (ofSlot slot))
    (hs : soleSpan? inst ((slot? num).map ofSlot) = some s) : num.Admits s := by
  obtain ⟨-, hs⟩ := soleSpan?_eq_some_iff.mp hs
  obtain ⟨slot, hslot, rfl⟩ := Option.map_eq_some_iff.mp hs
  exact h num slot hslot

/-- The span of a field has the width and the bits of the field. -/
theorem admits_span? (hs : h.span? num inst = some s) : num.Admits s := by
  cases h with
  | metadata m =>
    obtain ⟨slot, hslot, rfl⟩ := Option.map_eq_some_iff.mp hs
    exact admits_metadata hslot
  | ethernet h => exact admits_ethernet hs
  | ip c =>
    obtain ⟨i, h, s', -, -, hs', rfl⟩ := IpChain.span?_eq_some_iff.mp hs
    have hadmits := admits_ip hs'
    exact hadmits
  | arp h =>
    refine admits_sole (fun num slot (hslot : Arp.slot? num = some slot) => ?_) hs
    cases num <;> simp [Arp.slot?] at hslot <;> subst hslot <;> decide
  | mpls l => exact admits_labels hs
  | tcp h =>
    refine admits_sole (fun num slot (hslot : Tcp.slot? num = some slot) => ?_) hs
    cases num <;> simp [Tcp.slot?] at hslot <;> subst hslot <;> decide
  | udp h =>
    refine admits_sole (fun num slot (hslot : Udp.slot? num = some slot) => ?_) hs
    cases num <;> simp [Udp.slot?] at hslot <;> subst hslot <;> decide
  | icmp4 h =>
    refine admits_sole (fun num slot (hslot : Icmp.slot? num = some slot) => ?_) hs
    cases num <;> simp [Icmp.slot?] at hslot <;> subst hslot <;> decide
  | icmp6 h => exact admits_icmp6 (soleSpan?_eq_some_iff.mp hs).2
  | payload b => cases hs

end Header

end Dataplane

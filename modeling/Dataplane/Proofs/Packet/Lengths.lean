import Dataplane.Proofs.Fields.Packet
import Dataplane.Proofs.Header.Accepted
import Dataplane.Proofs.Packet.RawFields
import Dataplane.Proofs.Packet.Tunnels
import Dataplane.Proofs.Packet.Wire

/-!
# When the cached packet length is right

The metadata holds a copy of the length of the frame, or the largest number that four bytes hold if
the frame is longer. The copy is taken when a packet is parsed and whenever its metadata is rebuilt,
which is how adding a header, removing one and serializing end. An update of a field does not
rebuild anything, and one kind of update makes the frame longer: the first update of the key or the
sequence number of a GRE header inserts the word. The copy then lags behind by four bytes a word
until it is taken again, and it is right if it lags behind by none (`packetLength_edits`).

## The model

`Packet.lag` counts the words that were inserted since the copy was last taken, and `Headers.Lags`
says what the metadata of a table holds that lags behind by some words. Each edit leaves a table
that lags behind by as many as it counts (`Packet.lags_edit`).
-/

namespace Dataplane

/-- Is this the key or the sequence number of a GRE header? -/
def FieldId.isGreWord : FieldId → Bool
  | .field .greKey _ | .field .greSeq _ => true
  | _ => false

theorem FieldId.isGreWord_field {num : FieldNum} {inst : Instance} :
    (FieldId.field num inst).isGreWord ↔ num = .greKey ∨ num = .greSeq := by
  cases num <;> simp [isGreWord]

/-- Does an edit write the cached length itself? -/
def Edit.writesLength : Edit → Bool
  | .update (.field .packetLength _) _ _ => true
  | _ => false

/-! ### Lengths of headers -/

namespace IpHeader

variable {h h' : IpHeader} {num : FieldNum} {op : FieldOp} {arg : Bytes} {dirty : Bool}

/-- An operation that succeeds on a field that cannot be read inserts a word. -/
theorem inserted_of_update (hs : h.span? num = none)
    (hu : h.update? num op arg = some (h', dirty)) :
    (num = .greKey ∨ num = .greSeq) ∧ h'.wireLen = h.wireLen + 4 := by
  cases h with
  | v4 v =>
    obtain ⟨hversion, hslot⟩ : num ≠ .ipVersion ∧ Ipv4.slot? num = none := by
      simpa [span?, Ipv4.span?, ite_eq_iff] using hs
    have hhop : num ≠ .ipHop := by
      rintro rfl
      cases hslot
    simp [update?, Ipv4.update?, hversion, hslot, hhop] at hu
  | v6 v =>
    obtain ⟨hbit, hslot⟩ : Ipv6.bitField? num = none ∧ Ipv6.slot? num = none := by
      simp only [span?, Ipv6.span?] at hs
      split at hs
      · cases hs
      · rename_i hbit
        exact ⟨hbit, Option.map_eq_none_iff.mp hs⟩
    simp [update?, Ipv6.update?, hbit, hslot] at hu
  | gre g =>
    obtain ⟨⟨g', d⟩, hg, heq⟩ := Option.map_eq_some_iff.mp hu
    cases heq
    cases num <;> simp only [span?, Gre.span?, Option.map_eq_none_iff, reduceCtorEq] at hs
    case greKey =>
      cases hg
      refine ⟨.inl rfl, ?_⟩
      simp [wireLen, Gre.wireLen, Gre.words, Gre.updateWord, hs]
      omega
    case greSeq =>
      cases hg
      refine ⟨.inr rfl, ?_⟩
      simp [wireLen, Gre.wireLen, Gre.words, Gre.updateWord, hs]
      omega
    all_goals cases hg

end IpHeader

namespace IpChain

variable {c c' : IpChain} {num : FieldNum} {inst : Instance} {op : FieldOp} {arg : Bytes}
  {dirty : Bool}

theorem inserted_of_update (hs : c.span? num inst = none)
    (hu : c.update num inst op arg = .ok (c', dirty)) :
    (num = .greKey ∨ num = .greSeq) ∧ c'.trailer = c.trailer ∧ c'.wireLen = c.wireLen + 4 := by
  obtain ⟨i, h, h', hi, hh, hu', rfl⟩ := update_eq_ok_iff.mp hu
  have hspan : h.span? num = none := by
    cases hspan : h.span? num with
    | none => rfl
    | some s => simp [span?, hi, hh, hspan] at hs
  obtain ⟨hnum, hwire⟩ := IpHeader.inserted_of_update hspan hu'
  refine ⟨hnum, rfl, ?_⟩
  obtain ⟨hlt, rfl⟩ := List.getElem?_eq_some_iff.mp hh
  have hsum (l : List IpHeader) : l.foldr (·.wireLen + ·) 0 = (l.map (·.wireLen)).sum := by
    rw [List.sum_eq_foldr, List.foldr_map]
  have hsplit : c.headers = c.headers.take i ++ c.headers[i] :: c.headers.drop (i + 1) := by
    rw [← List.drop_eq_getElem_cons hlt, List.take_append_drop]
  have hset : c.headers.set i h' = c.headers.take i ++ h' :: c.headers.drop (i + 1) := by
    rw [List.set_eq_take_append_cons_drop, if_pos hlt]
  have hlens := congrArg (fun l : List IpHeader => (l.map (·.wireLen)).sum) hsplit
  simp only [List.map_append, List.map_cons, List.sum_append, List.sum_cons] at hlens
  simp only [wireLen, hsum, hset, List.map_append, List.map_cons, List.sum_append, List.sum_cons]
  omega

end IpChain

/-- An operation on a field that an Ethernet header does not have is refused. -/
theorem Ethernet.update_ne_ok {e e' : Ethernet} {num : FieldNum} {inst : Instance} {op : FieldOp}
    {arg : Bytes} (hs : e.span? num inst = none) : e.update num inst op arg ≠ .ok e' := by
  unfold span? at hs
  unfold update
  cases htag : tagField? num with
  | some field =>
    rw [htag] at hs
    have hi : inst.resolve e.tags.length = none := Option.map_eq_none_iff.mp hs
    simp [hi]
  | none =>
    rw [htag] at hs
    by_cases hsole : inst.isSole
    · cases num <;> simp [hsole] at hs ⊢
    · simp [hsole]

theorem LabelStack.update?_eq_none {l : LabelStack} {num : FieldNum} {inst : Instance}
    {op : FieldOp} {arg : Bytes} (hs : l.span? num inst = none) : l.update? num inst op arg = none := by
  unfold span? at hs
  unfold update?
  cases hf : field? num with
  | none => rfl
  | some field =>
    cases hi : inst.resolve l.depth with
    | none => rfl
    | some i => simp [hf, hi] at hs

/-- An operation on a field that a message does not have is refused. -/
theorem Icmp6.sole_update_ne_ok {h h' : Icmp6} {num : FieldNum} {inst : Instance} {op : FieldOp}
    {arg : Bytes} (hs : soleSpan? inst (h.span? num) = none) :
    Header.sole num inst (h.update? num op arg) ≠ .ok h' := by
  unfold soleSpan? at hs
  unfold Header.sole
  by_cases hsole : inst.isSole
  · rw [if_pos hsole] at hs ⊢
    have hnone : h.update? num op arg = none := by
      unfold span? at hs
      unfold update?
      cases hslot : Icmp.slot? num with
      | some s => simp [hslot] at hs
      | none =>
        cases hlink : linkOption? num with
        | some kind =>
          have hplace : h.linkPlace? kind = none := by simpa [hslot, hlink] using hs
          simp [hplace]
        | none =>
          simp only [hslot, hlink] at hs
          split at hs
          · cases hs
          · rename_i htarget
            simp only [if_neg htarget]
    rw [hnone]
    simp [Header.orAbsent]
  · simp [hsole, Header.orAbsent]

namespace Header

variable {h h' : Header} {num : FieldNum} {inst : Instance} {op : FieldOp} {arg : Bytes}
  {dirty : Bool} {around : Surroundings}

/-- An operation on a slot that a header does not have is refused. -/
theorem sole_ne_ok {α : Type} {n : Nat} {slot? : FieldNum → Option (Slot n)}
    (hs : soleSpan? inst ((slot? num).map BitSpan.ofSlot) = none) {change : Slot n → α} {a : α} :
    sole num inst ((slot? num).map change) ≠ .ok a := by
  unfold soleSpan? at hs
  unfold sole
  by_cases hsole : inst.isSole
  · rw [if_pos hsole, Option.map_eq_none_iff] at hs
    simp [hs, orAbsent]
  · simp [hsole, orAbsent]

/-- Only the key and the sequence number of a GRE header can be updated where they cannot be read.
The header is then longer by a word. -/
theorem inserted_of_update (hs : h.span? num inst = none)
    (hu : h.update num inst op arg = .ok (h', dirty)) :
    (num = .greKey ∨ num = .greSeq) ∧ h'.trailer = h.trailer ∧ h'.wireLen = h.wireLen + 4 := by
  cases h with
  | ip c =>
    obtain ⟨⟨c', d⟩, hc, heq⟩ := map_eq_ok_iff.mp hu
    cases heq
    obtain ⟨hnum, htrailer, hwire⟩ := IpChain.inserted_of_update hs hc
    exact ⟨hnum, htrailer, hwire⟩
  | metadata m =>
    obtain ⟨m', hm, -⟩ := map_eq_ok_iff.mp hu
    have hslot : Metadata.slot? num inst = none := Option.map_eq_none_iff.mp hs
    rw [Metadata.update, hslot] at hm
    split at hm <;> cases hm
  | ethernet x =>
    obtain ⟨x', hx, -⟩ := map_eq_ok_iff.mp hu
    exact absurd hx (Ethernet.update_ne_ok hs)
  | arp x =>
    obtain ⟨x', hx, -⟩ := map_eq_ok_iff.mp hu
    exact absurd hx (sole_ne_ok hs)
  | mpls l =>
    obtain ⟨l', hl, -⟩ := map_eq_ok_iff.mp hu
    rw [LabelStack.update?_eq_none hs] at hl
    cases hl
  | tcp x =>
    obtain ⟨x', hx, -⟩ := map_eq_ok_iff.mp hu
    exact absurd hx (sole_ne_ok hs)
  | udp x =>
    obtain ⟨x', hx, -⟩ := map_eq_ok_iff.mp hu
    exact absurd hx (sole_ne_ok hs)
  | icmp4 x =>
    obtain ⟨x', hx, -⟩ := map_eq_ok_iff.mp hu
    exact absurd hx (sole_ne_ok hs)
  | icmp6 x =>
    obtain ⟨x', hx, -⟩ := map_eq_ok_iff.mp hu
    exact absurd hx (Icmp6.sole_update_ne_ok hs)
  | payload b => cases hu

/-- A header with as many bytes to store is as long. -/
theorem wireLen_of_store (hg : h'.group = h.group) (hl : h'.store.length = h.store.length) :
    h'.wireLen = h.wireLen := by
  by_cases hp : h.group = .packet
  · cases h <;> cases hp
    cases h' <;> cases hg
    rfl
  · rwa [store_eq_emit hp, store_eq_emit (hg ▸ hp), length_emit, length_emit] at hl

@[simp] theorem wireLen_attach (h : Header) (around : Surroundings) :
    (h.attach around).wireLen = h.wireLen := by
  rw [← length_emit, emit_attach, length_emit]

/-- An operation on a field leaves the trailer and the length as they are, or inserts a word. -/
theorem wireLen_update (hf : h.Flagged) (hg : h.group = num.group)
    (hu : h.update num inst op arg = .ok (h', dirty)) :
    h'.trailer = h.trailer ∧
      (h'.wireLen = h.wireLen ∧ (h.span? num inst).isSome ∨
        h'.wireLen = h.wireLen + 4 ∧ h.span? num inst = none ∧
          (num = .greKey ∨ num = .greSeq)) := by
  cases hs : h.span? num inst with
  | none =>
    obtain ⟨hnum, htrailer, hwire⟩ := inserted_of_update hs hu
    exact ⟨htrailer, .inr ⟨hwire, rfl, hnum⟩⟩
  | some s =>
    by_cases hop : num.Supports op
    · obtain ⟨h'', d, hu', htrailer, -, hc⟩ := update_span hf hs hop arg
      cases hu.symm.trans hu'
      exact ⟨htrailer, .inl ⟨wireLen_of_store (group_update hu) hc.length_eq, rfl⟩⟩
    · -- only metadata has operations that a field does not support
      obtain ⟨-, hpacket, -⟩ : op ≠ .set ∧ num.group = .packet ∧ _ := by
        simpa [FieldNum.Supports, not_or] using hop
      cases h with
      | metadata m =>
        obtain ⟨m', -, heq⟩ := map_eq_ok_iff.mp hu
        cases heq
        exact ⟨rfl, .inl ⟨rfl, rfl⟩⟩
      | _ => cases hg.trans hpacket

end Header

/-! ### Lengths of tables -/

namespace Headers

variable {t t' : Headers} {g : HeaderGroup} {e : Entry} {m : Metadata} {dirty : Bool} {n : Nat}

/-- What a header that takes the place of another one adds to the length. -/
theorem wireLen_set (he : t.get g = some e) (e' : Entry) :
    (t.set g (some e')).wireLen + e.wireLen = t.wireLen + e'.wireLen := by
  have hsum (u : Headers) : u.wireLen = (u.entries.map (·.wireLen)).sum := by
    rw [List.sum_eq_foldr, List.foldr_map]
    rfl
  have hout : g ∉ g.outside.reverse := by cases g <;> decide
  have hin : g ∉ g.inside := g.not_mem_inside_self
  rw [hsum, hsum, entries_around he, entries_around (get_set_self _ _ _), entriesOf_set hout,
    entriesOf_set hin]
  simp only [List.map_append, List.map_cons, List.sum_append, List.sum_cons]
  omega

theorem wireLen_modify (t : Headers) (g : HeaderGroup) {f : Entry → Entry}
    (hf : ∀ e, (f e).wireLen = e.wireLen) : (t.modify g f).wireLen = t.wireLen := by
  unfold modify
  cases he : t.get g with
  | none =>
    rw [Option.map_none, ← he]
    cases g <;> rfl
  | some e =>
    have hset := wireLen_set he (f e)
    rw [hf] at hset
    exact Nat.add_right_cancel hset

theorem wireLen_foldl {f : Headers → HeaderGroup → Headers}
    (hf : ∀ t g, (f t g).wireLen = t.wireLen) (gs : List HeaderGroup) (t : Headers) :
    (gs.foldl f t).wireLen = t.wireLen :=
  List.foldlRecOn gs f (motive := fun s => s.wireLen = t.wireLen) rfl
    fun s hs g _ => (hf s g).trans hs

theorem wireLen_rebuildAt (t : Headers) (g : HeaderGroup) :
    (t.rebuildAt g).wireLen = t.wireLen :=
  t.wireLen_modify g fun e => by simp [Entry.wireLen]

theorem wireLen_cleanAt (t : Headers) (g : HeaderGroup) : (t.cleanAt g).wireLen = t.wireLen :=
  t.wireLen_modify g fun _ => rfl

theorem wireLen_attachAt (t : Headers) (g : HeaderGroup) :
    (t.attachAt g).wireLen = t.wireLen :=
  t.wireLen_modify g fun e => by simp [Entry.wireLen]

/-- A header that takes the place of one with the same trailer. -/
theorem wireLen_set_header (he : t.get g = some e) {h' : Header}
    (htrailer : h'.trailer = e.header.trailer) (dirty : Bool) :
    (t.set g (some ⟨h', dirty⟩)).wireLen + e.header.wireLen = t.wireLen + h'.wireLen := by
  have hset : _ + (e.header.wireLen + _) = _ + (h'.wireLen + _) := wireLen_set he ⟨h', dirty⟩
  rw [htrailer] at hset
  omega

/-- What lies inside the metadata is the frame. -/
theorem innerLen_packet (hm : t.get .packet = some ⟨.metadata m, dirty⟩) :
    (t.around .packet).innerLen = t.wireLen := by
  have hsplit : t.emit = Entry.emitAll (t.entriesOf (.packet :: HeaderGroup.packet.inside)) := rfl
  rw [← length_emit, hsplit, entriesOf_cons hm, Entry.emitAll_cons]
  simp [Header.emit, Header.trailer, Surroundings.innerLen, around]

/-- The metadata holds the length of the frame without the last `n` words that were put into it. -/
structure Lags (t : Headers) (n : Nat) : Prop where
  /-- The frame has the words. -/
  bound : 4 * n ≤ t.wireLen
  /-- The metadata is there, and its copy of the length is short of them. -/
  cached : ∃ m dirty, t.get .packet = some ⟨.metadata m, dirty⟩ ∧
    m.packetLength = min (t.wireLen - 4 * n) 4294967295

theorem packetLength_cacheLength (m : Metadata) (around : Surroundings) :
    (m.cacheLength around).packetLength = min around.innerLen 4294967295 := by
  have hlt : min around.innerLen 4294967295 < 256 ^ Metadata.lengthSlot.width :=
    (Nat.min_le_right _ _).trans_lt (by decide)
  rw [Metadata.cacheLength, Metadata.packetLength, Block.num_setNum, Nat.mod_eq_of_lt hlt]

/-- Metadata that takes the length of the frame does not lag behind. -/
theorem lags_of_cached (hwire : t'.wireLen = t.wireLen)
    (hm : t.get .packet = some ⟨.metadata m, dirty⟩) (d : Bool)
    (hm' : t'.get .packet = some ⟨.metadata (m.cacheLength (t.around .packet)), d⟩) :
    t'.Lags 0 where
  bound := Nat.zero_le _
  cached := by
    refine ⟨_, d, hm', ?_⟩
    rw [packetLength_cacheLength, innerLen_packet hm, Nat.mul_zero, Nat.sub_zero, hwire]

/-- A rebuild whose last header is the metadata takes the length. -/
theorem lags_rebuildGroups {gs : List HeaderGroup} (hgs : .packet ∉ gs)
    (hm : t.get .packet = some ⟨.metadata m, dirty⟩) :
    (t.rebuildGroups (gs ++ [.packet])).Lags 0 := by
  set u := gs.foldl rebuildAt t with hu
  have hm' : u.get .packet = some ⟨.metadata m, dirty⟩ := by
    rw [hu, get_foldl_rebuildAt_of_not_mem hgs, hm]
  have hfold : t.rebuildGroups (gs ++ [.packet]) =
      (gs ++ [HeaderGroup.packet]).foldl cleanAt (u.rebuildAt .packet) := by
    rw [rebuildGroups, List.foldl_append (f := rebuildAt), ← hu]
    rfl
  refine lags_of_cached ?_ hm' false ?_
  · rw [hfold, wireLen_foldl wireLen_cleanAt, wireLen_rebuildAt]
  · rw [hfold, get_foldl_cleanAt, rebuildAt, get_modify_self, hm']
    simp [Header.rebuild]

theorem lags_rebuildOutward (g : HeaderGroup) (hm : t.get .packet = some ⟨.metadata m, dirty⟩) :
    (t.rebuildOutward g).Lags 0 := by
  obtain ⟨gs, hgs, hsplit⟩ : ∃ gs : List HeaderGroup, .packet ∉ gs ∧
      g :: g.outside = gs ++ [.packet] := by
    refine ⟨(g :: g.outside).dropLast, ?_⟩
    cases g <;> decide
  rw [rebuildOutward, hsplit]
  exact lags_rebuildGroups hgs hm

theorem lags_rebuildAll (hm : t.get .packet = some ⟨.metadata m, dirty⟩) : t.rebuildAll.Lags 0 :=
  have hgs : .packet ∉ [HeaderGroup.payload, .l4, .l3, .l2] := by decide
  lags_rebuildGroups hgs hm

theorem lags_attachAll (hm : t.get .packet = some ⟨.metadata m, dirty⟩) : t.attachAll.Lags 0 := by
  refine lags_of_cached (wireLen_foldl wireLen_attachAt _ _) hm dirty ?_
  have hfold : t.attachAll.get .packet = (t.attachAt .packet).get .packet := rfl
  rw [hfold, attachAt, get_modify_self, hm]
  rfl

/-- A table with the same metadata, and longer by some words. -/
theorem Lags.grow (ht : t.Lags n) {k : Nat} (hwire : t'.wireLen = t.wireLen + 4 * k)
    (hpacket : t'.get .packet = t.get .packet) : t'.Lags (n + k) := by
  obtain ⟨hbound, m, dirty, hm, hlen⟩ := ht
  refine ⟨by omega, m, dirty, hpacket.trans hm, ?_⟩
  rw [hlen, hwire]
  congr 1
  omega

end Headers

namespace Packet

open Headers

variable {p q : Packet} {n : Nat} {kind : HeaderKind}

/-! ### What each edit does -/

theorem lags_encap {m : Metadata} {dirty : Bool}
    (hm : p.headers.get .packet = some ⟨.metadata m, dirty⟩) (h : p.encap kind = .ok q) :
    q.headers.Lags 0 := by
  have hset {g : HeaderGroup} (hg : g ≠ .packet) (h : Header) :
      (p.headers.refreshed g h).Lags 0 :=
    lags_rebuildOutward g ((get_set_of_ne _ hg.symm _).trans hm)
  cases hg : kind.group? with
  | none =>
    rw [encap, hg] at h
    cases h
  | some g =>
    obtain ⟨hpacket, -, ⟨_, h', -, -, heq⟩ | ⟨-, h', _, -, heq⟩⟩ := encap_cases hg h
    · exact heq ▸ hset hpacket _
    · exact heq ▸ hset hpacket _

theorem lags_decap {m : Metadata} {dirty : Bool}
    (hm : p.headers.get .packet = some ⟨.metadata m, dirty⟩) (h : p.decap kind = .ok q) :
    q.headers.Lags 0 := by
  rw [decap] at h
  split at h
  · cases h
  · cases h
  · rename_i g hpacket hg
    have hset (e : Option Entry) :
        (p.headers.set g e).get .packet = some ⟨.metadata m, dirty⟩ :=
      (get_set_of_ne _ (Ne.symm hpacket) _).trans hm
    split at h
    · cases h
    · obtain ⟨⟨h', done⟩, -, h⟩ := bind_eq_ok_iff.mp h
      cases done with
      | false =>
        cases h
        exact lags_rebuildOutward g (hset _)
      | true =>
        simp only [if_true] at h
        split at h
        · rename_i outer _
          cases h
          exact lags_rebuildOutward outer (hset none)
        · -- the metadata is outside, so there is something to rebuild
          rename_i hprev
          have hout : HeaderGroup.packet ∈ g.outside := by
            cases g <;> first | decide | exact absurd rfl hpacket
          have hnone := List.find?_eq_none.mp hprev _ hout
          rw [isPresent, hset none] at hnone
          exact absurd rfl hnone

/-! ### Updates -/

/-- Does an operation on a field put the key or the sequence number into a GRE header that has
none? -/
def inserts (p : Packet) (id : FieldId) (op : FieldOp) (arg : Bytes) : Prop :=
  id.isGreWord ∧ (p.update id op arg).isOk ∧ ¬(p.get id).isOk

instance (p : Packet) (id : FieldId) (op : FieldOp) (arg : Bytes) :
    Decidable (p.inserts id op arg) :=
  inferInstanceAs (Decidable (_ ∧ _ ∧ _))

variable {num : FieldNum} {inst : Instance} {id : FieldId} {op : FieldOp} {arg : Bytes}

theorem isOk_get_iff {e : Entry} (he : p.headers.get num.group = some e) (inst : Instance) :
    (p.get (.field num inst)).isOk ↔ (e.header.span? num inst).isSome := by
  cases hs : e.header.span? num inst with
  | some s =>
    have hget := get_eq_ok_iff.mpr ⟨e, s, he, hs, rfl⟩
    simp [hget, Except.isOk, Except.toBool]
  | none =>
    cases hget : p.get (.field num inst) with
    | error err => simp [Except.isOk, Except.toBool]
    | ok val =>
      obtain ⟨e', s, he', hs', -⟩ := get_eq_ok_iff.mp hget
      cases he.symm.trans he'
      cases hs.symm.trans hs'

/-- Every other field of the metadata lies beside the length. -/
theorem apart_lengthSlot {slot : Slot 149} (hnum : num ≠ .packetLength)
    (hslot : Metadata.slot? num inst = some slot) : slot.Apart Metadata.lengthSlot := by
  obtain ⟨hscratch, -⟩ | ⟨-, hsole, -⟩ := Header.metadata_slot_cases hslot
  · -- the scratch attributes lie behind the fields that occur once
    refine .inr ?_
    show 68 ≤ slot.start
    unfold Metadata.scratchSlot? at hscratch
    split at hscratch
    · rename_i base width i hbase _
      obtain ⟨_, hslot⟩ := Option.dite_none_right_eq_some.mp hscratch
      cases hslot
      have hle : 68 ≤ base := by
        cases num <;> simp only [Metadata.scratchBase?, Option.some.injEq, Prod.mk.injEq,
          reduceCtorEq] at hbase <;> omega
      exact Nat.le_add_right_of_le hle
    · cases hscratch
  · cases num <;> simp only [Metadata.soleSlot?, Option.some.injEq, reduceCtorEq] at hsole
    case packetLength => exact absurd rfl hnum
    all_goals
      subst hsole
      decide

theorem packetLength_update {m m' : Metadata} (hnum : num ≠ .packetLength)
    (hu : m.update num inst op arg = .ok m') : m'.packetLength = m.packetLength := by
  unfold Metadata.update at hu
  split at hu
  · cases hu
  · split at hu
    · rename_i slot hslot
      cases hu
      have hget := Block.get_set_of_apart (apart_lengthSlot hnum hslot) m.block
        (op.apply (m.block.get slot) arg)
      exact congrArg Bytes.toNat hget
    · cases hu

/-- After a field has been updated, the length lags behind by the word that was inserted, if one
was. -/
theorem lags_update_field (hp : p.Reached) (ht : p.headers.Lags n) (hnum : num ≠ .packetLength)
    (hu : p.update (.field num inst) op arg = .ok q) :
    q.headers.Lags (if p.inserts (.field num inst) op arg then n + 1 else n) := by
  obtain ⟨-, e, h', dirty, he, huh, hq⟩ := update_field_cases hu
  have hgroup := hp.placed _ _ he
  obtain ⟨htrailer, hwire⟩ := Header.wireLen_update (hp.flagged he) hgroup huh
  have hset := wireLen_set_header he htrailer (e.dirty || dirty)
  rw [← hq] at hset
  have hok : (p.update (.field num inst) op arg).isOk := by rw [hu]; rfl
  have hread := isOk_get_iff he inst
  by_cases hpacket : num.group = .packet
  · -- a field of the metadata, which stays as long as it was
    have hnot : ¬p.inserts (.field num inst) op arg := by
      rintro ⟨hword, -, -⟩
      obtain rfl | rfl := FieldId.isGreWord_field.mp hword <;> cases hpacket
    obtain ⟨hbound, m, d, hm, hlen⟩ := ht
    obtain rfl : ⟨.metadata m, d⟩ = e := by
      rw [hpacket, hm] at he
      exact Option.some.inj he
    obtain ⟨m', hm', heq⟩ := map_eq_ok_iff.mp huh
    cases heq
    have hwire' : q.headers.wireLen = p.headers.wireLen := Nat.add_right_cancel hset
    rw [if_neg hnot]
    refine ⟨by omega, m', _, by rw [hq, hpacket]; rfl, ?_⟩
    rw [packetLength_update hnum hm', hlen, hwire']
  · have hpacket' : q.headers.get .packet = p.headers.get .packet := by
      rw [hq, get_set_of_ne _ (Ne.symm hpacket)]
    obtain ⟨hwire, hs⟩ | ⟨hwire, hs, hword⟩ := hwire
    · have hnot : ¬p.inserts (.field num inst) op arg := fun h => h.2.2 (hread.mpr hs)
      rw [if_neg hnot]
      exact ht.grow (k := 0) (by omega) hpacket'
    · have hins : p.inserts (.field num inst) op arg := by
        refine ⟨FieldId.isGreWord_field.mpr hword, hok, fun h => ?_⟩
        have hsome := hread.mp h
        rw [hs] at hsome
        cases hsome
      rw [if_pos hins]
      exact ht.grow (k := 1) (by omega) hpacket'

/-- User-defined fields change no length. -/
theorem lags_update_udf {g : HeaderGroup} {offset size : UInt16} (ht : p.headers.Lags n)
    (hu : p.update (.udf g offset size inst) op arg = .ok q) : q.headers.Lags n := by
  obtain ⟨g', e, start, val, h', -, he, -, hw, rfl⟩ := update_raw_eq_ok hu
  have hset := wireLen_set_header he (Header.sameShape_writeRaw hw).trailer true
  rw [← h'.length_emit, Header.length_writeRaw hw, e.header.length_emit] at hset
  have hwire := Nat.add_right_cancel hset
  by_cases hpacket : g' = .packet
  · -- the metadata has no bytes to overwrite
    subst hpacket
    obtain ⟨hbound, m, d, hm, hlen⟩ := ht
    cases he.symm.trans hm
    obtain ⟨-, hreload⟩ := Header.writeRaw_eq_some_iff.mp hw
    obtain ⟨-, hsame⟩ := Option.ite_none_right_eq_some.mp hreload
    cases hsame
    have hget := get_set_self p.headers .packet (some ⟨.metadata m, true⟩)
    exact ⟨hwire ▸ hbound, m, true, hget, by rw [hlen, hwire]⟩
  · exact ht.grow (k := 0) hwire (get_set_of_ne _ (Ne.symm hpacket) _)

/-! ### Edits -/

/-- The number of words put into GRE headers since the length was last cached, after an edit. -/
def lagAfter (p : Packet) (n : Nat) : Edit → Nat
  | .update id op arg => if p.inserts id op arg then n + 1 else n
  | .encap kind => if (p.encap kind).isOk then 0 else n
  | .decap kind => if (p.decap kind).isOk then 0 else n
  | .serialize => 0

/-- The number of words put into GRE headers since the length was last cached, after some edits. -/
def lag (p : Packet) (n : Nat) : List Edit → Nat
  | [] => n
  | x :: es => lag (p.edit x) (p.lagAfter n x) es

theorem Reached.edit (hp : p.Reached) (x : Edit) : (p.edit x).Reached := by
  cases x with
  | update id op arg =>
    rw [Packet.edit]
    cases h : p.update id op arg with
    | error err => exact hp
    | ok q => exact hp.update h
  | encap kind =>
    rw [Packet.edit]
    cases h : p.encap kind with
    | error err => exact hp
    | ok q => exact hp.encap h
  | decap kind =>
    rw [Packet.edit]
    cases h : p.decap kind with
    | error err => exact hp
    | ok q => exact hp.decap h
  | serialize => exact hp.serialize

/-- What an edit leaves lags behind by as many words as it counts. -/
theorem lags_edit (hp : p.Reached) (ht : p.headers.Lags n) {x : Edit} (hx : ¬x.writesLength) :
    (p.edit x).headers.Lags (p.lagAfter n x) := by
  obtain ⟨m, dirty, hm, -⟩ := ht.cached
  cases x with
  | update id op arg =>
    rw [edit, lagAfter]
    cases hu : p.update id op arg with
    | error err =>
      have hnot : ¬p.inserts id op arg := by simp [inserts, hu, Except.isOk, Except.toBool]
      rw [if_neg hnot]
      exact ht
    | ok q =>
      cases id with
      | field num inst =>
        have hnum : num ≠ .packetLength := by
          rintro rfl
          exact hx rfl
        exact lags_update_field hp ht hnum hu
      | udf g offset size inst =>
        have hnot : ¬p.inserts (.udf g offset size inst) op arg := by
          simp [inserts, FieldId.isGreWord]
        rw [if_neg hnot]
        exact lags_update_udf ht hu
  | encap kind =>
    rw [edit, lagAfter]
    cases h : p.encap kind with
    | error err => exact ht
    | ok q => exact lags_encap hm h
  | decap kind =>
    rw [edit, lagAfter]
    cases h : p.decap kind with
    | error err => exact ht
    | ok q => exact lags_decap hm h
  | serialize => exact lags_rebuildAll hm

theorem lags_edits (hp : p.Reached) (ht : p.headers.Lags n) {es : List Edit}
    (hes : ∀ x ∈ es, ¬x.writesLength) : (p.edits es).headers.Lags (p.lag n es) := by
  induction es generalizing p n with
  | nil => exact ht
  | cons x es ih =>
    obtain ⟨hx, hes⟩ := List.forall_mem_cons.mp hes
    exact ih (hp.edit x) (lags_edit hp ht hx) hes

theorem lags_parse {start : HeaderKind} {b : Bytes} (hp : parse start b = .ok p) :
    p.headers.Lags 0 := by
  obtain ⟨t, ht, rfl⟩ := parse_eq_ok_iff.mp hp
  refine lags_attachAll (?_ : t.get .packet = some ⟨.metadata .fresh, false⟩)
  by_cases hs : start = .none
  · subst hs
    cases ht
    rfl
  · exact (emitAll_parseHeaders (by decide) (fun h => absurd h hs) ht).1 .packet (by decide)

theorem get_packetLength {m : Metadata} {dirty : Bool}
    (hm : p.headers.get .packet = some ⟨.metadata m, dirty⟩) :
    p.get (.first .packetLength) = .ok (Bytes.ofNat 4 m.packetLength) := by
  have hslot : m.block.get Metadata.lengthSlot = Bytes.ofNat 4 m.packetLength := by
    have hnum := Bytes.ofNat_toNat (m.block.get Metadata.lengthSlot)
    rw [Block.length_get] at hnum
    exact hnum.symm
  rw [← hslot]
  refine get_eq_ok_iff.mpr ⟨_, .ofSlot Metadata.lengthSlot, hm, rfl, ?_⟩
  exact BitSpan.read_ofSlot _ _

/-- Numbers that four bytes hold are told apart by them. -/
theorem ofNat_inj {a b : Nat} (ha : a < 256 ^ 4) (hb : b < 256 ^ 4) :
    Bytes.ofNat 4 a = Bytes.ofNat 4 b ↔ a = b := by
  refine ⟨fun h => ?_, congrArg _⟩
  have hnum := congrArg Bytes.toNat h
  rwa [Bytes.toNat_ofNat, Bytes.toNat_ofNat, Nat.mod_eq_of_lt ha, Nat.mod_eq_of_lt hb] at hnum

/-- What the length of a packet reads as after any edits of a parsed frame that do not write it
themselves: the length of the frame less the words that were put into GRE headers since the copy
was last taken. It is right if there are none, or if the frame is too long for them to show. -/
theorem packetLength_edits {start : HeaderKind} {b : Bytes} {es : List Edit}
    (hp : parse start b = .ok p) (hes : ∀ x ∈ es, ¬x.writesLength) :
    4 * p.lag 0 es ≤ (p.edits es).length ∧
    (p.edits es).get (.first .packetLength) =
      .ok (Bytes.ofNat 4 (min ((p.edits es).length - 4 * p.lag 0 es) 4294967295)) ∧
    ((p.edits es).get (.first .packetLength) =
        .ok (Bytes.ofNat 4 (min (p.edits es).length 4294967295)) ↔
      p.lag 0 es = 0 ∨ 4294967295 ≤ (p.edits es).length - 4 * p.lag 0 es) := by
  obtain ⟨hbound, m, dirty, hm, hlen⟩ := lags_edits (.parse hp) (lags_parse hp) hes
  have hbound : 4 * p.lag 0 es ≤ (p.edits es).length := hbound
  have hget := get_packetLength hm
  rw [hlen] at hget
  refine ⟨hbound, hget, ?_⟩
  have hlt (k : Nat) : min k 4294967295 < 256 ^ 4 := (Nat.min_le_right _ _).trans_lt (by decide)
  rw [hget, Except.ok.injEq, ofNat_inj (hlt _) (hlt _)]
  change min ((p.edits es).length - _) _ = _ ↔ _
  omega

/-- A tunnel gets a key, and then an Ethernet header, with which the length is taken again. -/
theorem packetLength_of_framed_tunnel : ∃ b p es, parse .ip4 b = .ok p ∧
    (∀ x ∈ es, ¬x.writesLength) ∧ es.length = 2 ∧ (p.edits es).length = b.length + 4 + 14 ∧
      (p.edits es).get (.first .packetLength) = .ok [0, 0, 0, 44] := by
  let b : Bytes := [0x45, 0, 0, 26, 0, 0, 0, 0, 64, 47, 0x66, 0xB3, 10, 0, 0, 1, 10, 0, 0, 2,
    0, 0, 0x12, 0x34, 1, 2]
  let es : List Edit := [.update (.first .greKey) .set [7], .encap .eth]
  have run : ∃ p ∈ (parse .ip4 b).toOption, p.lag 0 es = 0 ∧ (p.edits es).length = 44 := by
    decide +kernel
  obtain ⟨p, hp, hlag, hlen⟩ := run
  have hp := toOption_eq_some_iff.mp hp
  have hes : ∀ x ∈ es, ¬x.writesLength := by decide
  have hget := (packetLength_edits hp hes).2.1
  rw [hlag, hlen] at hget
  exact ⟨b, p, es, hp, hes, rfl, hlen, hget⟩

/-- The key of a tunnel is set for the first time, and the length is that of the frame without
it. -/
theorem packetLength_of_inserted_key : ¬ ∀ (start : HeaderKind) (b : Bytes) (p : Packet)
    (es : List Edit), parse start b = .ok p → (∀ x ∈ es, ¬x.writesLength) →
      (p.edits es).get (.first .packetLength) =
        .ok (Bytes.ofNat 4 (min (p.edits es).length 4294967295)) := by
  intro h
  let b : Bytes := [0x45, 0, 0, 26, 0, 0, 0, 0, 64, 47, 0x66, 0xB3, 10, 0, 0, 1, 10, 0, 0, 2,
    0, 0, 0x12, 0x34, 1, 2]
  let es : List Edit := [.update (.first .greKey) .set [0, 0, 0, 7]]
  have run : ∃ p ∈ (parse .ip4 b).toOption, (p.edits es).length = 30 ∧
      (p.edits es).get (.first .packetLength) = .ok [0, 0, 0, 26] := by
    decide +kernel
  obtain ⟨p, hp, hlen, hget⟩ := run
  have hclaim := h .ip4 b p es (toOption_eq_some_iff.mp hp) (by decide)
  rw [hget, hlen] at hclaim
  revert hclaim
  decide

end Packet

end Dataplane

import Dataplane.Proofs.Fields.Headers
import Dataplane.Proofs.Packet.Reached

/-!
# The fields of packets

The fields of a packet lie in its metadata and in the frame it emits. Written one after the other,
the two are the *image* of the packet, and every occurrence of a field is a span of the image.

`field_laws` says all that a field access does, for every packet that operations reach: the value is
what the span holds, at a listed width; an operation that the field supports succeeds, leaves the
result of the arithmetic modulo the number of bits of the field, and changes no other bit of the
image, apart from the header checksum when the time to live of an IPv4 header is decremented; any
other operation is refused.
-/

namespace Dataplane

open BitSpan

namespace Headers

variable {t : Headers} {g : HeaderGroup} {e : Entry}

/-- The bytes of all headers, and then the trailers. -/
def image (t : Headers) : Bytes :=
  t.entries.flatMap (·.header.store) ++ t.entries.reverse.flatMap (·.header.trailer)

/-- The bytes before those of the header of a group. -/
def before (t : Headers) (g : HeaderGroup) : Bytes :=
  (t.entriesOf g.outside.reverse).flatMap (·.header.store)

/-- The bytes behind those of the header of a group. -/
def behind (t : Headers) (g : HeaderGroup) : Bytes :=
  (t.entriesOf g.inside).flatMap (·.header.store) ++ t.entries.reverse.flatMap (·.header.trailer)

theorem entries_around (he : t.get g = some e) :
    t.entries = t.entriesOf g.outside.reverse ++ e :: t.entriesOf g.inside := by
  rw [entries, g.all_eq, entriesOf, List.filterMap_append]
  congr 1
  exact entriesOf_cons he _

theorem image_around (he : t.get g = some e) :
    t.image = t.before g ++ e.header.store ++ t.behind g := by
  rw [image, before, behind, entries_around he]
  simp only [List.flatMap_append, List.flatMap_cons, List.append_assoc]

/-- A header that is exchanged for one with the same trailer leaves everything around it as it
is. -/
theorem image_set (he : t.get g = some e) {e' : Entry}
    (htrailer : e'.header.trailer = e.header.trailer) :
    (t.set g (some e')).image = t.before g ++ e'.header.store ++ t.behind g := by
  have hout : g ∉ g.outside.reverse := by cases g <;> decide
  have hin : g ∉ g.inside := by cases g <;> decide
  have hget : (t.set g (some e')).get g = some e' := get_set_self _ _ _
  rw [image_around hget, before, behind, entries_around hget, entriesOf_set hout, entriesOf_set hin,
    before, behind, entries_around he]
  simp only [List.reverse_append, List.reverse_cons, List.flatMap_append, List.flatMap_cons,
    List.flatMap_nil, htrailer]

end Headers

/-- Only metadata stores something else than it emits. -/
theorem Header.store_eq_emit {h : Header} (hg : h.group ≠ .packet) : h.store = h.emit := by
  cases h with
  | metadata m => exact absurd rfl hg
  | _ => rfl

namespace Packet

variable {p : Packet}

/-- The block of the metadata, and then the frame. -/
def image (p : Packet) : Bytes := (p.metadata?.map (·.block.bytes)).getD [] ++ p.headers.emit

/-- Where a field lies in the image of a packet. -/
def span? (p : Packet) (num : FieldNum) (inst : Instance) : Option BitSpan := do
  let e ← p.headers.get num.group
  let s ← e.header.span? num inst
  return s.after (p.headers.before num.group).length

/-- What an operation on a field changes beside it. -/
def beside? (p : Packet) (num : FieldNum) (inst : Instance) (op : FieldOp) : Option BitSpan := do
  let e ← p.headers.get num.group
  let s ← e.header.beside? num inst op
  return s.after (p.headers.before num.group).length

/-- The image is what the headers store. -/
theorem image_eq (hp : p.headers.Placed) : p.image = p.headers.image := by
  have hinside : (p.headers.entriesOf HeaderGroup.packet.inside).flatMap (·.header.store) =
      (p.headers.entriesOf HeaderGroup.packet.inside).flatMap (·.header.emit) := by
    refine List.flatMap_congr fun e he => ?_
    obtain ⟨g, hg, he⟩ := List.mem_filterMap.mp he
    refine Header.store_eq_emit ?_
    rw [hp g e he]
    rintro rfl
    exact absurd hg (by decide)
  unfold image metadata?
  cases he : p.headers.packet with
  | none =>
    have hentries : p.headers.entries = p.headers.entriesOf HeaderGroup.packet.inside :=
      Headers.entriesOf_cons_none (g := .packet) he _
    simp [Headers.image, Headers.emit, Entry.emitAll, hentries, hinside]
  | some e =>
    obtain ⟨h, dirty⟩ := e
    have hgroup : h.group = .packet := hp .packet ⟨h, dirty⟩ he
    have hentries : p.headers.entries =
        ⟨h, dirty⟩ :: p.headers.entriesOf HeaderGroup.packet.inside :=
      Headers.entriesOf_cons (g := .packet) he _
    cases h with
    | metadata m =>
      have hemit : (Header.metadata m).emit = [] := rfl
      have hstore : (Header.metadata m).store = m.block.bytes := rfl
      simp [Headers.image, Headers.emit, Entry.emitAll, hentries, hinside, hemit, hstore]
    | _ => cases hgroup

/-! ### What a field access does -/

theorem span?_eq_some_iff {num : FieldNum} {inst : Instance} {s : BitSpan} :
    p.span? num inst = some s ↔ ∃ e s', p.headers.get num.group = some e ∧
      e.header.span? num inst = some s' ∧ s'.after (p.headers.before num.group).length = s := by
  simp [span?, Option.bind_eq_some_iff]

theorem get_eq_ok_iff {num : FieldNum} {inst : Instance} {val : Bytes} :
    p.get (.field num inst) = .ok val ↔ ∃ e s, p.headers.get num.group = some e ∧
      e.header.span? num inst = some s ∧ s.read e.header.store = val := by
  cases he : p.headers.get num.group with
  | none => simp [get, he]
  | some e => simp [get, he, Header.get_eq_ok_iff]

/-- An update of a field that can be read. -/
theorem update_of_header {num : FieldNum} {inst : Instance} {op : FieldOp} {arg : Bytes} {e : Entry}
    (he : p.headers.get num.group = some e) (hpos : 1 ≤ arg.length)
    (hmax : arg.length ≤ num.maxWidth) :
    p.update (.field num inst) op arg = (e.header.update num inst op arg).map fun (h, dirty) =>
      { p with headers := p.headers.set num.group (some ⟨h, e.dirty || dirty⟩) } := by
  have haccepts : num.accepts arg.length := by
    simp only [FieldNum.accepts, decide_eq_true_eq]
    exact ⟨hpos, hmax⟩
  simp only [update, haccepts, he, Bool.not_true, Bool.false_eq_true, if_false]
  cases e.header.update num inst op arg <;> rfl

/-- The numbers of a field before and after an operation. -/
theorem toNat_result {s : BitSpan} {b b' arg : Bytes} {op : FieldOp} {beside : Option BitSpan}
    (hc : s.Change beside (op.apply (s.read b) arg).toNat b b') :
    ((s.read b').toNat : ℤ) = op.number (s.read b).toNat arg.toNat % 2 ^ s.bits.count := by
  have hvalue := hc.fits.value
  have hpow : (256 : Nat) ^ s.width = 2 ^ (8 * s.width) := by rw [pow_mul]; rfl
  have hle : (2 : Nat) ^ s.bits.count ≤ 256 ^ s.width := by
    rw [hpow]
    exact Nat.pow_le_pow_right (by omega) hvalue
  have hdvd : (2 : ℤ) ^ s.bits.count ∣ 256 ^ s.width := by
    have h : (256 : ℤ) ^ s.width = 2 ^ (8 * s.width) := by rw [pow_mul]; rfl
    rw [h]
    exact pow_dvd_pow 2 hvalue
  have hlt : (op.apply (s.read b) arg).toNat % 2 ^ s.bits.count < 256 ^ s.width :=
    lt_of_lt_of_le (Nat.mod_lt _ (Nat.two_pow_pos _)) hle
  rw [hc.read, Bytes.toNat_ofNat, Nat.mod_eq_of_lt hlt]
  push_cast
  rw [FieldOp.toNat_apply, length_read, Int.emod_emod_of_dvd _ hdvd]

/-- The checksum that changes beside a time to live lies two bytes further back. -/
theorem beside?_eq {num : FieldNum} {inst : Instance} {op : FieldOp} {s c : BitSpan}
    (hs : p.span? num inst = some s) (hc : p.beside? num inst op = some c) :
    num = .ipHop ∧ op = .dec ∧ c = ofBytes (s.start + 2) 2 := by
  obtain ⟨e, s', he, hs', rfl⟩ := span?_eq_some_iff.mp hs
  simp only [beside?, he, Option.bind_eq_bind, Option.bind_some] at hc
  obtain ⟨c', hc', hc⟩ := Option.bind_eq_some_iff.mp hc
  cases hc
  cases hh : e.header with
  | ip chain =>
    rw [hh] at hs' hc'
    obtain ⟨i, x, s'', hi, hx, hs'', rfl⟩ := IpChain.span?_eq_some_iff.mp hs'
    simp only [Header.beside?, IpChain.beside?, hi, hx, Option.bind_eq_bind,
      Option.bind_some] at hc'
    obtain ⟨c'', hc'', hc'⟩ := Option.bind_eq_some_iff.mp hc'
    cases hc'
    cases x with
    | v4 x =>
      obtain ⟨⟨rfl, rfl⟩, hc''⟩ := Option.ite_none_right_eq_some.mp hc''
      cases hc''
      cases hs''
      exact ⟨rfl, rfl, rfl⟩
    | v6 x => cases hc''
    | gre x => cases hc''
  | _ =>
    rw [hh] at hc'
    cases hc'

end Packet

/-- A value reduced to the bits of a field. -/
def FieldNum.cut (num : FieldNum) (val : Bytes) : Bytes :=
  Bytes.ofNat val.length (val.toNat % 2 ^ num.bitCount val.length)

namespace Packet

/-- What an operation on a field that holds `val` at the span `s` makes of the packet. -/
structure Applied (p q : Packet) (num : FieldNum) (inst : Instance) (op : FieldOp)
    (arg val : Bytes) (s : BitSpan) : Prop where
  /-- The field then holds the result modulo two to the number of its bits, as wide as before. -/
  result : ∃ new, q.get (.field num inst) = .ok new ∧ new.length = val.length ∧
    (new.toNat : ℤ) = op.number val.toNat arg.toNat % 2 ^ num.bitCount val.length
  /-- A field that is overwritten holds the operand padded or cut to its width and its bits. -/
  overwritten : op = .set → q.get (.field num inst) = .ok (num.cut (arg.resize val.length))
  /-- No byte comes or goes. -/
  length_eq : q.image.length = p.image.length
  /-- Every other bit of the metadata and of the frame is as it was. -/
  kept : ∀ i, ¬ s.Holds i → (∀ c ∈ p.beside? num inst op, ¬ c.Holds i) →
    Bytes.bit q.image i = Bytes.bit p.image i

/-- An operation that changes a header at the span of a field applies to the packet. -/
theorem applied_of_change {p : Packet} (hp : p.headers.Placed) {num : FieldNum} {inst : Instance}
    {op : FieldOp} {arg : Bytes} {e : Entry} {h' : Header} {s : BitSpan} (dirty : Bool)
    (he : p.headers.get num.group = some e) (hs : e.header.span? num inst = some s)
    (hs' : h'.span? num inst = some s) (hgroup : h'.group = e.header.group)
    (htrailer : h'.trailer = e.header.trailer)
    (hc : s.Change (e.header.beside? num inst op) (op.apply (s.read e.header.store) arg).toNat
      e.header.store h'.store) :
    p.Applied { p with headers := p.headers.set num.group (some ⟨h', dirty⟩) } num inst op arg
      (s.read e.header.store) (s.after (p.headers.before num.group).length) := by
  have hq : (p.headers.set num.group (some ⟨h', dirty⟩)).Placed :=
    hp.set (hgroup.trans (hp _ _ he))
  have hadmits := Header.admits_span? hs
  have hget : get { p with headers := p.headers.set num.group (some ⟨h', dirty⟩) }
      (.field num inst) = .ok (s.read h'.store) :=
    get_eq_ok_iff.mpr ⟨⟨h', dirty⟩, s, Headers.get_set_self _ _ _, hs', rfl⟩
  have hset := Headers.image_set he (show (Entry.mk h' dirty).header.trailer = _ from htrailer)
  have himage := hc.between (p.headers.before num.group) (p.headers.behind num.group)
  rw [← Headers.image_around he, ← hset] at himage
  have hbits : s.bits.count = num.bitCount (s.read e.header.store).length := by
    rw [length_read, hadmits.2]
  constructor
  · refine ⟨_, hget, by rw [length_read, length_read], ?_⟩
    rw [← hbits]
    exact toNat_result hc
  · rintro rfl
    rw [hget, FieldNum.cut, Bytes.length_resize, ← hbits, hc.read, length_read,
      FieldOp.apply, length_read]
  · rw [image_eq hp, image_eq hq]
    exact himage.length_eq
  · intro i hi hbeside
    rw [image_eq hp, image_eq hq]
    refine himage.kept i hi fun c hc => hbeside c ?_
    obtain ⟨c', hc', rfl⟩ := Option.mem_map.mp hc
    simp only [beside?, he, Option.bind_eq_bind, Option.bind_some]
    exact Option.bind_eq_some_iff.mpr ⟨c', hc', rfl⟩

/-- What a field access does, in every packet that operations reach. -/
theorem field_laws {p : Packet} (hp : p.Reached) {num : FieldNum} {inst : Instance} {val : Bytes}
    (hget : p.get (.field num inst) = .ok val) :
    val.length ∈ num.widths ∧
    ∃ s, p.span? num inst = some s ∧ s.Fits p.image.length ∧ s.read p.image = val ∧
      s.bits.count = num.bitCount val.length ∧
      ∀ op arg, 1 ≤ arg.length → arg.length ≤ num.maxWidth →
        (num.Supports op →
          (∃ q, p.update (.field num inst) op arg = .ok q ∧ p.Applied q num inst op arg val s) ∧
          ∀ c ∈ p.beside? num inst op, num = .ipHop ∧ op = .dec ∧ c = ofBytes (s.start + 2) 2) ∧
        (¬ num.Supports op →
          p.update (.field num inst) op arg = .error (.badOp (.field num inst) op)) := by
  obtain ⟨e, s, he, hs, rfl⟩ := get_eq_ok_iff.mp hget
  have hspan : p.span? num inst = some (s.after (p.headers.before num.group).length) :=
    span?_eq_some_iff.mpr ⟨e, s, he, hs, rfl⟩
  obtain ⟨hwidth, hbits⟩ := Header.admits_span? hs
  have hfits : s.Fits e.header.store.length := by
    have hset : num.Supports .set := .inl rfl
    obtain ⟨_, _, -, -, -, hc⟩ := Header.update_span (hp.flagged he) hs hset []
    exact hc.fits
  refine ⟨by rwa [length_read], _, hspan, ?_, ?_, by rw [length_read]; exact hbits, ?_⟩
  · rw [image_eq hp.placed, Headers.image_around he]
    exact hfits.between _ _
  · rw [image_eq hp.placed, Headers.image_around he, read_between _ _ hfits.bytes]
  · intro op arg hpos hmax
    rw [update_of_header he hpos hmax]
    constructor
    · intro hop
      refine ⟨?_, fun c hc => beside?_eq hspan hc⟩
      obtain ⟨h', dirty, hu, htrailer, hs', hc⟩ := Header.update_span (hp.flagged he) hs hop arg
      refine ⟨_, by rw [hu]; rfl, ?_⟩
      exact applied_of_change hp.placed _ he hs hs' (Header.group_update hu) htrailer hc
    · intro hop
      obtain ⟨hset, hpacket, -⟩ : op ≠ .set ∧ num.group = .packet ∧ _ := by
        simpa [FieldNum.Supports, not_or] using hop
      have hmeta : e.header.group = .packet := (hp.placed _ _ he).trans hpacket
      cases hh : e.header with
      | metadata m =>
        rw [hh] at hs
        obtain ⟨slot, hslot, -⟩ := Option.map_eq_some_iff.mp hs
        rw [Header.update, Header.metadata_update hslot, if_neg hop]
        rfl
      | _ =>
        rw [hh] at hmeta
        cases hmeta

/-- The second label of a stack is decremented below zero and wraps at its twenty bits. -/
theorem field_laws_label : ∃ p q s, parse .mpls [0, 1, 0, 64, 0, 2, 0x1B, 64, 7] = .ok p ∧
    p.get (.field .mplsLabel ⟨1⟩) = .ok [0, 0, 0, 0x21] ∧
    p.update (.field .mplsLabel ⟨1⟩) .dec [0x22] = .ok q ∧
    p.Applied q .mplsLabel ⟨1⟩ .dec [0x22] [0, 0, 0, 0x21] s := by
  have parsed : ∃ p ∈ (parse .mpls [0, 1, 0, 64, 0, 2, 0x1B, 64, 7]).toOption,
      (p.get (.field .mplsLabel ⟨1⟩)).toOption = some [0, 0, 0, 0x21] := by
    decide +kernel
  obtain ⟨p, hp, hget⟩ := parsed
  have hp := toOption_eq_some_iff.mp hp
  have hget := toOption_eq_some_iff.mp hget
  obtain ⟨-, s, -, -, -, -, laws⟩ := field_laws (.parse hp) hget
  obtain ⟨⟨q, hu, hq⟩, -⟩ := (laws .dec [0x22] (by decide) (by decide)).1 (by decide)
  exact ⟨p, q, s, hp, hget, hu, hq⟩

end Packet

end Dataplane

import Dataplane.Proofs.Fields.Packet
import Dataplane.Proofs.Packet.RawFields

/-!
# Overwriting fields that can be read

A field that can be read can be overwritten with a value as wide as the one that is there. A
well-known field always takes the value, cut to its bits; a user-defined one takes it if the header
that holds it can be read back from the new bytes (`Packet.Takes`). Nothing else changes
(`Packet.set_readable`).

## The model

`Packet.place?` says where a field lies in the image of the packet, its metadata followed by its
frame. That no bit beside the field changes is then one statement for both kinds of fields
(`Packet.Stored`).
-/

namespace Dataplane

open BitSpan

/-- The number of bits of a field whose value is `width` bytes wide. -/
def FieldId.bitCount (id : FieldId) (width : Nat) : Nat :=
  match id with
  | .field num _ => num.bitCount width
  | .udf .. => 8 * width

namespace Packet

open Headers

variable {p q : Packet} {g g' : HeaderGroup} {e : Entry} {base : Nat} {inst : Instance}
  {offset size : UInt16} {old val : Bytes} {m : Nat}

/-! ### What overwriting a field does -/

/-- The block of the metadata. -/
def metadataBytes (p : Packet) : Bytes := (p.metadata?.map (·.block.bytes)).getD []

/-- Where a field lies in the image of the packet. -/
def place? (p : Packet) : FieldId → Option BitSpan
  | .field num inst => p.span? num inst
  | .udf g offset size _ =>
    some <| (ofBytes offset.toNat size.toNat).after
      (p.metadataBytes ++ p.headers.headerBytes g.outside.reverse).length

/-- Does a field take a value of its width? The header that holds the first byte of a user-defined
field has to be one again with the value written over its bytes. -/
def Takes (p : Packet) (id : FieldId) (val : Bytes) : Prop :=
  match id with
  | .field .. => True
  | .udf g offset _ _ => ∃ g' e base h, p.headers.Holds (g :: g.inside) offset.toNat g' e base ∧
    e.header.writeRaw? (offset.toNat - base) val = some h

/-- `q` is `p` with the number `m` put into a field that held the value `old`. -/
structure Stored (p q : Packet) (id : FieldId) (old : Bytes) (m : Nat) : Prop where
  /-- The field then holds the number cut to its bits, as wide as before. -/
  value : q.get id = .ok (Bytes.ofNat old.length (m % 2 ^ id.bitCount old.length))
  /-- No byte comes or goes. -/
  length_eq : q.image.length = p.image.length
  /-- Every bit of the metadata and of the frame that is not one of the field is as it was. -/
  kept : ∃ s, p.place? id = some s ∧ s.read p.image = old ∧
    s.bits.count = id.bitCount old.length ∧
      ∀ i, ¬s.Holds i → Bytes.bit q.image i = Bytes.bit p.image i
  /-- Nothing but the headers changes. -/
  rest : q = { p with headers := q.headers }

/-! ### Well-known fields -/

/-- A value of a width that a field reads back at can be written to it. -/
theorem le_maxWidth {num : FieldNum} {width : Nat} (h : width ∈ num.widths) :
    1 ≤ width ∧ width ≤ num.maxWidth := by
  revert width
  cases num <;> decide

theorem stored_field (hp : p.Reached) {num : FieldNum} (hget : p.get (.field num inst) = .ok old)
    (m : Nat) : ∃ q, p.update (.field num inst) .set (Bytes.ofNat old.length m) = .ok q ∧
      p.Stored q (.field num inst) old m := by
  obtain ⟨e, s, he, hs, rfl⟩ := get_eq_ok_iff.mp hget
  set arg := Bytes.ofNat (s.read e.header.store).length m with harg
  have hset : num.Supports .set := .inl rfl
  obtain ⟨h', dirty, hu, htrailer, hs', hc⟩ := Header.update_span (hp.flagged he) hs hset arg
  obtain ⟨hwidth, hbits⟩ := Header.admits_span? hs
  have hlen : arg.length = (s.read e.header.store).length := Bytes.length_ofNat _ _
  rw [length_read] at hlen
  obtain ⟨hpos, hmax⟩ := le_maxWidth hwidth
  have happlied := applied_of_change hp.placed (e.dirty || dirty) he hs hs'
    (Header.group_update hu) htrailer hc
  refine ⟨_, ?_, ?_, happlied.length_eq, ?_, rfl⟩
  · rw [update_of_header he (hlen ▸ hpos) (hlen ▸ hmax), hu]
    rfl
  · have hdvd : 2 ^ num.bitCount s.width ∣ 256 ^ s.width := by
      rw [show 256 = 2 ^ 8 from rfl, ← pow_mul, ← hbits]
      exact pow_dvd_pow 2 hc.fits.value
    rw [happlied.overwritten rfl, length_read, Bytes.resize_of_length_eq hlen, FieldNum.cut, hlen,
      harg, length_read, Bytes.toNat_ofNat, Nat.mod_mod_of_dvd _ hdvd]
    rfl
  · refine ⟨_, span?_eq_some_iff.mpr ⟨e, s, he, hs, rfl⟩, ?_, by rw [length_read]; exact hbits,
      fun i hi => happlied.kept i hi fun c hbeside => ?_⟩
    · rw [image_eq hp.placed, Headers.image_around he, read_between _ _ hc.fits.bytes]
    · -- only a decrement changes something beside a field
      have hspan := span?_eq_some_iff.mpr ⟨e, s, he, hs, rfl⟩
      cases (beside?_eq hspan hbeside).2.1

/-! ### User-defined fields -/

theorem end_of_isSole (h : inst.isSole) : inst = .first ∨ inst = .last := by
  by_cases hlast : inst.isLast
  · exact .inr (by simpa [Instance.isLast] using hlast)
  · obtain ⟨n⟩ := inst
    have hzero : n.toNat = 0 := by simpa [Instance.isSole, Instance.resolve, hlast] using h
    exact .inl (congrArg Instance.mk (UInt8.toNat_inj.mp hzero))

/-- A user-defined field that can be read lies in one header. -/
theorem holds_of_get_raw (hget : p.get (.udf g offset size inst) = .ok old) :
    (inst = .first ∨ inst = .last) ∧ 1 ≤ size.toNat ∧ old.length = size.toNat ∧
      ∃ g' e base, p.headers.Holds (g :: g.inside) offset.toNat g' e base ∧
        offset.toNat + size.toNat ≤ base + e.header.emit.length ∧
          ((p.headers.headerBytes (g :: g.inside)).drop offset.toNat).take size.toNat = old := by
  obtain ⟨place, hplace, -⟩ := bind_eq_ok_iff.mp hget
  rw [locateRaw] at hplace
  split at hplace
  · cases hplace
  · split at hplace
    · cases hplace
    · rename_i hsole hsize
      have hinst := end_of_isSole (by simpa using hsole)
      have hpos : 1 ≤ size.toNat := Nat.one_le_iff_ne_zero.mpr hsize
      have hlt : offset.toNat < (p.headers.headerBytes (g :: g.inside)).length := by
        by_contra hend
        rw [get_raw_of_end hinst hpos (Nat.le_of_not_lt hend)] at hget
        cases hget
      obtain ⟨g', e, base, h⟩ := exists_holds hlt
      rw [get_raw_of_holds hinst hpos h] at hget
      split at hget
      · rename_i hfits
        cases hget
        have hend := h.le_length
        refine ⟨hinst, hpos, ?_, g', e, base, h, hfits, rfl⟩
        rw [List.length_take, List.length_drop]
        omega
      · cases hget

/-- A value as wide as a user-defined field is written over the header that holds it. -/
theorem update_raw_set (hinst : inst = .first ∨ inst = .last) (hsize : 1 ≤ size.toNat)
    (h : p.headers.Holds (g :: g.inside) offset.toNat g' e base) (hlen : val.length = size.toNat) :
    p.update (.udf g offset size inst) .set val =
      match e.header.writeRaw? (offset.toNat - base) val with
      | some h' => .ok { p with headers := p.headers.set g' (some ⟨h', true⟩) }
      | none => .error (.badOp (.udf g offset size inst) .set) := by
  have hwidth : ¬(val.length = 0 ∨ size.toNat < val.length) := by omega
  rw [update, locateRaw_of_holds hinst hsize _ h]
  simp only [bind, Except.bind, if_neg hwidth, h.entry, rawValue, if_true,
    Bytes.resize_of_length_eq hlen]
  cases e.header.writeRaw? (offset.toNat - base) val <;> rfl

/-- The frame, taken apart at the groups from one inwards. -/
theorem image_raw (p : Packet) (g : HeaderGroup) :
    p.image = p.metadataBytes ++ p.headers.headerBytes g.outside.reverse ++
      p.headers.headerBytes (g :: g.inside) ++
        p.headers.entries.reverse.flatMap (·.header.trailer) := by
  have hsplit := headerBytes_append p.headers g.outside.reverse (g :: g.inside)
  rw [← g.all_eq] at hsplit
  rw [image, ← metadataBytes, Headers.emit, Entry.emitAll, List.append_assoc p.metadataBytes,
    ← hsplit, List.append_assoc]
  rfl

/-- The metadata has no byte that a user-defined field could hold. -/
theorem ne_packet_of_holds (hp : p.headers.Placed) {gs : List HeaderGroup} {offset : Nat}
    (h : p.headers.Holds gs offset g' e base) : g' ≠ .packet := by
  rintro rfl
  have hgroup := hp _ _ h.entry
  have hle := h.base_le
  have hlt := h.lt
  cases hh : e.header with
  | metadata m =>
    rw [hh, Header.emit, List.length_nil] at hlt
    omega
  | _ =>
    rw [hh] at hgroup
    cases hgroup

theorem trailers_set (he : p.headers.get g = some e) {e' : Entry}
    (htrailer : e'.header.trailer = e.header.trailer) :
    (p.headers.set g (some e')).entries.reverse.flatMap (·.header.trailer) =
      p.headers.entries.reverse.flatMap (·.header.trailer) := by
  have hout : g ∉ g.outside.reverse := by cases g <;> decide
  have hin : g ∉ g.inside := by cases g <;> decide
  rw [entries_around he, entries_around (get_set_self _ _ _), entriesOf_set hout, entriesOf_set hin]
  simp only [List.reverse_append, List.reverse_cons, List.flatMap_append, List.flatMap_cons,
    List.flatMap_nil, htrailer]

/-- A header written over its bytes leaves everything around them as it is. -/
theorem image_set_raw (hp : p.headers.Placed) {offset : Nat}
    (h : p.headers.Holds (g :: g.inside) offset g' e base) {h' : Header} {start : Nat}
    (hw : e.header.writeRaw? start val = some h') :
    ({ p with headers := p.headers.set g' (some ⟨h', true⟩) } : Packet).image =
      p.metadataBytes ++ p.headers.headerBytes g.outside.reverse ++
        (p.headers.set g' (some ⟨h', true⟩)).headerBytes (g :: g.inside) ++
          p.headers.entries.reverse.flatMap (·.header.trailer) := by
  have hne := ne_packet_of_holds hp h
  have hmetadata : metadataBytes { p with headers := p.headers.set g' (some ⟨h', true⟩) } =
      p.metadataBytes := by
    cases g' with
    | packet => exact absurd rfl hne
    | _ => rfl
  have hout : g' ∉ g.outside.reverse := by
    have hmem := h.mem
    revert hmem
    cases g <;> cases g' <;> decide
  have htrailer : (Entry.mk h' true).header.trailer = e.header.trailer :=
    (Header.sameShape_writeRaw hw).trailer
  rw [image_raw _ g, hmetadata, headerBytes_set hout, trailers_set h.entry htrailer]

/-- A header of the same length that takes the place of one holds the same bytes. -/
theorem holds_set {offset : Nat} (h : p.headers.Holds (g :: g.inside) offset g' e base) {e' : Entry}
    (hlen : e'.header.emit.length = e.header.emit.length) :
    (p.headers.set g' (some e')).Holds (g :: g.inside) offset g' e' base := by
  obtain ⟨front, back, hsplit, hbase⟩ := h.split
  have hnodup := nodup_inwards g
  rw [hsplit] at hnodup
  have hfront : g' ∉ front := fun hmem =>
    (List.nodup_append.mp hnodup).2.2 g' hmem g' List.mem_cons_self rfl
  exact ⟨get_set_self _ _ _, ⟨front, back, hsplit, by rw [headerBytes_set hfront, hbase]⟩,
    h.base_le, hlen ▸ h.lt⟩

/-- The header bytes from a group inwards change at the bytes that are written. -/
theorem change_writeRaw {offset : Nat} (h : p.headers.Holds (g :: g.inside) offset g' e base)
    {h' : Header} (hw : e.header.writeRaw? (offset - base) val = some h') (dirty : Bool) :
    (ofBytes offset val.length).Change none val.toNat (p.headers.headerBytes (g :: g.inside))
      ((p.headers.set g' (some ⟨h', dirty⟩)).headerBytes (g :: g.inside)) := by
  have hle := h.base_le
  have hend := h.le_length
  have hwritten := (Header.writeRaw_eq_some_iff.mp hw).1
  have hbytes : offset + val.length ≤ (p.headers.headerBytes (g :: g.inside)).length := by omega
  have hfits : (ofBytes offset val.length).Fits (p.headers.headerBytes (g :: g.inside)).length :=
    ⟨hbytes, le_of_eq (Nat.zero_add _), le_rfl⟩
  rw [h.write (nodup_inwards g) (by omega) (Header.emit_writeRaw hw), ← write_ofBytes hbytes rfl]
  exact change_write hfits val.toNat

theorem stored_raw (hp : p.headers.Placed) (hget : p.get (.udf g offset size inst) = .ok old)
    (m : Nat) (htakes : p.Takes (.udf g offset size inst) (Bytes.ofNat old.length m)) :
    ∃ q, p.update (.udf g offset size inst) .set (Bytes.ofNat old.length m) = .ok q ∧
      p.Stored q (.udf g offset size inst) old m := by
  obtain ⟨hinst, hsize, hwidth, -, -, -, -, -, hold⟩ := holds_of_get_raw hget
  obtain ⟨g', e, base, h', h, hw⟩ := htakes
  set val := Bytes.ofNat old.length m with hval
  have hlen : val.length = size.toNat := (Bytes.length_ofNat _ _).trans hwidth
  have hupdate := update_raw_set hinst hsize h hlen
  rw [hw] at hupdate
  have hc := change_writeRaw h hw true
  rw [hlen] at hc
  have himage := hc.between (p.metadataBytes ++ p.headers.headerBytes g.outside.reverse)
    (p.headers.entries.reverse.flatMap (·.header.trailer))
  rw [← image_raw p g, ← image_set_raw hp h hw] at himage
  refine ⟨_, hupdate, ?_, himage.length_eq, ?_, rfl⟩
  · -- the header is as long as it was, so the field still lies in it
    have hsame := Header.length_writeRaw hw
    have hheld : (p.headers.set g' (some ⟨h', true⟩)).Holds (g :: g.inside) offset.toNat g'
        ⟨h', true⟩ base := holds_set h hsame
    have hle := h.base_le
    have hwritten := (Header.writeRaw_eq_some_iff.mp hw).1
    have hfits : offset.toNat + size.toNat ≤ base + h'.emit.length := by omega
    have hcut : val.toNat % 2 ^ (8 * size.toNat) = m % 2 ^ (8 * size.toNat) := by
      rw [hval, Bytes.toNat_ofNat, hwidth, pow_mul]
      exact Nat.mod_mod _ _
    rw [get_raw_of_holds hinst hsize hheld, if_pos hfits]
    refine congrArg Except.ok ((read_ofBytes (hc.length_eq ▸ hc.fits.bytes)).symm.trans ?_)
    rw [hc.read]
    show Bytes.ofNat size.toNat (val.toNat % 2 ^ (8 * size.toNat)) =
      Bytes.ofNat old.length (m % 2 ^ (8 * old.length))
    rw [hcut, hwidth]
  · refine ⟨_, rfl, ?_, ?_, fun i hi => himage.kept i hi (by simp)⟩
    · rw [image_raw p g, read_between _ _ hc.fits.bytes]
      exact (read_ofBytes hc.fits.bytes).trans hold
    · show 8 * size.toNat = 8 * old.length
      rw [hwidth]

/-! ### Any field -/

/-- A field that can be read is overwritten exactly if it takes the value. -/
theorem set_readable (hp : p.Reached) {id : FieldId} (hget : p.get id = .ok old) (m : Nat) :
    (p.Takes id (Bytes.ofNat old.length m) →
      ∃ q, p.update id .set (Bytes.ofNat old.length m) = .ok q ∧ p.Stored q id old m) ∧
    ∀ q, p.update id .set (Bytes.ofNat old.length m) = .ok q →
      p.Takes id (Bytes.ofNat old.length m) := by
  cases id with
  | field num inst => exact ⟨fun _ => stored_field hp hget m, fun _ _ => trivial⟩
  | udf g offset size inst =>
    refine ⟨stored_raw hp.placed hget m, fun q hu => ?_⟩
    obtain ⟨hinst, hsize, hwidth, g', e, base, h, -, -⟩ := holds_of_get_raw hget
    rw [update_raw_set hinst hsize h ((Bytes.length_ofNat _ _).trans hwidth)] at hu
    split at hu
    · rename_i h' hw
      exact ⟨g', e, base, h', h, hw⟩
    · cases hu

end Packet

end Dataplane

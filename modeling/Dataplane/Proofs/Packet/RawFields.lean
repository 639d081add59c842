import Dataplane.Proofs.Bytes.Arithmetic
import Dataplane.Proofs.Header.Reloading

/-!
# User-defined fields

A user-defined field is a range of the header bytes of a packet, counted from the start of a group
inwards over groups that may be empty (`Packet.raw_fields`). It is read where it lies, if one group
holds all of it. Writing it changes these bytes and no others, and no header changes its kind, its
length or its trailer.

## The model

`Headers.headerBytes t gs` are the header bytes of some groups, without trailers, and
`Headers.Holds t gs offset g e base` says that the byte at `offset` of them lies in the header of the
entry `e` of the group `g`, whose first byte is the one at `base`.
-/

namespace Dataplane

/-! ### Where a byte lies -/

namespace Headers

variable {t : Headers} {g a : HeaderGroup} {gs : List HeaderGroup} {e e' : Entry}
  {offset base size : Nat}

/-- The header bytes of some groups. -/
def headerBytes (t : Headers) (gs : List HeaderGroup) : Bytes :=
  (t.entriesOf gs).flatMap (·.header.emit)

/-- The byte at `offset` of the header bytes of the groups `gs` lies in the header of the entry `e`
of `g`, which begins at `base`. -/
structure Holds (t : Headers) (gs : List HeaderGroup) (offset : Nat) (g : HeaderGroup) (e : Entry)
    (base : Nat) : Prop where
  entry : t.get g = some e
  split : ∃ front back, gs = front ++ g :: back ∧ (t.headerBytes front).length = base
  base_le : base ≤ offset
  lt : offset < base + e.header.emit.length

theorem headerBytes_cons (he : t.get g = some e) (gs : List HeaderGroup) :
    t.headerBytes (g :: gs) = e.header.emit ++ t.headerBytes gs := by
  rw [headerBytes, entriesOf_cons he, List.flatMap_cons, headerBytes]

theorem headerBytes_cons_none (he : t.get g = none) (gs : List HeaderGroup) :
    t.headerBytes (g :: gs) = t.headerBytes gs := by
  rw [headerBytes, entriesOf_cons_none he, headerBytes]

theorem headerBytes_append (t : Headers) (gs gs' : List HeaderGroup) :
    t.headerBytes (gs ++ gs') = t.headerBytes gs ++ t.headerBytes gs' := by
  simp only [headerBytes, entriesOf, List.filterMap_append, List.flatMap_append]

theorem headerBytes_set (hg : g ∉ gs) (t : Headers) (e : Option Entry) :
    (t.set g e).headerBytes gs = t.headerBytes gs := by
  rw [headerBytes, entriesOf_set hg, headerBytes]

/-- Each header byte lies in a header. -/
theorem exists_holds (h : offset < (t.headerBytes gs).length) :
    ∃ g e base, t.Holds gs offset g e base := by
  induction gs generalizing offset with
  | nil => exact absurd h (Nat.not_lt_zero _)
  | cons x gs ih =>
    cases hx : t.get x with
    | none =>
      rw [headerBytes_cons_none hx] at h
      obtain ⟨g, e, base, ⟨hentry, ⟨front, back, rfl, hbase⟩, hle, hlt⟩⟩ := ih h
      exact ⟨g, e, base, hentry,
        ⟨x :: front, back, rfl, by rw [headerBytes_cons_none hx, hbase]⟩, hle, hlt⟩
    | some ex =>
      rw [headerBytes_cons hx, List.length_append] at h
      by_cases hlt : offset < ex.header.emit.length
      · exact ⟨x, ex, 0, hx, ⟨[], gs, rfl, rfl⟩, Nat.zero_le _, by omega⟩
      · have hrest : offset - ex.header.emit.length < (t.headerBytes gs).length := by omega
        obtain ⟨g, e, base, ⟨hentry, ⟨front, back, rfl, hbase⟩, hle, hlt⟩⟩ := ih hrest
        refine ⟨g, e, ex.header.emit.length + base, hentry, ⟨x :: front, back, rfl, ?_⟩, by omega,
          by omega⟩
        rw [headerBytes_cons hx, List.length_append, hbase]

/-- The header that holds a byte is found, and the place of the byte in it. -/
theorem Holds.locate (h : t.Holds gs offset g e base) :
    Packet.locate? t gs offset = some (g, offset - base) := by
  obtain ⟨hentry, ⟨front, back, rfl, hbase⟩, hle, hlt⟩ := h
  induction front generalizing offset base with
  | nil =>
    obtain rfl : 0 = base := hbase
    rw [List.nil_append, Packet.locate?, hentry]
    dsimp only
    rw [if_pos (by rw [← Header.length_emit]; omega), Nat.sub_zero]
  | cons x front ih =>
    rw [List.cons_append, Packet.locate?]
    cases hx : t.get x with
    | none =>
      rw [headerBytes_cons_none hx] at hbase
      exact ih hle hlt hbase
    | some ex =>
      rw [headerBytes_cons hx, List.length_append] at hbase
      have hrest : (t.headerBytes front).length = base - ex.header.emit.length := by omega
      dsimp only
      rw [if_neg (by rw [← Header.length_emit]; omega), ← Header.length_emit,
        ih (by omega) (by omega) hrest]
      congr 2
      omega

theorem locate?_eq_none (h : (t.headerBytes gs).length ≤ offset) :
    Packet.locate? t gs offset = none := by
  induction gs generalizing offset with
  | nil => rfl
  | cons x gs ih =>
    rw [Packet.locate?]
    cases hx : t.get x with
    | none =>
      rw [headerBytes_cons_none hx] at h
      exact ih h
    | some ex =>
      rw [headerBytes_cons hx, List.length_append, Header.length_emit] at h
      dsimp only
      rw [if_neg (by omega)]
      exact ih (by omega)

theorem Holds.mem (h : t.Holds gs offset g e base) : g ∈ gs := by
  obtain ⟨front, back, rfl, -⟩ := h.split
  exact List.mem_append_right _ List.mem_cons_self

theorem Holds.le_length (h : t.Holds gs offset g e base) :
    base + e.header.emit.length ≤ (t.headerBytes gs).length := by
  obtain ⟨hentry, ⟨front, back, rfl, rfl⟩, -, -⟩ := h
  rw [headerBytes_append, headerBytes_cons hentry, List.length_append, List.length_append]
  omega

/-- A range that lies in one header, seen from the first group. -/
theorem Holds.read (h : t.Holds gs offset g e base)
    (hfits : offset + size ≤ base + e.header.emit.length) :
    (e.header.emit.drop (offset - base)).take size = ((t.headerBytes gs).drop offset).take size := by
  obtain ⟨hentry, ⟨front, back, rfl, rfl⟩, hle, hlt⟩ := h
  rw [headerBytes_append, headerBytes_cons hentry, ← List.append_assoc]
  have hoffset : offset = (t.headerBytes front).length + (offset - (t.headerBytes front).length) := by
    omega
  conv_rhs => rw [hoffset]
  exact (Bytes.range_between _ _ (by omega)).symm

/-- A header that is exchanged for one with a range overwritten. -/
theorem Holds.write (h : t.Holds gs offset g e base) (hnodup : gs.Nodup) {val : Bytes}
    (hfits : offset + val.length ≤ base + e.header.emit.length)
    (hemit : e'.header.emit = e.header.emit.take (offset - base) ++ val ++
      e.header.emit.drop (offset - base + val.length)) :
    (t.set g (some e')).headerBytes gs =
      (t.headerBytes gs).take offset ++ val ++ (t.headerBytes gs).drop (offset + val.length) := by
  obtain ⟨hentry, ⟨front, back, rfl, rfl⟩, hle, hlt⟩ := h
  obtain ⟨-, hrest, hapart⟩ := List.nodup_append.mp hnodup
  have hfront : g ∉ front := fun hg => hapart g hg g List.mem_cons_self rfl
  have hback : g ∉ back := (List.nodup_cons.mp hrest).1
  rw [headerBytes_append, headerBytes_cons (get_set_self _ _ _), headerBytes_set hfront,
    headerBytes_set hback, headerBytes_append, headerBytes_cons hentry, hemit]
  have hoffset : offset = (t.headerBytes front).length + (offset - (t.headerBytes front).length) := by
    omega
  have hinside : offset - (t.headerBytes front).length + val.length ≤ e.header.emit.length := by
    omega
  have hbetween :=
    Bytes.overwrite_between (t.headerBytes front) (t.headerBytes back) val hinside
  rw [← Nat.add_assoc, ← hoffset] at hbetween
  simpa only [List.append_assoc] using hbetween

/-- Headers of the same shapes stand in the same places. -/
def SameShapes (t t' : Headers) : Prop :=
  ∀ g, Option.Rel (fun e e' => e.header.SameShape e'.header) (t.get g) (t'.get g)

theorem sameShapes_set (he : t.get g = some e) (hshape : e.header.SameShape e'.header) :
    t.SameShapes (t.set g (some e')) := by
  intro g'
  by_cases hg : g' = g
  · subst hg
    rw [he, get_set_self]
    exact .some hshape
  · rw [get_set_of_ne _ hg]
    cases t.get g' with
    | none => exact .none
    | some e => exact .some (.refl e.header)

end Headers

namespace Packet

open Headers

variable {p q : Packet} {g g' : HeaderGroup} {e : Entry} {base : Nat} {inst : Instance}
  {offset size : UInt16} {op : FieldOp} {arg : Bytes}

theorem nodup_inwards (g : HeaderGroup) : (g :: g.inside).Nodup := by cases g <;> decide

theorem isSole_of_end (h : inst = .first ∨ inst = .last) : inst.isSole := by
  obtain rfl | rfl := h <;> decide

/-! ### Reading -/

section Place

/-! Where a user-defined field of at least one byte starts. -/

variable (hinst : inst = .first ∨ inst = .last) (hsize : 1 ≤ size.toNat)
include hinst hsize

theorem locateRaw_of_holds (id : FieldId)
    (h : p.headers.Holds (g :: g.inside) offset.toNat g' e base) :
    p.locateRaw id g offset.toNat size.toNat inst = .ok (g', offset.toNat - base) := by
  rw [locateRaw, if_neg (by simp [isSole_of_end hinst]), if_neg (by omega), h.locate]

theorem locateRaw_of_end (id : FieldId)
    (h : (p.headers.headerBytes (g :: g.inside)).length ≤ offset.toNat) :
    p.locateRaw id g offset.toNat size.toNat inst = .error (.noSuchField id) := by
  rw [locateRaw, if_neg (by simp [isSole_of_end hinst]), if_neg (by omega), locate?_eq_none h]

theorem get_raw_of_end (h : (p.headers.headerBytes (g :: g.inside)).length ≤ offset.toNat) :
    p.get (.udf g offset size inst) = .error (.noSuchField (.udf g offset size inst)) := by
  rw [get, locateRaw_of_end hinst hsize _ h]
  rfl

theorem get_raw_of_holds (h : p.headers.Holds (g :: g.inside) offset.toNat g' e base) :
    p.get (.udf g offset size inst) =
      if offset.toNat + size.toNat ≤ base + e.header.emit.length then
        .ok (((p.headers.headerBytes (g :: g.inside)).drop offset.toNat).take size.toNat)
      else .error (.badSize (.udf g offset size inst) size.toNat) := by
  have hle := h.base_le
  rw [get, locateRaw_of_holds hinst hsize _ h]
  dsimp only [bind, Except.bind]
  rw [h.entry, Option.bind_some, Header.readRaw?, Bytes.slice?]
  by_cases hfits : offset.toNat + size.toNat ≤ base + e.header.emit.length
  · rw [if_pos (by omega), if_pos hfits, h.read hfits]
    rfl
  · rw [if_neg (by omega), if_neg hfits]
    rfl

end Place

/-! ### Writing -/

/-- The value to be stored is as long as the field, and the result of the operation on what is
there. -/
theorem eq_apply_of_rawValue {h : Header} {id : FieldId} {start n : Nat} {val : Bytes}
    (hv : rawValue h id start n op arg = .ok val) :
    val.length = n ∧
      (start + n ≤ h.emit.length → val = op.apply ((h.emit.drop start).take n) arg) := by
  have hold (hfits : start + n ≤ h.emit.length) : ((h.emit.drop start).take n).length = n := by
    rw [List.length_take, List.length_drop]
    omega
  rw [rawValue, Header.readRaw?, Bytes.slice?] at hv
  split at hv
  · rename_i hop
    cases hv
    refine ⟨Bytes.length_resize _ _, fun hfits => ?_⟩
    rw [hop, FieldOp.apply, hold hfits]
  · split at hv
    · rename_i old hread
      obtain ⟨hfits, hread⟩ := Option.ite_none_right_eq_some.mp hread
      cases hread
      cases hv
      exact ⟨by rw [FieldOp.length_apply, hold hfits], fun _ => rfl⟩
    · cases hv

theorem update_raw_eq_ok (hu : p.update (.udf g offset size inst) op arg = .ok q) :
    ∃ g' e start val h, p.locateRaw (.udf g offset size inst) g offset.toNat size.toNat inst =
        .ok (g', start) ∧ p.headers.get g' = some e ∧
      rawValue e.header (.udf g offset size inst) start size.toNat op arg = .ok val ∧
      e.header.writeRaw? start val = some h ∧
      q = { p with headers := p.headers.set g' (some ⟨h, true⟩) } := by
  obtain ⟨⟨g', start⟩, hplace, hu⟩ := bind_eq_ok_iff.mp hu
  dsimp only at hu
  split at hu
  · cases hu
  · split at hu
    · cases hu
    · rename_i e he
      obtain ⟨val, hval, hu⟩ := bind_eq_ok_iff.mp hu
      split at hu
      · rename_i h hh
        cases hu
        exact ⟨g', e, start, val, h, hplace, he, hval, hh, rfl⟩
      · cases hu

/-- `q` is `p` after an operation on the `size` header bytes from `offset` on, counted from `g`
inwards. -/
structure RawUpdated (p q : Packet) (g : HeaderGroup) (offset size : Nat) (op : FieldOp)
    (arg : Bytes) : Prop where
  /-- The bytes hold the result, and all others are as they were. -/
  bytes : ∃ val old, p.headers.headerBytes (g :: g.inside) =
      (p.headers.headerBytes (g :: g.inside)).take offset ++ old ++
        (p.headers.headerBytes (g :: g.inside)).drop (offset + size) ∧
    q.headers.headerBytes (g :: g.inside) =
      (p.headers.headerBytes (g :: g.inside)).take offset ++ val ++
        (p.headers.headerBytes (g :: g.inside)).drop (offset + size) ∧
    old.length = size ∧ val.length = size ∧ (op = .set → val = arg.resize size) ∧
    (val.toNat : ℤ) = op.number old.toNat arg.toNat % 256 ^ size
  /-- No header changes its kind, its length or its trailer. -/
  shapes : p.headers.SameShapes q.headers
  /-- Only one header changes, one from `g` inwards. -/
  others : ∃ g' ∈ g :: g.inside, ∀ a ≠ g', q.headers.get a = p.headers.get a
  /-- Nothing but the headers changes. -/
  rest : q = { p with headers := q.headers }

/-- The header that holds the first byte of a field takes the result of the operation, and with it
the bytes of the packet do. -/
theorem rawUpdated_of_write {id : FieldId} {offset size : Nat} {val : Bytes} {h' : Header}
    (h : p.headers.Holds (g :: g.inside) offset g' e base)
    (hval : rawValue e.header id (offset - base) size op arg = .ok val)
    (hwrite : e.header.writeRaw? (offset - base) val = some h') :
    RawUpdated p { p with headers := p.headers.set g' (some ⟨h', true⟩) } g offset size op arg := by
  set bytes := p.headers.headerBytes (g :: g.inside) with hbytes
  obtain ⟨hlen, hvalue⟩ := eq_apply_of_rawValue hval
  have hle := h.base_le
  have hinside := (Header.writeRaw_eq_some_iff.mp hwrite).1
  have hfits : offset + val.length ≤ base + e.header.emit.length := by omega
  have hend : base + e.header.emit.length ≤ bytes.length := h.le_length
  have hold : ((bytes.drop offset).take size).length = size := by
    rw [List.length_take, List.length_drop]
    omega
  have hresult : val = op.apply ((bytes.drop offset).take size) arg := by
    rw [hvalue (by omega), h.read (by omega)]
  refine ⟨⟨val, (bytes.drop offset).take size, ?_, ?_, hold, hlen, ?_, ?_⟩,
    sameShapes_set h.entry (Header.sameShape_writeRaw hwrite),
    ⟨g', h.mem, fun a ha => get_set_of_ne _ ha _⟩, rfl⟩
  · rw [← hbytes, ← List.drop_drop, List.append_assoc, List.take_append_drop,
      List.take_append_drop]
  · rw [← hlen]
    exact h.write (nodup_inwards g) hfits (Header.emit_writeRaw hwrite)
  · intro hop
    rw [hresult, hop, FieldOp.apply, hold]
  · have hnumber := op.toNat_apply ((bytes.drop offset).take size) arg
    rwa [hold, ← hresult] at hnumber

/-- A user-defined field of any packet: what reading it gives, and what an operation on it does if it
succeeds. -/
theorem raw_fields (p : Packet) (g : HeaderGroup) (offset size : UInt16) (inst : Instance)
    (hinst : inst = .first ∨ inst = .last) (hsize : 1 ≤ size.toNat) :
    let id : FieldId := .udf g offset size inst
    let bytes := p.headers.headerBytes (g :: g.inside)
    (bytes.length ≤ offset.toNat → p.get id = .error (.noSuchField id)) ∧
    (offset.toNat < bytes.length → ∃ g' e base,
      p.headers.Holds (g :: g.inside) offset.toNat g' e base ∧
        p.get id = if offset.toNat + size.toNat ≤ base + e.header.emit.length then
          .ok ((bytes.drop offset.toNat).take size.toNat) else .error (.badSize id size.toNat)) ∧
    ∀ op arg q, p.update id op arg = .ok q →
      RawUpdated p q g offset.toNat size.toNat op arg := by
  intro id bytes
  refine ⟨get_raw_of_end hinst hsize, fun hlt => ?_, fun op arg q hu => ?_⟩
  · obtain ⟨g', e, base, h⟩ := exists_holds hlt
    exact ⟨g', e, base, h, get_raw_of_holds hinst hsize h⟩
  · obtain ⟨g', e, start, val, h', hplace, he, hval, hwrite, rfl⟩ := update_raw_eq_ok hu
    -- the byte that the field starts with lies in a header, or the update would have been refused
    have hlt : offset.toNat < bytes.length := by
      by_contra hend
      rw [locateRaw_of_end hinst hsize _ (Nat.le_of_not_lt hend)] at hplace
      cases hplace
    obtain ⟨g₁, e₁, base, h⟩ := exists_holds hlt
    rw [locateRaw_of_holds hinst hsize _ h] at hplace
    cases hplace
    obtain rfl : e = e₁ := Option.some.inj (he.symm.trans h.entry)
    exact rawUpdated_of_write h hval hwrite

/-- The port a datagram goes to, counted from the start of the IPv4 header, is increased. -/
theorem raw_fields_of_datagram : ∃ b p q, parse .ip4 b = .ok p ∧
    p.update (.udf .l3 22 2 .last) .inc [1] = .ok q ∧
    RawUpdated p q .l3 22 2 .inc [1] ∧ q.get (.first .l4PortDst) = .ok [0, 54] := by
  let b : Bytes := [69, 0, 0, 29, 0, 0, 64, 0, 64, 17, 38, 206, 10, 0, 0, 1, 10, 0, 0, 2, 0, 53, 0,
    53, 0, 9, 228, 111, 7]
  have increased : ∃ p ∈ (parse .ip4 b).toOption,
      ∃ q ∈ (p.update (.udf .l3 22 2 .last) .inc [1]).toOption,
        q.get (.first .l4PortDst) = .ok [0, 54] := by
    decide +kernel
  obtain ⟨p, hp, q, hq, hport⟩ := increased
  have hp := toOption_eq_some_iff.mp hp
  have hq := toOption_eq_some_iff.mp hq
  exact ⟨b, p, q, hp, hq, (raw_fields p .l3 22 2 .last (.inr rfl) (by decide)).2.2 _ _ _ hq, hport⟩

end Packet

end Dataplane

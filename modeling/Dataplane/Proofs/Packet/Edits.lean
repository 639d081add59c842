import Dataplane.Proofs.Headers.Placement

/-!
# Editing packets

The operations that change a packet where it is: field updates, adding and removing headers, and
serializing. A refused operation leaves the packet as it is.

## The model

`Edit` names an operation with its operands, `Packet.edit` carries one out, and `Packet.edits` a
list of them. `Headers.Step` says all that an edit can do to the header table, one constructor for
each way (`step_edit`); a property of tables is shown to hold after any list of edits by going
through the constructors once (`edits_induction`).
-/

namespace Dataplane

/-- An operation on a packet. -/
inductive Edit where
  /-- An operation on a field. -/
  | update (id : FieldId) (op : FieldOp) (arg : Bytes)
  /-- Adding a header. -/
  | encap (kind : HeaderKind)
  /-- Removing a header. -/
  | decap (kind : HeaderKind)
  /-- Giving the frame. -/
  | serialize
  deriving DecidableEq

/-- The group to which an edit adds a header, or from which it removes one. -/
def Edit.reshapes? : Edit → Option HeaderGroup
  | .encap kind | .decap kind => kind.group?
  | _ => none

namespace Packet

/-- The packet after an operation, or as it was if the operation is refused. -/
def edit (p : Packet) : Edit → Packet
  | .update id op arg => (p.update id op arg).toOption.getD p
  | .encap kind => (p.encap kind).toOption.getD p
  | .decap kind => (p.decap kind).toOption.getD p
  | .serialize => p.serialize.2

/-- The packet after some operations, one after the other. -/
def edits (p : Packet) (es : List Edit) : Packet := es.foldl edit p

end Packet

/-- What an edit does to the header table. -/
inductive Headers.Step (t : Headers) : Edit → Headers → Prop
  /-- Nothing, if it is refused. -/
  | refused {x : Edit} : Step t x t
  /-- A field changes in the header that holds it. -/
  | field {num : FieldNum} {inst : Instance} {op : FieldOp} {arg : Bytes} {e : Entry} {h : Header}
      {dirty : Bool} (he : t.get num.group = some e)
      (hu : e.header.update num inst op arg = .ok (h, dirty)) :
      Step t (.update (.field num inst) op arg) (t.set num.group (some ⟨h, e.dirty || dirty⟩))
  /-- Bytes of a header are overwritten, and the header is dirty. -/
  | raw {id : FieldId} {op : FieldOp} {arg val : Bytes} {g : HeaderGroup} {start : Nat} {e : Entry}
      {h : Header} (he : t.get g = some e) (hw : e.header.writeRaw? start val = some h) :
      Step t (.update id op arg) (t.set g (some ⟨h, true⟩))
  /-- A header is extended, and the headers from it outwards are rebuilt. -/
  | pushed {kind : HeaderKind} {g : HeaderGroup} {e : Entry} {h : Header}
      (hg : kind.group? = some g) (hp : g ≠ .payload) (he : t.get g = some e)
      (hu : e.header.push kind = .ok h) :
      Step t (.encap kind) ((t.set g (some ⟨h, true⟩)).rebuildOutward g)
  /-- A fresh header is placed, and the headers from it outwards are rebuilt. -/
  | placed {kind : HeaderKind} {g : HeaderGroup} {h : Header} (hg : kind.group? = some g)
      (hp : g ≠ .payload) (he : t.get g = none) (hf : Header.fresh kind = .ok h) :
      Step t (.encap kind) (((t.set g (some ⟨h, true⟩)).attachAt g).rebuildOutward g)
  /-- A header is shortened, and the headers from it outwards are rebuilt. -/
  | popped {kind : HeaderKind} {g : HeaderGroup} {e : Entry} {h : Header}
      (hg : kind.group? = some g) (he : t.get g = some e)
      (hu : e.header.pop kind = .ok (h, false)) :
      Step t (.decap kind) ((t.set g (some ⟨h, true⟩)).rebuildOutward g)
  /-- A header is removed, and the headers outside it are rebuilt. -/
  | removed {kind : HeaderKind} {g outer : HeaderGroup} {e : Entry} {h : Header}
      (hg : kind.group? = some g) (he : t.get g = some e) (hu : e.header.pop kind = .ok (h, true))
      (ho : (t.set g none).prev? g = some outer) :
      Step t (.decap kind) ((t.set g none).rebuildOutward outer)
  /-- The outermost header is removed. -/
  | bared {kind : HeaderKind} {g : HeaderGroup} {e : Entry} {h : Header}
      (hg : kind.group? = some g) (he : t.get g = some e) (hu : e.header.pop kind = .ok (h, true)) :
      Step t (.decap kind) (t.set g none)
  /-- Every header is rebuilt. -/
  | serialized : Step t .serialize t.rebuildAll

namespace Packet

open Headers

variable {p p' : Packet}

/-- What an update of a field does. -/
theorem update_field_cases {num : FieldNum} {inst : Instance} {op : FieldOp} {arg : Bytes}
    (h : p.update (.field num inst) op arg = .ok p') :
    num.accepts arg.length ∧ ∃ e h' dirty, p.headers.get num.group = some e ∧
      e.header.update num inst op arg = .ok (h', dirty) ∧
      p'.headers = p.headers.set num.group (some ⟨h', e.dirty || dirty⟩) := by
  rw [update] at h
  split at h
  · cases h
  · rename_i haccepts
    split at h
    · cases h
    · rename_i e he
      obtain ⟨⟨h', dirty⟩, hu, hp⟩ := bind_eq_ok_iff.mp h
      cases hp
      exact ⟨by simpa using haccepts, e, h', dirty, he, hu, rfl⟩

theorem step_update {id : FieldId} {op : FieldOp} {arg : Bytes} (h : p.update id op arg = .ok p') :
    Step p.headers (.update id op arg) p'.headers := by
  cases id with
  | field num inst =>
    obtain ⟨-, e, h', dirty, he, hu, hp⟩ := update_field_cases h
    rw [hp]
    exact .field he hu
  | udf g offset size inst =>
    rw [update] at h
    obtain ⟨⟨g', start⟩, -, h⟩ := bind_eq_ok_iff.mp h
    dsimp only at h
    split at h
    · cases h
    · split at h
      · cases h
      · rename_i e he
        obtain ⟨val, -, h⟩ := bind_eq_ok_iff.mp h
        split at h
        · rename_i h' hw
          cases h
          exact .raw he hw
        · cases h

theorem step_encap {kind : HeaderKind} (h : p.encap kind = .ok p') :
    Step p.headers (.encap kind) p'.headers := by
  rw [encap] at h
  split at h
  · cases h
  · cases h
  · cases h
  · rename_i g _ hpay hg
    split at h
    · rename_i e he
      obtain ⟨h', hu, hp⟩ := bind_eq_ok_iff.mp h
      cases hp
      exact .pushed hg hpay he hu
    · rename_i he
      obtain ⟨h', hf, hp⟩ := bind_eq_ok_iff.mp h
      cases hp
      exact .placed hg hpay he hf

theorem step_decap {kind : HeaderKind} (h : p.decap kind = .ok p') :
    Step p.headers (.decap kind) p'.headers := by
  rw [decap] at h
  split at h
  · cases h
  · cases h
  · rename_i g _ hg
    split at h
    · cases h
    · rename_i e he
      obtain ⟨⟨h', done⟩, hu, h⟩ := bind_eq_ok_iff.mp h
      cases done with
      | false =>
        cases h
        exact .popped hg he hu
      | true =>
        simp only [if_true] at h
        split at h
        · rename_i outer ho
          cases h
          exact .removed hg he hu ho
        · cases h
          exact .bared hg he hu

/-- An edit does one of the things it can do to the header table. -/
theorem step_edit (p : Packet) (x : Edit) : Step p.headers x (p.edit x).headers := by
  cases x with
  | update id op arg =>
    rw [edit]
    cases h : p.update id op arg with
    | error e => exact .refused
    | ok p' => exact step_update h
  | encap kind =>
    rw [edit]
    cases h : p.encap kind with
    | error e => exact .refused
    | ok p' => exact step_encap h
  | decap kind =>
    rw [edit]
    cases h : p.decap kind with
    | error e => exact .refused
    | ok p' => exact step_decap h
  | serialize => exact .serialized

/-- What every edit of a list keeps, the list keeps. -/
theorem edits_induction {P : Headers → Prop} {es : List Edit}
    (step : ∀ x ∈ es, ∀ t t', P t → Step t x t' → P t') (p : Packet) (hp : P p.headers) :
    P (p.edits es).headers := by
  induction es generalizing p with
  | nil => exact hp
  | cons x es ih =>
    have hx : P (p.edit x).headers := step x List.mem_cons_self _ _ hp (step_edit p x)
    exact ih (fun y hy => step y (List.mem_cons_of_mem _ hy)) _ hx

end Packet

end Dataplane

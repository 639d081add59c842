import Dataplane.Headers
import Mathlib.Data.List.Basic
import Mathlib.Tactic.Ring

/-!
# Where headers lie on the wire

A header on the wire is followed by everything inside it and then by its trailer. So the bytes of a
table are, for each of its headers, what lies outside on the left, the header with what is inside,
and what lies outside on the right.
-/

namespace Dataplane

/-! ### Lengths -/

theorem Block.length_flatMap_bytes {n : Nat} (blocks : List (Block n)) :
    (blocks.flatMap (·.bytes)).length = n * blocks.length := by
  induction blocks with
  | nil => rfl
  | cons b blocks ih =>
    rw [List.flatMap_cons, List.length_append, ih, b.length_eq, List.length_cons]
    ring

theorem Ethernet.length_emit (e : Ethernet) : e.emit.length = e.wireLen := by
  simp only [emit, wireLen, List.length_append, Block.length_flatMap_bytes, Block.length_eq]
  omega

theorem LabelStack.length_emit (s : LabelStack) : s.emit.length = s.wireLen :=
  Block.length_flatMap_bytes s.entries

theorem Gre.length_emit (h : Gre) : h.emit.length = h.wireLen := by
  simp only [emit, wireLen, List.length_append, Block.length_flatMap_bytes, Block.length_eq]

theorem IpHeader.length_emit (h : IpHeader) : h.emit.length = h.wireLen := by
  cases h with
  | v4 h => simp only [emit, wireLen, Ipv4.emit, Ipv4.wireLen, List.length_append, Block.length_eq]
  | v6 h => exact h.base.length_eq
  | gre h => exact h.length_emit

theorem IpChain.length_emit (c : IpChain) : c.emit.length = c.wireLen := by
  simp only [emit, emitHeaders, wireLen, List.length_flatMap, List.sum_eq_foldr, List.foldr_map,
    IpHeader.length_emit]

theorem NdOption.length_emit (o : NdOption) : o.emit.length = o.wireLen := by
  simp only [emit, wireLen, List.length_cons]
  omega

theorem Icmp6.length_emit (h : Icmp6) : h.emit.length = h.wireLen := by
  simp only [emit, wireLen, List.length_append, List.length_flatMap, List.sum_eq_foldr,
    List.foldr_map, NdOption.length_emit, Block.length_eq]

/-- A header has as many bytes on the wire as it says. -/
theorem Header.length_emit (h : Header) : h.emit.length = h.wireLen := by
  cases h with
  | metadata h => rfl
  | ethernet h => exact h.length_emit
  | ip c => exact c.length_emit
  | arp h => exact h.base.length_eq
  | mpls s => exact s.length_emit
  | tcp h => simp only [emit, wireLen, Tcp.emit, Tcp.wireLen, List.length_append, Block.length_eq]
  | udp h => exact h.base.length_eq
  | icmp4 h => exact h.base.length_eq
  | icmp6 h => exact h.length_emit
  | payload b => rfl

/-! ### First look -/

namespace Header

variable (h : Header) (around : Surroundings)

@[simp] theorem emit_attach : (h.attach around).emit = h.emit := by cases h <;> rfl

@[simp] theorem trailer_attach : (h.attach around).trailer = h.trailer := by cases h <;> rfl

end Header

/-! ### Lists of entries -/

namespace Entry

theorem emitAll_cons (e : Entry) (es : List Entry) :
    emitAll (e :: es) = e.header.emit ++ emitAll es ++ e.header.trailer := by
  simp [emitAll]

theorem emitAll_append (es es' : List Entry) :
    emitAll (es ++ es') =
      es.flatMap (·.header.emit) ++ emitAll es' ++ es.reverse.flatMap (·.header.trailer) := by
  simp [emitAll]

theorem length_emitAll (es : List Entry) :
    (emitAll es).length = es.foldr (·.wireLen + ·) 0 := by
  induction es with
  | nil => rfl
  | cons e es ih =>
    rw [emitAll_cons, List.length_append, List.length_append, ih, Header.length_emit,
      List.foldr_cons, wireLen]
    omega

end Entry

/-! ### Tables -/

/-- Every group is outside a group, the group, or inside it. -/
theorem HeaderGroup.all_eq (g : HeaderGroup) : all = g.outside.reverse ++ g :: g.inside := by
  cases g <;> rfl

namespace Headers

variable {t : Headers} {g : HeaderGroup} {e : Entry}

/-- The number of header bytes before the header of a group. -/
def offset (t : Headers) (g : HeaderGroup) : Nat :=
  (t.entriesOf g.outside.reverse).foldr (·.header.wireLen + ·) 0

theorem entriesOf_cons (he : t.get g = some e) (gs : List HeaderGroup) :
    t.entriesOf (g :: gs) = e :: t.entriesOf gs := List.filterMap_cons_some he

theorem entriesOf_cons_none (he : t.get g = none) (gs : List HeaderGroup) :
    t.entriesOf (g :: gs) = t.entriesOf gs := List.filterMap_cons_none he

theorem entriesOf_set {gs : List HeaderGroup} (hg : g ∉ gs) (t : Headers) (e : Option Entry) :
    (t.set g e).entriesOf gs = t.entriesOf gs :=
  List.filterMap_congr fun g' hg' => get_set_of_ne t (by rintro rfl; exact hg hg') e

/-- The bytes of a table, around those from a group inwards. -/
theorem emit_eq (t : Headers) (g : HeaderGroup) :
    t.emit = (t.entriesOf g.outside.reverse).flatMap (·.header.emit) ++
      Entry.emitAll (t.entriesOf (g :: g.inside)) ++
        (t.entriesOf g.outside.reverse).reverse.flatMap (·.header.trailer) := by
  have h : t.entries = t.entriesOf g.outside.reverse ++ t.entriesOf (g :: g.inside) := by
    rw [entries, g.all_eq, entriesOf, List.filterMap_append]
    rfl
  rw [emit, h, Entry.emitAll_append]

theorem length_outside (t : Headers) (g : HeaderGroup) :
    ((t.entriesOf g.outside.reverse).flatMap (·.header.emit)).length = t.offset g := by
  simp only [List.length_flatMap, List.sum_eq_foldr, List.foldr_map, Header.length_emit, offset]

theorem length_emit (t : Headers) : t.emit.length = t.wireLen := Entry.length_emitAll t.entries

/-- A header and everything inside it stand together on the wire. -/
theorem covered_isInfix (he : t.get g = some e) :
    e.header.emit ++ (t.around g).inner <:+: t.emit := by
  rw [emit_eq t g, entriesOf_cons he, Entry.emitAll_cons]
  exact (List.prefix_append _ _).isInfix.trans (List.infix_append _ _ _)

/-- Tables whose headers write the same bytes write the same bytes. -/
theorem emitAll_congr {t' : Headers} {gs : List HeaderGroup}
    (h : ∀ g ∈ gs, (t'.get g).map (fun e => (e.header.emit, e.header.trailer)) =
      (t.get g).map (fun e => (e.header.emit, e.header.trailer))) :
    Entry.emitAll (t'.entriesOf gs) = Entry.emitAll (t.entriesOf gs) := by
  induction gs with
  | nil => rfl
  | cons g gs ih =>
    have hg := h g List.mem_cons_self
    have hgs := ih fun g' hg' => h g' (List.mem_cons_of_mem _ hg')
    simp only [entriesOf] at hgs ⊢
    cases he : t.get g with
    | none =>
      cases he' : t'.get g with
      | none => rw [List.filterMap_cons_none he', List.filterMap_cons_none he, hgs]
      | some e' => rw [he, he'] at hg; cases hg
    | some e =>
      cases he' : t'.get g with
      | none => rw [he, he'] at hg; cases hg
      | some e' =>
        rw [he, he'] at hg
        simp only [Option.map_some, Option.some.injEq, Prod.mk.injEq] at hg
        rw [List.filterMap_cons_some he', List.filterMap_cons_some he, Entry.emitAll_cons,
          Entry.emitAll_cons, hgs, hg.1, hg.2]

theorem get_attachAll (t : Headers) (g : HeaderGroup) : ∃ around, t.attachAll.get g =
    (t.get g).map fun e => { e with header := e.header.attach around } := by
  cases g <;> exact ⟨_, rfl⟩

/-- The first look changes no byte on the wire. -/
theorem emitAll_attachAll (t : Headers) (gs : List HeaderGroup) :
    Entry.emitAll (t.attachAll.entriesOf gs) = Entry.emitAll (t.entriesOf gs) := by
  refine emitAll_congr fun g _ => ?_
  obtain ⟨around, h⟩ := t.get_attachAll g
  rw [h, Option.map_map]
  congr 1
  funext e
  simp

theorem inner_attachAll (t : Headers) (g : HeaderGroup) :
    (t.attachAll.around g).inner = (t.around g).inner := t.emitAll_attachAll g.inside

end Headers

end Dataplane

import Dataplane.Packet
import Dataplane.Proofs.Results

/-!
# Every header in its place

A header belongs to one group, whatever is done to it. So a table in which every header lies in the
place of its own group (`Placed`) stays one under every operation that changes headers where they
are, adds one in the place of its kind, or takes one out.
-/

namespace Dataplane

namespace Header

/-- The group a header belongs to. -/
def group : Header → HeaderGroup
  | metadata _ => .packet
  | ethernet _ => .l2
  | ip _ | arp _ | mpls _ => .l3
  | tcp _ | udp _ | icmp4 _ | icmp6 _ => .l4
  | payload _ => .payload

theorem group_update {h h' : Header} {num : FieldNum} {inst : Instance} {op : FieldOp}
    {arg : Bytes} {dirty : Bool} (e : h.update num inst op arg = .ok (h', dirty)) :
    h'.group = h.group := by
  cases h <;> simp only [update, map_eq_ok_iff, Prod.mk.injEq] at e
  case payload b => simp [orAbsent] at e
  all_goals
    obtain ⟨_, -, rfl, -⟩ := e
    rfl

theorem group_reload {h h' : Header} {b : Bytes} (e : h.reload? b = some h') :
    h'.group = h.group := by
  cases h <;> simp only [reload?, Option.map_eq_some_iff, Option.ite_none_right_eq_some,
    Option.some.injEq] at e
  case metadata | payload =>
    obtain ⟨-, rfl⟩ := e
    rfl
  all_goals
    obtain ⟨_, -, rfl⟩ := e
    rfl

theorem group_writeRaw {h h' : Header} {start : Nat} {val : Bytes}
    (e : h.writeRaw? start val = some h') : h'.group = h.group := by
  obtain ⟨b, -, hb⟩ := Option.bind_eq_some_iff.mp e
  exact group_reload hb

theorem group_push {h h' : Header} {kind : HeaderKind} (e : h.push kind = .ok h') :
    h'.group = h.group := by
  cases h <;> simp only [push, map_eq_ok_iff, reduceCtorEq] at e
  all_goals
    obtain ⟨_, -, rfl⟩ := e
    rfl

theorem group_pop {h h' : Header} {kind : HeaderKind} {done : Bool}
    (e : h.pop kind = .ok (h', done)) : h'.group = h.group := by
  cases h <;> simp only [pop, popSole, map_eq_ok_iff, Prod.mk.injEq] at e
  case ethernet | ip | mpls =>
    obtain ⟨_, -, rfl, -⟩ := e
    rfl
  all_goals
    split at e
    · simp only [Except.ok.injEq, Prod.mk.injEq] at e
      rw [← e.1]
    · cases e

@[simp] theorem group_attach (h : Header) (around : Surroundings) :
    (h.attach around).group = h.group := by cases h <;> rfl

@[simp] theorem group_rebuild (h : Header) (around : Surroundings) (dirty : Bool) :
    (h.rebuild around dirty).group = h.group := by cases h <;> rfl

theorem group_fresh {kind : HeaderKind} {h : Header} (e : fresh kind = .ok h) :
    kind.group? = some h.group := by
  cases kind <;> simp only [fresh, map_eq_ok_iff, Except.ok.injEq, reduceCtorEq] at e
  case eth | ethVlan | ethStacked | ip4 | ip6 =>
    obtain ⟨_, -, rfl⟩ := e
    rfl
  all_goals
    subst e
    rfl

theorem group_read {kind next : HeaderKind} {f f' : Frame} {h : Header} {g : HeaderGroup}
    (hg : kind.group? = some g) (e : read kind f = .ok (h, next, f')) : h.group = g := by
  have key : kind.group? = some h.group := by
    cases kind <;> simp only [read, bind_eq_ok_iff, pure, Except.pure, Except.ok.injEq,
      Prod.mk.injEq, reduceCtorEq] at e
    case payload | metadata =>
      obtain ⟨rfl, -⟩ := e
      rfl
    all_goals
      obtain ⟨_, -, rfl, -⟩ := e
      rfl
  exact Option.some.inj (key.symm.trans hg)

end Header

namespace Headers

/-- Every header lies in the place of its own group. -/
def Placed (t : Headers) : Prop := ∀ g e, t.get g = some e → e.header.group = g

variable {t : Headers}

theorem placed_empty : empty.Placed := by
  intro g e h
  cases g <;> cases h

theorem Placed.set (ht : t.Placed) {g : HeaderGroup} {e : Entry} (he : e.header.group = g) :
    (t.set g (some e)).Placed := by
  intro g' e' h
  by_cases hg : g' = g
  · subst hg
    rw [get_set_self, Option.some.injEq] at h
    rw [← h, he]
  · rw [get_set_of_ne _ hg] at h
    exact ht g' e' h

theorem Placed.remove (ht : t.Placed) (g : HeaderGroup) : (t.set g none).Placed := by
  intro g' e' h
  by_cases hg : g' = g
  · subst hg
    rw [get_set_self] at h
    cases h
  · rw [get_set_of_ne _ hg] at h
    exact ht g' e' h

theorem Placed.modify (ht : t.Placed) (g : HeaderGroup) {f : Entry → Entry}
    (hf : ∀ e, (f e).header.group = e.header.group) : (t.modify g f).Placed := by
  unfold Headers.modify
  cases he : t.get g with
  | none => exact ht.remove g
  | some e => exact ht.set ((hf e).trans (ht g e he))

theorem Placed.attachAt (ht : t.Placed) (g : HeaderGroup) : (t.attachAt g).Placed :=
  ht.modify g fun e => e.header.group_attach _

theorem Placed.rebuildAt (ht : t.Placed) (g : HeaderGroup) : (t.rebuildAt g).Placed :=
  ht.modify g fun e => e.header.group_rebuild _ _

theorem Placed.cleanAt (ht : t.Placed) (g : HeaderGroup) : (t.cleanAt g).Placed :=
  ht.modify g fun _ => rfl

theorem Placed.attachAll (ht : t.Placed) : t.attachAll.Placed :=
  List.foldlRecOn HeaderGroup.all Headers.attachAt ht fun _ h g _ => h.attachAt g

end Headers

namespace Packet

/-- Parsing stops at the kind that ends it, or reads one header into the place of its group and
goes on inside that group. -/
theorem parseHeaders_cases {room : Nat} {last : HeaderGroup} {kind : HeaderKind} {f : Frame}
    {t t' : Headers} (e : parseHeaders room last kind f t = .ok t') :
    kind = .none ∧ t' = t ∨
      ∃ room' g h next f', room = room' + 1 ∧ kind.group? = some g ∧ last.index < g.index ∧
        Header.read kind f = .ok (h, next, f') ∧
        parseHeaders room' g next f' (t.set g (some (.clean h))) = .ok t' := by
  by_cases hk : kind = .none
  · subst hk
    simp only [parseHeaders, Except.ok.injEq] at e
    exact .inl ⟨rfl, e.symm⟩
  · right
    rw [parseHeaders.eq_def] at e
    split at e
    · exact absurd rfl hk
    · split at e
      · rename_i g hg _
        split at e
        · cases e
        · rename_i hlast
          cases room with
          | zero => cases e
          | succ room' =>
            obtain ⟨⟨h, next, f'⟩, hread, hrest⟩ := bind_eq_ok_iff.mp e
            exact ⟨room', g, h, next, f', rfl, hg, by omega, hread, hrest⟩
      · cases e

theorem placed_parseHeaders {room : Nat} {last : HeaderGroup} {kind : HeaderKind} {f : Frame}
    {t t' : Headers} (ht : t.Placed) (e : parseHeaders room last kind f t = .ok t') :
    t'.Placed := by
  induction room generalizing last kind f t with
  | zero =>
    obtain ⟨-, rfl⟩ | ⟨_, _, _, _, _, h, -⟩ := parseHeaders_cases e
    · exact ht
    · cases h
  | succ room ih =>
    obtain ⟨-, rfl⟩ | ⟨_, g, h, next, f', hroom, hg, -, hread, hrest⟩ := parseHeaders_cases e
    · exact ht
    · cases hroom
      exact ih (ht.set (Header.group_read hg hread)) hrest

/-- A parsed table, before every header has had its first look at it. -/
theorem parse_eq_ok_iff {start : HeaderKind} {b : Bytes} {p : Packet} :
    parse start b = .ok p ↔
      ∃ t, parseHeaders 4 .packet start (.ofBytes b)
          (Headers.empty.set .packet (some (.clean (.metadata .fresh)))) = .ok t ∧
        ofHeaders start t.attachAll = p := by
  simp only [parse, bind_eq_ok_iff, pure, Except.pure, Except.ok.injEq]

theorem placed_parse {start : HeaderKind} {b : Bytes} {p : Packet} (e : parse start b = .ok p) :
    ∃ t : Headers, t.Placed ∧ p.headers = t.attachAll := by
  obtain ⟨t, ht, rfl⟩ := parse_eq_ok_iff.mp e
  have start : (Headers.empty.set .packet (some (.clean (.metadata .fresh)))).Placed :=
    Headers.placed_empty.set rfl
  exact ⟨t, placed_parseHeaders start ht, rfl⟩

end Packet

end Dataplane

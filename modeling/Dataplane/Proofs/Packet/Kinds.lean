import Dataplane.Proofs.Packet.Linked
import Dataplane.Proofs.Packet.WireOrder
import Mathlib.Algebra.Order.BigOperators.Group.List

/-!
# The kinds a packet shows

A packet shows the kinds of its headers, outermost first. They are found by asking each header of
the table for its instances by their numbers, from zero on, while there is one. The largest number
is not asked for, since it stands for the innermost instance. So of a stack that is deeper than the
numbers reach only the outer part is shown (`Header.kinds_eq_walk`).

Only IP chains and label stacks hold more than one header. So a packet that has just been parsed
shows every header it holds exactly when its network-layer header is a stack of no more than 255
headers. A frame of fewer than 1024 bytes has no deeper one, while the shortest stack of 256 labels
is a frame of 1024 bytes. The description is made of the same kinds without the metadata
(`Packet.kinds_of_parse`).
-/

namespace Dataplane

/-! ### Instances by their numbers -/

theorem Instance.resolve_ofNat {n : Nat} (hn : n < 255) (count : Nat) :
    (Instance.mk (UInt8.ofNat n)).resolve count = if n < count then some n else none := by
  have hval : (UInt8.ofNat n).toNat = n := UInt8.toNat_ofNat_of_lt' (Nat.lt_succ_of_lt hn)
  have hlast : (Instance.mk (UInt8.ofNat n)).isLast = false := by
    refine decide_eq_false fun h => ?_
    have hnum := congrArg (·.val.toNat) h
    exact absurd (hval.symm.trans hnum) (Nat.ne_of_lt hn)
  simp only [resolve, hlast, hval, Bool.false_eq_true, if_false]
  split_ifs <;> first | rfl | omega

namespace Header

variable (h : Header)

/-- The kinds of the instances from the number `n` on, at most `room` of them, up to the first
instance that the header does not have. -/
def walk : (room n : Nat) → List HeaderKind
  | 0, _ => []
  | room + 1, n =>
    match h.kind? ⟨UInt8.ofNat n⟩ with
    | some k => k :: walk room (n + 1)
    | none => []

theorem kind?_ofNat {n : Nat} (hn : n < 255) : h.kind? ⟨UInt8.ofNat n⟩ = h.stack[n]? := by
  rw [kind?, Instance.resolve_ofNat hn]
  split_ifs with hlt
  · rfl
  · exact (List.getElem?_eq_none (Nat.le_of_not_lt hlt)).symm

/-- While the numbers reach, a walk goes down the stack. -/
theorem walk_eq (room n : Nat) (hroom : n + room ≤ 255) :
    h.walk room n = (h.stack.drop n).take room := by
  induction room generalizing n with
  | zero => rfl
  | succ room ih =>
    rw [walk, h.kind?_ofNat (by omega)]
    cases hk : h.stack[n]? with
    | none =>
      rw [List.drop_eq_nil_of_le (List.getElem?_eq_none_iff.mp hk)]
      rfl
    | some k =>
      obtain ⟨hlt, rfl⟩ := List.getElem?_eq_some_iff.mp hk
      rw [List.drop_eq_getElem_cons hlt, List.take_succ_cons, ← ih (n + 1) (by omega)]

/-- The kinds shown are those that a walk through all the numbers finds. -/
theorem kinds_eq_walk : h.kinds = h.walk 255 0 := (h.walk_eq 255 0 le_rfl).symm

theorem kinds_eq_stack_iff : h.kinds = h.stack ↔ h.stack.length ≤ 255 := List.take_eq_self_iff _

/-- Only a network-layer header can be more than one header. -/
theorem length_stack_of_group (hg : h.group ≠ .l3) : h.stack.length = 1 := by
  cases h with
  | ip | mpls | arp => exact absurd rfl hg
  | _ => rfl

/-- The headers of a network-layer stack take at least four bytes each. -/
theorem length_stack_le (hg : h.group = .l3) : 4 * h.stack.length ≤ h.wireLen := by
  cases h with
  | ip c =>
    show 4 * (c.headers.map (·.kind)).length ≤ c.wireLen
    rw [List.length_map, IpChain.wireLen]
    induction c.headers with
    | nil => exact le_rfl
    | cons x xs ih =>
      have hx : 4 ≤ x.wireLen := by
        cases x with
        | v4 v => exact le_trans (by decide) (Nat.le_add_right 20 _)
        | v6 => exact (by decide : 4 ≤ 40)
        | gre g => exact Nat.le_add_right _ _
      rw [List.length_cons, List.foldr_cons]
      omega
  | arp => exact (by decide : 4 * 1 ≤ 28)
  | mpls s => rw [stack_mpls, List.length_replicate]; exact le_rfl
  | _ => cases hg

end Header

/-! ### Tables -/

namespace Headers

variable {t : Headers}

/-- The kinds shown are those of all headers if every stack is shown to its end, and only then. -/
theorem flatMap_kinds_eq_iff (es : List Entry) :
    es.flatMap (·.header.kinds) = es.flatMap (·.header.stack) ↔
      ∀ x ∈ es, x.header.stack.length ≤ 255 := by
  constructor
  · intro h
    by_contra hdeep
    push Not at hdeep
    obtain ⟨x, hx, hlong⟩ := hdeep
    have hlt : (es.flatMap (·.header.kinds)).length < (es.flatMap (·.header.stack)).length := by
      rw [List.length_flatMap, List.length_flatMap]
      refine List.sum_lt_sum _ _ (fun x _ => List.length_take_le' _ _) ⟨x, hx, ?_⟩
      exact lt_of_le_of_lt (List.length_take_le _ _) hlong
    exact absurd (congrArg List.length h) (Nat.ne_of_lt hlt)
  · intro h
    exact List.flatMap_congr fun x hx => (Header.kinds_eq_stack_iff _).mpr (h x hx)

/-- The table shows every header it holds exactly when its network-layer stack is not too deep. -/
theorem kinds_eq_iff (ht : t.Placed) :
    t.kinds = t.entries.flatMap (·.header.stack) ↔
      ∀ x ∈ t.l3, x.header.stack.length ≤ 255 := by
  refine (flatMap_kinds_eq_iff t.entries).trans ⟨fun h x hx => ?_, fun h x hx => ?_⟩
  · exact h x (List.mem_filterMap.mpr ⟨.l3, by decide, hx⟩)
  · obtain ⟨g, -, hget⟩ := List.mem_filterMap.mp hx
    by_cases hg : g = .l3
    · subst hg
      exact h x hget
    · have hsole := x.header.length_stack_of_group fun heq => hg ((ht g x hget).symm.trans heq)
      omega

/-- The kinds shown behind the metadata are those that the description is made of. -/
theorem kinds_eq_cons (ht : t.Placed) (hmeta : (t.get .packet).isSome) :
    ∃ kinds, t.kinds = .metadata :: kinds ∧ .metadata ∉ kinds ∧
      t.describe = "/".intercalate (kinds.map (·.text)) := by
  obtain ⟨x, hx⟩ := Option.isSome_iff_exists.mp hmeta
  refine ⟨(t.entriesOf HeaderGroup.packet.inside).flatMap (·.header.kinds), ?_, ?_, rfl⟩
  · have hentries : t.entries = x :: t.entriesOf HeaderGroup.packet.inside := entriesOf_cons hx _
    rw [kinds, hentries, List.flatMap_cons, Header.kinds, (stack_packet ht hx).1]
    rfl
  · intro hmem
    obtain ⟨y, hy, hk⟩ := List.mem_flatMap.mp hmem
    obtain ⟨g, hg, hget⟩ := List.mem_filterMap.mp hy
    have hgroup := Header.group_of_mem_stack (List.mem_of_mem_take hk)
    rw [ht g y hget] at hgroup
    cases hgroup
    exact absurd hg (by decide)

end Headers

/-! ### Parsed packets -/

namespace Packet

variable {start : HeaderKind} {b : Bytes} {p : Packet}

/-- The headers of the network layer take four bytes of the frame each, or more. -/
theorem length_stack_of_parse (hp : parse start b = .ok p) {x : Entry} (hx : x ∈ p.headers.l3) :
    4 * x.header.stack.length ≤ b.length := by
  have hgroup : x.header.group = .l3 := headers_placed_of_parse hp .l3 x hx
  by_cases hs : start = .none
  · obtain ⟨t, ht, rfl⟩ := parse_eq_ok_iff.mp hp
    subst hs
    cases ht
    cases hx
  · obtain ⟨t, heq, -, hemit, -⟩ := emit_of_parse hs hp
    have hall : p.headers.emit = b := by
      rw [heq, ← hemit]
      exact t.emitAll_attachAll _
    have hin : x.header.emit.length ≤ p.headers.emit.length :=
      ((List.prefix_append _ _).isInfix.trans (Headers.covered_isInfix (g := .l3) hx)).length_le
    rw [hall, Header.length_emit] at hin
    exact (x.header.length_stack_le hgroup).trans hin

/-- A parsed packet shows what a walk through the instances of each header finds. That is every
header it holds exactly when its network-layer stack is no deeper than the numbers of the instances
reach, as it is in every frame of fewer than 1024 bytes. The description is made of the kinds shown
without the metadata. -/
theorem kinds_of_parse (hp : parse start b = .ok p) :
    p.headers.kinds = p.headers.entries.flatMap (·.header.walk 255 0) ∧
      (p.headers.kinds = p.headers.entries.flatMap (·.header.stack) ↔
        ∀ x ∈ p.headers.l3, x.header.stack.length ≤ 255) ∧
      (b.length < 1024 → p.headers.kinds = p.headers.entries.flatMap (·.header.stack)) ∧
      ∃ kinds, p.headers.kinds = .metadata :: kinds ∧ .metadata ∉ kinds ∧
        p.description = "/".intercalate (kinds.map (·.text)) := by
  have hplaced := headers_placed_of_parse hp
  have hiff := Headers.kinds_eq_iff hplaced
  refine ⟨?_, hiff, fun hlen => hiff.mpr fun x hx => ?_, ?_⟩
  · exact List.flatMap_congr fun x _ => x.header.kinds_eq_walk
  · have := length_stack_of_parse hp hx
    omega
  · obtain ⟨kinds, hkinds, hmeta, hdesc⟩ :=
      Headers.kinds_eq_cons hplaced (Reached.parse hp).isSome_packet
    obtain ⟨t, -, rfl⟩ := parse_eq_ok_iff.mp hp
    exact ⟨kinds, hkinds, hmeta, hdesc⟩

/-- Two labels and a payload: four headers with the metadata, all of them shown. -/
theorem kinds_of_two_labels : ∃ p, parse .mpls [0, 1, 0, 64, 0, 2, 0x1B, 64, 7] = .ok p ∧
    p.headers.kinds = [.metadata, .mpls, .mpls, .payload] ∧
      ∃ kinds, p.headers.kinds = .metadata :: kinds ∧ .metadata ∉ kinds ∧
        p.description = "/".intercalate (kinds.map (·.text)) := by
  have hp : parse .mpls [0, 1, 0, 64, 0, 2, 0x1B, 64, 7] = .ok _ := rfl
  obtain ⟨-, -, hshort, hdescription⟩ := kinds_of_parse hp
  exact ⟨_, hp, hshort (by decide), hdescription⟩

/-! ### Deep label stacks -/

/-- A label stack of any depth is parsed, whatever bytes follow it, and at most 255 of its labels
are shown. -/
theorem exists_parse_labels {s : LabelStack} (hs : s.Regular) (rest : Bytes) :
    ∃ p, parse .mpls (s.emit ++ rest) = .ok p ∧
      p.headers.kinds = .metadata :: (List.replicate (min 255 s.depth) .mpls ++ [.payload]) ∧
      p.headers.entries.flatMap (·.header.stack) =
        .metadata :: (List.replicate s.depth .mpls ++ [.payload]) := by
  obtain ⟨f, hread, -⟩ := LabelStack.takes_read hs (.ofBytes (s.emit ++ rest)) rest rfl
  have hlabels : Header.read .mpls (.ofBytes (s.emit ++ rest)) = .ok (.mpls s, .payload, f) :=
    bind_eq_ok_iff.mpr ⟨_, ofRead_eq_ok_iff.mpr hread, rfl⟩
  let t : Headers :=
    { packet := some (.clean (.metadata .fresh)), l2 := none, l3 := some (.clean (.mpls s)),
      l4 := none, payload := some (.clean (.payload f.unread)) }
  refine ⟨ofHeaders .mpls t.attachAll, parse_eq_ok_iff.mpr ⟨t, ?_, rfl⟩, ?_, ?_⟩
  · rw [parseHeaders_of_read rfl (by decide) hlabels]
    rfl
  · rw [← List.take_replicate, ← Header.stack_mpls]
    rfl
  · rw [← Header.stack_mpls]
    rfl

/-- A stack of `n` labels that are zero and a last one. -/
def zeroLabels (n : Nat) : LabelStack := ⟨List.replicate n (.zero 4) ++ [⟨[0, 0, 1, 0], rfl⟩]⟩

theorem depth_zeroLabels (n : Nat) : (zeroLabels n).depth = n + 1 := by
  rw [LabelStack.depth, zeroLabels, List.length_append, List.length_replicate,
    List.length_singleton]

theorem emit_zeroLabels (n : Nat) :
    (zeroLabels n).emit = List.replicate (4 * n) 0 ++ [0, 0, 1, 0] := by
  have hzero : (Block.zero 4).bytes = List.replicate 4 0 := rfl
  rw [LabelStack.emit, zeroLabels, List.flatMap_append, List.flatMap_replicate, hzero,
    List.flatten_replicate_replicate, Nat.mul_comm]
  rfl

theorem regular_zeroLabels (n : Nat) : (zeroLabels n).Regular := by
  induction n with
  | zero => exact (by decide : LabelStack.isBottom ⟨[0, 0, 1, 0], rfl⟩ = true)
  | succ n ih =>
    refine (LabelStack.bottomed_cons ?_).mpr ⟨by decide, ih⟩
    exact List.append_ne_nil_of_right_ne_nil _ (List.cons_ne_nil _ _)

/-- The shortest frame with headers that are not shown: of its 256 labels one is missing. -/
theorem kinds_of_deep_labels : ∃ p, parse .mpls (List.replicate 1020 0 ++ [0, 0, 1, 0]) = .ok p ∧
    p.headers.kinds = .metadata :: (List.replicate 255 .mpls ++ [.payload]) ∧
      p.headers.entries.flatMap (·.header.stack) =
        .metadata :: (List.replicate 256 .mpls ++ [.payload]) := by
  obtain ⟨p, hp, hkinds, hheld⟩ := exists_parse_labels (regular_zeroLabels 255) []
  rw [emit_zeroLabels, List.append_nil] at hp
  rw [depth_zeroLabels] at hkinds hheld
  exact ⟨p, hp, hkinds, hheld⟩

end Packet

end Dataplane

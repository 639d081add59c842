import Dataplane.Proofs.Header.Legible
import Dataplane.Proofs.Header.Uncovering

/-!
# What a header stacks

IP chains and label stacks hold headers one inside the other, and an Ethernet header is of another
kind with each tag. Changing a header where it is, field by field or byte by byte, leaves the kinds
of what it holds as they are. Only adding and removing headers changes them, and both do so at the
outer end.

## The model

A header is *well stacked* if it holds something and no GRE header stands directly outside another
one. What is read and what is made is well stacked. Adding a header keeps this because GRE is refused
where the outermost header is GRE; removing the outermost header brings no two others together.
-/

namespace Dataplane

/-! ### Changes that keep the kinds -/

namespace IpHeader

variable {h h' : IpHeader}

theorem kind_update {num : FieldNum} {op : FieldOp} {arg : Bytes} {dirty : Bool}
    (e : h.update? num op arg = some (h', dirty)) : h'.kind = h.kind := by
  cases h <;>
  · simp only [update?, Option.map_eq_some_iff, Prod.mk.injEq] at e
    obtain ⟨_, -, rfl, -⟩ := e
    rfl

theorem kind_reload {b : Bytes} (e : h.reload? b = some h') : h'.kind = h.kind := by
  cases h <;>
  · obtain ⟨_, -, rfl⟩ := Option.map_eq_some_iff.mp e
    rfl

end IpHeader

namespace IpChain

variable {c c' : IpChain}

theorem kinds_update {num : FieldNum} {inst : Instance} {op : FieldOp} {arg : Bytes} {dirty : Bool}
    (e : c.update num inst op arg = .ok (c', dirty)) :
    c'.headers.map (·.kind) = c.headers.map (·.kind) := by
  obtain ⟨i, h, h', -, hh, hu, rfl⟩ := update_eq_ok_iff.mp e
  have hi : (c.headers.map (·.kind))[i]? = some h'.kind := by
    rw [List.getElem?_map, hh, IpHeader.kind_update hu]
    rfl
  show (c.headers.set i h').map (·.kind) = _
  obtain ⟨hlt, hget⟩ := List.getElem?_eq_some_iff.mp hi
  rw [List.map_set, ← hget, List.set_getElem_self]

theorem kinds_reloadHeaders {hs hs' : List IpHeader} {b : Bytes}
    (e : reloadHeaders? hs b = some hs') : hs'.map (·.kind) = hs.map (·.kind) := by
  induction hs generalizing b hs' with
  | nil =>
    obtain ⟨-, rfl⟩ : b = [] ∧ [] = hs' := by simpa [reloadHeaders?] using e
    rfl
  | cons h hs ih =>
    rw [reloadHeaders?] at e
    split at e
    · rename_i h' hh
      obtain ⟨hs', hrest, rfl⟩ := Option.map_eq_some_iff.mp e
      rw [List.map_cons, List.map_cons, IpHeader.kind_reload hh, ih hrest]
    · cases e

theorem kinds_reload {b : Bytes} (e : c.reload? b = some c') :
    c'.headers.map (·.kind) = c.headers.map (·.kind) := by
  obtain ⟨hs, hre, rfl⟩ := Option.map_eq_some_iff.mp e
  exact kinds_reloadHeaders hre

end IpChain

namespace Ethernet

variable {e e' : Ethernet}

theorem kind_congr (h : e'.tags.length = e.tags.length) : e'.kind = e.kind := by
  rw [kind, h, kind]

theorem kind_update {num : FieldNum} {inst : Instance} {op : FieldOp} {arg : Bytes}
    (h : e.update num inst op arg = .ok e') : e'.kind = e.kind := by
  unfold update at h
  split at h
  · split at h
    · cases h
      exact kind_congr (List.length_modify _ _ _)
    · cases h
  · split at h
    · split at h <;> cases h <;> rfl
    · cases h

theorem kind_reload {b : Bytes} (h : e.reload? b = some e') : e'.kind = e.kind := by
  unfold reload? at h
  split at h
  · split at h
    · rename_i hshape
      cases h
      exact kind_congr hshape.1
    · cases h
  · cases h

end Ethernet

namespace LabelStack

variable {s s' : LabelStack}

theorem depth_update {num : FieldNum} {inst : Instance} {op : FieldOp} {arg : Bytes}
    (h : s.update? num inst op arg = some s') : s'.depth = s.depth := by
  obtain ⟨_, -, h⟩ := Option.bind_eq_some_iff.mp h
  obtain ⟨i, -, h⟩ := Option.bind_eq_some_iff.mp h
  cases h
  exact List.length_modify _ _ _

theorem depth_reload {b : Bytes} (h : s.reload? b = some s') : s'.depth = s.depth := by
  unfold reload? at h
  split at h
  · split at h
    · rename_i hshape
      cases h
      exact hshape.2
    · cases h
  · cases h

end LabelStack

namespace Header

variable {h h' : Header} {kind next : HeaderKind} {f f' : Frame}

theorem stack_mpls (s : LabelStack) : (mpls s).stack = List.replicate s.depth .mpls :=
  List.map_const'

/-- A field that is updated leaves the kinds of the headers as they are. -/
theorem stack_update {num : FieldNum} {inst : Instance} {op : FieldOp} {arg : Bytes} {dirty : Bool}
    (e : h.update num inst op arg = .ok (h', dirty)) : h'.stack = h.stack := by
  cases h <;> simp only [update, map_eq_ok_iff, Prod.mk.injEq] at e
  case ethernet =>
    obtain ⟨_, hu, rfl, -⟩ := e
    exact congrArg ([·]) (Ethernet.kind_update hu)
  case ip =>
    obtain ⟨_, hu, rfl, -⟩ := e
    exact IpChain.kinds_update hu
  case mpls s =>
    obtain ⟨s', hu, rfl, -⟩ := e
    cases hs : s.update? num inst op arg with
    | none => rw [hs] at hu; cases hu
    | some _ =>
      rw [hs] at hu
      cases hu
      rw [stack_mpls, stack_mpls, LabelStack.depth_update hs]
  case payload => simp [orAbsent] at e
  all_goals
    obtain ⟨_, -, rfl, -⟩ := e
    rfl

/-- So do bytes that are overwritten. -/
theorem stack_writeRaw {start : Nat} {val : Bytes} (e : h.writeRaw? start val = some h') :
    h'.stack = h.stack := by
  obtain ⟨b, -, e⟩ := Option.bind_eq_some_iff.mp e
  cases h <;> simp only [reload?, Option.map_eq_some_iff, Option.ite_none_right_eq_some,
    Option.some.injEq] at e
  case ethernet =>
    obtain ⟨_, hr, rfl⟩ := e
    exact congrArg ([·]) (Ethernet.kind_reload hr)
  case ip =>
    obtain ⟨_, hr, rfl⟩ := e
    exact IpChain.kinds_reload hr
  case mpls =>
    obtain ⟨_, hr, rfl⟩ := e
    rw [stack_mpls, stack_mpls, LabelStack.depth_reload hr]
  case metadata | payload =>
    obtain ⟨-, rfl⟩ := e
    rfl
  all_goals
    obtain ⟨_, -, rfl⟩ := e
    rfl

/-! ### Well-stacked headers -/

/-- The header holds something, and no GRE header directly outside another one. -/
structure WellStacked (h : Header) : Prop where
  ne_nil : h.stack ≠ []
  apart : h.stack.IsChain fun k k' => ¬(k = .gre ∧ k' = .gre)

theorem WellStacked.congr (hs : h.WellStacked) (he : h'.stack = h.stack) : h'.WellStacked :=
  ⟨he ▸ hs.ne_nil, he ▸ hs.apart⟩

theorem wellStacked_singleton (he : h.stack = [kind]) : h.WellStacked :=
  ⟨by simp [he], he ▸ List.isChain_singleton kind⟩

/-- Labels are no GRE headers. -/
theorem wellStacked_mpls {s : LabelStack} (hs : s.entries ≠ []) : (mpls s).WellStacked where
  ne_nil := by simpa [stack] using hs
  apart := by
    rw [stack_mpls]
    refine (List.pairwise_replicate.mpr (.inr ?_)).isChain
    decide

/-- A regular chain holds no GRE header directly outside another one: GRE cannot announce GRE. -/
theorem Regular.wellStacked (hr : h.Regular) : h.WellStacked := by
  refine ⟨hr.stack_ne_nil, ?_⟩
  cases h with
  | ip c =>
    refine (List.isChain_map _).mpr ((IpChain.Regular.holds hr).imp fun x y hxy => ?_)
    rintro ⟨hx, hy⟩
    cases x with
    | gre g => exact hxy hy
    | _ => cases hx
  | mpls s => exact (wellStacked_mpls (LabelStack.Regular.ne_nil hr)).apart
  | _ => exact List.isChain_singleton _

theorem WellStacked.push (hs : h.WellStacked) (e : h.push kind = .ok h') : h'.WellStacked := by
  cases h with
  | ethernet eth =>
    obtain ⟨_, -, rfl⟩ := map_eq_ok_iff.mp e
    exact wellStacked_singleton rfl
  | ip c =>
    obtain ⟨c', hc, rfl⟩ := map_eq_ok_iff.mp e
    obtain ⟨v, hv, rfl⟩ := map_eq_ok_iff.mp hc
    refine ⟨List.cons_ne_nil _ _, List.isChain_cons.mpr ⟨?_, hs.apart⟩⟩
    rintro k hk ⟨hgre, rfl⟩
    refine IpChain.outermost_ne_gre hv hgre ?_
    rw [List.head?_map] at hk
    rw [IpChain.outermost, hk]
    rfl
  | mpls s =>
    obtain ⟨s', hs', rfl⟩ := map_eq_ok_iff.mp e
    unfold LabelStack.push at hs'
    split at hs' <;> cases hs'
    exact wellStacked_mpls (List.cons_ne_nil _ _)
  | _ => cases e

/-- Removing the outermost header keeps a header well stacked, if others are left. -/
theorem WellStacked.pop (hs : h.WellStacked) (e : h.pop kind = .ok (h', false)) :
    h'.WellStacked := by
  cases h <;> simp only [Header.pop, popSole, map_eq_ok_iff, Prod.mk.injEq] at e
  case ethernet =>
    obtain ⟨_, -, rfl, -⟩ := e
    exact wellStacked_singleton rfl
  case ip c =>
    obtain ⟨⟨c', _⟩, hc, rfl, rfl⟩ := e
    obtain ⟨-, -, hc⟩ := bind_eq_ok_iff.mp hc
    simp only [pure, Except.pure, Except.ok.injEq, Prod.mk.injEq, List.isEmpty_eq_false_iff] at hc
    obtain ⟨rfl, hne⟩ := hc
    refine ⟨mt List.map_eq_nil_iff.mp hne, ?_⟩
    rw [stack, List.map_tail]
    exact hs.apart.tail
  case mpls s =>
    obtain ⟨⟨s', _⟩, hs', rfl, rfl⟩ := e
    unfold LabelStack.pop at hs'
    split at hs'
    · simp only [Except.ok.injEq, Prod.mk.injEq, List.isEmpty_eq_false_iff] at hs'
      obtain ⟨rfl, hne⟩ := hs'
      exact wellStacked_mpls hne
    · cases hs'
  all_goals
    split at e <;> simp at e

end Header

end Dataplane

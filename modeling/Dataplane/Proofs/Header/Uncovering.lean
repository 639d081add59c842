import Dataplane.Proofs.Header.Restamping

/-!
# Taking off what was put on

`push` puts a header in front of a stack and `pop` takes it away. In between the stack may have been
rebuilt any number of times, so what is uncovered is not the old stack but one that the next rebuild
cannot tell from it.

## The model

Two headers *agree* before a kind if rebuilding them in the same surroundings gives the same header,
whatever the surroundings are as long as a header of that kind follows (`Header.Agrees`). A rebuilt
stack agrees with the stack it was rebuilt from if its checksums are sealed, and what is popped off
a stack that agrees with a pushed one agrees with the stack before the push (`Header.pop_of_push`).
Which headers may be popped depends on the addresses in a chain only (`checkOutermost_congr`), and
those are kept. Of a stack of one header nothing is left (`Header.pop_of_sole`), but for the Ethernet
header that a tag stands on (`Header.pop_of_tag`).
-/

namespace Dataplane

/-! ### Chains -/

namespace IpChain

variable {c c' : IpChain} {kind : HeaderKind}

/-- The kind of a header that has the given addresses. -/
def kindOf : Option IpAddrs → HeaderKind
  | some (.v4 ..) => .ip4
  | some (.v6 ..) => .ip6
  | none => .gre

theorem kinds_eq (hs : List IpHeader) : hs.map (·.kind) = (hs.map (·.addrs?)).map kindOf := by
  rw [List.map_map]
  refine List.map_congr_left fun h _ => ?_
  cases h <;> rfl

theorem kinds_congr {hs hs' : List IpHeader} (h : hs'.map (·.addrs?) = hs.map (·.addrs?)) :
    hs'.map (·.kind) = hs.map (·.kind) := by
  rw [kinds_eq, h, ← kinds_eq]

theorem outermost_congr (h : c'.headers.map (·.addrs?) = c.headers.map (·.addrs?)) :
    c'.outermost = c.outermost := by
  rw [outermost, ← List.head?_map, kinds_congr h, List.head?_map, outermost]

/-- The addresses of the two outermost headers decide whether a chain starts with a 6to4 tunnel. -/
theorem checkSixToFour_eq (c : IpChain) (kind : HeaderKind) : c.checkSixToFour kind =
    match c.headers.map (·.addrs?) with
    | some (.v4 src dst) :: some (.v6 src' dst') :: _ =>
      if sixToFour? dst' ≠ some dst then .error (.precondition kind .destinationNotEmbedded)
      else if kind = .sixToFourSecure ∧ sixToFour? src' ≠ some src then
        .error (.precondition kind .sourceNotEmbedded)
      else .ok ()
    | _ => .error (.precondition kind .notSixInFour) := by
  obtain ⟨hs, trailer⟩ := c
  match hs with
  | [] => rfl
  | [h] => cases h <;> rfl
  | h :: h' :: hs => cases h <;> cases h' <;> rfl

theorem checkOutermost_congr (h : c'.headers.map (·.addrs?) = c.headers.map (·.addrs?)) :
    c'.checkOutermost kind = c.checkOutermost kind := by
  have hcheck : c'.checkSixToFour kind = c.checkSixToFour kind := by
    rw [checkSixToFour_eq, h, ← checkSixToFour_eq]
  simp only [checkOutermost, outermost_congr h, hcheck]

theorem length_of_sixToFour {addr v4 : Bytes} (hlen : addr.length = 16)
    (h : sixToFour? addr = some v4) : v4.length = 4 := by
  rw [sixToFour?] at h
  split at h
  · cases h
    rw [List.length_take, List.length_drop, hlen]
    rfl
  · cases h

theorem dst_between {src dst : Bytes} (hdst : dst.length = 4) :
    (Ipv4.between src dst).dst = dst := by
  rw [Ipv4.dst, Ipv4.between, Block.get_set_self]
  exact Bytes.resize_of_length_eq hdst

theorem src_between {src dst : Bytes} (hsrc : src.length = 4) :
    (Ipv4.between src dst).src = src := by
  have apart : Ipv4.dstSlot.Apart Ipv4.srcSlot := by decide
  rw [Ipv4.src, Ipv4.between, Block.get_set_of_apart apart, Block.get_set_self]
  exact Bytes.resize_of_length_eq hsrc

/-- A header that was put in front for a 6to4 tunnel makes one. -/
theorem checkSixToFour_of_outer {v : Ipv4} (hv : c.sixToFourOuter kind = .ok v) :
    ({ c with headers := .v4 v :: c.headers } : IpChain).checkSixToFour kind = .ok () := by
  rw [sixToFourOuter] at hv
  split at hv
  · rename_i h hhead
    obtain ⟨hs, hc⟩ := List.head?_eq_some_iff.mp hhead
    simp only [checkSixToFour, hc]
    split at hv
    · cases hv
    · rename_i dst src hdst hsrc
      cases hv
      rw [dst_between (length_of_sixToFour (Block.length_get _ _) hdst),
        src_between (length_of_sixToFour (Block.length_get _ _) hsrc), hdst, hsrc]
      simp
    · rename_i dst hdst hsrc
      split at hv
      · cases hv
      · rename_i hkind
        cases hv
        rw [dst_between (length_of_sixToFour (Block.length_get _ _) hdst), hdst]
        simp [hkind]
  · cases hv

/-- A header that was put in front may be taken away. -/
theorem checkOutermost_of_freshOuter {h : IpHeader} (hf : c.freshOuter kind = .ok h) :
    ({ c with headers := h :: c.headers } : IpChain).checkOutermost kind = .ok () := by
  cases kind with
  | ip4 | ip6 =>
    cases hf
    rfl
  | gre =>
    rw [freshOuter] at hf
    split at hf
    · cases hf
    · cases hf
      rfl
  | sixToFourAuto | sixToFourSecure =>
    obtain ⟨v, hv, rfl⟩ := map_eq_ok_iff.mp hf
    exact checkSixToFour_of_outer hv
  | _ => cases hf

/-- What was put on a chain may be taken off one with the same addresses. -/
theorem pop_of_push {v : IpHeader} (hv : c.freshOuter kind = .ok v)
    (haddrs : c'.headers.map (·.addrs?) = (v :: c.headers).map (·.addrs?)) (hne : c.headers ≠ []) :
    c'.pop kind = .ok ({ c' with headers := c'.headers.tail }, false) := by
  have hcheck : c'.checkOutermost kind = .ok () := by
    rw [checkOutermost_congr (c := { c with headers := v :: c.headers }) haddrs]
    exact checkOutermost_of_freshOuter hv
  have hlen := congrArg List.length haddrs
  simp only [List.length_map, List.length_cons] at hlen
  have hrest : c'.headers.tail.isEmpty = false := by
    have hpos := List.length_pos_iff.mpr hne
    rw [List.isEmpty_eq_false_iff, ← List.length_pos_iff, List.length_tail]
    omega
  simp only [pop, hcheck, hrest]
  rfl

end IpChain

/-- A label that was put on a stack comes off it. -/
theorem LabelStack.pop_of_push {s s₁ : LabelStack} {kind : HeaderKind} (hne : s.entries ≠ [])
    (hpush : s.push kind = .ok s₁) : s₁.pop kind = .ok (s, false) := by
  rw [push] at hpush
  split at hpush
  · rename_i hkind
    cases hpush
    have hrest : s.entries.isEmpty = false := List.isEmpty_eq_false_iff.mpr hne
    simp only [pop, if_pos hkind, List.tail_cons, hrest]
  · cases hpush

namespace Header

variable {h h' h₁ : Header} {around around' : Surroundings} {dirty : Bool}
  {inner : Option HeaderKind} {kind : HeaderKind}

/-! ### What a rebuild keeps -/

@[simp] theorem stack_rebuild (h : Header) (around : Surroundings) (dirty : Bool) :
    (h.rebuild around dirty).stack = h.stack := by
  cases h with
  | ethernet e =>
    simp only [rebuild, Ethernet.rebuild]
    split <;> rfl
  | ip c => exact IpChain.kinds_rebuildHeaders c.headers
  | _ => rfl

@[simp] theorem addrs_rebuild (h : Header) (around : Surroundings) (dirty : Bool) :
    (h.rebuild around dirty).addrs? = h.addrs? := by
  cases h with
  | ip c => exact c.innermostAddrs_rebuild
  | _ => rfl

/-- Every IPv4 header has the checksum that would be computed. -/
def Sealed : Header → Prop
  | ip c => ∀ h ∈ c.headers, h.Sealed
  | _ => True

theorem sealed_rebuild (h : Header) (around : Surroundings) : (h.rebuild around true).Sealed := by
  cases h with
  | ip c => exact IpChain.sealed_rebuildHeaders c.headers
  | _ => trivial

theorem Sealed.rebuild_eq (hs : h.Sealed) (hg : h.group = .l3) (around : Surroundings)
    (dirty : Bool) : h.rebuild around dirty = h.rebuild around true := by
  cases h with
  | ip c => simp only [rebuild, IpChain.rebuild, IpChain.rebuildHeaders_of_sealed hs dirty]
  | arp h => rfl
  | mpls s => rfl
  | _ => cases hg

theorem rebuild_rebuild (hg : h.group = .l3) (hk : around.innerKind = around'.innerKind)
    (dirty : Bool) : (h.rebuild around true).rebuild around' dirty = h.rebuild around' true := by
  cases h with
  | ip c => simp only [rebuild, IpChain.rebuild, IpChain.rebuildHeaders_rebuildHeaders hk]
  | arp h => rfl
  | mpls s => rfl
  | _ => cases hg

/-! ### Headers that a rebuild makes equal -/

/-- No rebuild before a header of kind `inner` tells the two apart. -/
def Agrees (inner : Option HeaderKind) (h h' : Header) : Prop :=
  ∀ around dirty, around.innerKind = inner → h'.rebuild around dirty = h.rebuild around dirty

theorem Agrees.refl (inner : Option HeaderKind) (h : Header) : Agrees inner h h :=
  fun _ _ _ => rfl

/-- What a rebuild keeps, headers that agree have in common. -/
theorem Agrees.congr {α : Type} {f : Header → α}
    (hf : ∀ h around dirty, f (rebuild h around dirty) = f h) (hagree : Agrees inner h h') :
    f h' = f h := by
  have heq := hagree ⟨inner, [], false, false, none⟩ false rfl
  rw [← hf h', heq, hf]

theorem Agrees.group (hagree : Agrees inner h h') : h'.group = h.group :=
  hagree.congr group_rebuild

theorem Agrees.stack (hagree : Agrees inner h h') : h'.stack = h.stack :=
  hagree.congr stack_rebuild

/-- A header that agrees with a sealed one still does when it has been rebuilt. -/
theorem Agrees.rebuild (hagree : Agrees inner h h') (hg : h.group = .l3) (hs : h.Sealed)
    (hk : around.innerKind = inner) : Agrees inner h (h'.rebuild around true) := by
  intro around' dirty hk'
  rw [rebuild_rebuild (hagree.group.trans hg) (hk.trans hk'.symm), hagree around' true hk',
    hs.rebuild_eq hg around' dirty]

/-! ### Uncovering -/

/-- A chain from which the outermost header is taken agrees with the chain on which it was put. -/
theorem agrees_tail {c c₁ : IpChain} {v : IpHeader}
    (hs : (ip c).Sealed)
    (hagree : ∀ around dirty, around.innerKind = inner →
      c₁.rebuild around dirty = IpChain.rebuild { c with headers := v :: c.headers } around true) :
    Agrees inner (ip c) (ip { c₁ with headers := c₁.headers.tail }) := by
  intro around dirty hk
  have heq := hagree around dirty hk
  simp only [IpChain.rebuild, IpChain.mk.injEq] at heq
  obtain ⟨hheaders, htrailer⟩ := heq
  have htail : IpChain.rebuildHeaders around dirty c₁.headers.tail =
      IpChain.rebuildHeaders around true c.headers := by
    have h := congrArg List.tail hheaders
    cases hc : c₁.headers with
    | nil => rw [hc] at hheaders; cases hheaders
    | cons w ws => rw [hc] at h; exact h
  simp only [Header.rebuild, IpChain.rebuild, htail, htrailer,
    IpChain.rebuildHeaders_of_sealed hs dirty]

/-- What is popped off a stack that agrees with a pushed one agrees with the stack before the
push. -/
theorem pop_of_push (hg : h.group = .l3) (hs : h.Sealed) (hne : h.stack ≠ [])
    (hpush : h.push kind = .ok h₁) (hk : around.innerKind = inner)
    (hagree : Agrees inner (h₁.rebuild around true) h') :
    ∃ h'', h'.pop kind = .ok (h'', false) ∧ Agrees inner h h'' := by
  cases h with
  | ip c =>
    obtain ⟨c₁, hc₁, rfl⟩ := map_eq_ok_iff.mp hpush
    obtain ⟨v, hv, rfl⟩ := map_eq_ok_iff.mp hc₁
    have hgroup := hagree.group
    have hsame (around' : Surroundings) (dirty : Bool) (hk' : around'.innerKind = inner) :
        h'.rebuild around' dirty =
          (ip { c with headers := v :: c.headers }).rebuild around' true := by
      rw [hagree around' dirty hk', rebuild_rebuild rfl (hk.trans hk'.symm)]
    cases h' with
    | ip c' =>
      have hagree' := agrees_tail hs fun around' dirty hk' => by
        simpa only [rebuild, ip.injEq] using hsame around' dirty hk'
      have haddrs : c'.headers.map (·.addrs?) = (v :: c.headers).map (·.addrs?) := by
        have h := hsame around true hk
        simp only [rebuild, ip.injEq, IpChain.rebuild, IpChain.mk.injEq] at h
        rw [← IpChain.addrs_rebuildHeaders c'.headers, h.1, IpChain.addrs_rebuildHeaders]
      have hpop := IpChain.pop_of_push hv haddrs fun hnil => hne (by rw [stack, hnil]; rfl)
      exact ⟨_, map_eq_ok_iff.mpr ⟨_, hpop, rfl⟩, hagree'⟩
    | arp _ | mpls _ =>
      have h := hsame around true hk
      cases h
    | _ => cases hgroup
  | mpls s =>
    obtain ⟨s₁, hs₁, rfl⟩ := map_eq_ok_iff.mp hpush
    have heq := hagree around true hk
    cases h' with
    | mpls s' =>
      cases heq
      have hpop := LabelStack.pop_of_push (fun hnil => hne (by rw [stack, hnil]; rfl)) hs₁
      exact ⟨mpls s, map_eq_ok_iff.mpr ⟨_, hpop, rfl⟩, .refl _ _⟩
    | _ => cases heq
  | arp a => cases hpush
  | _ => cases hg

/-! ### A header that is alone -/

section Alone

variable {h : Header} {kind : HeaderKind}

theorem group_of_mem_stack {k : HeaderKind} (hk : k ∈ h.stack) : k.group? = some h.group := by
  cases h with
  | ethernet e =>
    cases List.mem_singleton.mp hk
    simp only [Ethernet.kind]
    split <;> rfl
  | ip c =>
    obtain ⟨v, -, rfl⟩ := List.mem_map.mp hk
    cases v <;> rfl
  | mpls s =>
    obtain ⟨_, -, rfl⟩ := List.mem_map.mp hk
    rfl
  | _ =>
    cases List.mem_singleton.mp hk
    rfl

/-- The only header of a stack can be removed, and nothing is left. -/
theorem pop_of_sole (hstack : h.stack = [kind]) (hvlan : kind ≠ .ethVlan)
    (hstacked : kind ≠ .ethStacked) : ∃ h', h.pop kind = .ok (h', true) := by
  cases h with
  | ethernet e =>
    obtain rfl := List.singleton_inj.mp hstack
    obtain ⟨addrs, tags, word⟩ := e
    match tags with
    | [] => exact ⟨_, rfl⟩
    | [_] => exact absurd rfl hvlan
    | _ :: _ :: _ => exact absurd rfl hstacked
  | ip c =>
    obtain ⟨hs, trailer⟩ := c
    obtain ⟨v, rfl, rfl⟩ := List.map_eq_singleton_iff.mp hstack
    cases v <;> exact ⟨_, rfl⟩
  | mpls s =>
    obtain ⟨entries⟩ := s
    obtain ⟨entry, rfl, rfl⟩ := List.map_eq_singleton_iff.mp hstack
    exact ⟨_, rfl⟩
  | _ =>
    obtain rfl := List.singleton_inj.mp hstack
    exact ⟨_, rfl⟩

/-- A fresh header is one header of its kind. -/
theorem stack_of_fresh (hf : fresh kind = .ok h) : h.stack = [kind] := by
  cases kind <;> simp only [fresh, map_eq_ok_iff, Except.ok.injEq, reduceCtorEq] at hf
  case eth | ethVlan | ethStacked | ip4 | ip6 =>
    obtain ⟨_, hf, rfl⟩ := hf
    cases hf
    rfl
  all_goals
    subst hf
    rfl

/-- A tag comes off a fresh header alone: the Ethernet header stays. -/
theorem pop_of_tag (hf : fresh kind = .ok h) (htag : kind = .ethVlan ∨ kind = .ethStacked)
    (with' around : Surroundings) (dirty : Bool) :
    ∃ e, ((h.attach with').rebuild around dirty).pop kind = .ok (.ethernet e, false) := by
  obtain rfl | rfl := htag <;>
  · cases hf
    simp only [attach, rebuild, Ethernet.rebuild]
    split <;> exact ⟨_, rfl⟩

end Alone

end Header

/-- Tags that were put on an untagged header may be taken off it, and nothing else changes. -/
theorem Ethernet.pop_of_push {e e₁ e' : Ethernet} {kind : HeaderKind} (hpush : e.push kind = .ok e₁)
    (htags : e'.tags = e₁.tags) :
    e₁.addrs = e.addrs ∧ e₁.typeWord = e.typeWord ∧ e.tags = [] ∧
      e'.pop kind = .ok ({ e' with tags := [] }, false) := by
  rw [push] at hpush
  split at hpush
  · cases hpush
  · rename_i huntagged
    simp only [not_or, ne_eq, not_not] at huntagged
    split at hpush
    · rename_i tags hfresh
      cases hpush
      refine ⟨rfl, rfl, huntagged.1, ?_⟩
      cases kind with
      | eth => exact absurd rfl huntagged.2
      | ethVlan | ethStacked =>
        cases hfresh
        simp only [pop, htags]
      | _ => cases hfresh
    · cases hpush

end Dataplane

import Dataplane.Proofs.Header.Legible
import Dataplane.Proofs.Headers.Layering
import Dataplane.Proofs.Packet.Wire

/-!
# What parsing leaves

A table that has just been parsed has no dirty header and no empty stack, its headers are of the
kinds that were looked for, and an Ethernet header announces the network-layer header behind it.
-/

namespace Dataplane

/-! ### The first header of a stack -/

@[simp] theorem Header.stack_attach (h : Header) (around : Surroundings) :
    (h.attach around).stack = h.stack := by
  cases h <;> rfl

/-- What an Ethernet header announces is announced by a type of its own. -/
theorem EtherType.ofKind?_kind {t : Nat} (h : (kind t).group? = some .l3) :
    ofKind? (kind t) = some t := by
  unfold kind at h ⊢
  split_ifs at h ⊢ with h4 h6 ha hm
  · rw [h4]; rfl
  · rw [h6]; rfl
  · rw [ha]; rfl
  · rw [hm]; rfl
  · cases h

namespace Packet

open Headers

variable {start : HeaderKind} {b : Bytes} {p : Packet} {g : HeaderGroup}

/-! ### Places -/

/-- Parsing fills the places inside the last group only. -/
theorem get_parseHeaders {room : Nat} {last : HeaderGroup} {kind : HeaderKind} {f : Frame}
    {t t' : Headers} (e : parseHeaders room last kind f t = .ok t') (hg : g ∉ last.inside) :
    t'.get g = t.get g := by
  induction room generalizing last kind f t with
  | zero =>
    obtain ⟨-, rfl⟩ | ⟨_, _, _, _, _, h, -⟩ := parseHeaders_cases e
    · rfl
    · cases h
  | succ room ih =>
    obtain ⟨-, rfl⟩ | ⟨_, g₁, h, next, f', hroom, -, hlast, -, hrest⟩ := parseHeaders_cases e
    · rfl
    cases hroom
    obtain ⟨skipped, hsplit, -⟩ := HeaderGroup.inside_eq hlast
    rw [hsplit, List.mem_append, List.mem_cons, not_or, not_or] at hg
    rw [ih hrest hg.2.2, get_set_of_ne _ hg.2.1]

/-- Every header that parsing adds is clean and was read as one of its kind. -/
theorem read_of_parseHeaders {room : Nat} {last : HeaderGroup} {kind : HeaderKind} {f : Frame}
    {t t' : Headers} (e : parseHeaders room last kind f t = .ok t') {x : Entry}
    (hx : t'.get g = some x) :
    t.get g = some x ∨ x.dirty = false ∧ ∃ kind next f₀ f₁, kind.group? = some g ∧
      Header.read kind f₀ = .ok (x.header, next, f₁) := by
  induction room generalizing last kind f t with
  | zero =>
    obtain ⟨-, rfl⟩ | ⟨_, _, _, _, _, h, -⟩ := parseHeaders_cases e
    · exact .inl hx
    · cases h
  | succ room ih =>
    obtain ⟨-, rfl⟩ | ⟨_, g₁, h, next, f', hroom, hg, -, hread, hrest⟩ := parseHeaders_cases e
    · exact .inl hx
    cases hroom
    obtain hold | hnew := ih hrest
    · by_cases heq : g = g₁
      · subst heq
        rw [get_set_self] at hold
        cases hold
        exact .inr ⟨rfl, kind, next, f, f', hg, hread⟩
      · rw [get_set_of_ne _ heq] at hold
        exact .inl hold
    · exact .inr hnew

/-! ### After the first look -/

/-- A first look changes no stack. -/
theorem get_of_attachAll {t : Headers} {x : Entry} (hx : t.attachAll.get g = some x) :
    ∃ around x₀, t.get g = some x₀ ∧ x = { x₀ with header := x₀.header.attach around } := by
  obtain ⟨around, hget⟩ := t.get_attachAll g
  obtain ⟨x₀, hx₀, rfl⟩ := Option.map_eq_some_iff.mp (hget.symm.trans hx)
  exact ⟨around, x₀, hx₀, rfl⟩

theorem headers_placed_of_parse (e : parse start b = .ok p) : p.headers.Placed := by
  obtain ⟨t, ht, heq⟩ := placed_parse e
  rw [heq]
  exact ht.attachAll

/-- A packet that has just been parsed is clean. -/
theorem clean_of_parse (e : parse start b = .ok p) : p.headers.Clean := by
  obtain ⟨t, ht, rfl⟩ := parse_eq_ok_iff.mp e
  intro g x hx
  obtain ⟨around, x₀, hx₀, rfl⟩ := get_of_attachAll hx
  obtain hold | ⟨hclean, -⟩ := read_of_parseHeaders ht hx₀
  · cases g <;> cases hold
    rfl
  · exact hclean

/-- The network-layer header of a packet that has just been parsed is no empty stack. -/
theorem stacked_of_parse (e : parse start b = .ok p) {x : Entry} (hx : p.headers.l3 = some x) :
    x.header.stack ≠ [] := by
  obtain ⟨t, ht, rfl⟩ := parse_eq_ok_iff.mp e
  obtain ⟨around, x₀, hx₀, rfl⟩ := get_of_attachAll (g := .l3) hx
  obtain hold | ⟨-, kind, next, f₀, f₁, hg, hread⟩ := read_of_parseHeaders ht hx₀
  · cases hold
  · have hhead := Header.head?_stack_of_read hg (by decide) hread
    intro hnil
    rw [Header.stack_attach] at hnil
    rw [hnil] at hhead
    cases hhead

/-- The Ethernet header of a packet that has just been parsed announces what it is followed by. -/
theorem announced_of_parse (e : parse start b = .ok p) : p.headers.Announced := by
  obtain ⟨t, ht, rfl⟩ := parse_eq_ok_iff.mp e
  intro h2 h3
  obtain ⟨x, hx⟩ := Option.isSome_iff_exists.mp h2
  obtain ⟨y, hy⟩ := Option.isSome_iff_exists.mp h3
  obtain ⟨_, x₀, hx₀, -⟩ := get_of_attachAll (g := .l2) hx
  obtain ⟨_, y₀, hy₀, rfl⟩ := get_of_attachAll (g := .l3) hy
  rw [innerKind_l2 hy, Header.stack_attach]
  obtain ⟨-, rfl⟩ | ⟨_, g, h, next, f, -, hg, hlast, hread, hrest⟩ := parseHeaders_cases ht
  · cases hx₀
  -- The first header read is the Ethernet header, or there would be none.
  by_cases hg2 : g = .l2
  · subst hg2
    have hnext : ∃ type, next = EtherType.kind type := by
      cases start with
      | eth | ethVlan | ethStacked =>
        obtain ⟨⟨eth, _⟩, -, hread⟩ := bind_eq_ok_iff.mp hread
        cases hread
        exact ⟨eth.etherType, rfl⟩
      | _ => cases hg
    obtain ⟨type, rfl⟩ := hnext
    obtain ⟨-, rfl⟩ | ⟨_, g, h', next, f', -, hg', hlast, hread', hrest⟩ := parseHeaders_cases hrest
    · cases hy₀
    -- And the second one is the network-layer header.
    by_cases hg3 : g = .l3
    · subst hg3
      have hself := get_parseHeaders hrest (HeaderGroup.not_mem_inside_self .l3)
      rw [get_set_self] at hself
      cases hself.symm.trans hy₀
      rw [Entry.clean, Header.head?_stack_of_read hg' (by decide) hread']
      exact Option.isSome_of_mem (EtherType.ofKind?_kind hg')
    · have hout : .l3 ∉ g.inside := by
        revert hlast hg3
        cases g <;> decide
      have hself := get_parseHeaders hrest hout
      rw [get_set_of_ne _ (Ne.symm hg3)] at hself
      cases hself.symm.trans hy₀
  · have hout : .l2 ∉ g.inside := by
      revert hlast hg2
      cases g <;> decide
    have hself := get_parseHeaders hrest hout
    rw [get_set_of_ne _ (Ne.symm hg2)] at hself
    cases hself.symm.trans hx₀

end Packet

end Dataplane

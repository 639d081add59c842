import Dataplane.Proofs.Header.Linking

/-!
# Headers that are read back

Where a header is read back, it is read as a header of the right kind: the kind that is looked for
has to be its own (`Header.FoundAs`). Then the reader gives the header, without the addresses it
remembers, names what the header itself names as the next kind (`Header.next`), and leaves what is
inside (`Header.read_of_unread`). If another header is looked for, one is found that shows other
kinds, or none (`Header.foundAs_of_read`).

## The model

`Header.Regular` is what adding, removing and rebuilding keep of the headers that are read or made;
`Header.Legible` is what rebuilding makes of a regular header. Some headers take in the rest of the
frame (`Header.takesRest`); nothing may be inside them.
-/

namespace Dataplane

/-! ### What is kept of each header -/

theorem Block.byte_set_of_apart {n : Nat} {s : Slot n} {i : Nat}
    (h : i < s.start ∨ s.start + s.width ≤ i) (b : Block n) (val : Bytes) :
    (b.set s val).byte i = b.byte i := by
  rw [byte, byte, List.getD_eq_getElem?_getD, List.getD_eq_getElem?_getD, getElem?_bytes_set,
    if_neg (by omega)]

namespace Ethernet

variable {e e' : Ethernet} {kind : HeaderKind}

/-- The kind tells the number of tags, if there are fewer than can be read. -/
theorem length_tags_eq (hfew : e.tags.length < maxTags) (hkind : e'.kind = e.kind) :
    e'.tags.length = e.tags.length := by
  have htwo : e.tags.length < 2 := hfew
  rw [Ethernet.kind, Ethernet.kind] at hkind
  generalize e.tags.length = n at htwo hkind ⊢
  generalize e'.tags.length = m at hkind ⊢
  rcases n with _ | _ | n
  · rcases m with _ | _ | m
    · rfl
    all_goals cases hkind
  · rcases m with _ | _ | m
    · cases hkind
    · rfl
    · cases hkind
  · omega

theorem regular_of_freshTags {tags : List (Block 4)} (h : freshTags? kind = some tags) :
    tags.length ≤ maxTags ∧ ∀ tag ∈ tags, EtherType.isTag (tag.num tagProtocolSlot) := by
  cases kind <;> cases h <;> decide

theorem regular_fresh (h : fresh kind = .ok e) : e.Regular := by
  rw [fresh] at h
  split at h
  · rename_i tags htags
    cases h
    exact ⟨(regular_of_freshTags htags).1, (regular_of_freshTags htags).2⟩
  · cases h

theorem regular_push (h : e.push kind = .ok e') : e'.Regular := by
  rw [push] at h
  split at h
  · cases h
  · split at h
    · rename_i tags htags
      cases h
      exact ⟨(regular_of_freshTags htags).1, (regular_of_freshTags htags).2⟩
    · cases h

theorem Regular.pop {done : Bool} (he : e.Regular) (h : e.pop kind = .ok (e', done)) :
    e'.Regular := by
  obtain ⟨addrs, tags, word⟩ := e
  rw [Ethernet.pop.eq_def] at h
  split at h
  · cases h
    exact he
  · rename_i tag tags' htags
    cases h
    dsimp only at htags
    subst htags
    exact ⟨Nat.le_of_succ_le he.few, (List.forall_mem_cons.mp he.tagged).2⟩
  · cases h
    exact ⟨Nat.zero_le _, by simp⟩
  · cases h

theorem Regular.rebuild (he : e.Regular) (around : Surroundings) : (e.rebuild around).Regular := by
  rw [Ethernet.rebuild]
  split <;> exact ⟨he.few, he.tagged⟩

end Ethernet

namespace LabelStack

variable {s s' : LabelStack} {kind : HeaderKind}

theorem regular_fresh : fresh.Regular := by
  show isBottom _ = true
  decide

/-- An entry that is put in front is not marked as the last. -/
theorem not_isBottom_entryWithTtl (ttl : Nat) : ¬isBottom (entryWithTtl ttl) := by
  have hzero : (Block.zero 4).num wordSlot = 0 := by decide
  have hlow : ttlBits.write 0 ttl = ttl % 256 := by simp [BitRange.write, ttlBits]
  have hnum : (entryWithTtl ttl).num wordSlot = ttl % 256 := by
    rw [entryWithTtl, Block.setBits, Block.num_setNum, hzero, hlow]
    exact Nat.mod_eq_of_lt (lt_trans (Nat.mod_lt _ (by decide)) (by decide))
  have hread : bottomBits.read (ttl % 256) = 0 := by
    have hlt : ttl % 256 < 2 ^ bottomBits.pos := Nat.mod_lt ttl (by decide)
    rw [BitRange.read, Nat.shiftRight_eq_div_pow, Nat.div_eq_of_lt hlt, Nat.zero_mod]
  simp [isBottom, Block.bits, hnum, hread]

theorem Regular.ne_nil (hs : s.Regular) : s.entries ≠ [] := by
  intro hnil
  rw [Regular, hnil] at hs
  exact hs

theorem Regular.push (hs : s.Regular) (h : s.push kind = .ok s') : s'.Regular := by
  rw [LabelStack.push] at h
  split at h
  · cases h
    exact (bottomed_cons hs.ne_nil).mpr ⟨not_isBottom_entryWithTtl _, hs⟩
  · cases h

theorem Regular.pop (hs : s.Regular) (h : s.pop kind = .ok (s', false)) : s'.Regular := by
  rw [LabelStack.pop] at h
  split at h
  · simp only [Except.ok.injEq, Prod.mk.injEq, List.isEmpty_eq_false_iff] at h
    obtain ⟨rfl, hne⟩ := h
    obtain ⟨entry, entries, hentries⟩ := List.exists_cons_of_ne_nil hs.ne_nil
    rw [Regular, hentries] at hs
    rw [hentries, List.tail_cons] at hne
    show Bottomed s.entries.tail
    rw [hentries, List.tail_cons]
    exact ((bottomed_cons hne).mp hs).2
  · cases h

end LabelStack

theorem Tcp.Regular.rebuild {h : Tcp} (hr : h.Regular) (around : Surroundings) (dirty : Bool) :
    (h.rebuild around dirty).Regular := by
  rw [Tcp.rebuild]
  split
  · exact hr
  · show (Block.byte _ 12).toNat / 16 * 4 = h.wireLen
    rw [Block.byte_set_of_apart (by decide), Block.setNum, Block.byte_set_of_apart (by decide)]
    exact hr

namespace Icmp6

variable {h : Icmp6}

@[simp] theorem type_rebuild (h : Icmp6) (around : Surroundings) (dirty : Bool) :
    (h.rebuild around dirty).type = h.type := by
  rw [rebuild]
  split
  · rfl
  · show Block.byte _ 0 = _
    rw [Block.byte_set_of_apart (by decide), Block.setNum, Block.byte_set_of_apart (by decide)]
    rfl

theorem parts_rebuild (h : Icmp6) (around : Surroundings) (dirty : Bool) :
    (h.rebuild around dirty).body = h.body ∧ (h.rebuild around dirty).options = h.options := by
  rw [rebuild]
  split <;> exact ⟨rfl, rfl⟩

@[simp] theorem isNeighborDiscovery_rebuild (h : Icmp6) (around : Surroundings) (dirty : Bool) :
    (h.rebuild around dirty).isNeighborDiscovery = h.isNeighborDiscovery := by
  rw [isNeighborDiscovery, type_rebuild, isNeighborDiscovery]

theorem Regular.rebuild (hr : h.Regular) (around : Surroundings) (dirty : Bool) :
    (h.rebuild around dirty).Regular := by
  obtain ⟨hbody, hoptions⟩ := h.parts_rebuild around dirty
  refine ⟨?_, ?_, fun hplain => ?_⟩
  · rw [hbody, type_rebuild, hr.body]
  · rw [hoptions]
    exact hr.options
  · rw [isNeighborDiscovery_rebuild] at hplain
    rw [hoptions, hr.plain hplain]

theorem regular_fresh : fresh.Regular := by
  exact ⟨by decide, List.forall_mem_nil _, fun _ => rfl⟩

end Icmp6

/-! ### Any header -/

namespace Header

/-- What the header writes about its own length and kind is true, and a chain can be told what
follows each of its headers. -/
def Regular : Header → Prop
  | ethernet e => e.Regular
  | ip c => c.Regular
  | arp h => Arp.fault? h.base = none
  | mpls s => s.Regular
  | tcp h => h.Regular
  | icmp6 h => h.Regular
  | metadata _ | udp _ | icmp4 _ | payload _ => True

/-- Does the header take in the rest of the frame? -/
def takesRest : Header → Bool
  | icmp6 h => h.isNeighborDiscovery
  | payload _ => true
  | _ => false

/-- The header is read back where `inner` stands inside it. -/
def Legible (h : Header) (inner : Bytes) : Prop :=
  (h.takesRest → inner = []) ∧
    match h with
    | metadata _ => False
    | ip c => c.Legible inner.length
    | h => h.Regular

/-- The length of the first header of a chain can claim `innerLen` bytes behind the chain. -/
def Fits (h : Header) (innerLen : Nat) : Prop :=
  match h with
  | ip c => c.Fits innerLen
  | _ => True

instance (h : Header) (innerLen : Nat) : Decidable (h.Fits innerLen) :=
  match h with
  | ip c => inferInstanceAs (Decidable (c.Fits innerLen))
  | metadata _ | ethernet _ | arp _ | mpls _ | tcp _ | udp _ | icmp4 _ | icmp6 _ | payload _ =>
    inferInstanceAs (Decidable True)

/-- The kind of what follows the header, as far as the header says. -/
def next : Header → HeaderKind
  | ethernet e => e.nextKind
  | ip c => c.next
  | metadata _ | payload _ => .none
  | arp _ | mpls _ | tcp _ | udp _ | icmp4 _ | icmp6 _ => .payload

/-- The header as a reader gives it, which has not seen the addresses that a checksum covers. -/
def bare : Header → Header
  | tcp h => tcp { h with pseudo := .unseen }
  | udp h => udp { h with pseudo := .unseen }
  | icmp6 h => icmp6 { h with pseudo := .unseen }
  | h => h

/-- A reader that looks for a header of the given kind finds the header. Ethernet headers are told
apart by their tags, so any Ethernet kind will do, but the type may not pass for a tag. -/
def FoundAs (h : Header) (kind : HeaderKind) : Prop :=
  match h with
  | ethernet e => kind.group? = some .l2 ∧ e.Closed
  | metadata _ => False
  | h => h.stack.head? = some kind

instance (h : Header) (kind : HeaderKind) : Decidable (h.FoundAs kind) :=
  match h with
  | ethernet e => inferInstanceAs (Decidable (kind.group? = some .l2 ∧ e.Closed))
  | metadata _ => inferInstanceAs (Decidable False)
  | ip c => inferInstanceAs (Decidable ((ip c).stack.head? = some kind))
  | arp h => inferInstanceAs (Decidable ((arp h).stack.head? = some kind))
  | mpls s => inferInstanceAs (Decidable ((mpls s).stack.head? = some kind))
  | tcp h => inferInstanceAs (Decidable ((tcp h).stack.head? = some kind))
  | udp h => inferInstanceAs (Decidable ((udp h).stack.head? = some kind))
  | icmp4 h => inferInstanceAs (Decidable ((icmp4 h).stack.head? = some kind))
  | icmp6 h => inferInstanceAs (Decidable ((icmp6 h).stack.head? = some kind))
  | payload b => inferInstanceAs (Decidable ((payload b).stack.head? = some kind))

variable {h h' : Header} {kind next : HeaderKind} {f f' : Frame} {inner : Bytes}

@[simp] theorem attach_bare (h : Header) (around : Surroundings) :
    h.bare.attach around = h.attach around := by cases h <;> rfl

/-! #### What is read and made -/

theorem Regular.stack_ne_nil (hr : h.Regular) : h.stack ≠ [] := by
  cases h with
  | ip c =>
    have hne : c.headers ≠ [] := IpChain.Regular.nonempty hr
    simpa [stack] using hne
  | mpls s =>
    have hne : s.entries ≠ [] := LabelStack.Regular.ne_nil hr
    simpa [stack] using hne
  | _ => exact List.cons_ne_nil _ _

/-- What is read is regular; what takes in the rest of the frame leaves nothing. -/
theorem regular_of_read (e : read kind f = .ok (h, next, f')) :
    h.Regular ∧ (h.takesRest → f'.unread = []) := by
  cases kind with
  | none | sixToFourAuto | sixToFourSecure => cases e
  | metadata =>
    cases e
    exact ⟨trivial, fun hrest => by cases hrest⟩
  | payload =>
    cases e
    exact ⟨trivial, fun _ => rfl⟩
  | eth | ethVlan | ethStacked =>
    obtain ⟨⟨eth, f₁⟩, h₁, e⟩ := bind_eq_ok_iff.mp e
    cases e
    exact ⟨(Ethernet.regular_of_read (ofRead_eq_ok_iff.mp h₁)).1, fun hrest => by cases hrest⟩
  | ip4 | ip6 | gre =>
    obtain ⟨⟨c, next', f₁⟩, h₁, e⟩ := bind_eq_ok_iff.mp e
    cases e
    exact ⟨IpChain.regular_of_read h₁, fun hrest => by cases hrest⟩
  | arp =>
    obtain ⟨⟨a, f₁⟩, h₁, e⟩ := bind_eq_ok_iff.mp e
    cases e
    exact ⟨Arp.fault_of_read h₁, fun hrest => by cases hrest⟩
  | mpls =>
    obtain ⟨⟨s, f₁⟩, h₁, e⟩ := bind_eq_ok_iff.mp e
    cases e
    exact ⟨LabelStack.regular_of_read (ofRead_eq_ok_iff.mp h₁), fun hrest => by cases hrest⟩
  | tcp =>
    obtain ⟨⟨t, f₁⟩, h₁, e⟩ := bind_eq_ok_iff.mp e
    cases e
    exact ⟨Tcp.regular_of_read h₁, fun hrest => by cases hrest⟩
  | udp | icmp4 =>
    obtain ⟨⟨u, f₁⟩, -, e⟩ := bind_eq_ok_iff.mp e
    cases e
    exact ⟨trivial, fun hrest => by cases hrest⟩
  | icmp6 =>
    obtain ⟨⟨i, f₁⟩, h₁, e⟩ := bind_eq_ok_iff.mp e
    cases e
    exact ⟨Icmp6.regular_of_read h₁, Icmp6.unread_of_read h₁⟩

/-- A chain that was looked for as one that starts with GRE has no trailer. -/
theorem trailer_of_read_gre (e : read .gre f = .ok (h, next, f')) : h.trailer = [] := by
  obtain ⟨⟨c, next', f₁⟩, h₁, e⟩ := bind_eq_ok_iff.mp e
  cases e
  exact IpChain.trailer_of_read_gre h₁

theorem regular_fresh (e : fresh kind = .ok h) :
    h.Regular ∧ h.takesRest = false ∧ h.trailer = [] := by
  cases kind <;> simp only [fresh, map_eq_ok_iff, Except.ok.injEq, reduceCtorEq] at e
  case eth | ethVlan | ethStacked =>
    obtain ⟨eth, he, rfl⟩ := e
    exact ⟨Ethernet.regular_fresh he, rfl, rfl⟩
  case ip4 | ip6 =>
    obtain ⟨c, hc, rfl⟩ := e
    refine ⟨IpChain.regular_fresh hc, rfl, ?_⟩
    cases hc
    rfl
  case mpls =>
    subst e
    exact ⟨LabelStack.regular_fresh, rfl, rfl⟩
  case tcp =>
    subst e
    exact ⟨show (Tcp.fresh.base.byte 12).toNat / 16 * 4 = _ by decide, rfl, rfl⟩
  case udp | icmp4 =>
    subst e
    exact ⟨trivial, rfl, rfl⟩
  case icmp6 =>
    subst e
    exact ⟨Icmp6.regular_fresh, by decide, rfl⟩

/-! #### What changes keep -/

theorem Regular.attach (hr : h.Regular) (around : Surroundings) : (h.attach around).Regular := by
  cases h with
  | icmp6 i => exact ⟨hr.body, hr.options, hr.plain⟩
  | _ => exact hr

@[simp] theorem takesRest_attach (h : Header) (around : Surroundings) :
    (h.attach around).takesRest = h.takesRest := by cases h <;> rfl

/-- Adding a header to a stack changes neither what it takes in nor what is behind it. -/
theorem Regular.push (hr : h.Regular) (e : h.push kind = .ok h') :
    h'.Regular ∧ h'.takesRest = false ∧ h'.trailer = h.trailer := by
  cases h with
  | ethernet eth =>
    obtain ⟨eth', he, rfl⟩ := map_eq_ok_iff.mp e
    exact ⟨Ethernet.regular_push he, rfl, rfl⟩
  | ip c =>
    obtain ⟨c', hc, rfl⟩ := map_eq_ok_iff.mp e
    refine ⟨IpChain.Regular.push hr hc, rfl, ?_⟩
    obtain ⟨_, -, rfl⟩ := map_eq_ok_iff.mp hc
    rfl
  | mpls s =>
    obtain ⟨s', hs, rfl⟩ := map_eq_ok_iff.mp e
    exact ⟨LabelStack.Regular.push hr hs, rfl, rfl⟩
  | _ => cases e

/-- Removing a header from a stack that keeps others likewise. -/
theorem Regular.pop (hr : h.Regular) (e : h.pop kind = .ok (h', false)) :
    h'.Regular ∧ h'.takesRest = false ∧ h'.trailer = h.trailer := by
  cases h with
  | ethernet eth =>
    obtain ⟨⟨eth', done⟩, he, hdone⟩ := map_eq_ok_iff.mp e
    cases hdone
    exact ⟨Ethernet.Regular.pop hr he, rfl, rfl⟩
  | ip c =>
    obtain ⟨⟨c', done⟩, hc, hdone⟩ := map_eq_ok_iff.mp e
    cases hdone
    refine ⟨IpChain.Regular.pop hr hc, rfl, ?_⟩
    obtain ⟨-, -, hc⟩ := bind_eq_ok_iff.mp hc
    have hchain : IpChain.mk c.headers.tail c.trailer = c' := congrArg Prod.fst (Except.ok.inj hc)
    rw [← hchain]
    rfl
  | mpls s =>
    obtain ⟨⟨s', done⟩, hs, hdone⟩ := map_eq_ok_iff.mp e
    cases hdone
    exact ⟨LabelStack.Regular.pop hr hs, rfl, rfl⟩
  | _ =>
    rw [Header.pop, popSole] at e
    · split at e <;> cases e
    all_goals simp

theorem Regular.rebuild {around : Surroundings} (hr : h.Regular)
    (hinner : h.group = .l3 → ∀ k ∈ around.innerKind, ¬k.Chained) (dirty : Bool) :
    (h.rebuild around dirty).Regular := by
  cases h with
  | ethernet e => exact Ethernet.Regular.rebuild hr around
  | ip c => exact IpChain.Regular.rebuild hr (hinner rfl) dirty
  | tcp t => exact Tcp.Regular.rebuild hr around dirty
  | icmp6 i => exact Icmp6.Regular.rebuild hr around dirty
  | _ => exact hr

@[simp] theorem takesRest_rebuild (h : Header) (around : Surroundings) (dirty : Bool) :
    (h.rebuild around dirty).takesRest = h.takesRest := by
  cases h with
  | icmp6 i => exact i.isNeighborDiscovery_rebuild around dirty
  | _ => rfl

@[simp] theorem trailer_rebuild (h : Header) (around : Surroundings) (dirty : Bool) :
    (h.rebuild around dirty).trailer = h.trailer := by cases h <;> rfl

/-- Rebuilding makes a regular header legible, if the lengths have room for what is inside. -/
theorem Regular.legible_rebuild {around : Surroundings} (hr : h.Regular) (hg : h.group ≠ .packet)
    (hinner : h.group = .l3 → ∀ k ∈ around.innerKind, ¬k.Chained)
    (hrest : h.takesRest → around.inner = []) (hfits : h.Fits around.innerLen) (dirty : Bool) :
    (h.rebuild around dirty).Legible around.inner := by
  refine ⟨fun h => hrest (by rwa [takesRest_rebuild] at h), ?_⟩
  cases h with
  | metadata m => exact absurd rfl hg
  | ip c => exact IpChain.Regular.legible_rebuild hr (hinner rfl) hfits dirty
  | ethernet e => exact Ethernet.Regular.rebuild hr around
  | tcp t => exact Tcp.Regular.rebuild hr around dirty
  | icmp6 i => exact Icmp6.Regular.rebuild hr around dirty
  | _ => exact hr

/-! #### Reading back -/

theorem group_of_foundAs (hk : h.FoundAs kind) : kind.group? = some h.group := by
  cases h with
  | metadata m => exact hk.elim
  | ethernet e => exact hk.1
  | _ => exact group_of_mem_stack (List.mem_of_mem_head? hk)

/-- GRE is named inside a chain only, where it belongs to the chain. -/
theorem next_ne_gre (hl : h.Legible inner) : h.next ≠ .gre := by
  cases h with
  | ethernet e =>
    show EtherType.kind _ ≠ .gre
    unfold EtherType.kind
    split_ifs <;> decide
  | ip c =>
    rw [next, IpChain.next]
    cases hlast : c.headers.getLast? with
    | none => decide
    | some last => exact fun heq => IpChain.Legible.ended hl.2 last hlast (.inr (.inr heq))
  | _ => simp [next]

/-- A legible header that is looked for as what it is, is read back. -/
theorem read_of_unread (hl : h.Legible inner) (hk : h.FoundAs kind)
    (htrailer : kind = .gre → h.trailer = []) (hf : f.unread = h.emit ++ inner ++ h.trailer) :
    ∃ f', read kind f = .ok (h.bare, h.next, f') ∧ f'.unread = inner := by
  obtain ⟨hrest, hl⟩ := hl
  have hplain (htr : h.trailer = []) : f.unread = h.emit ++ inner := by
    rwa [htr, List.append_nil] at hf
  cases h with
  | metadata m => exact hk.elim
  | ethernet e =>
    obtain ⟨hgroup, hclosed⟩ := hk
    obtain ⟨f', h', hf'⟩ := Ethernet.takes_read hl hclosed f inner (hplain rfl)
    refine ⟨f', ?_, hf'⟩
    cases kind with
    | eth | ethVlan | ethStacked => exact bind_eq_ok_iff.mpr ⟨_, ofRead_eq_ok_iff.mpr h', rfl⟩
    | _ => cases hgroup
  | ip c =>
    have hkind : c.outermost = kind := by
      have hhead : c.headers.head?.map (·.kind) = some kind := List.head?_map.symm.trans hk
      rw [IpChain.outermost, hhead]
      rfl
    subst hkind
    obtain ⟨f', h', hf'⟩ := IpChain.read_of_unread hl htrailer hf
    refine ⟨f', ?_, hf'⟩
    obtain ⟨v, -, hv⟩ := Option.map_eq_some_iff.mp (List.head?_map.symm.trans hk)
    rw [← hv] at h' ⊢
    cases v <;> exact bind_eq_ok_iff.mpr ⟨_, h', rfl⟩
  | arp a =>
    cases hk
    obtain ⟨f', h', hf'⟩ := Arp.takes_read hl f inner (hplain rfl)
    exact ⟨f', bind_eq_ok_iff.mpr ⟨_, h', rfl⟩, hf'⟩
  | mpls s =>
    have hkind : kind = .mpls := by
      obtain ⟨_, -, hv⟩ := Option.map_eq_some_iff.mp (List.head?_map.symm.trans hk)
      exact hv.symm
    subst hkind
    obtain ⟨f', h', hf'⟩ := LabelStack.takes_read hl f inner (hplain rfl)
    exact ⟨f', bind_eq_ok_iff.mpr ⟨_, ofRead_eq_ok_iff.mpr h', rfl⟩, hf'⟩
  | tcp t =>
    cases hk
    obtain ⟨f', h', hf'⟩ := Tcp.takes_read hl f inner (hplain rfl)
    exact ⟨f', bind_eq_ok_iff.mpr ⟨_, h', rfl⟩, hf'⟩
  | udp u =>
    cases hk
    obtain ⟨f', h', hf'⟩ := Udp.takes_read u f inner (hplain rfl)
    exact ⟨f', bind_eq_ok_iff.mpr ⟨_, h', rfl⟩, hf'⟩
  | icmp4 i =>
    cases hk
    obtain ⟨f', h', hf'⟩ := Icmp4.takes_read i f inner (hplain rfl)
    exact ⟨f', bind_eq_ok_iff.mpr ⟨_, h', rfl⟩, hf'⟩
  | icmp6 i =>
    cases hk
    obtain ⟨f', h', hf'⟩ := Icmp6.read_of_unread hl (hplain rfl) hrest
    exact ⟨f', bind_eq_ok_iff.mpr ⟨_, h', rfl⟩, hf'⟩
  | payload b =>
    cases hk
    obtain rfl := hrest rfl
    have hunread : f.unread = b := (hplain rfl).trans (List.append_nil b)
    refine ⟨f.readRest.2, ?_, rfl⟩
    show Except.ok (payload f.unread, _, _) = _
    rw [hunread]
    rfl

theorem head?_kinds (h : Header) : h.kinds.head? = h.stack.head? := by
  rw [kinds]
  cases h.stack <;> rfl

/-- Only Ethernet headers are found that do not start as was looked for. -/
theorem head?_stack_of_read {g : HeaderGroup} (hg : kind.group? = some g) (hl2 : g ≠ .l2)
    (e : read kind f = .ok (h, next, f')) : h.stack.head? = some kind := by
  cases kind with
  | ip4 | ip6 | gre =>
    obtain ⟨⟨c, next', f₁⟩, hc, e⟩ := bind_eq_ok_iff.mp e
    cases e
    obtain ⟨⟨v, f₂⟩, hv, hc⟩ := bind_eq_ok_iff.mp hc
    obtain ⟨_, -, hc⟩ := bind_eq_ok_iff.mp hc
    obtain ⟨_, -, hc⟩ := bind_eq_ok_iff.mp hc
    cases hc
    exact congrArg some (IpHeader.regular_of_read hv).2
  | mpls =>
    obtain ⟨⟨s, f₁⟩, hs, e⟩ := bind_eq_ok_iff.mp e
    cases e
    have hregular := LabelStack.regular_of_read (ofRead_eq_ok_iff.mp hs)
    obtain ⟨entry, entries, hentries⟩ := List.exists_cons_of_ne_nil hregular.ne_nil
    rw [stack, hentries]
    rfl
  | eth | ethVlan | ethStacked =>
    cases hg
    exact absurd rfl hl2
  | none | sixToFourAuto | sixToFourSecure => cases e
  | payload | metadata =>
    cases e
    rfl
  | arp | tcp | udp | icmp4 | icmp6 =>
    obtain ⟨_, -, e⟩ := bind_eq_ok_iff.mp e
    cases e
    rfl

/-- Where another header is found than the one that is there, it shows other kinds. -/
theorem foundAs_of_read (hg : kind.group? = some h.group) (hp : h.group ≠ .packet)
    (e : read kind f = .ok (h', next, f')) (hf : f.unread = h.emit ++ inner ++ h.trailer)
    (hkinds : h'.kinds = h.kinds) : h.FoundAs kind := by
  have hhead : h'.stack.head? = h.stack.head? := by rw [← head?_kinds, hkinds, head?_kinds]
  cases h with
  | metadata m => exact absurd rfl hp
  | ethernet x =>
    refine ⟨hg, fun hfew => ?_⟩
    have hread : ∃ y, h' = ethernet y ∧ Ethernet.read f = .ok (y, f') := by
      cases kind with
      | eth | ethVlan | ethStacked =>
        obtain ⟨⟨y, f₁⟩, h₁, e⟩ := bind_eq_ok_iff.mp e
        cases e
        exact ⟨y, rfl, ofRead_eq_ok_iff.mp h₁⟩
      | _ => cases hg
    obtain ⟨y, rfl, hread⟩ := hread
    -- There are as many tags in both, so the types stand at the same place.
    have hkind : y.kind = x.kind := Option.some.inj hhead
    have htags : y.tags.length = x.tags.length := Ethernet.length_tags_eq hfew hkind
    have hbytes : y.emit ++ f'.unread = x.emit ++ inner := by
      have hframe : f.unread = x.emit ++ inner := hf.trans (List.append_nil _)
      rw [← hframe]
      exact (Ethernet.reads_of_read hread).symm
    have hemit := (List.append_inj hbytes (by
      rw [Ethernet.length_emit, Ethernet.length_emit, Ethernet.wireLen, Ethernet.wireLen,
        htags])).1
    have hword : y.typeWord = x.typeWord :=
      Block.ext (List.append_inj' hemit (by rw [y.typeWord.length_eq, x.typeWord.length_eq])).2
    have hclosed := (Ethernet.regular_of_read hread).2
    rw [Ethernet.Closed, Ethernet.etherType, hword] at hclosed
    exact hclosed (htags ▸ hfew)
  | ip _ | arp _ | mpls _ | tcp _ | udp _ | icmp4 _ | icmp6 _ | payload _ =>
    exact hhead.symm.trans (head?_stack_of_read hg (by simp [group]) e)

end Header

end Dataplane

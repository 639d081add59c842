import Dataplane.Proofs.Fields.Headers
import Dataplane.Proofs.Header.Legible
import Dataplane.Proofs.Packet.Reached

/-!
# Headers that say where they end

A label stack, a GRE header and a TCP header tell their own length: by a bit of the last entry, by
three flags, by a number of words. These bits stand among others that operations change, and what
they count changes too. Whatever is done to a header that was read or made fresh, it goes on telling
its length truly, and so its bytes are read back from any frame they stand in, up to where they end
and no further (`Header.Made.extents`).

## The model

`Header.Made` are the headers that are read or made fresh and what operations make of them, one
header at a time and in any order; every header of a packet reached is one (`Packet.Reached.made`).
A stack whose last entry has been removed is at its end: it has no bytes to be read, and an entry
that is put on it again is not marked as the last. Removing that entry is left out here.

`Header.Delimited` is the invariant, and there is one lemma for what each operation keeps of it.
-/

namespace Dataplane

/-! ### What operations keep -/

/-- Bits of a slot that lie apart from those that are written stay. -/
theorem Block.bits_setBits_of_apart {n : Nat} {s : Slot n} {r r' : BitRange}
    (hfits : r'.pos + r'.count ≤ 8 * s.width)
    (h : r.pos + r.count ≤ r'.pos ∨ r'.pos + r'.count ≤ r.pos) (b : Block n) (val : Nat) :
    (b.setBits s r val).bits s r' = b.bits s r' := by
  have hpow : 256 ^ s.width = 2 ^ (8 * s.width) := by rw [pow_mul]; rfl
  apply Nat.eq_of_testBit_eq
  intro i
  rw [bits, bits, setBits, num_setNum, hpow, BitRange.testBit_read, BitRange.testBit_read]
  by_cases hi : i < r'.count
  · have hin : r'.pos + i < 8 * s.width := by omega
    have hout : ¬(r.pos ≤ r'.pos + i ∧ r'.pos + i < r.pos + r.count) := by omega
    rw [Nat.testBit_mod_two_pow, BitRange.testBit_write, if_neg hout]
    simp [hin]
  · simp [hi]

namespace LabelStack

variable {s s' : LabelStack} {num : FieldNum} {inst : Instance} {op : FieldOp} {arg : Bytes}

/-- No field holds the bit that marks the last entry. -/
theorem isBottom_updateBits {r : BitRange} {width : Nat} (h : field? num = some (r, width))
    (entry : Block 4) :
    isBottom (entry.updateBits wordSlot r width op arg) = isBottom entry := by
  have hapart : r.pos + r.count ≤ bottomBits.pos ∨ bottomBits.pos + bottomBits.count ≤ r.pos := by
    cases num <;> cases h <;> decide
  rw [isBottom, isBottom, Block.updateBits, Block.bits_setBits_of_apart (by decide) hapart]

/-- The marks of a stack, outermost entry first. -/
theorem bottomed_iff {entries : List (Block 4)} :
    Bottomed entries ↔
      entries.map isBottom = List.replicate (entries.length - 1) false ++ [true] := by
  induction entries with
  | nil => exact iff_of_false id (by simp)
  | cons entry entries ih =>
    cases entries with
    | nil => simp [Bottomed]
    | cons entry' entries =>
      rw [bottomed_cons (List.cons_ne_nil _ _), ih, Bool.not_eq_true]
      simp only [List.map_cons, List.length_cons, Nat.add_sub_cancel, List.replicate_succ,
        List.cons_append, List.cons.injEq]

/-- Stacks whose entries are marked alike. -/
theorem bottomed_congr {entries entries' : List (Block 4)}
    (h : entries'.map isBottom = entries.map isBottom) : Bottomed entries' ↔ Bottomed entries := by
  have hlen : entries'.length = entries.length := by simpa using congrArg List.length h
  rw [bottomed_iff, bottomed_iff, h, hlen]

theorem Regular.update (hs : s.Regular) (e : s.update? num inst op arg = some s') : s'.Regular := by
  obtain ⟨⟨r, width⟩, hfield, e⟩ := Option.bind_eq_some_iff.mp e
  obtain ⟨i, -, e⟩ := Option.bind_eq_some_iff.mp e
  cases e
  refine (bottomed_congr ?_).mpr hs
  apply List.ext_getElem?
  intro j
  rw [List.getElem?_map, List.getElem?_map, List.getElem?_modify]
  cases s.entries[j]? with
  | none => rfl
  | some entry =>
    simp only [Option.map_eq_map, Option.map_some]
    split
    · rw [isBottom_updateBits hfield]
    · rfl

theorem regular_of_reload {b : Bytes} (e : s.reload? b = some s') : s'.Regular := by
  rw [reload?] at e
  split at e
  · rename_i hread
    obtain ⟨-, ⟨⟩⟩ := Option.ite_none_right_eq_some.mp e
    exact regular_of_read hread
  · cases e

/-- A pop says whether it has left nothing. -/
theorem eq_nil_iff_of_pop {kind : HeaderKind} {done : Bool} (e : s.pop kind = .ok (s', done)) :
    s' = ⟨[]⟩ ↔ done := by
  rw [pop] at e
  split at e
  · cases e
    rw [LabelStack.mk.injEq, List.isEmpty_iff]
  · cases e

end LabelStack

namespace Tcp

variable {h h' : Tcp} {num : FieldNum} {op : FieldOp} {arg : Bytes}

/-- No field holds the number of words. -/
theorem Regular.update (hr : h.Regular) (e : h.update? num op arg = some h') : h'.Regular := by
  obtain ⟨s, hs, rfl⟩ := Option.map_eq_some_iff.mp e
  have hapart : 12 < s.start ∨ s.start + s.width ≤ 12 := by
    cases num <;> cases hs <;> decide
  show (Block.byte _ 12).toNat / 16 * 4 = h.wireLen
  rw [Block.update, Block.byte_set_of_apart hapart]
  exact hr

theorem regular_of_reload {b : Bytes} (e : h.reload? b = some h') : h'.Regular := by
  rw [reload?] at e
  split at e
  · rename_i hread
    obtain ⟨-, ⟨⟩⟩ := Option.ite_none_right_eq_some.mp e
    have hregular := regular_of_read hread
    exact hregular
  · cases e

end Tcp

/-- The flags of the optional words leave the version zero. -/
theorem Gre.Flagged.regular {h : Gre} (hf : h.Flagged) : h.Regular := by
  refine ⟨?_, hf⟩
  rw [hf.known, flags]
  have hlow : (checksumFlag ||| keyFlag ||| seqFlag) % 2 ^ 3 = 0 := by decide
  rw [show 8 = 2 ^ 3 from rfl, Nat.and_mod_two_pow, hlow, Nat.and_zero]

namespace Header

/-! ### The invariant -/

/-- What a header tells of its own length is true. -/
def Delimited : Header → Prop
  | ip c => ∀ h ∈ c.headers, h.Flagged
  | mpls s => s.Regular
  | tcp h => h.Regular
  | metadata _ | ethernet _ | arp _ | udp _ | icmp4 _ | icmp6 _ | payload _ => True

variable {h h' : Header} {kind next : HeaderKind} {f f' : Frame}

theorem delimited_of_read (e : read kind f = .ok (h, next, f')) : h.Delimited := by
  have hregular := (regular_of_read e).1
  cases h with
  | ip c => exact flagged_ip.mp (flagged_of_read e)
  | mpls s => exact hregular
  | tcp t => exact hregular
  | _ => trivial

theorem delimited_fresh (e : fresh kind = .ok h) : h.Delimited := by
  have hregular := (regular_fresh e).1
  cases h with
  | ip c => exact flagged_ip.mp (flagged_fresh e)
  | mpls s => exact hregular
  | tcp t => exact hregular
  | _ => trivial

theorem Delimited.attach (hd : h.Delimited) (around : Surroundings) :
    (h.attach around).Delimited := by
  cases h <;> exact hd

theorem Delimited.update (hd : h.Delimited) {num : FieldNum} {inst : Instance} {op : FieldOp}
    {arg : Bytes} {dirty : Bool} (e : h.update num inst op arg = .ok (h', dirty)) :
    h'.Delimited := by
  cases h with
  | ip c =>
    have hflagged := (flagged_ip.mpr hd).update e
    obtain ⟨_, -, e⟩ := map_eq_ok_iff.mp e
    cases e
    exact flagged_ip.mp hflagged
  | mpls s =>
    obtain ⟨s', hs, e⟩ := map_eq_ok_iff.mp e
    cases e
    exact LabelStack.Regular.update hd (orAbsent_eq_ok_iff.mp hs)
  | tcp t =>
    obtain ⟨t', ht, e⟩ := map_eq_ok_iff.mp e
    cases e
    obtain ⟨-, ht⟩ := Option.ite_none_right_eq_some.mp (orAbsent_eq_ok_iff.mp ht)
    exact Tcp.Regular.update hd ht
  | payload b => cases e
  | metadata _ | ethernet _ | arp _ | udp _ | icmp4 _ | icmp6 _ =>
    obtain ⟨_, -, e⟩ := map_eq_ok_iff.mp e
    cases e
    trivial

/-- What is overwritten is read as a header once more. -/
theorem delimited_of_writeRaw {start : Nat} {val : Bytes} (e : h.writeRaw? start val = some h') :
    h'.Delimited := by
  obtain ⟨b, -, e⟩ := Option.bind_eq_some_iff.mp e
  cases h with
  | ip c =>
    have hflagged := flagged_of_reload e
    obtain ⟨_, -, rfl⟩ := Option.map_eq_some_iff.mp e
    exact flagged_ip.mp hflagged
  | mpls s =>
    obtain ⟨s', hs, rfl⟩ := Option.map_eq_some_iff.mp e
    exact LabelStack.regular_of_reload hs
  | tcp t =>
    obtain ⟨t', ht, rfl⟩ := Option.map_eq_some_iff.mp e
    exact Tcp.regular_of_reload ht
  | metadata _ | payload _ =>
    obtain ⟨-, ⟨⟩⟩ := Option.ite_none_right_eq_some.mp e
    trivial
  | ethernet _ | arp _ | udp _ | icmp4 _ | icmp6 _ =>
    obtain ⟨_, -, rfl⟩ := Option.map_eq_some_iff.mp e
    trivial

theorem Delimited.push (hd : h.Delimited) (e : h.push kind = .ok h') : h'.Delimited := by
  cases h with
  | ip c =>
    have hflagged := (flagged_ip.mpr hd).push e
    obtain ⟨_, -, rfl⟩ := map_eq_ok_iff.mp e
    exact flagged_ip.mp hflagged
  | mpls s =>
    obtain ⟨s', hs, rfl⟩ := map_eq_ok_iff.mp e
    exact LabelStack.Regular.push hd hs
  | ethernet _ =>
    obtain ⟨_, -, rfl⟩ := map_eq_ok_iff.mp e
    trivial
  | _ => cases e

/-- A sole header that is taken off its stack is still there to be dropped. -/
theorem eq_of_popSole {done : Bool} (e : h.popSole kind = .ok (h', done)) : h' = h := by
  rw [popSole] at e
  split at e
  · cases e
    rfl
  · cases e

/-- Removing a header other than the last one of a label stack. -/
theorem Delimited.pop (hd : h.Delimited) {done : Bool} (e : h.pop kind = .ok (h', done))
    (hleft : h' ≠ mpls ⟨[]⟩) : h'.Delimited := by
  cases h with
  | ip c =>
    have hflagged := (flagged_ip.mpr hd).pop e
    obtain ⟨_, -, e⟩ := map_eq_ok_iff.mp e
    cases e
    exact flagged_ip.mp hflagged
  | mpls s =>
    obtain ⟨⟨s', done'⟩, hs, e⟩ := map_eq_ok_iff.mp e
    cases e
    cases done with
    | false => exact LabelStack.Regular.pop hd hs
    | true => exact absurd (congrArg mpls (LabelStack.eq_nil_iff_of_pop hs |>.mpr rfl)) hleft
  | ethernet _ =>
    obtain ⟨_, -, e⟩ := map_eq_ok_iff.mp e
    cases e
    trivial
  | tcp t =>
    rw [eq_of_popSole e]
    exact hd
  | metadata _ | arp _ | udp _ | icmp4 _ | icmp6 _ | payload _ =>
    rw [eq_of_popSole e]
    trivial

/-- What a pop leaves on a stack is not a stack without labels. -/
theorem ne_nil_of_pop (e : h.pop kind = .ok (h', false)) : h' ≠ mpls ⟨[]⟩ := by
  rintro rfl
  cases h with
  | mpls s =>
    obtain ⟨⟨s', done⟩, hs, e⟩ := map_eq_ok_iff.mp e
    cases e
    exact absurd ((LabelStack.eq_nil_iff_of_pop hs).mp rfl) Bool.false_ne_true
  | ethernet _ | ip _ =>
    obtain ⟨_, -, e⟩ := map_eq_ok_iff.mp e
    cases e
  | _ => cases eq_of_popSole e

theorem Delimited.rebuild (hd : h.Delimited) (around : Surroundings) (dirty : Bool) :
    (h.rebuild around dirty).Delimited := by
  cases h with
  | ip c => exact flagged_ip.mp ((flagged_ip.mpr hd).rebuild around dirty)
  | mpls s => exact hd
  | tcp t => exact Tcp.Regular.rebuild hd around dirty
  | _ => trivial

/-! ### The headers that operations make -/

/-- The headers that are read or made fresh, and what operations make of them. -/
inductive Made : Header → Prop
  /-- A header is read. -/
  | read {kind next : HeaderKind} {f f' : Frame} {h : Header}
      (e : Header.read kind f = .ok (h, next, f')) : Made h
  /-- A header is made fresh. -/
  | fresh {kind : HeaderKind} {h : Header} (e : Header.fresh kind = .ok h) : Made h
  /-- A header has its first look at the packet. -/
  | attach {h : Header} (hm : Made h) (around : Surroundings) : Made (h.attach around)
  /-- A field is updated. -/
  | update {h h' : Header} {num : FieldNum} {inst : Instance} {op : FieldOp} {arg : Bytes}
      {dirty : Bool} (hm : Made h) (e : h.update num inst op arg = .ok (h', dirty)) : Made h'
  /-- Some bytes are overwritten. -/
  | write {h h' : Header} {start : Nat} {val : Bytes} (hm : Made h)
      (e : h.writeRaw? start val = some h') : Made h'
  /-- A header is put on a stack. -/
  | push {h h' : Header} {kind : HeaderKind} (hm : Made h) (e : h.push kind = .ok h') : Made h'
  /-- A header is taken off a stack. If it was the last label, nothing is left to go on with. -/
  | pop {h h' : Header} {kind : HeaderKind} {done : Bool} (hm : Made h)
      (e : h.pop kind = .ok (h', done)) (hleft : h' ≠ mpls ⟨[]⟩) : Made h'
  /-- The derived fields are brought up to date. -/
  | rebuild {h : Header} (hm : Made h) (around : Surroundings) (dirty : Bool) :
      Made (h.rebuild around dirty)

theorem Made.delimited (hm : h.Made) : h.Delimited := by
  induction hm with
  | read e => exact delimited_of_read e
  | fresh e => exact delimited_fresh e
  | attach _ around ih => exact ih.attach around
  | update _ e ih => exact ih.update e
  | write _ e _ => exact delimited_of_writeRaw e
  | push _ e ih => exact ih.push e
  | pop _ e hleft ih => exact ih.pop e hleft
  | rebuild _ around dirty ih => exact ih.rebuild around dirty

end Header

/-! ### Reading back -/

/-- On every frame that begins with the bytes of `a`, the reader gives something that emits these
bytes, and leaves just what follows them. -/
def ReadsBack {ε α : Type} (read : Frame → Except ε (α × Frame)) (emit : α → Bytes) (a : α) :
    Prop :=
  ∀ f rest, f.unread = emit a ++ rest →
    ∃ a' f', read f = .ok (a', f') ∧ emit a' = emit a ∧ f'.unread = rest

theorem Takes.readsBack {ε α : Type} {read : Frame → Except ε (α × Frame)} {emit : α → Bytes}
    {a a' : α} (h : Takes read (emit a) a') (hemit : emit a' = emit a) :
    ReadsBack read emit a := by
  intro f rest hf
  obtain ⟨f', hread, hrest⟩ := h f rest hf
  exact ⟨a', f', hread, hemit, hrest⟩

/-- After any operations on a header that was read or made fresh, the last entry of a label stack is
the only one marked as such, the flags of a GRE header are those of the words it has, and the length
that a TCP header gives is that of the header with its options. So each of them is read back from
the bytes it emits, whatever follows them, and what follows is left. -/
theorem Header.Made.extents {h : Header} (hm : h.Made) :
    (∀ s, h = .mpls s →
      s.entries.map LabelStack.isBottom = List.replicate (s.depth - 1) false ++ [true] ∧
      ReadsBack LabelStack.read LabelStack.emit s) ∧
    (∀ c g, h = .ip c → .gre g ∈ c.headers →
      g.Flagged ∧ ReadsBack Gre.read Gre.emit g) ∧
    ∀ t, h = .tcp t → (t.base.byte 12).toNat / 16 * 4 = 20 + t.options.length ∧
      ReadsBack Tcp.read Tcp.emit t := by
  have hd := hm.delimited
  refine ⟨fun s hs => ?_, fun c g hc hg => ?_, fun t ht => ?_⟩
  · subst hs
    have hregular : s.Regular := hd
    exact ⟨LabelStack.bottomed_iff.mp hregular, (LabelStack.takes_read hregular).readsBack rfl⟩
  · subst hc
    have hflagged : g.Flagged := IpHeader.flagged_gre.mp (hd _ hg)
    exact ⟨hflagged, (Gre.takes_read hflagged.regular).readsBack rfl⟩
  · subst ht
    have hregular : t.Regular := hd
    exact ⟨hregular, (Tcp.takes_read hregular).readsBack rfl⟩

/-- Two labels, the lower one with all its bits set; GRE around an IP header, given a key; and a TCP
header with all its flags set. -/
theorem Header.Made.extents_three :
    (∃ s s', LabelStack.fresh.push .mpls = .ok s ∧
      s.update? .mplsLabel .last .set [0xFF, 0xFF, 0xFF] = some s' ∧
      ReadsBack LabelStack.read LabelStack.emit s') ∧
    (∃ c g key, IpChain.update ⟨[.gre .fresh, .v4 .fresh], []⟩ .greKey .first .set [7] =
        .ok (c, true) ∧ .gre g ∈ c.headers ∧ g.key = some key ∧ ReadsBack Gre.read Gre.emit g) ∧
    ∃ t, Tcp.fresh.update? .tcpFlags .set [0xFF] = some t ∧ ReadsBack Tcp.read Tcp.emit t := by
  refine ⟨⟨_, _, rfl, rfl, ?_⟩, ⟨_, _, _, rfl, List.mem_cons_self, rfl, ?_⟩, _, rfl, ?_⟩
  · have hpushed : Header.Made (.mpls ⟨LabelStack.entryWithTtl 64 :: LabelStack.fresh.entries⟩) :=
      .push (.fresh (show Header.fresh .mpls = .ok _ from rfl))
        (show Header.push _ .mpls = _ from rfl)
    have hlabel := Header.Made.update hpushed
      (show Header.update _ .mplsLabel .last .set [0xFF, 0xFF, 0xFF] = .ok (_, true) from rfl)
    exact (hlabel.extents.1 _ rfl).2
  · have hpushed : Header.Made (.ip ⟨[.gre .fresh, .v4 .fresh], []⟩) :=
      .push (.fresh (show Header.fresh .ip4 = .ok _ from rfl))
        (show Header.push _ .gre = _ from rfl)
    have hkey := Header.Made.update hpushed
      (show Header.update _ .greKey .first .set [7] = .ok (_, true) from rfl)
    exact (hkey.extents.2.1 _ _ rfl List.mem_cons_self).2
  · have hfresh : Header.Made (.tcp .fresh) := .fresh (show Header.fresh .tcp = .ok _ from rfl)
    have hflags := Header.Made.update hfresh
      (show Header.update _ .tcpFlags .first .set [0xFF] = .ok (_, true) from rfl)
    exact (hflags.extents.2.2 _ rfl).2

/-! ### Packets -/

namespace Packet

theorem lasting_made : Header.Lasting fun g h => g ≠ .packet → h.Made where
  read _ e := fun _ => .read e
  fresh _ e := fun _ => .fresh e
  attach _ _ around hm := fun hg => (hm hg).attach around
  rebuild _ _ around dirty hm := fun hg => (hm hg).rebuild around dirty
  update hm e := fun hg => (hm hg).update e
  write hm e := fun hg => (hm hg).write e
  push hm e := fun hg => (hm hg).push e
  pop hm e := fun hg => (hm hg).pop e (Header.ne_nil_of_pop e)

/-- Every header of a packet reached, beside the metadata, is one that operations make. -/
theorem Reached.made {p : Packet} (hp : p.Reached) {g : HeaderGroup} {e : Entry}
    (hg : g ≠ .packet) (he : p.headers.get g = some e) : e.header.Made :=
  hp.every lasting_made (fun _ _ _ h => absurd rfl h) g e he hg

end Packet

end Dataplane

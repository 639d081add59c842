import Dataplane.Proofs.Header.GreFlags
import Dataplane.Proofs.Header.Reading
import Mathlib.Algebra.BigOperators.Group.List.Basic

/-!
# Reading headers back

A header that is self-delimiting says by its own bytes where it ends: by a length, by flags, by a
bit on its last entry, or by having a size that is fixed. The reader that comes to these bytes gives
the header back, takes just them, and does not look at what follows.

## The model

`Takes r b a` says this of a reader `r`, the bytes `b` and the result `a`, on every frame that begins
with `b`. Each kind of header has its own predicate `Regular`, which says that what the header writes
about its own length is true. An Ethernet header with fewer than two tags ends where a type stands
that is no tag's, so it is read back only if its own type is none (`Ethernet.takes_read`).
-/

namespace Dataplane

/-- On every frame that begins with `b` the reader gives `a` and takes `b` off. -/
def Takes {ε α : Type} (r : Frame → Except ε (α × Frame)) (b : Bytes) (a : α) : Prop :=
  ∀ f rest, f.unread = b ++ rest → ∃ f', r f = .ok (a, f') ∧ f'.unread = rest

/-- Parts that are not empty are no more than their bytes. -/
theorem length_le_flatMap {α : Type} {parts : List α} {bytes : α → Bytes}
    (h : ∀ a ∈ parts, 0 < (bytes a).length) : parts.length ≤ (parts.flatMap bytes).length := by
  have hone : ∀ n ∈ parts.map fun a => (bytes a).length, 1 ≤ n := by
    intro _ hn
    obtain ⟨a, ha, rfl⟩ := List.mem_map.mp hn
    exact h a ha
  have hsum := List.length_le_sum_of_one_le _ hone
  rwa [List.length_map, ← List.length_flatMap] at hsum

/-! ### Cursors -/

namespace Frame

variable {f : Frame} {b rest : Bytes} {n : Nat}

theorem reaches_of_unread (hf : f.unread = b ++ rest) (hn : n ≤ b.length) : f.unread.reaches n := by
  rw [Bytes.reaches_iff, hf, List.length_append]
  omega

theorem takes_readBlock (block : Block n) : Takes (readBlock · n) block.bytes block := by
  intro f rest hf
  have hlen := block.length_eq
  have hreaches := f.reaches_of_unread hf hlen.ge
  have htake : f.unread.take n = block.bytes := by rw [hf, List.take_left' hlen]
  have hdrop : f.unread.drop n = rest := by rw [hf, List.drop_left' hlen]
  refine ⟨⟨f.offset + n, f.unread.drop n⟩, ?_, hdrop⟩
  show f.readBlock n = _
  rw [readBlock, dif_pos hreaches]
  exact congrArg (fun block => Except.ok (block, _)) (Block.ext htake)

theorem takes_read (b : Bytes) : Takes (read · b.length) b b := by
  intro f rest hf
  refine ⟨⟨f.offset + b.length, f.unread.drop b.length⟩, ?_, by rw [hf, List.drop_left]⟩
  show f.read b.length = _
  rw [read, if_pos (f.reaches_of_unread hf le_rfl), hf, List.take_left]

/-- A look ahead shows the bytes that come next. -/
theorem peek_of_unread (hf : f.unread = b ++ rest) (hn : n ≤ b.length) :
    f.peek 0 n = .ok (b.take n) := by
  rw [peek, if_pos (by rw [Nat.zero_add]; exact f.reaches_of_unread hf hn), List.drop_zero, hf,
    List.take_append_of_le_length hn]

theorem strip_of_unread (hf : f.unread = b ++ rest) :
    f.strip rest.length = .ok (rest, ⟨f.offset, b⟩) := by
  have hlen : f.length - rest.length = b.length := by
    rw [length, hf, List.length_append, Nat.add_sub_cancel]
  rw [strip, if_pos (by rw [length, hf, List.length_append]; omega), hlen, hf, List.drop_left,
    List.take_left]

end Frame

open Dataplane.Frame

/-! ### Ethernet and MPLS -/

namespace Ethernet

/-- There are no more tags than can be read, and each says that it is one. -/
structure Regular (e : Ethernet) : Prop where
  few : e.tags.length ≤ maxTags
  tagged : ∀ tag ∈ e.tags, EtherType.isTag (tag.num tagProtocolSlot)

/-- The header has as many tags as can be read, or ends in a type that is no tag's. -/
def Closed (e : Ethernet) : Prop := e.tags.length < maxTags → ¬EtherType.isTag e.etherType

instance (e : Ethernet) : Decidable e.Closed :=
  inferInstanceAs (Decidable (_ → _))

/-- Tags are read up to a word that is none, or up to the largest number. -/
theorem readTags_of_unread {n : Nat} {tags : List (Block 4)} {word : Block 2} {f : Frame}
    {rest : Bytes} (hf : f.unread = tags.flatMap (·.bytes) ++ (word.bytes ++ rest))
    (hn : tags.length ≤ n) (htags : ∀ tag ∈ tags, EtherType.isTag (tag.num tagProtocolSlot))
    (hend : tags.length < n → ¬EtherType.isTag (word.num typeSlot)) :
    ∃ f', readTags n f = .ok (tags, f') ∧ f'.unread = word.bytes ++ rest := by
  induction n generalizing f tags with
  | zero =>
    obtain rfl := List.length_eq_zero_iff.mp (Nat.le_zero.mp hn)
    exact ⟨f, rfl, hf⟩
  | succ n ih =>
    cases tags with
    | nil =>
      have hpeek : f.peek 0 2 = .ok (word.bytes.take 2) := peek_of_unread hf word.length_eq.ge
      have hnum : Bytes.toNat (word.bytes.take 2) = word.num typeSlot := rfl
      refine ⟨f, ?_, hf⟩
      rw [readTags]
      refine bind_eq_ok_iff.mpr ⟨_, hpeek, ?_⟩
      rw [if_neg (by rw [hnum]; exact hend (Nat.succ_pos n))]
      rfl
    | cons tag tags =>
      rw [List.flatMap_cons, List.append_assoc] at hf
      have hpeek : f.peek 0 2 = .ok (tag.bytes.take 2) :=
        peek_of_unread hf (by rw [tag.length_eq]; decide)
      have hnum : Bytes.toNat (tag.bytes.take 2) = tag.num tagProtocolSlot := rfl
      obtain ⟨f₁, h₁, hf₁⟩ := takes_readBlock tag f _ hf
      obtain ⟨f', h', hf'⟩ := ih hf₁ (Nat.le_of_succ_le_succ hn)
        (fun t ht => htags t (List.mem_cons_of_mem _ ht))
        (fun hlt => hend (Nat.succ_lt_succ hlt))
      refine ⟨f', ?_, hf'⟩
      rw [readTags]
      refine bind_eq_ok_iff.mpr ⟨_, hpeek, ?_⟩
      rw [if_pos (by rw [hnum]; exact htags tag List.mem_cons_self)]
      exact bind_eq_ok_iff.mpr ⟨_, h₁, bind_eq_ok_iff.mpr ⟨_, h', rfl⟩⟩

theorem takes_read {e : Ethernet} (he : e.Regular) (hclosed : e.Closed) :
    Takes read e.emit e := by
  intro f rest hf
  rw [emit, List.append_assoc, List.append_assoc] at hf
  obtain ⟨f₁, h₁, hf₁⟩ := takes_readBlock e.addrs f _ hf
  obtain ⟨f₂, h₂, hf₂⟩ := readTags_of_unread hf₁ he.few he.tagged hclosed
  obtain ⟨f₃, h₃, hf₃⟩ := takes_readBlock e.typeWord f₂ _ hf₂
  exact ⟨f₃, bind_eq_ok_iff.mpr ⟨_, h₁, bind_eq_ok_iff.mpr ⟨_, h₂,
    bind_eq_ok_iff.mpr ⟨_, h₃, rfl⟩⟩⟩, hf₃⟩

theorem regular_of_readTags {n : Nat} {f f' : Frame} {tags : List (Block 4)}
    (h : readTags n f = .ok (tags, f')) :
    tags.length ≤ n ∧ (∀ tag ∈ tags, EtherType.isTag (tag.num tagProtocolSlot)) ∧
      ∀ word : Block 2, ∀ rest, f'.unread = word.bytes ++ rest → tags.length < n →
        ¬EtherType.isTag (word.num typeSlot) := by
  induction n generalizing f tags with
  | zero =>
    cases h
    exact ⟨le_rfl, by simp, fun _ _ _ hlt => absurd hlt (Nat.lt_irrefl 0)⟩
  | succ n ih =>
    rw [readTags] at h
    obtain ⟨next, hpeek, h⟩ := bind_eq_ok_iff.mp h
    split at h
    · rename_i htag
      obtain ⟨⟨tag, f₁⟩, h₁, h⟩ := bind_eq_ok_iff.mp h
      obtain ⟨⟨tags', f₂⟩, h₂, h⟩ := bind_eq_ok_iff.mp h
      cases h
      obtain ⟨hlen, htags, hend⟩ := ih h₂
      have hunread := reads_of_readBlock h₁
      rw [peek_of_unread hunread (by rw [tag.length_eq]; decide)] at hpeek
      cases hpeek
      exact ⟨Nat.succ_le_succ hlen, List.forall_mem_cons.mpr ⟨htag, htags⟩,
        fun word rest hw hlt => hend word rest hw (Nat.lt_of_succ_lt_succ hlt)⟩
    · rename_i htag
      cases h
      refine ⟨Nat.zero_le _, by simp, fun word rest hw _ => ?_⟩
      rw [peek_of_unread hw word.length_eq.ge] at hpeek
      cases hpeek
      exact htag

/-- What is read is regular, and ends where reading stopped. -/
theorem regular_of_read {f f' : Frame} {e : Ethernet} (h : read f = .ok (e, f')) :
    e.Regular ∧ e.Closed := by
  obtain ⟨⟨addrs, f₁⟩, h₁, h⟩ := bind_eq_ok_iff.mp h
  obtain ⟨⟨tags, f₂⟩, h₂, h⟩ := bind_eq_ok_iff.mp h
  obtain ⟨⟨word, f₃⟩, h₃, h⟩ := bind_eq_ok_iff.mp h
  cases h
  obtain ⟨hfew, htagged, hend⟩ := regular_of_readTags h₂
  exact ⟨⟨hfew, htagged⟩, hend word _ (reads_of_readBlock h₃)⟩

end Ethernet

namespace LabelStack

/-- The last entry of a stack, and no other one, is marked as the last. -/
def Bottomed : List (Block 4) → Prop
  | [] => False
  | [entry] => isBottom entry
  | entry :: entries => ¬isBottom entry ∧ Bottomed entries

theorem bottomed_cons {entry : Block 4} {entries : List (Block 4)} (hne : entries ≠ []) :
    Bottomed (entry :: entries) ↔ ¬isBottom entry ∧ Bottomed entries := by
  obtain ⟨x, xs, rfl⟩ := List.exists_cons_of_ne_nil hne
  rfl

theorem takes_readEntries {entries : List (Block 4)} (h : Bottomed entries) {fuel : Nat}
    (hfuel : entries.length ≤ fuel) :
    Takes (readEntries fuel) (entries.flatMap (·.bytes)) entries := by
  induction entries generalizing fuel with
  | nil => exact h.elim
  | cons entry entries ih =>
    intro f rest hf
    obtain ⟨fuel, rfl⟩ := Nat.exists_eq_add_of_le' (Nat.one_le_of_lt hfuel)
    rw [List.flatMap_cons, List.append_assoc] at hf
    obtain ⟨f₁, h₁, hf₁⟩ := takes_readBlock entry f _ hf
    by_cases hne : entries = []
    · subst hne
      refine ⟨f₁, ?_, hf₁⟩
      rw [readEntries]
      refine bind_eq_ok_iff.mpr ⟨_, h₁, ?_⟩
      have hbottom : isBottom entry = true := h
      dsimp only
      rw [if_pos hbottom]
      rfl
    · obtain ⟨hbottom, hrest⟩ := (bottomed_cons hne).mp h
      obtain ⟨f₂, h₂, hf₂⟩ := ih hrest (Nat.le_of_succ_le_succ hfuel) f₁ rest hf₁
      refine ⟨f₂, ?_, hf₂⟩
      rw [readEntries]
      refine bind_eq_ok_iff.mpr ⟨_, h₁, ?_⟩
      dsimp only
      rw [if_neg hbottom]
      exact bind_eq_ok_iff.mpr ⟨_, h₂, rfl⟩

/-- The last entry of the stack, and no other one, is marked as the last. -/
def Regular (s : LabelStack) : Prop := Bottomed s.entries

theorem takes_read {s : LabelStack} (hs : s.Regular) : Takes read s.emit s := by
  intro f rest hf
  have hlen : s.entries.length ≤ f.length + 1 := by
    rw [Frame.length, hf, List.length_append, s.length_emit, wireLen]
    omega
  obtain ⟨f', h', hf'⟩ := takes_readEntries hs hlen f rest hf
  exact ⟨f', bind_eq_ok_iff.mpr ⟨_, h', rfl⟩, hf'⟩

theorem bottomed_of_readEntries {fuel : Nat} {f f' : Frame} {entries : List (Block 4)}
    (h : readEntries fuel f = .ok (entries, f')) : Bottomed entries := by
  induction fuel generalizing f entries with
  | zero => cases h
  | succ fuel ih =>
    obtain ⟨⟨entry, f₁⟩, h₁, h⟩ := bind_eq_ok_iff.mp h
    dsimp only at h
    split at h
    · rename_i hbottom
      cases h
      exact hbottom
    · rename_i hbottom
      obtain ⟨⟨entries', f₂⟩, h₂, h⟩ := bind_eq_ok_iff.mp h
      cases h
      have hrest := ih h₂
      refine (bottomed_cons ?_).mpr ⟨hbottom, hrest⟩
      rintro rfl
      exact hrest

theorem regular_of_read {f f' : Frame} {s : LabelStack} (h : read f = .ok (s, f')) :
    s.Regular := by
  obtain ⟨⟨entries, f₁⟩, h₁, h⟩ := bind_eq_ok_iff.mp h
  cases h
  exact bottomed_of_readEntries h₁

end LabelStack

/-! ### IPv4, IPv6 and GRE -/

namespace Ipv4

/-- The first byte gives the version and the length. -/
structure Regular (h : Ipv4) : Prop where
  version : h.base.num firstSlot / 16 = 4
  length : h.base.num firstSlot % 16 * 4 = h.wireLen

theorem takes_read {h : Ipv4} (hr : h.Regular) (htotal : h.wireLen ≤ h.totalLen) :
    Takes read h.emit h := by
  intro f rest hf
  have hbase := h.base.length_eq
  have hopts : h.wireLen - 20 = h.options.length := Nat.add_sub_cancel_left ..
  have hemit : h.emit.length = h.wireLen := by
    rw [emit, List.length_append, hbase, wireLen]
  have hfirst : f.peek 0 1 = .ok (h.base.bytes.take 1) := by
    rw [emit, List.append_assoc] at hf
    exact peek_of_unread hf (by rw [hbase]; decide)
  have hnum : Bytes.toNat (h.base.bytes.take 1) = h.base.num firstSlot := rfl
  have hwhole : f.peek 0 h.wireLen = .ok (h.emit.take h.wireLen) :=
    peek_of_unread hf hemit.ge
  rw [emit, List.append_assoc] at hf
  obtain ⟨f₁, h₁, hf₁⟩ := takes_readBlock h.base f _ hf
  obtain ⟨f₂, h₂, hf₂⟩ := Frame.takes_read h.options f₁ _ hf₁
  refine ⟨f₂, ?_, hf₂⟩
  rw [read]
  refine bind_eq_ok_iff.mpr ⟨_, ofRead_eq_ok_iff.mpr hfirst, ?_⟩
  dsimp only
  rw [hnum, hr.length, hopts, if_neg (not_not.mpr hr.version),
    if_neg (by rw [wireLen]; omega)]
  refine bind_eq_ok_iff.mpr ⟨_, ofRead_eq_ok_iff.mpr hwhole, ?_⟩
  refine bind_eq_ok_iff.mpr ⟨_, ofRead_eq_ok_iff.mpr h₁, ?_⟩
  refine bind_eq_ok_iff.mpr ⟨_, ofRead_eq_ok_iff.mpr h₂, ?_⟩
  have hcovered : ¬h.base.num totalLenSlot < h.wireLen := Nat.not_lt.mpr htotal
  dsimp only
  rw [if_neg hcovered]
  rfl

theorem regular_of_read {f f' : Frame} {h : Ipv4} (e : read f = .ok (h, f')) : h.Regular := by
  obtain ⟨first, hfirst, e⟩ := bind_eq_ok_iff.mp e
  dsimp only at e
  split at e
  · cases e
  · rename_i hversion
    split at e
    · cases e
    · rename_i hlen
      obtain ⟨_, -, e⟩ := bind_eq_ok_iff.mp e
      obtain ⟨⟨base, f₁⟩, h₁, e⟩ := bind_eq_ok_iff.mp e
      obtain ⟨⟨options, f₂⟩, h₂, e⟩ := bind_eq_ok_iff.mp e
      dsimp only at e
      split at e
      · cases e
      · cases e
        have hn := (Frame.reads_of_read (ofRead_eq_ok_iff.mp h₂)).2
        have hunread := reads_of_readBlock (ofRead_eq_ok_iff.mp h₁)
        have hpeek := ofRead_eq_ok_iff.mp hfirst
        rw [peek_of_unread hunread (by rw [base.length_eq]; decide)] at hpeek
        cases hpeek
        have hnum : Bytes.toNat (base.bytes.take 1) = base.num firstSlot := rfl
        rw [hnum] at hversion hlen hn
        refine ⟨not_not.mp hversion, ?_⟩
        rw [wireLen]
        dsimp only
        omega

end Ipv4

namespace Ipv6

/-- The first word gives the version. -/
def Regular (h : Ipv6) : Prop := h.base.bits wordSlot versionBits = 6

theorem takes_read {h : Ipv6} (hr : h.Regular) : Takes read h.emit h := by
  intro f rest hf
  obtain ⟨f₁, h₁, hf₁⟩ := takes_readBlock h.base f _ hf
  refine ⟨f₁, ?_, hf₁⟩
  rw [read]
  refine bind_eq_ok_iff.mpr ⟨_, ofRead_eq_ok_iff.mpr h₁, ?_⟩
  have hversion : h.base.bits wordSlot versionBits = 6 := hr
  dsimp only
  rw [if_neg (not_not.mpr hversion)]
  rfl

theorem regular_of_read {f f' : Frame} {h : Ipv6} (e : read f = .ok (h, f')) : h.Regular := by
  obtain ⟨⟨base, f₁⟩, -, e⟩ := bind_eq_ok_iff.mp e
  dsimp only at e
  split at e
  · cases e
  · rename_i hversion
    cases e
    exact not_not.mp hversion

end Ipv6

namespace Gre

/-- The flags are those of the optional words that are there, and the version is zero. -/
structure Regular (h : Gre) : Prop where
  version : h.base.num flagsSlot % 8 = 0
  flagged : h.Flagged

theorem takes_readWord {fl flag : Nat} {word : Option (Block 4)}
    (hword : word.isSome ↔ fl &&& flag ≠ 0) :
    Takes (readWord fl flag) (word.toList.flatMap (·.bytes)) word := by
  intro f rest hf
  cases word with
  | none =>
    have hzero : fl &&& flag = 0 := by simpa using hword
    exact ⟨f, by rw [readWord, if_pos hzero], hf⟩
  | some w =>
    have hset : fl &&& flag ≠ 0 := hword.mp rfl
    have hbytes : (some w).toList.flatMap (·.bytes) = w.bytes := List.append_nil _
    rw [hbytes] at hf
    obtain ⟨f₁, h₁, hf₁⟩ := takes_readBlock w f _ hf
    refine ⟨f₁, ?_, hf₁⟩
    rw [readWord, if_neg hset]
    exact bind_eq_ok_iff.mpr ⟨_, ofRead_eq_ok_iff.mpr h₁, rfl⟩

theorem takes_read {h : Gre} (hr : h.Regular) : Takes read h.emit h := by
  intro f rest hf
  obtain ⟨hknown, hc, hk, hs⟩ := hr.flagged
  rw [← hknown] at hc hk hs
  rw [emit, words, List.flatMap_append, List.flatMap_append, List.append_assoc, List.append_assoc,
    List.append_assoc] at hf
  obtain ⟨f₁, h₁, hf₁⟩ := takes_readBlock h.base f _ hf
  obtain ⟨f₂, h₂, hf₂⟩ := takes_readWord hc f₁ _ hf₁
  obtain ⟨f₃, h₃, hf₃⟩ := takes_readWord hk f₂ _ hf₂
  obtain ⟨f₄, h₄, hf₄⟩ := takes_readWord hs f₃ _ hf₃
  refine ⟨f₄, ?_, hf₄⟩
  rw [read]
  refine bind_eq_ok_iff.mpr ⟨_, ofRead_eq_ok_iff.mpr h₁, ?_⟩
  dsimp only
  have hflags : h.base.num flagsSlot &&& (checksumFlag ||| keyFlag ||| seqFlag) =
      h.base.num flagsSlot := hknown.symm
  rw [if_neg (not_not.mpr hr.version), if_neg (not_not.mpr hflags)]
  exact bind_eq_ok_iff.mpr ⟨_, h₂, bind_eq_ok_iff.mpr ⟨_, h₃, bind_eq_ok_iff.mpr ⟨_, h₄, rfl⟩⟩⟩

theorem regular_of_read {f f' : Frame} {h : Gre} (e : read f = .ok (h, f')) : h.Regular := by
  refine ⟨?_, flagged_of_read e⟩
  obtain ⟨⟨base, f₁⟩, -, e⟩ := bind_eq_ok_iff.mp e
  dsimp only at e
  split at e
  · cases e
  · rename_i hversion
    split at e
    · cases e
    · obtain ⟨_, -, e⟩ := bind_eq_ok_iff.mp e
      obtain ⟨_, -, e⟩ := bind_eq_ok_iff.mp e
      obtain ⟨_, -, e⟩ := bind_eq_ok_iff.mp e
      cases e
      exact not_not.mp hversion

end Gre

/-! ### ARP, transport and ICMP -/

theorem Arp.takes_read {h : Arp} (hr : fault? h.base = none) : Takes read h.emit h := by
  intro f rest hf
  obtain ⟨f₁, h₁, hf₁⟩ := takes_readBlock h.base f _ hf
  refine ⟨f₁, ?_, hf₁⟩
  rw [read]
  refine bind_eq_ok_iff.mpr ⟨_, ofRead_eq_ok_iff.mpr h₁, ?_⟩
  dsimp only
  rw [hr]
  rfl

theorem Arp.fault_of_read {f f' : Frame} {h : Arp} (e : read f = .ok (h, f')) :
    fault? h.base = none := by
  obtain ⟨⟨base, f₁⟩, -, e⟩ := bind_eq_ok_iff.mp e
  dsimp only at e
  split at e
  · cases e
  · rename_i hnone
    cases e
    exact hnone

namespace Tcp

/-- The header gives its length. -/
def Regular (h : Tcp) : Prop := (h.base.byte 12).toNat / 16 * 4 = h.wireLen

/-- A reader has not seen the addresses that the checksum covers. -/
theorem takes_read {h : Tcp} (hr : h.Regular) : Takes read h.emit { h with pseudo := .unseen } := by
  intro f rest hf
  have hopts : h.wireLen - 20 = h.options.length := Nat.add_sub_cancel_left ..
  rw [emit, List.append_assoc] at hf
  obtain ⟨f₁, h₁, hf₁⟩ := takes_readBlock h.base f _ hf
  obtain ⟨f₂, h₂, hf₂⟩ := Frame.takes_read h.options f₁ _ hf₁
  refine ⟨f₂, ?_, hf₂⟩
  rw [read]
  refine bind_eq_ok_iff.mpr ⟨_, ofRead_eq_ok_iff.mpr h₁, ?_⟩
  dsimp only
  rw [hr, hopts, if_neg (by rw [wireLen]; omega)]
  exact bind_eq_ok_iff.mpr ⟨_, ofRead_eq_ok_iff.mpr h₂, rfl⟩

theorem regular_of_read {f f' : Frame} {h : Tcp} (e : read f = .ok (h, f')) : h.Regular := by
  obtain ⟨⟨base, f₁⟩, -, e⟩ := bind_eq_ok_iff.mp e
  dsimp only at e
  split at e
  · cases e
  · obtain ⟨⟨options, f₂⟩, h₂, e⟩ := bind_eq_ok_iff.mp e
    cases e
    have hn := (Frame.reads_of_read (ofRead_eq_ok_iff.mp h₂)).2
    simp only [Regular, wireLen]
    omega

end Tcp

theorem Udp.takes_read (h : Udp) : Takes read h.emit { h with pseudo := .unseen } := by
  intro f rest hf
  obtain ⟨f₁, h₁, hf₁⟩ := takes_readBlock h.base f _ hf
  exact ⟨f₁, bind_eq_ok_iff.mpr ⟨_, ofRead_eq_ok_iff.mpr h₁, rfl⟩, hf₁⟩

theorem Icmp4.takes_read (h : Icmp4) : Takes read h.emit h := by
  intro f rest hf
  obtain ⟨f₁, h₁, hf₁⟩ := takes_readBlock h.base f _ hf
  exact ⟨f₁, bind_eq_ok_iff.mpr ⟨_, ofRead_eq_ok_iff.mpr h₁, rfl⟩, hf₁⟩

namespace NdOption

/-- The option is as long as its length byte says, in units of eight bytes, and not empty. -/
def Regular (o : NdOption) : Prop := o.units.toNat * 8 = o.wireLen

theorem readAll_of_unread {opts : List NdOption} (hopts : ∀ o ∈ opts, o.Regular) {fuel : Nat}
    (hfuel : opts.length < fuel) {f : Frame} (hf : f.unread = opts.flatMap (·.emit)) :
    ∃ f', readAll fuel f = .ok (opts, f') ∧ f'.unread = [] := by
  induction opts generalizing fuel f with
  | nil =>
    obtain ⟨fuel, rfl⟩ := Nat.exists_eq_add_of_le' (Nat.one_le_of_lt hfuel)
    refine ⟨f, ?_, hf⟩
    rw [readAll, hf]
    rfl
  | cons o opts ih =>
    obtain ⟨fuel, rfl⟩ := Nat.exists_eq_add_of_le' (Nat.one_le_of_lt hfuel)
    obtain ⟨ho, hopts⟩ := List.forall_mem_cons.mp hopts
    have hlen : o.units.toNat * 8 = o.emit.length := by rw [o.length_emit]; exact ho
    rw [List.flatMap_cons] at hf
    obtain ⟨f₁, h₁, hf₁⟩ := Frame.takes_read o.emit f _ hf
    obtain ⟨f', h', hf'⟩ := ih hopts (Nat.lt_of_succ_lt_succ hfuel) hf₁
    have hreaches := f.reaches_of_unread hf le_rfl
    have hunread : f.unread = o.kind :: o.units :: (o.data ++ opts.flatMap (·.emit)) := hf
    have hpos : o.emit.length ≠ 0 := by
      rw [o.length_emit, wireLen]
      omega
    refine ⟨f', ?_, hf'⟩
    rw [readAll, hunread]
    dsimp only
    rw [← hunread, hlen, if_neg hpos, hreaches, Bool.not_true, if_neg (by decide)]
    exact bind_eq_ok_iff.mpr ⟨_, ofRead_eq_ok_iff.mpr h₁, bind_eq_ok_iff.mpr ⟨_, h', rfl⟩⟩

theorem regular_of_readAll {fuel : Nat} {f f' : Frame} {opts : List NdOption}
    (e : readAll fuel f = .ok (opts, f')) : ∀ o ∈ opts, o.Regular := by
  induction fuel generalizing f opts with
  | zero =>
    cases e
    simp
  | succ fuel ih =>
    rw [readAll] at e
    split at e
    · cases e
      simp
    · cases e
    · rename_i kind units rest hunread
      dsimp only at e
      split at e
      · cases e
      · rename_i hzero
        split at e
        · cases e
        · obtain ⟨⟨bytes, f₁⟩, h₁, e⟩ := bind_eq_ok_iff.mp e
          obtain ⟨⟨opts', f₂⟩, h₂, e⟩ := bind_eq_ok_iff.mp e
          cases e
          refine List.forall_mem_cons.mpr ⟨?_, ih h₂⟩
          have hlen := (Frame.reads_of_read (ofRead_eq_ok_iff.mp h₁)).2
          have hdata : 2 + (bytes.drop 2).length = units.toNat * 8 := by
            rw [List.length_drop]
            omega
          rw [Regular, units_eq hdata, wireLen, ← hdata]

/-- Reading goes on to the end of the frame. -/
theorem unread_of_readAll {fuel : Nat} {f f' : Frame} {opts : List NdOption}
    (hfuel : f.length < fuel) (e : readAll fuel f = .ok (opts, f')) : f'.unread = [] := by
  induction fuel generalizing f opts with
  | zero => exact absurd hfuel (Nat.not_lt_zero _)
  | succ fuel ih =>
    rw [readAll] at e
    split at e
    · rename_i hunread
      cases e
      exact hunread
    · cases e
    · dsimp only at e
      split at e
      · cases e
      · rename_i hzero
        split at e
        · cases e
        · obtain ⟨⟨bytes, f₁⟩, h₁, e⟩ := bind_eq_ok_iff.mp e
          obtain ⟨⟨opts', f₂⟩, h₂, e⟩ := bind_eq_ok_iff.mp e
          cases e
          obtain ⟨hreads, hlen⟩ := Frame.reads_of_read (ofRead_eq_ok_iff.mp h₁)
          have htotal := congrArg List.length hreads
          rw [List.length_append, hlen] at htotal
          have hfuel₁ : f₁.length < fuel := by
            rw [Frame.length] at hfuel ⊢
            omega
          exact ih hfuel₁ h₂

end NdOption

namespace Icmp6

/-- Is this a neighbor discovery message? -/
def isNeighborDiscovery (h : Icmp6) : Bool := (bodyLen? h.type).isSome

/-- A neighbor discovery message has the body of its type and options that give their lengths; any
other message has neither. -/
structure Regular (h : Icmp6) : Prop where
  body : h.body.length = (bodyLen? h.type).getD 0
  options : ∀ o ∈ h.options, o.Regular
  plain : ¬h.isNeighborDiscovery → h.options = []

/-- The options of a neighbor discovery message go on to the end of the frame. -/
theorem read_of_unread {h : Icmp6} (hr : h.Regular) {f : Frame} {rest : Bytes}
    (hf : f.unread = h.emit ++ rest) (hend : h.isNeighborDiscovery → rest = []) :
    ∃ f', read f = .ok ({ h with pseudo := .unseen }, f') ∧ f'.unread = rest := by
  rw [emit, List.append_assoc, List.append_assoc] at hf
  obtain ⟨f₁, h₁, hf₁⟩ := takes_readBlock h.base f _ hf
  have hbody := hr.body
  cases htype : bodyLen? h.type with
  | none =>
    rw [htype] at hbody
    have hnone : h.body = [] := List.length_eq_zero_iff.mp hbody
    have hopts : h.options = [] := hr.plain (by simp [isNeighborDiscovery, htype])
    refine ⟨f₁, ?_, by rw [hf₁, hnone, hopts]; rfl⟩
    rw [read]
    refine bind_eq_ok_iff.mpr ⟨_, ofRead_eq_ok_iff.mpr h₁, ?_⟩
    dsimp only
    rw [← type, htype, hnone, hopts]
    rfl
  | some len =>
    rw [htype, Option.getD_some] at hbody
    subst hbody
    obtain ⟨f₂, h₂, hf₂⟩ := Frame.takes_read h.body f₁ _ hf₁
    obtain rfl := hend (by simp [isNeighborDiscovery, htype])
    rw [List.append_nil] at hf₂
    have hfuel : h.options.length < f₂.length + 1 := by
      have hle : h.options.length ≤ (h.options.flatMap (·.emit)).length :=
        length_le_flatMap fun o _ => Nat.succ_pos _
      rw [Frame.length, hf₂]
      omega
    obtain ⟨f₃, h₃, hf₃⟩ := NdOption.readAll_of_unread hr.options hfuel hf₂
    refine ⟨f₃, ?_, hf₃⟩
    rw [read]
    refine bind_eq_ok_iff.mpr ⟨_, ofRead_eq_ok_iff.mpr h₁, ?_⟩
    dsimp only
    rw [← type, htype]
    exact bind_eq_ok_iff.mpr ⟨_, ofRead_eq_ok_iff.mpr h₂, bind_eq_ok_iff.mpr ⟨_, h₃, rfl⟩⟩

theorem regular_of_read {f f' : Frame} {h : Icmp6} (e : read f = .ok (h, f')) : h.Regular := by
  obtain ⟨⟨base, f₁⟩, -, e⟩ := bind_eq_ok_iff.mp e
  dsimp only at e
  split at e
  · rename_i hnone
    cases e
    exact ⟨by simp [type, hnone], by simp, fun _ => rfl⟩
  · rename_i len hlen
    obtain ⟨⟨body, f₂⟩, h₂, e⟩ := bind_eq_ok_iff.mp e
    obtain ⟨⟨options, f₃⟩, h₃, e⟩ := bind_eq_ok_iff.mp e
    cases e
    have hn := (Frame.reads_of_read (ofRead_eq_ok_iff.mp h₂)).2
    exact ⟨by simp [type, hlen, hn], NdOption.regular_of_readAll h₃,
      fun hplain => absurd (by simp [isNeighborDiscovery, type, hlen]) hplain⟩

/-- A neighbor discovery message leaves nothing. -/
theorem unread_of_read {f f' : Frame} {h : Icmp6} (e : read f = .ok (h, f'))
    (hnd : h.isNeighborDiscovery) : f'.unread = [] := by
  obtain ⟨⟨base, f₁⟩, -, e⟩ := bind_eq_ok_iff.mp e
  dsimp only at e
  split at e
  · rename_i hnone
    cases e
    simp [isNeighborDiscovery, type, hnone] at hnd
  · obtain ⟨⟨body, f₂⟩, -, e⟩ := bind_eq_ok_iff.mp e
    obtain ⟨⟨options, f₃⟩, h₃, e⟩ := bind_eq_ok_iff.mp e
    cases e
    exact NdOption.unread_of_readAll (Nat.lt_succ_self _) h₃

end Icmp6

end Dataplane

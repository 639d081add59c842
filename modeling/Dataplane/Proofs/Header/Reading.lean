import Dataplane.Proofs.Headers.Wire
import Dataplane.Proofs.Results

/-!
# What a reader takes off a frame

A reader that succeeds has taken exactly the bytes that the header it gives emits.

## The model

`f.Reads b f'` says that `b` lies between the two cursors; readings one after the other add up
(`Reads.trans`). A chain of IP headers takes its trailer off the other end, so what is left of the
frame lies between its header bytes and its trailer (`Header.read_eq`).
-/

namespace Dataplane

/-! ### Cursors -/

namespace Frame

/-- From one cursor to the other the bytes `b` are read. -/
def Reads (f : Frame) (b : Bytes) (f' : Frame) : Prop := f.unread = b ++ f'.unread

variable {f f' f'' : Frame} {b b' : Bytes} {n : Nat}

theorem Reads.refl (f : Frame) : f.Reads [] f := rfl

theorem Reads.trans (h : f.Reads b f') (h' : f'.Reads b' f'') : f.Reads (b ++ b') f'' := by
  rw [Reads, h, h', List.append_assoc]

theorem reads_of_readBlock {block : Block n} (h : f.readBlock n = .ok (block, f')) :
    f.Reads block.bytes f' := by
  rw [readBlock] at h
  split at h
  · cases h
    exact (List.take_append_drop n f.unread).symm
  · cases h

theorem reads_of_read (h : f.read n = .ok (b, f')) : f.Reads b f' ∧ b.length = n := by
  rw [read] at h
  split at h
  · rename_i hlen
    cases h
    refine ⟨(List.take_append_drop n f.unread).symm, ?_⟩
    rw [List.length_take]
    exact Nat.min_eq_left (Bytes.reaches_iff.mp hlen)
  · cases h

theorem eq_of_strip (h : f.strip n = .ok (b, f')) : f.unread = f'.unread ++ b ∧ b.length = n := by
  rw [strip] at h
  split at h
  · rename_i hlen
    cases h
    refine ⟨(List.take_append_drop _ f.unread).symm, ?_⟩
    rw [List.length_drop]
    exact Nat.sub_sub_self hlen
  · cases h

end Frame

open Dataplane.Frame

/-! ### Ethernet and MPLS -/

namespace Ethernet

variable {f f' : Frame}

theorem reads_of_readTags {n : Nat} {tags : List (Block 4)} (h : readTags n f = .ok (tags, f')) :
    f.Reads (tags.flatMap (·.bytes)) f' := by
  induction n generalizing f tags with
  | zero =>
    cases h
    exact .refl _
  | succ n ih =>
    rw [readTags] at h
    obtain ⟨next, -, h⟩ := bind_eq_ok_iff.mp h
    split at h
    · obtain ⟨⟨tag, f₁⟩, h₁, h⟩ := bind_eq_ok_iff.mp h
      obtain ⟨⟨tags', f₂⟩, h₂, h⟩ := bind_eq_ok_iff.mp h
      cases h
      exact (reads_of_readBlock h₁).trans (ih h₂)
    · cases h
      exact .refl _

theorem reads_of_read {e : Ethernet} (h : read f = .ok (e, f')) : f.Reads e.emit f' := by
  obtain ⟨⟨addrs, f₁⟩, h₁, h⟩ := bind_eq_ok_iff.mp h
  obtain ⟨⟨tags, f₂⟩, h₂, h⟩ := bind_eq_ok_iff.mp h
  obtain ⟨⟨typeWord, f₃⟩, h₃, h⟩ := bind_eq_ok_iff.mp h
  cases h
  exact ((reads_of_readBlock h₁).trans (reads_of_readTags h₂)).trans (reads_of_readBlock h₃)

end Ethernet

namespace LabelStack

variable {f f' : Frame}

theorem reads_of_readEntries {fuel : Nat} {entries : List (Block 4)}
    (h : readEntries fuel f = .ok (entries, f')) : f.Reads (entries.flatMap (·.bytes)) f' := by
  induction fuel generalizing f entries with
  | zero => cases h
  | succ fuel ih =>
    obtain ⟨⟨entry, f₁⟩, h₁, h⟩ := bind_eq_ok_iff.mp h
    dsimp only at h
    split at h
    · cases h
      simpa using reads_of_readBlock h₁
    · obtain ⟨⟨entries', f₂⟩, h₂, h⟩ := bind_eq_ok_iff.mp h
      cases h
      exact (reads_of_readBlock h₁).trans (ih h₂)

theorem reads_of_read {s : LabelStack} (h : read f = .ok (s, f')) : f.Reads s.emit f' := by
  obtain ⟨⟨entries, f₁⟩, h₁, h⟩ := bind_eq_ok_iff.mp h
  cases h
  exact reads_of_readEntries h₁

end LabelStack

/-! ### IPv4, IPv6 and GRE -/

/-- An IPv4 header is as long as its first byte says, and its total length covers it. -/
theorem Ipv4.reads_of_read {f f' : Frame} {h : Ipv4} (e : read f = .ok (h, f')) :
    f.Reads h.emit f' ∧ h.wireLen ≤ h.totalLen := by
  obtain ⟨first, -, e⟩ := bind_eq_ok_iff.mp e
  dsimp only at e
  split at e
  · cases e
  · split at e
    · cases e
    · rename_i hlen
      obtain ⟨_, -, e⟩ := bind_eq_ok_iff.mp e
      obtain ⟨⟨base, f₁⟩, h₁, e⟩ := bind_eq_ok_iff.mp e
      obtain ⟨⟨options, f₂⟩, h₂, e⟩ := bind_eq_ok_iff.mp e
      dsimp only at e
      split at e
      · cases e
      · rename_i htotal
        cases e
        obtain ⟨hopts, hn⟩ := Frame.reads_of_read (ofRead_eq_ok_iff.mp h₂)
        refine ⟨(reads_of_readBlock (ofRead_eq_ok_iff.mp h₁)).trans hopts, ?_⟩
        simp only [wireLen, totalLen]
        omega

theorem Ipv6.reads_of_read {f f' : Frame} {h : Ipv6} (e : read f = .ok (h, f')) :
    f.Reads h.emit f' := by
  obtain ⟨⟨base, f₁⟩, h₁, e⟩ := bind_eq_ok_iff.mp e
  dsimp only at e
  split at e
  · cases e
  · cases e
    exact reads_of_readBlock (ofRead_eq_ok_iff.mp h₁)

namespace Gre

variable {f f' : Frame}

theorem reads_of_readWord {flags flag : Nat} {word : Option (Block 4)}
    (e : readWord flags flag f = .ok (word, f')) : f.Reads (word.toList.flatMap (·.bytes)) f' := by
  rw [readWord] at e
  split at e
  · cases e
    exact .refl _
  · obtain ⟨⟨w, f₁⟩, h₁, e⟩ := bind_eq_ok_iff.mp e
    cases e
    simpa using reads_of_readBlock (ofRead_eq_ok_iff.mp h₁)

theorem reads_of_read {h : Gre} (e : read f = .ok (h, f')) : f.Reads h.emit f' := by
  obtain ⟨⟨base, f₁⟩, h₁, e⟩ := bind_eq_ok_iff.mp e
  dsimp only at e
  split at e
  · cases e
  · split at e
    · cases e
    · obtain ⟨⟨checksum, f₂⟩, h₂, e⟩ := bind_eq_ok_iff.mp e
      obtain ⟨⟨key, f₃⟩, h₃, e⟩ := bind_eq_ok_iff.mp e
      obtain ⟨⟨seq, f₄⟩, h₄, e⟩ := bind_eq_ok_iff.mp e
      cases e
      have optional := ((reads_of_readWord h₂).trans (reads_of_readWord h₃)).trans
        (reads_of_readWord h₄)
      simpa only [emit, words, List.flatMap_append] using
        (reads_of_readBlock (ofRead_eq_ok_iff.mp h₁)).trans optional

end Gre

/-! ### Chains -/

namespace IpHeader

/-- The number of bytes from the start of an IP header to the end that it names. -/
def claimedLen? : IpHeader → Option Nat
  | v4 h => some h.totalLen
  | v6 h => some (40 + h.payloadLen)
  | gre _ => none

variable {kind : HeaderKind} {f f' : Frame} {h : IpHeader}

theorem reads_of_read (e : read kind f = .ok (h, f')) : f.Reads h.emit f' := by
  rw [read.eq_def] at e
  split at e
  · obtain ⟨⟨h', f₁⟩, h₁, e⟩ := bind_eq_ok_iff.mp e
    cases e
    exact (Ipv4.reads_of_read h₁).1
  · obtain ⟨⟨h', f₁⟩, h₁, e⟩ := bind_eq_ok_iff.mp e
    cases e
    exact Ipv6.reads_of_read h₁
  · obtain ⟨⟨h', f₁⟩, h₁, e⟩ := bind_eq_ok_iff.mp e
    cases e
    exact Gre.reads_of_read h₁
  · cases e

/-- The end a header names lies past the header. -/
theorem claimedLen_of_read (e : read kind f = .ok (h, f')) :
    h.claimedLen? = h.payloadLen?.map (h.wireLen + ·) := by
  rw [read.eq_def] at e
  split at e
  · obtain ⟨⟨h', f₁⟩, h₁, e⟩ := bind_eq_ok_iff.mp e
    cases e
    have hle := (Ipv4.reads_of_read h₁).2
    simp only [claimedLen?, payloadLen?, wireLen, Option.map_some, Option.some.injEq,
      Ipv4.payloadLen]
    omega
  · obtain ⟨⟨h', f₁⟩, h₁, e⟩ := bind_eq_ok_iff.mp e
    cases e
    rfl
  · obtain ⟨⟨h', f₁⟩, h₁, e⟩ := bind_eq_ok_iff.mp e
    cases e
    rfl
  · cases e

end IpHeader

namespace IpChain

variable {f f' : Frame} {kind next : HeaderKind}

theorem reads_of_readHeaders {fuel : Nat} {hs : List IpHeader}
    (e : readHeaders fuel kind f = .ok (hs, next, f')) : f.Reads (emitHeaders hs) f' := by
  induction fuel generalizing kind f hs with
  | zero =>
    cases e
    exact .refl _
  | succ fuel ih =>
    rw [readHeaders] at e
    split at e
    · obtain ⟨⟨h, f₁⟩, h₁, e⟩ := bind_eq_ok_iff.mp e
      obtain ⟨⟨hs', next', f₂⟩, h₂, e⟩ := bind_eq_ok_iff.mp e
      cases e
      exact (IpHeader.reads_of_read h₁).trans (ih h₂)
    · cases e
      exact .refl _

/-- The trailer is what lies past the length that the header names. -/
theorem eq_of_readTrailer {h : IpHeader} {trailer : Bytes}
    (e : readTrailer kind h f = .ok (trailer, f')) :
    f.unread = f'.unread ++ trailer ∧ ∀ n ∈ h.payloadLen?, f'.unread.length = n := by
  rw [readTrailer] at e
  split at e
  · rename_i hnone
    cases e
    simp [hnone]
  · rename_i len hlen
    split at e
    · cases e
    · rename_i hfits
      obtain ⟨happ, hn⟩ := eq_of_strip (ofRead_eq_ok_iff.mp e)
      refine ⟨happ, fun n hmem => ?_⟩
      rw [hlen] at hmem
      cases hmem
      have htotal := congrArg List.length happ
      rw [List.length_append, hn, ← Frame.length] at htotal
      omega

/-- What is read lies between the headers of a chain and its trailer. If the first header names an
end, the trailer starts there. -/
theorem eq_of_read {c : IpChain} (e : read kind f = .ok (c, next, f')) :
    f.unread = c.emit ++ f'.unread ++ c.trailer ∧
      ∀ h ∈ c.headers.head?, ∀ n ∈ h.claimedLen?,
        n ≤ f.unread.length ∧ c.trailer = f.unread.drop n := by
  obtain ⟨⟨h, f₁⟩, h₁, e⟩ := bind_eq_ok_iff.mp e
  obtain ⟨⟨trailer, f₂⟩, h₂, e⟩ := bind_eq_ok_iff.mp e
  obtain ⟨⟨hs, next', f₃⟩, h₃, e⟩ := bind_eq_ok_iff.mp e
  cases e
  have first := IpHeader.reads_of_read h₁
  obtain ⟨cut, hlen⟩ := eq_of_readTrailer h₂
  have rest := reads_of_readHeaders h₃
  have whole : f.unread = (h.emit ++ f₂.unread) ++ trailer := by
    rw [first, cut, List.append_assoc]
  refine ⟨?_, fun h' hh n hn => ?_⟩
  · rw [whole, rest]
    simp only [emit, emitHeaders, List.flatMap_cons, List.append_assoc]
  · cases hh
    rw [IpHeader.claimedLen_of_read h₁] at hn
    obtain ⟨len, hl, rfl⟩ := Option.map_eq_some_iff.mp hn
    have hend : (h.emit ++ f₂.unread).length = h.wireLen + len := by
      rw [List.length_append, hlen len hl, IpHeader.length_emit]
    rw [whole, List.length_append, ← hend]
    exact ⟨Nat.le_add_right _ _, (List.drop_left' rfl).symm⟩

end IpChain

/-! ### ARP, transport and ICMP -/

theorem Arp.reads_of_read {f f' : Frame} {h : Arp} (e : read f = .ok (h, f')) :
    f.Reads h.emit f' := by
  obtain ⟨⟨base, f₁⟩, h₁, e⟩ := bind_eq_ok_iff.mp e
  dsimp only at e
  split at e
  · cases e
  · cases e
    exact reads_of_readBlock (ofRead_eq_ok_iff.mp h₁)

theorem Tcp.reads_of_read {f f' : Frame} {h : Tcp} (e : read f = .ok (h, f')) :
    f.Reads h.emit f' := by
  obtain ⟨⟨base, f₁⟩, h₁, e⟩ := bind_eq_ok_iff.mp e
  dsimp only at e
  split at e
  · cases e
  · obtain ⟨⟨options, f₂⟩, h₂, e⟩ := bind_eq_ok_iff.mp e
    cases e
    exact (reads_of_readBlock (ofRead_eq_ok_iff.mp h₁)).trans
      (Frame.reads_of_read (ofRead_eq_ok_iff.mp h₂)).1

theorem Udp.reads_of_read {f f' : Frame} {h : Udp} (e : read f = .ok (h, f')) :
    f.Reads h.emit f' := by
  obtain ⟨⟨base, f₁⟩, h₁, e⟩ := bind_eq_ok_iff.mp e
  cases e
  exact reads_of_readBlock (ofRead_eq_ok_iff.mp h₁)

theorem Icmp4.reads_of_read {f f' : Frame} {h : Icmp4} (e : read f = .ok (h, f')) :
    f.Reads h.emit f' := by
  obtain ⟨⟨base, f₁⟩, h₁, e⟩ := bind_eq_ok_iff.mp e
  cases e
  exact reads_of_readBlock (ofRead_eq_ok_iff.mp h₁)

namespace NdOption

/-- The length byte that was read is the one the option writes. -/
theorem units_eq {k u : UInt8} {data : Bytes} (h : 2 + data.length = u.toNat * 8) :
    (NdOption.mk k data).units = u := by
  have hlt := u.toNat_lt
  have hdiv : (NdOption.mk k data).wireLen / 8 = u.toNat := by
    rw [wireLen, h]
    exact Nat.mul_div_cancel _ (by omega)
  rw [units, hdiv, if_pos hlt]
  exact UInt8.ofNat_toNat

theorem reads_of_readAll {fuel : Nat} {f f' : Frame} {opts : List NdOption}
    (e : readAll fuel f = .ok (opts, f')) : f.Reads (opts.flatMap (·.emit)) f' := by
  induction fuel generalizing f opts with
  | zero =>
    cases e
    exact .refl _
  | succ fuel ih =>
    rw [readAll] at e
    split at e
    · cases e
      exact .refl _
    · cases e
    · rename_i kind units rest hunread
      dsimp only at e
      split at e
      · cases e
      · rename_i hzero
        split at e
        · cases e
        · obtain ⟨⟨bytes, f₁⟩, h₁, e⟩ := bind_eq_ok_iff.mp e
          obtain ⟨⟨opts', f₂⟩, h₂, e⟩ := bind_eq_ok_iff.mp e
          cases e
          obtain ⟨hreads, hlen⟩ := Frame.reads_of_read (ofRead_eq_ok_iff.mp h₁)
          -- The option has its type and length byte in front, and they are those of the frame.
          have hbytes : bytes = kind :: units :: bytes.drop 2 := by
            rw [Reads, hunread] at hreads
            match bytes, hlen, hreads with
            | [], hlen, _ => exact absurd hlen.symm hzero
            | [b], hlen, _ =>
              rw [List.length_singleton] at hlen
              omega
            | k :: u :: data, _, hreads =>
              simp only [List.cons_append, List.cons.injEq] at hreads
              rw [hreads.1, hreads.2.1]
              rfl
          have hemit : (NdOption.mk kind (bytes.drop 2)).emit = bytes := by
            rw [hbytes] at hlen
            simp only [List.length_cons] at hlen
            rw [emit, units_eq (u := units) (by omega), ← hbytes]
          have h := hreads.trans (ih h₂)
          rw [← hemit] at h
          exact h

end NdOption

theorem Icmp6.reads_of_read {f f' : Frame} {h : Icmp6} (e : read f = .ok (h, f')) :
    f.Reads h.emit f' := by
  obtain ⟨⟨base, f₁⟩, h₁, e⟩ := bind_eq_ok_iff.mp e
  have first := reads_of_readBlock (ofRead_eq_ok_iff.mp h₁)
  dsimp only at e
  split at e
  · cases e
    simpa [emit] using first
  · obtain ⟨⟨body, f₂⟩, h₂, e⟩ := bind_eq_ok_iff.mp e
    obtain ⟨⟨options, f₃⟩, h₃, e⟩ := bind_eq_ok_iff.mp e
    cases e
    have hbody := (Frame.reads_of_read (ofRead_eq_ok_iff.mp h₂)).1
    exact (first.trans hbody).trans (NdOption.reads_of_readAll h₃)

/-! ### Any header -/

theorem EtherType.kind_ne_none (t : Nat) : kind t ≠ .none := by
  unfold kind
  split_ifs <;> nofun

theorem IpProtocol.kind_ne_none (proto : UInt8) : kind proto ≠ .none := by
  unfold kind
  split_ifs <;> nofun

theorem IpHeader.nextKind_ne_none (h : IpHeader) : h.nextKind ≠ .none := by
  cases h with
  | v4 h =>
    rw [nextKind, Ipv4.nextKind]
    split
    · nofun
    · exact IpProtocol.kind_ne_none _
  | v6 h =>
    rw [nextKind, Ipv6.nextKind]
    split
    · nofun
    · exact IpProtocol.kind_ne_none _
  | gre h =>
    rw [nextKind, Gre.nextKind]
    split_ifs <;> nofun

theorem IpChain.next_ne_none_of_readHeaders {fuel : Nat} {kind next : HeaderKind} {f f' : Frame}
    {hs : List IpHeader} (hk : kind ≠ .none)
    (e : readHeaders fuel kind f = .ok (hs, next, f')) : next ≠ .none := by
  induction fuel generalizing kind f hs with
  | zero =>
    cases e
    exact hk
  | succ fuel ih =>
    rw [readHeaders] at e
    split at e
    · obtain ⟨⟨h, f₁⟩, h₁, e⟩ := bind_eq_ok_iff.mp e
      obtain ⟨⟨hs', next', f₂⟩, h₂, e⟩ := bind_eq_ok_iff.mp e
      cases e
      exact ih h.nextKind_ne_none h₂
    · cases e
      exact hk

theorem IpChain.next_ne_none_of_read {kind next : HeaderKind} {f f' : Frame} {c : IpChain}
    (e : read kind f = .ok (c, next, f')) : next ≠ .none := by
  obtain ⟨⟨h, f₁⟩, -, e⟩ := bind_eq_ok_iff.mp e
  obtain ⟨⟨trailer, f₂⟩, -, e⟩ := bind_eq_ok_iff.mp e
  obtain ⟨⟨hs, next', f₃⟩, h₃, e⟩ := bind_eq_ok_iff.mp e
  cases e
  exact next_ne_none_of_readHeaders h.nextKind_ne_none h₃

/-- What a reader takes off a frame is what the header emits: its bytes in front and its trailer at
the end. Only a payload is followed by nothing, and it leaves nothing. -/
theorem Header.read_eq {kind next : HeaderKind} {f f' : Frame} {h : Header}
    (e : read kind f = .ok (h, next, f')) :
    f.unread = h.emit ++ f'.unread ++ h.trailer ∧ (next = .none → f'.unread = []) := by
  have plain {b : Bytes} (hr : f.Reads b f') : f.unread = b ++ f'.unread ++ [] := by
    rw [List.append_nil]
    exact hr
  cases kind with
  | none | sixToFourAuto | sixToFourSecure => cases e
  | metadata =>
    cases e
    exact ⟨plain (.refl _), fun hn => by cases hn⟩
  | payload =>
    cases e
    exact ⟨by simp [emit, trailer, Frame.readRest], fun _ => rfl⟩
  | eth | ethVlan | ethStacked =>
    obtain ⟨⟨eth, f₁⟩, h₁, e⟩ := bind_eq_ok_iff.mp e
    cases e
    exact ⟨plain (Ethernet.reads_of_read (ofRead_eq_ok_iff.mp h₁)),
      fun hn => absurd hn (EtherType.kind_ne_none _)⟩
  | ip4 | ip6 | gre =>
    obtain ⟨⟨c, next', f₁⟩, h₁, e⟩ := bind_eq_ok_iff.mp e
    cases e
    exact ⟨(IpChain.eq_of_read h₁).1, fun hn => absurd hn (IpChain.next_ne_none_of_read h₁)⟩
  | arp =>
    obtain ⟨⟨h', f₁⟩, h₁, e⟩ := bind_eq_ok_iff.mp e
    cases e
    exact ⟨plain (Arp.reads_of_read h₁), fun hn => by cases hn⟩
  | mpls =>
    obtain ⟨⟨h', f₁⟩, h₁, e⟩ := bind_eq_ok_iff.mp e
    cases e
    exact ⟨plain (LabelStack.reads_of_read (ofRead_eq_ok_iff.mp h₁)), fun hn => by cases hn⟩
  | tcp =>
    obtain ⟨⟨h', f₁⟩, h₁, e⟩ := bind_eq_ok_iff.mp e
    cases e
    exact ⟨plain (Tcp.reads_of_read h₁), fun hn => by cases hn⟩
  | udp =>
    obtain ⟨⟨h', f₁⟩, h₁, e⟩ := bind_eq_ok_iff.mp e
    cases e
    exact ⟨plain (Udp.reads_of_read h₁), fun hn => by cases hn⟩
  | icmp4 =>
    obtain ⟨⟨h', f₁⟩, h₁, e⟩ := bind_eq_ok_iff.mp e
    cases e
    exact ⟨plain (Icmp4.reads_of_read h₁), fun hn => by cases hn⟩
  | icmp6 =>
    obtain ⟨⟨h', f₁⟩, h₁, e⟩ := bind_eq_ok_iff.mp e
    cases e
    exact ⟨plain (Icmp6.reads_of_read h₁), fun hn => by cases hn⟩

/-- The trailer of a chain that starts with an IP header is what lies past the end it names. -/
theorem Header.trailer_eq {kind next : HeaderKind} {f f' : Frame} {c : IpChain}
    (e : read kind f = .ok (.ip c, next, f')) {h : IpHeader} (hh : h ∈ c.headers.head?) {n : Nat}
    (hn : n ∈ h.claimedLen?) : n ≤ f.unread.length ∧ c.trailer = f.unread.drop n := by
  cases kind with
  | ip4 | ip6 | gre =>
    obtain ⟨⟨c', next', f₁⟩, h₁, e⟩ := bind_eq_ok_iff.mp e
    cases e
    exact (IpChain.eq_of_read h₁).2 h hh n hn
  | none | sixToFourAuto | sixToFourSecure | metadata | payload => cases e
  | _ =>
    obtain ⟨⟨_, _⟩, -, e⟩ := bind_eq_ok_iff.mp e
    cases e

end Dataplane

import Dataplane.Proofs.Checksum.Stamp
import Dataplane.Proofs.Headers.Placement

/-!
# Checksums of headers

What it means that the checksums of a header hold, and that rebuilding the header makes them hold.

## The model

`Header.ChecksumsHold h addrs inner` looks at the bytes of `h` and of everything inside it only:
they sum to all ones, with the pseudo-header of `addrs` where there is one. A clean header does not hold
its checksum over the addresses around it but over those it remembers (`Header.Remembers`), and an
IPv4 header that is clean has words that sum to a multiple of 65535 (`Ipv4.Balanced`). Both are
enough for a rebuild that computes nothing to be right: it is left out only if the remembered
addresses are the ones around, and a stamped length is never zero.
-/

namespace Dataplane

/-! ### Sums over pseudo-headers -/

namespace IpAddrs

/-- The addresses have the lengths of their family. -/
def WellFormed : IpAddrs → Prop
  | v4 src dst => src.length = 4 ∧ dst.length = 4
  | v6 src dst => src.length = 16 ∧ dst.length = 16

/-- The sum of an upper-layer packet and its pseudo-header. -/
def upperSum (a : IpAddrs) (proto : UInt8) (b : Bytes) : Checksum :=
  (a.pseudoHeader proto b.length).add b

theorem settled_pseudoHeader {a : IpAddrs} (ha : a.WellFormed) (proto : UInt8) (len : Nat) :
    (a.pseudoHeader proto len).Settled := by
  cases a with
  | v4 src dst =>
    obtain ⟨hs, hd⟩ := ha
    exact (((Checksum.settled_zero.add (by omega)).add (by omega)).add (by simp)).add (by simp)
  | v6 src dst =>
    obtain ⟨hs, hd⟩ := ha
    exact (((Checksum.settled_zero.add (by omega)).add (by omega)).add (by simp)).add (by simp)

end IpAddrs

theorem upperLayerChecksum_eq (a : IpAddrs) (proto : UInt8) (hdr : Bytes) (around : Surroundings) :
    upperLayerChecksum a proto hdr around = (a.upperSum proto (hdr ++ around.inner)).header := rfl

/-- A block with the checksum of an upper-layer packet stored in it. -/
theorem upperSum_verifies {n : Nat} {a : IpAddrs} (ha : a.WellFormed) (proto : UInt8) (b : Block n)
    {s : Slot n} (hs : s.start % 2 = 0) (hw : s.width = 2) (rest : Bytes) :
    (a.upperSum proto (((b.setNum s 0).set s
      (a.upperSum proto ((b.setNum s 0).bytes ++ rest)).header).bytes ++ rest)).Verifies := by
  have hlen (b' : Block n) : (b'.bytes ++ rest).length = n + rest.length := by
    rw [List.length_append, b'.length_eq]
  have h := Block.verifies_set_header (IpAddrs.settled_pseudoHeader ha proto (n + rest.length)) hs
    hw (x := []) rfl b rest
  simpa only [IpAddrs.upperSum, hlen, List.nil_append] using h

/-! ### What holds -/

/-- The checksum in an IPv4 header is over that header. -/
def IpHeader.ChecksumHolds : IpHeader → Prop
  | v4 h => (Checksum.compute h.emit).Verifies
  | _ => True

instance (h : IpHeader) : Decidable h.ChecksumHolds := by
  cases h <;> unfold IpHeader.ChecksumHolds <;> infer_instance

namespace Header

/-- The checksums of a header hold, given the addresses of the innermost IP header and the bytes of
everything inside. Without addresses nothing is asked of a checksum over a pseudo-header. -/
def ChecksumsHold (h : Header) (addrs : Option IpAddrs) (inner : Bytes) : Prop :=
  match h with
  | ip c => ∀ h ∈ c.headers, h.ChecksumHolds
  | tcp h => ∀ a ∈ addrs, (a.upperSum IpProtocol.tcp (h.emit ++ inner)).Verifies
  | udp h => ∀ a ∈ addrs, (a.upperSum IpProtocol.udp (h.emit ++ inner)).Verifies ∨
      a.isV4 ∧ h.base.get Udp.checksumSlot = [0, 0]
  | icmp4 h => (Checksum.compute (h.emit ++ inner)).Verifies
  | icmp6 h => ∀ a ∈ addrs, (a.upperSum IpProtocol.icmp6 (h.emit ++ inner)).Verifies
  | _ => True

instance (h : Header) (addrs : Option IpAddrs) (inner : Bytes) :
    Decidable (h.ChecksumsHold addrs inner) := by
  cases h <;> unfold ChecksumsHold <;> infer_instance

/-- Every GRE header that carries a checksum holds it, over itself and everything inside. -/
def GreChecksumsHold (h : Header) (inner : Bytes) : Prop :=
  match h with
  | ip c => ∀ g inside, (.gre g :: inside) <:+ c.headers → g.checksum.isSome →
      (Checksum.compute (g.emit ++ (IpChain.emitHeaders inside ++ inner))).Verifies
  | _ => True

/-- The addresses that a header remembers. -/
def seen? : Header → Option IpAddrs
  | tcp h => h.pseudo.seen
  | udp h => h.pseudo.seen
  | icmp6 h => h.pseudo.seen
  | _ => none

/-- The checksum of a header holds over the addresses it remembers. -/
def Remembers (h : Header) (inner : Bytes) : Prop := h.ChecksumsHold h.seen? inner

end Header

/-! ### TCP, UDP and ICMP -/

/-- Either a checksum is taken as it is, nothing being dirty and the addresses the remembered ones,
or it is computed over the addresses around. -/
theorem PseudoHeader.stale?_cases (p : PseudoHeader) (around : Surroundings) (dirty : Bool) :
    p.stale? around dirty = (p, none) ∧ dirty = false ∧ around.innerDirty = false ∧
        around.addrs = p.seen ∨
      p.stale? around dirty = (⟨around.addrs⟩, around.addrs) := by
  unfold PseudoHeader.stale?
  split
  · exact .inr rfl
  · rename_i h
    simp only [Bool.or_eq_true, bne_iff_ne, not_or, Bool.not_eq_true, ne_eq, not_not] at h
    obtain ⟨⟨⟨hd, -⟩, hi⟩, ha⟩ := h
    exact .inl ⟨rfl, hd, hi, ha⟩

/-- A block with the checksum of an upper-layer packet stored in it, if there are addresses to
compute it over. -/
def Block.restamp {n : Nat} (b : Block n) (s : Slot n) (proto : UInt8) (rest : Bytes) :
    Option IpAddrs → Block n
  | none => b
  | some a => (b.setNum s 0).set s (a.upperSum proto ((b.setNum s 0).bytes ++ rest)).header

theorem Tcp.rebuild_eq (h : Tcp) (around : Surroundings) (dirty : Bool) :
    h.rebuild around dirty = { h with
      base := h.base.restamp checksumSlot IpProtocol.tcp (h.options ++ around.inner)
        (h.pseudo.stale? around dirty).2
      pseudo := (h.pseudo.stale? around dirty).1 } := by
  unfold Tcp.rebuild
  rcases h.pseudo.stale? around dirty with ⟨pseudo, _ | a⟩
  · rfl
  · simp only [Block.restamp, upperLayerChecksum_eq, List.append_assoc]

theorem Icmp6.rebuild_eq (h : Icmp6) (around : Surroundings) (dirty : Bool) :
    h.rebuild around dirty = { h with
      base := h.base.restamp Icmp.checksumSlot IpProtocol.icmp6
        (h.body ++ (h.options.flatMap (·.emit) ++ around.inner)) (h.pseudo.stale? around dirty).2
      pseudo := (h.pseudo.stale? around dirty).1 } := by
  unfold Icmp6.rebuild
  rcases h.pseudo.stale? around dirty with ⟨pseudo, _ | a⟩
  · rfl
  · simp only [Block.restamp, upperLayerChecksum_eq, Icmp6.emit, List.append_assoc]

/-- A UDP checksum that is computed: zero over IPv4, and over IPv6 never zero. -/
theorem Udp.freshChecksum_holds {a : IpAddrs} (ha : a.WellFormed) (base : Block 8)
    (around : Surroundings) (pseudo : PseudoHeader) :
    (Header.udp ⟨(base.setNum checksumSlot 0).set checksumSlot
      (freshChecksum a (base.setNum checksumSlot 0) around), pseudo⟩).ChecksumsHold (some a)
        around.inner := by
  intro a' h'
  cases h'
  unfold freshChecksum
  split
  · rename_i h4
    refine .inr ⟨h4, ?_⟩
    rw [Block.get_set_self]
    rfl
  · left
    by_cases hzero : upperLayerChecksum a IpProtocol.udp (base.setNum checksumSlot 0).bytes around =
        [0, 0]
    · have hlen (b : Block 8) : (b.bytes ++ around.inner).length = 8 + around.inner.length := by
        rw [List.length_append, b.length_eq]
      simp only [if_pos hzero]
      rw [upperLayerChecksum_eq] at hzero
      simp only [Udp.emit, IpAddrs.upperSum, hlen] at hzero ⊢
      exact Block.verifies_set_ones (IpAddrs.settled_pseudoHeader ha _ _) rfl rfl base _ hzero
    · simp only [if_neg hzero]
      exact upperSum_verifies ha _ base rfl rfl _

section Rebuild

variable {around : Surroundings} (haddrs : ∀ a ∈ around.addrs, a.WellFormed) {dirty : Bool}
include haddrs

theorem restamp_holds {n : Nat} {b : Block n} {s : Slot n} (hs : s.start % 2 = 0)
    (hw : s.width = 2) {proto : UInt8} {rest : Bytes} {p : PseudoHeader}
    (hclean : dirty = false → around.innerDirty = false →
      ∀ a ∈ p.seen, (a.upperSum proto (b.bytes ++ rest)).Verifies) :
    (∀ a ∈ around.addrs, (a.upperSum proto
      ((b.restamp s proto rest (p.stale? around dirty).2).bytes ++ rest)).Verifies) ∧
      (p.stale? around dirty).1.seen = around.addrs := by
  obtain ⟨hstale, hd, hi, ha⟩ | hstale := p.stale?_cases around dirty
  · rw [hstale, ha]
    exact ⟨hclean hd hi, rfl⟩
  · rw [hstale]
    refine ⟨fun a ha => ?_, rfl⟩
    rw [Option.mem_def.mp ha]
    exact upperSum_verifies (haddrs a ha) proto b hs hw rest

theorem Tcp.rebuild_holds {h : Tcp}
    (hclean : dirty = false → around.innerDirty = false → (Header.tcp h).Remembers around.inner) :
    (Header.tcp (h.rebuild around dirty)).ChecksumsHold around.addrs around.inner ∧
      (h.rebuild around dirty).pseudo.seen = around.addrs := by
  simp only [Header.Remembers, Header.ChecksumsHold, Header.seen?, Tcp.emit, List.append_assoc,
    Tcp.rebuild_eq] at hclean ⊢
  exact restamp_holds haddrs rfl rfl hclean

theorem Icmp6.rebuild_holds {h : Icmp6}
    (hclean : dirty = false → around.innerDirty = false →
      (Header.icmp6 h).Remembers around.inner) :
    (Header.icmp6 (h.rebuild around dirty)).ChecksumsHold around.addrs around.inner ∧
      (h.rebuild around dirty).pseudo.seen = around.addrs := by
  simp only [Header.Remembers, Header.ChecksumsHold, Header.seen?, Icmp6.emit, List.append_assoc,
    Icmp6.rebuild_eq] at hclean ⊢
  exact restamp_holds haddrs rfl rfl hclean

theorem Udp.rebuild_holds {h : Udp}
    (hclean : dirty = false → around.innerDirty = false → (Header.udp h).Remembers around.inner) :
    (Header.udp (h.rebuild around dirty)).ChecksumsHold around.addrs around.inner ∧
      (h.rebuild around dirty).pseudo.seen = around.addrs := by
  generalize hlen : min (8 + around.innerLen) 65535 = len
  obtain ⟨hs, hd, hi, ha⟩ | hs :=
    h.pseudo.stale?_cases around (dirty || decide (len ≠ h.base.num lengthSlot))
  · simp only [Bool.or_eq_false_iff, decide_eq_false_iff_not, ne_eq, not_not] at hd
    -- The length is the one already there, so stamping it changes nothing.
    have same : h.rebuild around dirty = h := by
      simp only [Udp.rebuild, hlen, hs]
      rw [hd.2, Block.setNum_num]
    rw [same, ha]
    exact ⟨hclean hd.1 hi, rfl⟩
  · cases ha : around.addrs with
    | none =>
      refine ⟨fun a h => ?_, ?_⟩
      · cases h
      · simp only [Udp.rebuild, hlen, hs, ha]
    | some a =>
      simp only [Udp.rebuild, hlen, hs, ha]
      exact ⟨Udp.freshChecksum_holds (haddrs a ha) _ around _, trivial⟩

end Rebuild

theorem Icmp4.rebuild_holds {h : Icmp4} {around : Surroundings} {dirty : Bool}
    (hclean : dirty = false → around.innerDirty = false →
      (Checksum.compute (h.emit ++ around.inner)).Verifies) :
    (Checksum.compute ((h.rebuild around dirty).emit ++ around.inner)).Verifies := by
  unfold Icmp4.rebuild
  split
  · exact Block.verifies_set_header Checksum.settled_zero (s := Icmp.checksumSlot) rfl rfl
      (x := []) rfl h.base around.inner
  · rename_i hd
    simp only [Bool.or_eq_true, not_or, Bool.not_eq_true] at hd
    exact hclean hd.1 hd.2

theorem Header.remembers_of_seen {h : Header} {addrs : Option IpAddrs} {inner : Bytes}
    (hold : h.ChecksumsHold addrs inner) (hseen : h.seen? = addrs) : h.Remembers inner := by
  rw [Header.Remembers, hseen]
  exact hold

/-- Rebuilding an upper-layer header makes its checksum hold, over the addresses around and over
those it remembers from then on. -/
theorem Header.rebuild_holds {h : Header} (hg : h.group = .l4) {around : Surroundings}
    (haddrs : ∀ a ∈ around.addrs, a.WellFormed) {dirty : Bool}
    (hclean : dirty = false → around.innerDirty = false → h.Remembers around.inner) :
    (h.rebuild around dirty).ChecksumsHold around.addrs around.inner ∧
      (h.rebuild around dirty).Remembers around.inner := by
  cases h with
  | tcp h =>
    obtain ⟨hold, hseen⟩ := Tcp.rebuild_holds haddrs hclean
    exact ⟨hold, Header.remembers_of_seen hold hseen⟩
  | udp h =>
    obtain ⟨hold, hseen⟩ := Udp.rebuild_holds haddrs hclean
    exact ⟨hold, Header.remembers_of_seen hold hseen⟩
  | icmp6 h =>
    obtain ⟨hold, hseen⟩ := Icmp6.rebuild_holds haddrs hclean
    exact ⟨hold, Header.remembers_of_seen hold hseen⟩
  | icmp4 h =>
    have hold := Icmp4.rebuild_holds (h := h) hclean
    exact ⟨hold, hold⟩
  | _ => cases hg

end Dataplane

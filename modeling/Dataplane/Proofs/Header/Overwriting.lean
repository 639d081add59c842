import Dataplane.Proofs.Bytes.Arithmetic
import Dataplane.Proofs.Header.Linking
import Dataplane.Proofs.Header.Reloading

/-!
# Overwriting the bytes of a chain

The bytes of a chain of IP headers say what the chain is: the first byte of an IPv4 header gives its
version and its length, the first half byte of an IPv6 header its version, and the first two bytes of
a GRE header the words that are in it. A chain that was parsed describes itself truly; overwritten,
it does so exactly if these bytes are as they were (`IpChain.overwrite_iff`).

Only those of GRE headers are looked at. A write that changes the first byte of an IPv4 header is
accepted, and what is then sent is read as something else (`IpChain.overwrite_misleads`).

## The model

`IpHeader.Begins h b` says that the bytes `b` begin as the header does, as far as the header says
there what it is. `IpChain.EachAt P hs b` says `P` of every header of a list and the bytes that stand
in `b` from its place on.
-/

namespace Dataplane

open Dataplane.Frame

/-! ### One header -/

theorem Bytes.toNat_inj_of_length {b b' : Bytes} (hlen : b.length = b'.length)
    (h : b.toNat = b'.toNat) : b = b' := by
  rw [← ofNat_toNat b, ← ofNat_toNat b', hlen, h]

namespace Ipv4

variable {h h' : Ipv4} {b : Bytes}

theorem num_first (h : Ipv4) : h.base.num firstSlot = Bytes.toNat (h.emit.take 1) := by
  have hbase := h.base.length_eq
  rw [emit, List.take_append_of_le_length (by omega)]
  rfl

/-- Every header that is as long is taken. -/
theorem exists_reload (h : Ipv4) (hlen : b.length = h.wireLen) : ∃ h', h.reload? b = some h' := by
  have hbase : (b.take 20).length = 20 := by
    rw [wireLen] at hlen
    rw [List.length_take]
    omega
  rw [reload?, Block.ofBytes?, dif_pos hbase]
  dsimp only
  rw [if_pos hlen]
  exact ⟨_, rfl⟩

theorem regular_reload_iff (hr : h.Regular) (hlen : b.length = h.wireLen)
    (e : h.reload? b = some h') : h'.Regular ↔ b.take 1 = h.emit.take 1 := by
  have hemit := emit_reload e
  have hown (x : Ipv4) : x.emit.length = x.wireLen := (IpHeader.v4 x).length_emit
  have hwire : h'.wireLen = h.wireLen := by rw [← hown, hemit, hlen]
  have hnum := h'.num_first
  rw [hemit] at hnum
  constructor
  · intro hr'
    have h₁ := hr.version
    have h₂ := hr.length
    have h₃ := hr'.version
    have h₄ := hr'.length
    refine Bytes.toNat_inj_of_length ?_ ?_
    · rw [List.length_take, List.length_take, hlen, hown]
    · rw [← hnum, ← h.num_first]
      omega
  · intro hfirst
    have hsame : h'.base.num firstSlot = h.base.num firstSlot := by
      rw [hnum, hfirst, h.num_first]
    exact ⟨by rw [hsame, hr.version], by rw [hsame, hr.length, hwire]⟩

end Ipv4

namespace Ipv6

variable {h h' : Ipv6} {b : Bytes}

theorem version_eq (h : Ipv6) :
    h.base.bits wordSlot versionBits = Bytes.toNat (h.emit.take 1) / 16 := by
  have hword : h.base.num wordSlot = Bytes.toNat (h.emit.take 1 ++ (h.emit.drop 1).take 3) := by
    rw [← List.take_add]
    rfl
  have hfirst := Bytes.toNat_lt (h.emit.take 1)
  have hlow := Bytes.toNat_lt ((h.emit.drop 1).take 3)
  have hlen : h.emit.length = 40 := h.base.length_eq
  have hlen₁ : (h.emit.take 1).length = 1 := by rw [List.length_take]; omega
  have hlen₃ : ((h.emit.drop 1).take 3).length = 3 := by
    rw [List.length_take, List.length_drop]
    omega
  rw [Block.bits, hword, Bytes.toNat_append, BitRange.read, Nat.shiftRight_eq_div_pow]
  rw [hlen₁] at hfirst
  rw [hlen₃] at hlow ⊢
  show (_ / 2 ^ 28) % 16 = _
  omega

theorem exists_reload (hlen : b.length = 40) : ∃ h, reload? b = some h := by
  rw [reload?, Block.ofBytes?, dif_pos hlen]
  exact ⟨_, rfl⟩

theorem regular_reload_iff (hr : h.Regular) (e : reload? b = some h') :
    h'.Regular ↔ Bytes.toNat (b.take 1) / 16 = Bytes.toNat (h.emit.take 1) / 16 := by
  have hversion : Bytes.toNat (h.emit.take 1) / 16 = 6 := h.version_eq ▸ hr
  rw [hversion, Regular, version_eq, emit_reload e]

end Ipv6

namespace Gre

variable {h h' : Gre} {b : Bytes}

theorem num_flags (h : Gre) : h.base.num flagsSlot = Bytes.toNat (h.emit.take 2) := by
  have hbase := h.base.length_eq
  rw [emit, List.take_append_of_le_length (by omega)]
  rfl

theorem regular_reload (e : h.reload? b = some h') : h'.Regular ∧ h'.flags = h.flags := by
  rw [reload?] at e
  split at e
  · rename_i hread
    split at e
    · rename_i hshape
      cases e
      exact ⟨regular_of_read hread, hshape.2⟩
    · cases e
  · cases e

/-- The first of enough bytes are an optional word, if the word is there. -/
theorem exists_word (word : Option (Block 4)) {n : Nat}
    (hlen : b.length = 4 * word.toList.length + n) :
    ∃ word' : Option (Block 4), ∃ rest : Bytes, word'.isSome = word.isSome ∧
      b = word'.toList.flatMap (·.bytes) ++ rest ∧ rest.length = n := by
  cases word with
  | none => exact ⟨none, b, rfl, rfl, by simpa using hlen⟩
  | some w =>
    have hlen : b.length = 4 + n := hlen
    have htake : (b.take 4).length = 4 := by
      rw [List.length_take]
      omega
    refine ⟨some ⟨b.take 4, htake⟩, b.drop 4, rfl, by simp, ?_⟩
    rw [List.length_drop]
    omega

/-- A header is taken exactly if its first two bytes, which say what is in it, are as they were. -/
theorem exists_reload_iff (hr : h.Regular) (hlen : b.length = h.wireLen) :
    (∃ h', h.reload? b = some h') ↔ b.take 2 = h.emit.take 2 := by
  constructor
  · rintro ⟨h', e⟩
    obtain ⟨hr', hflags⟩ := regular_reload e
    have hnum : h'.base.num flagsSlot = h.base.num flagsSlot := by
      rw [hr'.flagged.known, hr.flagged.known, hflags]
    rw [num_flags, num_flags, emit_reload e] at hnum
    refine Bytes.toNat_inj_of_length ?_ hnum
    rw [List.length_take, List.length_take, hlen, length_emit]
  · intro hflags
    have hwire : h.wireLen = 4 + (4 * h.checksum.toList.length +
        (4 * h.key.toList.length + 4 * h.seq.toList.length)) := by
      simp only [wireLen, words, List.length_append]
      omega
    rw [hwire] at hlen
    have hbase : (b.take 4).length = 4 := by
      rw [List.length_take]
      omega
    have hrest : (b.drop 4).length = 4 * h.checksum.toList.length +
        (4 * h.key.toList.length + 4 * h.seq.toList.length) := by
      rw [List.length_drop]
      omega
    obtain ⟨checksum, b₁, hc, hb₁, hlen₁⟩ := exists_word h.checksum hrest
    obtain ⟨key, b₂, hk, hb₂, hlen₂⟩ := exists_word h.key hlen₁
    obtain ⟨seq, b₃, hs, hb₃, hlen₃⟩ := exists_word h.seq (n := 0) hlen₂
    rw [List.eq_nil_of_length_eq_zero hlen₃, List.append_nil] at hb₃
    let new : Gre := ⟨⟨b.take 4, hbase⟩, checksum, key, seq⟩
    have hemit : new.emit = b := by
      show b.take 4 ++ (checksum.toList ++ key.toList ++ seq.toList).flatMap (·.bytes) = b
      rw [List.flatMap_append, List.flatMap_append, ← hb₃, List.append_assoc, ← hb₂, ← hb₁,
        List.take_append_drop]
    have hnum : new.base.num flagsSlot = h.base.num flagsSlot := by
      rw [num_flags, num_flags, hemit, hflags]
    have hnew : new.Regular := ⟨by rw [hnum, hr.version], hr.flagged.congr hnum hc hk hs⟩
    obtain ⟨f, hread, hunread⟩ := takes_read hnew (.ofBytes b) [] (by rw [hemit, List.append_nil]; rfl)
    refine ⟨new, ?_⟩
    rw [reload?, hread]
    exact if_pos ⟨hunread, by rw [flags, flags, hnum]⟩

end Gre

namespace IpHeader

/-- The bytes begin as the header does, as far as the header says there what it is: its version and
length for IPv4, its version for IPv6, its flags for GRE. -/
def Begins (h : IpHeader) (b : Bytes) : Prop :=
  match h with
  | v4 h => b.take 1 = h.emit.take 1
  | v6 h => Bytes.toNat (b.take 1) / 16 = Bytes.toNat (h.emit.take 1) / 16
  | gre h => b.take 2 = h.emit.take 2

instance (h : IpHeader) (b : Bytes) : Decidable (h.Begins b) :=
  match h with
  | .v4 h => inferInstanceAs (Decidable (b.take 1 = h.emit.take 1))
  | .v6 h =>
    inferInstanceAs (Decidable (Bytes.toNat (b.take 1) / 16 = Bytes.toNat (h.emit.take 1) / 16))
  | .gre h => inferInstanceAs (Decidable (b.take 2 = h.emit.take 2))

variable {h h' : IpHeader} {b : Bytes}

theorem exists_reload_iff (hr : h.Regular) (hlen : b.length = h.wireLen) :
    (∃ h', h.reload? b = some h') ↔ (h.isGre → h.Begins b) := by
  cases h with
  | v4 v =>
    obtain ⟨v', hv⟩ := v.exists_reload hlen
    exact iff_of_true ⟨.v4 v', Option.map_eq_some_iff.mpr ⟨v', hv, rfl⟩⟩ nofun
  | v6 v =>
    obtain ⟨v', hv⟩ := Ipv6.exists_reload hlen
    exact iff_of_true ⟨.v6 v', Option.map_eq_some_iff.mpr ⟨v', hv, rfl⟩⟩ nofun
  | gre g =>
    have hiff := Gre.exists_reload_iff hr hlen
    constructor
    · rintro ⟨h', e⟩ -
      obtain ⟨g', hg, -⟩ := Option.map_eq_some_iff.mp e
      exact hiff.mp ⟨g', hg⟩
    · intro hbegins
      obtain ⟨g', hg⟩ := hiff.mpr (hbegins rfl)
      exact ⟨.gre g', Option.map_eq_some_iff.mpr ⟨g', hg, rfl⟩⟩

theorem regular_reload_iff (hr : h.Regular) (hlen : b.length = h.wireLen)
    (e : h.reload? b = some h') : h'.Regular ↔ h.Begins b := by
  cases h with
  | v4 v =>
    obtain ⟨v', hv, rfl⟩ := Option.map_eq_some_iff.mp e
    exact Ipv4.regular_reload_iff hr hlen hv
  | v6 v =>
    obtain ⟨v', hv, rfl⟩ := Option.map_eq_some_iff.mp e
    exact Ipv6.regular_reload_iff hr hv
  | gre g =>
    obtain ⟨g', hg, rfl⟩ := Option.map_eq_some_iff.mp e
    exact iff_of_true (Gre.regular_reload hg).1 ((Gre.exists_reload_iff hr hlen).mp ⟨g', hg⟩)

/-- A GRE header that is taken describes itself, whatever the bytes. -/
theorem regular_reload_gre (e : h.reload? b = some h') (hg : h'.isGre) : h'.Regular := by
  cases h with
  | gre g =>
    obtain ⟨g', hg', rfl⟩ := Option.map_eq_some_iff.mp e
    exact (Gre.regular_reload hg').1
  | v4 v | v6 v =>
    obtain ⟨_, -, rfl⟩ := Option.map_eq_some_iff.mp e
    cases hg

theorem begins_take (h : IpHeader) : h.Begins (b.take h.wireLen) ↔ h.Begins b := by
  cases h with
  | v4 v =>
    have hpos : min 1 (v4 v).wireLen = 1 := Nat.min_eq_left (v4 v).wireLen_pos
    simp only [Begins, List.take_take, hpos]
  | v6 v =>
    have hpos : min 1 (v6 v).wireLen = 1 := rfl
    simp only [Begins, List.take_take, hpos]
  | gre g =>
    have hpos : min 2 (gre g).wireLen = 2 := by
      simp only [wireLen, Gre.wireLen]
      omega
    simp only [Begins, List.take_take, hpos]

end IpHeader

/-! ### Chains -/

theorem Header.writeInPlace_eq (h : Header) (start : Nat) (val : Bytes) :
    writeInPlace start val h = match h.writeRaw? start val with
      | some h' => .ok () h'
      | none => .error () h := by
  rw [write_inPlace, InPlace.atOnce_apply, InPlace.orNothing, InPlace.orNone]
  cases h.writeRaw? start val <;> rfl

theorem Header.writeInPlace_eq_ok_iff {h h' : Header} {start : Nat} {val : Bytes} :
    writeInPlace start val h = .ok () h' ↔ h.writeRaw? start val = some h' := by
  rw [writeInPlace_eq]
  cases h.writeRaw? start val <;> simp

/-- A write that is refused changes nothing. -/
theorem Header.eq_of_writeInPlace_error {h h' : Header} {start : Nat} {val : Bytes}
    (e : writeInPlace start val h = .error () h') : h' = h := by
  rw [writeInPlace_eq] at e
  cases hraw : h.writeRaw? start val with
  | none =>
    rw [hraw] at e
    cases e
    rfl
  | some _ =>
    rw [hraw] at e
    cases e

namespace IpChain

variable {P : IpHeader → Bytes → Prop} {h : IpHeader} {hs hs' : List IpHeader} {b : Bytes}

/-- Every header of a list is in the relation `P` with the bytes that stand in `b` from its place
on. -/
def EachAt (P : IpHeader → Bytes → Prop) (hs : List IpHeader) (b : Bytes) : Prop :=
  ∀ front h back, hs = front ++ h :: back → P h (b.drop (emitHeaders front).length)

theorem eachAt_cons : EachAt P (h :: hs) b ↔ P h b ∧ EachAt P hs (b.drop h.wireLen) := by
  have hdrop (front : List IpHeader) : b.drop (emitHeaders (h :: front)).length =
      (b.drop h.wireLen).drop (emitHeaders front).length := by
    rw [emitHeaders, List.flatMap_cons, List.length_append, IpHeader.length_emit, List.drop_drop,
      emitHeaders]
  constructor
  · intro hall
    refine ⟨hall [] h hs rfl, fun front x back hsplit => ?_⟩
    rw [← hdrop]
    exact hall (h :: front) x back (by rw [hsplit, List.cons_append])
  · rintro ⟨hfirst, hrest⟩ front x back hsplit
    cases front with
    | nil =>
      cases hsplit
      exact hfirst
    | cons y front =>
      rw [List.cons_append] at hsplit
      obtain ⟨rfl, htail⟩ := List.cons.inj hsplit
      rw [hdrop]
      exact hrest front x back htail

theorem eachAt_nil : EachAt P [] b := by
  intro front h back hsplit
  simp at hsplit

instance decidableEachAt [∀ h b, Decidable (P h b)] :
    (hs : List IpHeader) → (b : Bytes) → Decidable (EachAt P hs b)
  | [], _ => isTrue eachAt_nil
  | h :: hs, b =>
    have := decidableEachAt hs (b.drop h.wireLen)
    decidable_of_iff _ eachAt_cons.symm

section

variable (hr : ∀ h ∈ hs, h.Regular) (hlen : b.length = hs.foldr (·.wireLen + ·) 0)
include hr hlen

/-- Of the headers of a list only the GRE headers look at the bytes they are given. -/
theorem exists_reloadHeaders_iff : (∃ hs', reloadHeaders? hs b = some hs') ↔
    EachAt (fun h b => h.isGre → h.Begins b) hs b := by
  induction hs generalizing b with
  | nil => exact iff_of_true ⟨[], if_pos (List.eq_nil_of_length_eq_zero hlen)⟩ eachAt_nil
  | cons h hs ih =>
    obtain ⟨hfirst, hrest⟩ := List.forall_mem_cons.mp hr
    obtain ⟨hown, hothers⟩ := lengths_of_cons hlen
    rw [eachAt_cons, ← ih hrest hothers, ← h.begins_take, ← IpHeader.exists_reload_iff hfirst hown]
    constructor
    · rintro ⟨hs', e⟩
      obtain ⟨h', rest, -, hh, htail⟩ := reloadHeaders_cons e
      exact ⟨⟨h', hh⟩, rest, htail⟩
    · rintro ⟨⟨h', hh⟩, rest, htail⟩
      exact ⟨h' :: rest, by rw [reloadHeaders?, hh, htail]; rfl⟩

/-- What the headers of a list then say of themselves is true if they begin as they did. -/
theorem regular_reloadHeaders_iff (e : reloadHeaders? hs b = some hs') :
    (∀ h ∈ hs', h.Regular) ↔ EachAt IpHeader.Begins hs b := by
  induction hs generalizing b hs' with
  | nil =>
    obtain ⟨-, rfl⟩ := reloadHeaders_nil e
    exact iff_of_true (by simp) eachAt_nil
  | cons h hs ih =>
    obtain ⟨hfirst, hrest⟩ := List.forall_mem_cons.mp hr
    obtain ⟨hown, hothers⟩ := lengths_of_cons hlen
    obtain ⟨h', rest, rfl, hh, htail⟩ := reloadHeaders_cons e
    rw [List.forall_mem_cons, ih hrest hothers htail, eachAt_cons, ← h.begins_take,
      IpHeader.regular_reload_iff hfirst hown hh]

end

/-- The bytes of a chain, those from `start` on replaced by `val`. -/
def overwritten (c : IpChain) (start : Nat) (val : Bytes) : Bytes :=
  c.emit.take start ++ val ++ c.emit.drop (start + val.length)

theorem length_overwritten {c : IpChain} {start : Nat} {val : Bytes}
    (hfits : start + val.length ≤ c.emit.length) :
    (c.overwritten start val).length = c.headers.foldr (·.wireLen + ·) 0 := by
  have hown : c.emit.length = c.headers.foldr (·.wireLen + ·) 0 := c.length_emit
  rw [overwritten, List.length_append, List.length_append, List.length_take, List.length_drop]
  omega

theorem writeRaw_eq_some_iff {c : IpChain} {start : Nat} {val : Bytes} {h : Header} :
    (Header.ip c).writeRaw? start val = some h ↔ start + val.length ≤ c.emit.length ∧
      ∃ hs, reloadHeaders? c.headers (c.overwritten start val) = some hs ∧
        h = .ip { c with headers := hs } := by
  rw [Header.writeRaw_eq_some_iff]
  refine and_congr_right fun _ => ?_
  rw [Header.reload?, reload?, Option.map_map, Option.map_eq_some_iff]
  simp only [Function.comp_apply, eq_comm (a := h)]
  rfl

/-- A write to a chain that was parsed. It is accepted exactly if it stays within the chain and the
flags of every GRE header stay as they are, and a refusal leaves the chain as it is. After a write
that is accepted the GRE headers describe themselves; all headers do exactly if the version and the
length of every IPv4 header and the version of every IPv6 header have stayed as well. -/
theorem overwrite_iff {kind next : HeaderKind} {f f' : Frame} {c : IpChain}
    (e : read kind f = .ok (c, next, f')) (start : Nat) (val : Bytes) :
    let b := c.overwritten start val
    let write := Header.writeInPlace start val (.ip c)
    ((∃ h, write = .ok () h) ↔ start + val.length ≤ c.emit.length ∧
        EachAt (fun h b => h.isGre → h.Begins b) c.headers b) ∧
      (∀ h, write = .error () h → h = .ip c) ∧
      ∀ h, write = .ok () h → ∃ c', h = .ip c' ∧ c'.emit = b ∧ (Header.ip c).SameShape h ∧
        (∀ v ∈ c'.headers, v.isGre → v.Regular) ∧
        ((∀ v ∈ c'.headers, v.Regular) ↔ EachAt IpHeader.Begins c.headers b) := by
  intro b write
  have hr := (regular_of_read e).regular
  have hok (h : Header) : write = .ok () h ↔ start + val.length ≤ c.emit.length ∧
      ∃ hs, reloadHeaders? c.headers b = some hs ∧ h = .ip { c with headers := hs } :=
    Header.writeInPlace_eq_ok_iff.trans writeRaw_eq_some_iff
  refine ⟨?_, fun h => Header.eq_of_writeInPlace_error, fun h hh => ?_⟩
  · simp only [hok]
    constructor
    · rintro ⟨h, hfits, hs, hreload, rfl⟩
      exact ⟨hfits, (exists_reloadHeaders_iff hr (length_overwritten hfits)).mp ⟨hs, hreload⟩⟩
    · rintro ⟨hfits, hflags⟩
      obtain ⟨hs, hreload⟩ :=
        (exists_reloadHeaders_iff hr (length_overwritten hfits)).mpr hflags
      exact ⟨_, hfits, hs, hreload, rfl⟩
  · obtain ⟨hfits, hs, hreload, rfl⟩ := (hok h).mp hh
    exact ⟨_, rfl, emit_reloadHeaders hreload,
      Header.sameShape_writeRaw (Header.writeInPlace_eq_ok_iff.mp hh),
      forall_of_reload (fun _ _ _ => IpHeader.regular_reload_gre)
        (Option.map_eq_some_iff.mpr ⟨hs, hreload, rfl⟩),
      regular_reloadHeaders_iff hr (length_overwritten hfits) hreload⟩

/-- In a tunnel the end of the outer header, a GRE header and the start of the inner one are
overwritten with bytes that keep what they say of themselves. -/
theorem overwrite_in_tunnel : ∃ b c next f c', read .ip4 (.ofBytes b) = .ok (c, next, f) ∧
    c.headers.map (·.kind) = [.ip4, .gre, .ip6] ∧
    Header.writeInPlace 19 [9, 0, 0, 0x86, 0xDD, 0x6F] (.ip c) = .ok () (.ip c') ∧
    ∀ v ∈ c'.headers, v.Regular := by
  let b : Bytes := [69, 0, 0, 64, 0, 0, 0, 0, 64, 47, 0, 0, 10, 0, 0, 1, 10, 0, 0, 2,
    0, 0, 0x86, 0xDD,
    0x60, 0, 0, 0, 0, 0, 59, 64, 1, 0, 0, 0, 0, 0, 0, 0, 0, 0, 0, 0, 0, 0, 0, 0,
    2, 0, 0, 0, 0, 0, 0, 0, 0, 0, 0, 0, 0, 0, 0, 0]
  let val : Bytes := [9, 0, 0, 0x86, 0xDD, 0x6F]
  have kept : ∃ r ∈ (read .ip4 (.ofBytes b)).toOption,
      r.1.headers.map (·.kind) = [.ip4, .gre, .ip6] ∧ 19 + val.length ≤ r.1.emit.length ∧
        EachAt IpHeader.Begins r.1.headers (r.1.overwritten 19 val) := by
    decide +kernel
  obtain ⟨⟨c, next, f⟩, hread, hkinds, hfits, hbegins⟩ := kept
  have hread := toOption_eq_some_iff.mp hread
  obtain ⟨haccept, -, hafter⟩ := overwrite_iff hread 19 val
  obtain ⟨h, hh⟩ := haccept.mpr
    ⟨hfits, fun front v back hsplit _ => hbegins front v back hsplit⟩
  obtain ⟨c', rfl, -, -, -, hregular⟩ := hafter h hh
  exact ⟨b, c, next, f, c', hread, hkinds, hh, hregular.mpr hbegins⟩

/-- The length that the first byte of an IPv4 header gives is changed, which is accepted. -/
theorem overwrite_misleads : ∃ b c next f c', read .ip4 (.ofBytes b) = .ok (c, next, f) ∧
    Header.writeInPlace 0 [0x46] (.ip c) = .ok () (.ip c') ∧ ∃ v ∈ c'.headers, ¬v.Regular := by
  let base (first : UInt8) : Bytes :=
    [first, 0, 0, 30, 0, 0, 0, 0, 64, 17, 102, 205, 10, 0, 0, 1, 10, 0, 0, 2]
  let datagram : Bytes := [0, 53, 0, 53, 0, 10, 0, 0, 1, 2]
  let v : Ipv4 := ⟨⟨base 0x45, rfl⟩, []⟩
  let v' : Ipv4 := ⟨⟨base 0x46, rfl⟩, []⟩
  have hread : read .ip4 (.ofBytes (base 0x45 ++ datagram)) =
      .ok (⟨[.v4 v], []⟩, .udp, ⟨20, datagram⟩) := by
    exact toOption_eq_some_iff.mp (by decide +kernel)
  have hwrite : (Header.ip ⟨[.v4 v], []⟩).writeRaw? 0 [0x46] = some (.ip ⟨[.v4 v'], []⟩) := by
    decide +kernel
  have hlong : v'.base.num Ipv4.firstSlot % 16 * 4 ≠ v'.wireLen := by decide
  exact ⟨_, _, _, _, ⟨[.v4 v'], []⟩, hread, Header.writeInPlace_eq_ok_iff.mpr hwrite, .v4 v',
    List.mem_singleton_self _, fun hr => hlong hr.length⟩

end IpChain

end Dataplane

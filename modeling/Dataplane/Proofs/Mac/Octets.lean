import Dataplane.Mac
import Dataplane.Proofs.Bytes.Fields
import Mathlib.Data.List.Forall2
import Mathlib.Data.Nat.Digits.Defs
import Mathlib.Tactic.IntervalCases

/-!
# Which texts are MAC addresses

A text is read as an address exactly when it is six octets with single colons between them, and the
address then has the bytes that the octets write, in order (`MacAddr.ofText_eq_ok_iff`).

An octet as one would write it is one or two hexadecimal digits. The reader takes more: any number
of leading zeros, and a plus sign. A text that it reads is six groups of one or two digits exactly
when no group has a sign or a third digit (`MacAddr.ofText_iff`). The display text of an address has
two digits in each group and is read back.

## The model

`IsDigit` gives the sixteen digits in either case as a table, and `Writes` the number that a row of
them writes. `Spells` says that a text is made of one group for each byte of an address; it is used
with `PlainOctet`, the octet as one would write it, and with `ReadOctet`, the octet as it is read.
-/

namespace Dataplane

/-! ### Hexadecimal numbers -/

namespace Bytes

/-- The character is the hexadecimal digit for a number, in either case. -/
def IsDigit (c : Char) (d : Nat) : Prop :=
  "0123456789abcdef".toList[d]? = some c ∨ "0123456789ABCDEF".toList[d]? = some c

instance (c : Char) (d : Nat) : Decidable (IsDigit c d) :=
  inferInstanceAs (Decidable (_ ∨ _))

/-- The digits write the number. -/
def Writes (cs : List Char) (n : Nat) : Prop :=
  ∃ ds, List.Forall₂ IsDigit cs ds ∧ Nat.ofDigits 16 ds.reverse = n

theorem IsDigit.lt {c : Char} {d : Nat} (h : IsDigit c d) : d < 16 := by
  rcases h with h | h <;> exact (List.getElem?_eq_some_iff.mp h).1

theorem isDigit_hexDigit {d : Nat} (h : d < 16) : IsDigit (hexDigit d) d := by
  left
  interval_cases d <;> decide

/-- The characters from `lo` to `hi` are digits if their numbers are those of digits. -/
theorem isDigit_of_between {lo hi c : Char} {base : Nat} (h : lo ≤ c ∧ c ≤ hi)
    (hdigits : ∀ n < hi.toNat + 1, lo.toNat ≤ n → IsDigit (Char.ofNat n) (n - base)) :
    IsDigit c (c.toNat - base) := by
  have hlo : lo.toNat ≤ c.toNat := UInt32.le_iff_toNat_le.mp h.1
  have hhi : c.toNat ≤ hi.toNat := UInt32.le_iff_toNat_le.mp h.2
  have hdigit := hdigits c.toNat (Nat.lt_succ_of_le hhi) hlo
  rwa [Char.ofNat_toNat] at hdigit

/-- The table of the digits is what the reader goes by. -/
theorem hexValue?_eq_some_iff (c : Char) (d : Nat) : hexValue? c = some d ↔ IsDigit c d := by
  constructor
  · intro h
    unfold hexValue? at h
    split_ifs at h with hdecimal hlower hupper <;> cases h
    · exact isDigit_of_between hdecimal (by decide)
    · exact isDigit_of_between hlower (by decide)
    · exact isDigit_of_between hupper (by decide)
  · intro h
    have hd := h.lt
    interval_cases d <;> rcases h with h | h <;> cases h <;> rfl

/-- The digits of a byte write it. -/
theorem writes_hexPair (b : UInt8) : Writes (hexPair b) b.toNat := by
  have hb := b.toNat_lt
  have hhi : IsDigit (hexDigit (b.toNat / 16)) (b.toNat / 16) := isDigit_hexDigit (by omega)
  have hlo : IsDigit (hexDigit (b.toNat % 16)) (b.toNat % 16) := isDigit_hexDigit (by omega)
  refine ⟨[b.toNat / 16, b.toNat % 16], .cons hhi (.cons hlo .nil), ?_⟩
  simp only [List.reverse_cons, List.reverse_nil, List.nil_append, List.cons_append,
    Nat.ofDigits_cons, Nat.ofDigits_nil]
  omega

/-- Neither a sign nor a colon is among the digits of a number. -/
theorem Writes.notMem {cs : List Char} {n : Nat} (h : Writes cs n) {c : Char}
    (hc : hexValue? c = none) : c ∉ cs := by
  obtain ⟨ds, hds, -⟩ := h
  induction hds with
  | nil => exact List.not_mem_nil
  | @cons _ d _ _ hd _ ih =>
    rw [List.mem_cons, not_or]
    refine ⟨?_, ih⟩
    rintro rfl
    rw [(hexValue?_eq_some_iff _ d).mpr hd] at hc
    cases hc

end Bytes

namespace MacAddr

open Bytes (IsDigit Writes)

/-! ### One octet -/

/-- Reading digits goes on from the number that the digits before write. -/
theorem hexNumber?_eq_some_iff (done : Nat) (cs : List Char) (n : Nat) :
    hexNumber? done cs = some n ↔
      ∃ ds, List.Forall₂ IsDigit cs ds ∧
        done * 16 ^ cs.length + Nat.ofDigits 16 ds.reverse = n := by
  induction cs generalizing done with
  | nil => simp [hexNumber?]
  | cons c cs ih =>
    have step (d : Nat) (ds : List Nat) (hlen : cs.length = ds.length) :
        (done * 16 + d) * 16 ^ cs.length + Nat.ofDigits 16 ds.reverse =
          done * 16 ^ (c :: cs).length + Nat.ofDigits 16 (d :: ds).reverse := by
      rw [List.reverse_cons, Nat.ofDigits_append, Nat.ofDigits_singleton, List.length_reverse,
        List.length_cons, hlen]
      ring
    constructor
    · intro h
      unfold hexNumber? at h
      cases hv : Bytes.hexValue? c with
      | none => rw [hv] at h; cases h
      | some d =>
        rw [hv] at h
        obtain ⟨ds, hds, hn⟩ := (ih _).mp h
        exact ⟨d :: ds, .cons ((Bytes.hexValue?_eq_some_iff c d).mp hv) hds,
          (step d ds hds.length_eq).symm.trans hn⟩
    · rintro ⟨_, hds, hn⟩
      cases hds with
      | @cons _ d _ ds hd hds =>
        unfold hexNumber?
        rw [(Bytes.hexValue?_eq_some_iff c d).mpr hd]
        exact (ih _).mpr ⟨ds, hds, (step d ds hds.length_eq).trans hn⟩

theorem hexNumber?_zero (cs : List Char) (n : Nat) : hexNumber? 0 cs = some n ↔ Writes cs n := by
  simp only [hexNumber?_eq_some_iff, Nat.zero_mul, Nat.zero_add, Writes]

/-- An octet as one would write it: one or two digits. -/
def PlainOctet (cs : List Char) (b : UInt8) : Prop :=
  (cs.length = 1 ∨ cs.length = 2) ∧ Writes cs b.toNat

/-- An octet as it is read: digits, as many as there are, and a plus sign before them or not. -/
def ReadOctet (cs : List Char) (b : UInt8) : Prop :=
  ∃ digits, digits ≠ [] ∧ (cs = digits ∨ cs = '+' :: digits) ∧ Writes digits b.toNat

/-- What is left of an octet when its sign is taken off is what the number is read from. -/
theorem readOctet_iff (cs : List Char) (b : UInt8) :
    ReadOctet cs b ↔ unsigned cs ≠ [] ∧ Writes (unsigned cs) b.toNat := by
  constructor
  · rintro ⟨digits, hne, rfl | rfl, hw⟩
    · have hplus : '+' ∉ cs := hw.notMem rfl
      have : unsigned cs = cs := by
        unfold unsigned
        split
        · simp at hplus
        · rfl
      rw [this]
      exact ⟨hne, hw⟩
    · exact ⟨hne, hw⟩
  · rintro ⟨hne, hw⟩
    refine ⟨unsigned cs, hne, ?_, hw⟩
    unfold unsigned
    split
    · exact .inr rfl
    · exact .inl rfl

theorem octet?_eq_some_iff (cs : List Char) (b : UInt8) : octet? cs = some b ↔ ReadOctet cs b := by
  rw [readOctet_iff, ← hexNumber?_zero]
  have hb := b.toNat_lt
  unfold octet?
  split
  · next c cs' n hcs hn =>
    have hne : unsigned cs ≠ [] := by rw [hcs]; exact List.cons_ne_nil _ _
    simp only [hn, Option.some_inj, hne, ne_eq, not_false_eq_true, true_and]
    split
    · next hlt => rw [Option.some_inj, ← UInt8.toNat_inj, UInt8.toNat_ofNat_of_lt' hlt]
    · next hge => exact ⟨nofun, by omega⟩
  · next hno =>
    refine ⟨nofun, ?_⟩
    rintro ⟨hne, hn⟩
    obtain ⟨c, cs', hcs⟩ := List.exists_cons_of_ne_nil hne
    exact (hno c cs' b.toNat hcs hn).elim

/-- A plain octet is one that is read and has neither a sign nor more than two digits. -/
theorem plainOctet_iff (cs : List Char) (b : UInt8) :
    PlainOctet cs b ↔ ReadOctet cs b ∧ cs.head? ≠ some '+' ∧ cs.length ≤ 2 := by
  constructor
  · rintro ⟨hlen, hw⟩
    have hne : cs ≠ [] := by rintro rfl; simp at hlen
    refine ⟨⟨cs, hne, .inl rfl, hw⟩, ?_, by omega⟩
    exact fun h => hw.notMem rfl (List.mem_of_head? h)
  · rintro ⟨⟨digits, hne, rfl | rfl, hw⟩, hplus, hlen⟩
    · have := List.length_pos_iff.mpr hne
      exact ⟨by omega, hw⟩
    · exact (hplus rfl).elim

theorem plainOctet_hexPair (b : UInt8) : PlainOctet (Bytes.hexPair b) b :=
  ⟨.inr rfl, Bytes.writes_hexPair b⟩

theorem ReadOctet.colon_notMem {cs : List Char} {b : UInt8} (h : ReadOctet cs b) : ':' ∉ cs := by
  obtain ⟨digits, -, rfl | rfl, hw⟩ := h
  · exact hw.notMem rfl
  · rw [List.mem_cons, not_or]
    exact ⟨by decide, hw.notMem rfl⟩

/-! ### The whole text -/

/-- The text is made of groups with single colons between them, one group for each byte of the
address, in order. -/
def Spells (octet : List Char → UInt8 → Prop) (s : String) (m : MacAddr) : Prop :=
  ∃ groups, s.toList = [':'].intercalate groups ∧ List.Forall₂ octet groups m.bytes

theorem length_bytes (m : MacAddr) : m.bytes.length = 6 := m.block.length_eq

theorem ofBytes?_eq_some_iff (b : Bytes) (m : MacAddr) : ofBytes? b = some m ↔ b = m.bytes := by
  constructor
  · intro h
    obtain ⟨block, hblock, rfl⟩ := Option.map_eq_some_iff.mp h
    rw [Block.ofBytes?] at hblock
    split_ifs at hblock with hlen
    cases hblock
    rfl
  · intro h
    subst h
    rw [ofBytes?, Block.ofBytes?, dif_pos m.length_bytes]
    rfl

/-- The pieces are the parts of the text between its colons. -/
theorem pieces_eq_splitOn (cs : List Char) : pieces cs = cs.splitOn ':' := by
  induction cs with
  | nil => rfl
  | cons c cs ih =>
    rw [List.splitOn] at ih ⊢
    rw [List.splitOnP_cons_eq_if_modifyHead]
    by_cases hc : c = ':'
    · rw [hc, pieces, ih, beq_self_eq_true, if_pos rfl]
    · rw [pieces.eq_3 c cs hc, ih, if_neg (by simpa using hc)]
      cases hps : List.splitOnP (· == ':') cs with
      | nil => exact (List.splitOnP_ne_nil _ _ hps).elim
      | cons p ps => rfl

/-- Cutting the text at its colons gives the groups back. -/
theorem spells_iff {octet : List Char → UInt8 → Prop}
    (hcolon : ∀ cs b, octet cs b → ':' ∉ cs) (s : String) (m : MacAddr) :
    Spells octet s m ↔ List.Forall₂ octet (s.toList.splitOn ':') m.bytes := by
  constructor
  · rintro ⟨groups, hs, hg⟩
    have hne : groups ≠ [] := by
      rintro rfl
      have := hg.length_eq
      rw [length_bytes] at this
      cases this
    have hno : ∀ g ∈ groups, ':' ∉ g :=
      ((List.forall₂_and_left _ _).mp (hg.imp fun cs b h => ⟨hcolon cs b h, h⟩)).1
    rw [hs, List.splitOn_intercalate _ hno hne]
    exact hg
  · intro h
    exact ⟨_, (List.intercalate_splitOn _).symm, h⟩

/-- While there is room, reading takes the next octet. -/
theorem readOctets_cons_iff (s : String) {done : Bytes} (hroom : done.length < 6)
    (p : List Char) (ps : List (List Char)) (m : MacAddr) :
    readOctets s done (p :: ps) = .ok m ↔
      ∃ b, ReadOctet p b ∧ readOctets s (done ++ [b]) ps = .ok m := by
  simp only [← octet?_eq_some_iff]
  rw [readOctets, if_neg (Nat.ne_of_lt hroom)]
  cases octet? p with
  | none => simp
  | some b => simp

/-- Reading goes on from the bytes read before. -/
theorem readOctets_eq_ok_iff (s : String) (done : Bytes) (ps : List (List Char)) (m : MacAddr)
    (hdone : done.length ≤ 6) :
    readOctets s done ps = .ok m ↔
      ∃ bs, List.Forall₂ ReadOctet ps bs ∧ done ++ bs = m.bytes := by
  induction ps generalizing done with
  | nil =>
    simp only [readOctets, List.forall₂_nil_left_iff, exists_eq_left, List.append_nil,
      ← ofBytes?_eq_some_iff]
    cases ofBytes? done <;> simp
  | cons p ps ih =>
    by_cases hfull : done.length = 6
    · rw [readOctets, if_pos hfull]
      refine iff_of_false nofun ?_
      -- A seventh byte does not fit an address.
      rintro ⟨_, hbs, hm⟩
      cases hbs
      have hlen := congrArg List.length hm
      rw [List.length_append, List.length_cons, length_bytes] at hlen
      omega
    · have hroom : done.length < 6 := Nat.lt_of_le_of_ne hdone hfull
      have hnext (b : UInt8) : (done ++ [b]).length ≤ 6 := by
        rw [List.length_append, List.length_singleton]
        exact hroom
      have hshift (b : UInt8) (bs : Bytes) : done ++ b :: bs = done ++ [b] ++ bs :=
        List.append_cons done b bs
      simp only [readOctets_cons_iff s hroom, ih _ (hnext _), List.forall₂_cons_left_iff]
      constructor
      · rintro ⟨b, hb, bs, hbs, hm⟩
        exact ⟨b :: bs, ⟨b, bs, hb, hbs, rfl⟩, (hshift b bs).trans hm⟩
      · rintro ⟨_, ⟨b, bs, hb, hbs, rfl⟩, hm⟩
        exact ⟨b, hb, bs, hbs, (hshift b bs).symm.trans hm⟩

/-- The texts that are read, and the address each one is read as. -/
theorem ofText_eq_ok_iff (s : String) (m : MacAddr) :
    ofText s = .ok m ↔ Spells ReadOctet s m := by
  rw [spells_iff fun cs b h => h.colon_notMem, ← pieces_eq_splitOn, ofText,
    readOctets_eq_ok_iff _ _ _ _ (Nat.zero_le _)]
  simp only [List.nil_append, exists_eq_right]

/-- The texts of six groups of one or two digits are the ones that are read and have neither a sign
nor a third digit in any group. -/
theorem spells_plainOctet_iff (s : String) (m : MacAddr) :
    Spells PlainOctet s m ↔
      ofText s = .ok m ∧ ∀ g ∈ s.toList.splitOn ':', g.head? ≠ some '+' ∧ g.length ≤ 2 := by
  have hplain (cs : List Char) (b : UInt8) (h : PlainOctet cs b) : ':' ∉ cs :=
    ((plainOctet_iff cs b).mp h).1.colon_notMem
  rw [ofText_eq_ok_iff, spells_iff hplain, spells_iff fun cs b h => h.colon_notMem, and_comm,
    ← List.forall₂_and_left]
  have hiff (cs : List Char) (b : UInt8) : PlainOctet cs b ↔
      (cs.head? ≠ some '+' ∧ cs.length ≤ 2) ∧ ReadOctet cs b :=
    (plainOctet_iff cs b).trans and_comm
  exact ⟨fun h => h.imp fun cs b => (hiff cs b).mp, fun h => h.imp fun cs b => (hiff cs b).mpr⟩

/-- The display text has two digits in each group. -/
theorem spells_text (m : MacAddr) : Spells PlainOctet m.text m := by
  refine ⟨m.bytes.map Bytes.hexPair, ?_, ?_⟩
  · rw [text, String.toList_intercalate, List.map_map]
    congr 1
    apply List.map_congr_left
    intro b _
    simp [Bytes.toHex]
  · rw [List.forall₂_map_left_iff, List.forall₂_same]
    exact fun b _ => plainOctet_hexPair b

/-- A text is read as an address exactly when it is six octets as they are read. These are octets as
one would write them exactly when, if the text is read, no group has a sign or a third digit. The
display text of every address is read back. -/
theorem ofText_iff (s : String) :
    (∀ m, ofText s = .ok m ↔ Spells ReadOctet s m) ∧
      ((∀ m, ofText s = .ok m ↔ Spells PlainOctet s m) ↔
        ∀ m, ofText s = .ok m →
          ∀ g ∈ s.toList.splitOn ':', g.head? ≠ some '+' ∧ g.length ≤ 2) ∧
      ∀ m : MacAddr, ofText m.text = .ok m := by
  refine ⟨ofText_eq_ok_iff s, ?_, fun m => ?_⟩
  · simp only [spells_plainOctet_iff]
    exact forall_congr' fun m => iff_self_and
  · exact ((spells_plainOctet_iff _ _).mp (spells_text m)).1

/-- A sign is read: the text has the six bytes `1, 0, 0, 0, 0, 0`, and its first group is not one or
two digits. -/
theorem ofText_plus :
    ofText "+1:00:00:00:00:00" = .ok ⟨[1, 0, 0, 0, 0, 0], rfl⟩ ∧
      ¬ Spells PlainOctet "+1:00:00:00:00:00" ⟨[1, 0, 0, 0, 0, 0], rfl⟩ := by
  refine ⟨by rfl, fun h => ?_⟩
  have hplus := ((spells_plainOctet_iff _ _).mp h).2 ['+', '1'] (by decide)
  exact hplus.1 rfl

/-- Leading zeros are read in any number. -/
example : ofText "0ff:0:00:000:A:a" = .ok ⟨[0xFF, 0, 0, 0, 10, 10], rfl⟩ := by rfl

end MacAddr

end Dataplane

import Dataplane.Proofs.Bytes.Fields
import Dataplane.Proofs.Checksum.Sum

/-!
# Storing a checksum into what it is the checksum of

A checksum is computed over bytes whose checksum field is zero, and then stored in that field. The
bytes then sum to all ones (`verifies_stamp`), also if a sum of zero is stored as all ones
(`verifies_stamp_ones`). For a field that is a slot of a block, what a write to the slot does to
the sum of the words is `wordSum_set`: the words of the old value go out, those of the new one come
in.
-/

namespace Dataplane

namespace Checksum

section Stamp

variable {c : Checksum} {x y : Bytes}

theorem wordSum_stamp (hx : x.length % 2 = 0) {v : Bytes} (hv : v.length = 2) :
    wordSum (x ++ (v ++ y)) = wordSum (x ++ ([0, 0] ++ y)) + wordSum v := by
  have zeros : wordSum [0, 0] = 0 := rfl
  rw [wordSum_append hx, wordSum_append hx, wordSum_append (by omega), wordSum_append (by simp),
    zeros]
  omega

/-- Bytes with their checksum stored in them sum to all ones. -/
theorem verifies_stamp (hc : c.Settled) (hx : x.length % 2 = 0) :
    (c.add (x ++ ((c.add (x ++ ([0, 0] ++ y))).header ++ y))).Verifies := by
  rw [verifies_add_iff hc, wordSum_stamp hx (by simp), wordSum_header, endAround_add_bytes hc,
    ← Nat.add_assoc]
  generalize c.acc.toNat + wordSum (x ++ ([0, 0] ++ y)) = n at *
  have hlt := endAround_lt n
  have hmod := endAround_mod n
  have hzero := endAround_eq_zero_iff n
  omega

/-- Bytes whose checksum comes out as zero sum to all ones also with all ones stored in them. -/
theorem verifies_stamp_ones (hc : c.Settled) (hx : x.length % 2 = 0)
    (h : (c.add (x ++ ([0, 0] ++ y))).header = [0, 0]) :
    (c.add (x ++ ([0xFF, 0xFF] ++ y))).Verifies := by
  have ones : wordSum [0xFF, 0xFF] = 65535 := rfl
  have hsum := wordSum_header (c.add (x ++ ([0, 0] ++ y)))
  rw [h, endAround_add_bytes hc] at hsum
  have zeros : wordSum [0, 0] = 0 := rfl
  rw [verifies_add_iff hc, wordSum_stamp hx rfl, ones]
  have hlt := endAround_lt (c.acc.toNat + wordSum (x ++ ([0, 0] ++ y)))
  have hmod := endAround_mod (c.acc.toNat + wordSum (x ++ ([0, 0] ++ y)))
  omega

end Stamp

/-- Taking a word out is adding what it lacks to all ones. -/
theorem sumWords_complement {b : Bytes} (hb : b.length % 2 = 0) :
    sumWords (fun w => 0xFFFF - w) b + wordSum b = 65535 * (b.length / 2) := by
  induction b using sumWords.induct with
  | case1 lo hi rest ih =>
    have hw := toNat_word_lt lo hi
    simp only [List.length_cons] at hb ⊢
    have hrest := ih (by omega)
    simp only [wordSum, sumWords, toNat_complement hw, id_eq] at hrest ⊢
    omega
  | case2 last => simp at hb
  | case3 => rfl

end Checksum

namespace Block

open Checksum

variable {n : Nat}

theorem take_set {s : Slot n} {k : Nat} (hk : k ≤ s.start) (b : Block n) (val : Bytes) :
    (b.set s val).bytes.take k = b.bytes.take k := by
  have h := b.length_take_start s
  simp only [set, List.append_assoc]
  rw [List.take_append_of_le_length (by omega), List.take_take, Nat.min_eq_left hk]

theorem drop_set {s : Slot n} {k : Nat} (hk : s.start + s.width ≤ k) (b : Block n) (val : Bytes) :
    (b.set s val).bytes.drop k = b.bytes.drop k := by
  have h := b.length_take_start s
  simp only [set]
  rw [List.drop_append, List.drop_of_length_le (by simp only [List.length_append]; simp; omega),
    List.nil_append, List.drop_drop]
  congr 1
  simp only [List.length_append, h, Bytes.length_resize]
  omega

/-- The sums of the words of two blocks that agree outside a slot differ by what the slot holds. -/
theorem wordSum_of_agree {b b' : Block n} {s : Slot n} (hs : s.start % 2 = 0) (hw : s.width % 2 = 0)
    (htake : b'.bytes.take s.start = b.bytes.take s.start)
    (hdrop : b'.bytes.drop (s.start + s.width) = b.bytes.drop (s.start + s.width)) :
    wordSum b'.bytes + wordSum (b.get s) = wordSum b.bytes + wordSum (b'.get s) := by
  have hx : (b.bytes.take s.start).length % 2 = 0 := by rw [length_take_start, hs]
  have hv : (b.get s).length % 2 = 0 := by rw [length_get, hw]
  have hv' : (b'.get s).length % 2 = 0 := by rw [length_get, hw]
  rw [b.bytes_eq s, b'.bytes_eq s, htake, hdrop, wordSum_append hx, wordSum_append hx,
    wordSum_append hv, wordSum_append hv']
  omega

theorem wordSum_set {s : Slot n} (hs : s.start % 2 = 0) (hw : s.width % 2 = 0) (b : Block n)
    {val : Bytes} (hval : val.length = s.width) :
    wordSum (b.set s val).bytes + wordSum (b.get s) = wordSum b.bytes + wordSum val := by
  have h := wordSum_of_agree hs hw (take_set le_rfl b val) (drop_set le_rfl b val)
  rwa [get_set_self, Bytes.resize_of_length_eq hval] at h

theorem get_eq_singleton (b : Block n) {s : Slot n} (hw : s.width = 1) :
    b.get s = [b.byte s.start] := by
  have hlen := b.length_eq
  have hs := s.fits
  have h0 : s.start < b.bytes.length := by omega
  rw [get, hw, List.drop_eq_getElem_cons h0]
  simp only [List.take_succ_cons, List.take_zero, byte, List.getD_eq_getElem _ _ h0]

theorem get_eq_pair (b : Block n) {s : Slot n} (hw : s.width = 2) :
    b.get s = [b.byte s.start, b.byte (s.start + 1)] := by
  have hlen := b.length_eq
  have hs := s.fits
  have h0 : s.start < b.bytes.length := by omega
  have h1 : s.start + 1 < b.bytes.length := by omega
  rw [get, hw, List.drop_eq_getElem_cons h0, List.drop_eq_getElem_cons h1]
  simp only [List.take_succ_cons, List.take_zero, byte, List.getD_eq_getElem _ _ h0,
    List.getD_eq_getElem _ _ h1]

theorem setNum_zero_bytes (b : Block n) {s : Slot n} (hw : s.width = 2) :
    (b.setNum s 0).bytes =
      b.bytes.take s.start ++ ([0, 0] ++ b.bytes.drop (s.start + s.width)) := by
  have zeros : Bytes.ofNat s.width 0 = [0, 0] := by rw [hw]; rfl
  rw [setNum, zeros, bytes_set b (by simp [hw])]

/-- A block between other bytes, its checksum over all of them stored in a slot of it. -/
theorem verifies_set_header {c : Checksum} (hc : c.Settled) {s : Slot n} (hs : s.start % 2 = 0)
    (hw : s.width = 2) {x : Bytes} (hx : x.length % 2 = 0) (b : Block n) (rest : Bytes) :
    (c.add (x ++ (((b.setNum s 0).set s
      (c.add (x ++ ((b.setNum s 0).bytes ++ rest))).header).bytes ++ rest))).Verifies := by
  have hlen := b.length_take_start s
  have heven : (x ++ b.bytes.take s.start).length % 2 = 0 := by
    rw [List.length_append, hlen]; omega
  have h := verifies_stamp (y := b.bytes.drop (s.start + s.width) ++ rest) hc heven
  rw [bytes_set _ (by simp [hw]), setNum, take_set le_rfl, drop_set le_rfl, ← setNum,
    setNum_zero_bytes b hw]
  simpa only [List.append_assoc] using h

/-- The same where the checksum comes out as zero and all ones are stored in its place. -/
theorem verifies_set_ones {c : Checksum} (hc : c.Settled) {s : Slot n} (hs : s.start % 2 = 0)
    (hw : s.width = 2) (b : Block n) (rest : Bytes)
    (h : (c.add ((b.setNum s 0).bytes ++ rest)).header = [0, 0]) :
    (c.add (((b.setNum s 0).set s [0xFF, 0xFF]).bytes ++ rest)).Verifies := by
  have hlen := b.length_take_start s
  rw [setNum_zero_bytes b hw] at h
  have hv := verifies_stamp_ones (x := b.bytes.take s.start)
    (y := b.bytes.drop (s.start + s.width) ++ rest) hc (by omega)
    (by simpa only [List.append_assoc] using h)
  rw [bytes_set _ (by simp [hw]), setNum, take_set le_rfl, drop_set le_rfl]
  simpa only [List.append_assoc] using hv

end Block

end Dataplane

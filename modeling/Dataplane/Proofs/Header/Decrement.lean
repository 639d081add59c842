import Dataplane.Proofs.Bytes.Arithmetic
import Dataplane.Proofs.Checksum.Replacing
import Dataplane.Proofs.Header.Rereading
import Dataplane.Proofs.Header.Restamping

/-!
# Decrementing the time to live

A decrement adjusts the checksum of an IPv4 header by the word that holds the time to live, and does
not look at the rest of the header. If the checksum was the one that would be computed, it still is:
not only one of two that verify (`Ipv4.decrement_sealed`).

## The model

The header that the checksum is computed over is *cleared*: its checksum field is zero. The word with
the time to live is replaced in it, so the closed sum of the old cleared header is turned into that
of the new one (`Checksum.fold_replace`). This needs a byte that is not zero, and the version is one.
-/

namespace Dataplane

namespace Ipv4

open Checksum

variable {h : Ipv4}

/-- The header with a time to live and a checksum stored. -/
def withHop (h : Ipv4) (ttl sum : Bytes) : Ipv4 :=
  { h with base := (h.base.set ttlSlot ttl).set checksumSlot sum }

/-- A decrement stores a time to live and a checksum. -/
theorem decrementTtl_eq (h : Ipv4) (arg : Bytes) : h.decrementTtl arg =
    h.withHop (FieldOp.dec.apply (h.base.get ttlSlot) arg)
      (((ofHeader (h.base.byte 10) (h.base.byte 11)).sub (h.base.get ttlWordSlot)).add
        ((h.base.update ttlSlot .dec arg).get ttlWordSlot)).header := rfl

/-- Nothing but the time to live and the checksum is touched. -/
theorem getElem?_emit_withHop (h : Ipv4) (ttl sum : Bytes) {i : Nat} (hi : i ∉ [8, 10, 11]) :
    (h.withHop ttl sum).emit[i]? = h.emit[i]? := by
  simp only [List.mem_cons, List.not_mem_nil, or_false, not_or] at hi
  have httl : i < ttlSlot.start ∨ ttlSlot.start + ttlSlot.width ≤ i := by
    simp only [ttlSlot, Slot.start_of, Slot.width_of]
    omega
  have hsum : i < checksumSlot.start ∨ checksumSlot.start + checksumSlot.width ≤ i := by
    simp only [checksumSlot, Slot.start_of, Slot.width_of]
    omega
  have hbytes : (h.withHop ttl sum).base.bytes[i]? = h.base.bytes[i]? := by
    rw [withHop, Block.getElem?_set_outside hsum, Block.getElem?_set_outside httl]
  rw [emit, emit, List.getElem?_append, List.getElem?_append, Block.length_eq, Block.length_eq,
    hbytes]
  rfl

/-- The fixed part with the checksum field zero. -/
def cleared (h : Ipv4) : Block 20 := h.base.setNum checksumSlot 0

theorem cleared_withHop (h : Ipv4) (ttl sum : Bytes) :
    (h.withHop ttl sum).cleared = h.cleared.set ttlSlot ttl := by
  have apart : ttlSlot.Apart checksumSlot := by decide
  rw [cleared, withHop, Block.setNum, Block.set_set, Block.set_comm apart, ← Block.setNum, cleared]

theorem computeChecksum_eq (h : Ipv4) : h.computeChecksum =
    { h with base := h.base.set checksumSlot (ofBytes (h.cleared.bytes ++ h.options)) } := by
  have heven : h.cleared.bytes.length % 2 = 0 := by rw [h.cleared.length_eq]
  have hsum : compute (h.cleared.bytes ++ h.options) =
      (compute h.cleared.bytes).add h.options := by
    rw [compute, add_append heven, ← compute]
  rw [ofBytes, hsum]
  simp only [computeChecksum, cleared, Block.setNum, Block.set_set]

/-- A header is sealed if the checksum stored in it is that of the cleared header. -/
theorem sealed_iff :
    h.Sealed ↔ ofBytes (h.cleared.bytes ++ h.options) = [h.base.byte 10, h.base.byte 11] := by
  have hpair : h.base.get checksumSlot = [h.base.byte 10, h.base.byte 11] :=
    h.base.get_eq_pair (s := checksumSlot) rfl
  rw [Sealed, computeChecksum_eq]
  constructor
  · intro hs
    have hget := congrArg (fun h : Ipv4 => h.base.get checksumSlot) hs
    have hwidth : (ofBytes (h.cleared.bytes ++ h.options)).length = checksumSlot.width := rfl
    simp only [Block.get_set_self] at hget
    rwa [Bytes.resize_of_length_eq hwidth, hpair] at hget
  · intro hsum
    rw [hsum, ← hpair, Block.set_get]

/-- The version is a byte that is not zero. -/
theorem Regular.exists_ne_zero (hr : h.Regular) : ∃ d ∈ h.base.bytes.take 8, d ≠ 0 := by
  by_contra hall
  push Not at hall
  have hzero : h.base.num firstSlot = 0 := by
    have hfirst : h.base.bytes.take 1 ⊆ h.base.bytes.take 8 :=
      List.take_subset_take_left _ (by decide)
    exact Bytes.toNat_eq_zero fun d hd => hall d (hfirst hd)
  have hversion := hr.version
  rw [hzero] at hversion
  cases hversion

/-- A cleared header around the word with the time to live. -/
theorem cleared_eq (h : Ipv4) : h.cleared.bytes ++ h.options = h.base.bytes.take 8 ++
    h.base.get ttlWordSlot ++ (h.cleared.bytes.drop 10 ++ h.options) := by
  have apart : checksumSlot.Apart ttlWordSlot := by decide
  have hword : h.cleared.get ttlWordSlot = h.base.get ttlWordSlot :=
    Block.get_setNum_of_apart apart _ _
  have hfront : h.cleared.bytes.take 8 = h.base.bytes.take 8 :=
    Block.take_set (s := checksumSlot) (by decide) _ _
  have hsplit : h.cleared.bytes = h.base.bytes.take 8 ++
      (h.base.get ttlWordSlot ++ h.cleared.bytes.drop 10) := by
    rw [← hfront, ← hword]
    exact h.cleared.bytes_eq ttlWordSlot
  conv_lhs => rw [hsplit]
  simp only [List.append_assoc]

/-- With another time to live, only the word that holds it is another one. -/
theorem cleared_withHop_eq (h : Ipv4) (ttl sum : Bytes) :
    (h.withHop ttl sum).cleared.bytes ++ h.options = h.base.bytes.take 8 ++
      (h.base.set ttlSlot ttl).get ttlWordSlot ++ (h.cleared.bytes.drop 10 ++ h.options) := by
  have apart : checksumSlot.Apart ttlWordSlot := by decide
  have heq := (h.withHop ttl sum).cleared_eq
  have hword : (h.withHop ttl sum).base.get ttlWordSlot =
      (h.base.set ttlSlot ttl).get ttlWordSlot :=
    Block.get_set_of_apart apart _ _
  have hfront : (h.withHop ttl sum).base.bytes.take 8 = h.base.bytes.take 8 := by
    rw [withHop, Block.take_set (by decide), Block.take_set (by decide)]
  have hback : (h.withHop ttl sum).cleared.bytes.drop 10 = h.cleared.bytes.drop 10 := by
    rw [cleared_withHop, Block.drop_set (by decide)]
  rw [hword, hfront, hback] at heq
  exact heq

theorem sealed_withHop {ttl sum : Bytes} (hlen : sum.length = checksumSlot.width)
    (hsum : ofBytes ((h.withHop ttl sum).cleared.bytes ++ h.options) = sum) :
    (h.withHop ttl sum).Sealed := by
  have hpair : (h.withHop ttl sum).base.get checksumSlot =
      [(h.withHop ttl sum).base.byte 10, (h.withHop ttl sum).base.byte 11] :=
    Block.get_eq_pair _ rfl
  rw [sealed_iff, ← hpair, withHop, Block.get_set_self, Bytes.resize_of_length_eq hlen]
  exact hsum

/-- A decrement of a sealed header leaves it sealed. -/
theorem Sealed.decrementTtl (hs : h.Sealed) (hr : h.Regular) (arg : Bytes) :
    (h.decrementTtl arg).Sealed := by
  set ttl := FieldOp.dec.apply (h.base.get ttlSlot) arg with httl
  set old := h.base.get ttlWordSlot with hold
  set new := (h.base.set ttlSlot ttl).get ttlWordSlot with hnew
  set rest := h.cleared.bytes.drop 10 ++ h.options with hrest
  -- The stored checksum stands for the bytes with the old word.
  have hstored : (compute (h.base.bytes.take 8 ++ old ++ rest)).header =
      [h.base.byte 10, h.base.byte 11] := by
    rw [hold, hrest, ← h.cleared_eq]
    exact sealed_iff.mp hs
  have hopened := (endAround_ofHeader hstored).trans (endAround_compute _)
  have hne : ∃ d ∈ h.base.bytes.take 8 ++ new ++ rest, d ≠ 0 := by
    obtain ⟨d, hd, hne⟩ := hr.exists_ne_zero
    exact ⟨d, List.mem_append_left _ (List.mem_append_left _ hd), hne⟩
  have hfront : (h.base.bytes.take 8).length % 2 = 0 := by simp [h.base.length_eq]
  have hlen : old.length = new.length := by rw [hold, hnew, Block.length_get, Block.length_get]
  have heven : old.length % 2 = 0 := by
    rw [hold, Block.length_get]
    rfl
  -- So the adjusted sum stands for those with the new word.
  have hfold := fold_replace (roomy_ofHeader _ _) hopened hfront hlen heven hne
  rw [decrementTtl_eq]
  refine sealed_withHop rfl ?_
  rw [cleared_withHop_eq, ofBytes]
  exact (header_congr hfold).symm

/-- The time to live after a decrement. -/
theorem ttl_decrementTtl (h : Ipv4) (arg : Bytes) :
    ((h.decrementTtl arg).ttl.toNat : ℤ) = (h.ttl.toNat - arg.toNat) % 256 := by
  have apart : checksumSlot.Apart ttlSlot := by decide
  have hbyte (v : Ipv4) : v.ttl.toNat = Bytes.toNat (v.base.get ttlSlot) := by
    rw [v.base.get_eq_singleton (s := ttlSlot) rfl]
    simp [Bytes.toNat, ttl, ttlSlot]
  have hget : (h.decrementTtl arg).base.get ttlSlot =
      FieldOp.dec.apply (h.base.get ttlSlot) arg := by
    rw [decrementTtl_eq, withHop, Block.get_set_of_apart apart, Block.get_set_self,
      Bytes.resize_of_length_eq (by rw [FieldOp.length_apply, Block.length_get])]
  have hone : (h.base.get ttlSlot).length = 1 := Block.length_get _ _
  rw [hbyte, hget, FieldOp.toNat_apply, FieldOp.number, hone, hbyte, pow_one]

/-- A header that was read and whose checksum is the one that would be computed is decremented by any
operand: the time to live is lowered modulo 256, the header is clean, no byte but the time to live
and the checksum changes, and the checksum is again the one that would be computed. -/
theorem decrement_sealed {f f' : Frame} (hread : read f = .ok (h, f')) (hs : h.Sealed)
    (arg : Bytes) : ∃ h', h.update? .ipHop .dec arg = some (h', false) ∧
      (h'.ttl.toNat : ℤ) = (h.ttl.toNat - arg.toNat) % 256 ∧
      (∀ i ∉ [8, 10, 11], h'.emit[i]? = h.emit[i]?) ∧ h'.Sealed :=
  ⟨h.decrementTtl arg, rfl, h.ttl_decrementTtl arg,
    fun _ hi => h.getElem?_emit_withHop _ _ hi, hs.decrementTtl (regular_of_read hread) arg⟩

/-- A header with an option, a checksum of zero, and a time to live of zero that wraps around. -/
theorem decrement_sealed_wrapping : ∃ f h f' h', read f = .ok (h, f') ∧ h.Sealed ∧
    h.checksum = [0, 0] ∧ h.ttl = 0 ∧ h.update? .ipHop .dec [1] = some (h', false) ∧
    (h'.ttl.toNat : ℤ) = 255 ∧ h'.Sealed := by
  let b : Bytes := [0x46, 0, 0, 24, 0xA3, 0xD2, 0, 0, 0, 17, 0, 0, 10, 0, 0, 1, 10, 0, 0, 2,
    1, 1, 1, 0]
  have hread : ∃ r ∈ (read (.ofBytes b)).toOption,
      r.1.Sealed ∧ r.1.checksum = [0, 0] ∧ r.1.ttl = 0 := by
    decide +kernel
  obtain ⟨⟨h, f'⟩, hread, hs, hsum, hzero⟩ := hread
  have hread := toOption_eq_some_iff.mp hread
  obtain ⟨h', hupdate, httl, -, hs'⟩ := decrement_sealed hread hs [1]
  dsimp only at hzero
  rw [hzero] at httl
  exact ⟨_, h, f', h', hread, hs, hsum, hzero, hupdate, httl, hs'⟩

end Ipv4

end Dataplane

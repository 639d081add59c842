import Dataplane.Proofs.Checksum.NetworkOrder
import Dataplane.Proofs.Checksum.Stamp

/-!
# Replacing bytes under a checksum

When some whole words are overwritten, the sum over everything need not be taken again: the old
words are taken out and the new ones are added. The result is the sum of the new bytes, zero and all
ones told apart, unless the new bytes are all zero (`Checksum.fold_of_replaced`).

## The model

Taking words out adds their complements, so the accumulator goes up by a multiple of 65535 that a
fresh sum would not have. Folding drops it, provided the rest of the sum is not zero
(`endAround_add_mul`); that is where zero bytes are the exception. An accumulator to which an odd
tail has been added may have its top bit set, but it still has room for a word (`Roomy`), and the
next word settles it.
-/

namespace Dataplane

namespace Checksum

variable {c : Checksum} {f : UInt32 → UInt32} {acc : UInt32} {b x old new y : Bytes}

/-! ### Accumulators with room -/

/-- The accumulator has room for one more word. -/
def Roomy (c : Checksum) : Prop := c.acc.toNat < 2 ^ 32 - 2 ^ 16

theorem addWords_lt (hf : ∀ lo hi, (f (word lo hi)).toNat < 65536) (hacc : acc.toNat < 2 ^ 31) :
    (addWords f acc b).toNat < 2 ^ 31 + 2 ^ 16 := by
  induction acc, b using addWords.induct (f := f) with
  | case1 acc lo hi rest ih => exact ih (addWord_spec (by omega) (hf lo hi)).1
  | case2 acc last =>
    have hl := hf last 0
    rw [addWords, UInt32.toNat_add]
    omega
  | case3 acc =>
    rw [addWords]
    omega

/-- An odd tail leaves room. -/
theorem roomy_compute (b : Bytes) : (compute b).Roomy := by
  have h := addWords_lt (f := id) (b := b) toNat_word_lt settled_zero
  exact h.trans (by decide)

/-- Whole words may be added as long as there is room for one. -/
theorem addWords_of_room (hf : ∀ lo hi, (f (word lo hi)).toNat < 65536)
    (hacc : acc.toNat < 2 ^ 32 - 2 ^ 16) (hb : b.length % 2 = 0) :
    endAround (addWords f acc b).toNat = endAround (acc.toNat + sumWords f b) ∧
      (addWords f acc b).toNat < 2 ^ 32 - 2 ^ 16 := by
  match b with
  | [] => exact ⟨rfl, hacc⟩
  | [_] => cases hb
  | lo :: hi :: rest =>
    rw [List.length_cons, List.length_cons] at hb
    obtain ⟨hsettled, hword⟩ := addWord_spec hacc (hf lo hi)
    obtain ⟨hsum, hlt⟩ := addWords_spec hf hsettled rest
    refine ⟨?_, (hlt (by omega)).trans (by decide)⟩
    rw [addWords, hsum, endAround_congr hword, sumWords, Nat.add_assoc]

/-- What a sum comes to when words are taken out and others are added. -/
theorem endAround_sub_add (hc : c.Roomy) (hold : old.length % 2 = 0) (hnew : new.length % 2 = 0) :
    endAround ((c.sub old).add new).acc.toNat =
      endAround (c.acc.toNat + sumWords (fun w => 0xFFFF - w) old + wordSum new) := by
  obtain ⟨hsub, hroom⟩ := addWords_of_room toNat_complement_word_lt hc hold
  obtain ⟨hadd, -⟩ := addWords_of_room (f := id) toNat_word_lt hroom hnew
  exact hadd.trans (endAround_congr hsub _)

/-! ### Replacing -/

/-- A multiple of 65535 makes no difference to a sum that is not zero. -/
theorem endAround_add_mul {n : Nat} (hn : n ≠ 0) (k : Nat) :
    endAround (n + 65535 * k) = endAround n := by
  have hpred : n + 65535 * k - 1 = n - 1 + 65535 * k := by omega
  rw [endAround, endAround, if_neg hn, if_neg (by omega), hpred, Nat.add_mul_mod_self_left]

theorem wordSum_ne_zero (h : ∃ d ∈ b, d ≠ 0) : wordSum b ≠ 0 := by
  obtain ⟨d, hd, hne⟩ := h
  exact fun hzero => hne (eq_zero_of_wordSum_eq_zero hzero d hd)

theorem wordSum_around (hx : x.length % 2 = 0) (hold : old.length % 2 = 0) :
    wordSum (x ++ old ++ y) = wordSum x + wordSum old + wordSum y := by
  rw [List.append_assoc, wordSum_append hx, wordSum_append hold, Nat.add_assoc]

/-- Where a sum stands for some bytes, it stands for the new bytes once the old words have been taken
out and the new ones added. -/
theorem fold_replace (hc : c.Roomy)
    (hsum : endAround c.acc.toNat = endAround (wordSum (x ++ old ++ y)))
    (hx : x.length % 2 = 0) (hlen : old.length = new.length) (hold : old.length % 2 = 0)
    (hne : ∃ d ∈ x ++ new ++ y, d ≠ 0) :
    ((c.sub old).add new).fold = (compute (x ++ new ++ y)).fold := by
  have hnew : new.length % 2 = 0 := hlen ▸ hold
  have hcomplement := sumWords_complement hold
  have hbefore := wordSum_around (y := y) hx hold
  have hafter := wordSum_around (y := y) hx hnew
  rw [fold_eq_iff, endAround_compute, endAround_sub_add hc hold hnew, Nat.add_assoc,
    endAround_congr hsum, ← endAround_add_mul (wordSum_ne_zero hne) (old.length / 2)]
  exact congrArg endAround (by omega)

/-- A closed sum is opened as the folded sum. -/
theorem toNat_ofHeader {lo hi : UInt8} (h : c.header = [lo, hi]) :
    (ofHeader lo hi).acc.toNat = endAround c.acc.toNat := by
  have hlt := endAround_lt c.acc.toNat
  have hclosed := wordSum_header c
  rw [h, wordSum, sumWords, sumWords, id, Nat.add_zero] at hclosed
  rw [ofHeader, toNat_complement (toNat_word_lt lo hi), hclosed]
  omega

theorem endAround_ofHeader {lo hi : UInt8} (h : c.header = [lo, hi]) :
    endAround (ofHeader lo hi).acc.toNat = endAround c.acc.toNat := by
  rw [toNat_ofHeader h, endAround_of_lt (endAround_lt _)]

theorem roomy_ofHeader (lo hi : UInt8) : (ofHeader lo hi).Roomy := by
  have h := toNat_complement_word_lt lo hi
  exact h.trans (by decide)

/-- Whole words of a byte string are replaced: the sum of the byte string, or the sum that its closed
checksum stands for, becomes the sum of the new bytes when the old words are taken out and the new
ones added, unless all of the new bytes are zero. -/
theorem fold_of_replaced (hx : x.length % 2 = 0) (hlen : old.length = new.length)
    (hold : old.length % 2 = 0) (hne : ∃ d ∈ x ++ new ++ y, d ≠ 0) :
    (((compute (x ++ old ++ y)).sub old).add new).fold = (compute (x ++ new ++ y)).fold ∧
      ∃ lo hi, (compute (x ++ old ++ y)).header = [lo, hi] ∧
        (((ofHeader lo hi).sub old).add new).fold = (compute (x ++ new ++ y)).fold := by
  have hsum := endAround_compute (x ++ old ++ y)
  refine ⟨fold_replace (roomy_compute _) hsum hx hlen hold hne, ?_⟩
  obtain ⟨lo, hi, hclosed⟩ : ∃ lo hi, (compute (x ++ old ++ y)).header = [lo, hi] :=
    ⟨_, _, rfl⟩
  have hopened := (endAround_ofHeader hclosed).trans hsum
  exact ⟨lo, hi, hclosed, fold_replace (roomy_ofHeader lo hi) hopened hx hlen hold hne⟩

/-- Words that sum to all ones are replaced by zeros, before an odd byte. -/
theorem fold_of_replaced_ones :
    (((compute [0x12, 0x34, 0xFF, 0xFF, 0x56]).sub [0xFF, 0xFF]).add [0, 0]).fold =
      (compute [0x12, 0x34, 0, 0, 0x56]).fold :=
  (@fold_of_replaced [0x12, 0x34] [0xFF, 0xFF] [0, 0] [0x56] rfl rfl rfl
    ⟨0x12, by decide, by decide⟩).1

/-- With zero bytes the exception is real: the replaced sum is all ones and the fresh one is zero. -/
example : (((compute [0xFF, 0xFF]).sub [0xFF, 0xFF]).add [0, 0]).fold ≠ (compute [0, 0]).fold := by
  decide

end Checksum

end Dataplane

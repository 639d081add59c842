import Dataplane.Checksum
import Mathlib.Data.Nat.Bitwise

/-!
# What a checksum is the sum of

A folded sum is a number: the sum of the words of the bytes, every carry added back in at the low
end (`endAround`). A range of bytes that holds its own checksum at an even place sums to all ones.

## The model

`sumWords f b` is the plain sum of the words of `b`, each passed through `f`; adding to an
accumulator adds that number, as far as `endAround` can tell, provided the accumulator has its top
bit clear to begin with (`Settled`). So statements on checksums become statements on numbers:
`Verifies` says that `endAround` is 65535, which means divisible by 65535 and not zero.
-/

namespace Dataplane

namespace Checksum

/-! ### Carries -/

/-- The sixteen bits left of a sum when every carry has been added back in at the low end. -/
def endAround (n : Nat) : Nat := if n = 0 then 0 else (n - 1) % 65535 + 1

theorem endAround_lt (n : Nat) : endAround n < 65536 := by
  unfold endAround
  split_ifs <;> omega

theorem endAround_of_lt {n : Nat} (h : n < 65536) : endAround n = n := by
  unfold endAround
  split_ifs <;> omega

/-- One fold loses nothing. -/
theorem endAround_fold (n : Nat) : endAround (n / 65536 + n % 65536) = endAround n := by
  unfold endAround
  split_ifs <;> omega

theorem endAround_add (a b : Nat) : endAround (endAround a + b) = endAround (a + b) := by
  by_cases ha : a = 0
  · simp [ha, endAround]
  · have h : endAround a = (a - 1) % 65535 + 1 := if_neg ha
    rw [h]
    unfold endAround
    split_ifs <;> omega

theorem endAround_congr {a a' : Nat} (h : endAround a = endAround a') (b : Nat) :
    endAround (a + b) = endAround (a' + b) := by
  rw [← endAround_add a, h, endAround_add]

theorem endAround_eq_iff (n : Nat) : endAround n = 65535 ↔ n ≠ 0 ∧ n % 65535 = 0 := by
  unfold endAround
  split_ifs with h
  · simp [h]
  · omega

theorem endAround_eq_zero_iff (n : Nat) : endAround n = 0 ↔ n = 0 := by
  unfold endAround
  split_ifs with h <;> simp [h]

theorem endAround_mod (n : Nat) : endAround n % 65535 = n % 65535 := by
  unfold endAround
  split_ifs with h
  · rw [h]
  · rw [Nat.mod_add_mod, Nat.sub_add_cancel (by omega)]

theorem toNat_lowHalf (a : UInt32) : (a &&& 0xFFFF).toNat = a.toNat % 65536 := by
  rw [UInt32.toNat_and]
  exact Nat.and_two_pow_sub_one_eq_mod a.toNat 16

theorem toNat_highHalf (a : UInt32) : (a >>> 16).toNat = a.toNat / 65536 := by
  rw [UInt32.toNat_shiftRight]
  simp [Nat.shiftRight_eq_div_pow]

theorem toNat_foldOnce (a : UInt32) : (foldOnce a).toNat = a.toNat / 65536 + a.toNat % 65536 := by
  have ha := a.toNat_lt
  rw [foldOnce, UInt32.toNat_add, toNat_lowHalf, toNat_highHalf]
  omega

/-- Two folds take in every carry. -/
theorem toNat_fold (c : Checksum) : c.fold.acc.toNat = endAround c.acc.toNat := by
  have h := c.acc.toNat_lt
  rw [← endAround_fold, ← endAround_fold (_ + _), fold]
  simp only [toNat_foldOnce]
  rw [endAround_of_lt (by omega)]

/-! ### Adding words -/

/-- The accumulator has its top bit clear. -/
def Settled (c : Checksum) : Prop := c.acc.toNat < 2 ^ 31

theorem settled_zero : zero.Settled := by simp [Settled, zero]

theorem toNat_word (lo hi : UInt8) : (word lo hi).toNat = lo.toNat + 256 * hi.toNat := by
  have hl := lo.toNat_lt
  have hh := hi.toNat_lt
  have shifted : (hi.toUInt32 <<< 8).toNat = 256 * hi.toNat := by
    rw [UInt32.toNat_shiftLeft, UInt8.toNat_toUInt32]
    simp only [UInt32.reduceToNat, Nat.reduceMod, Nat.shiftLeft_eq]
    omega
  rw [word, UInt32.toNat_add, shifted, UInt8.toNat_toUInt32]
  omega

theorem toNat_word_lt (lo hi : UInt8) : (word lo hi).toNat < 65536 := by
  have hl := lo.toNat_lt
  have hh := hi.toNat_lt
  rw [toNat_word]
  omega

theorem topBit_eq_zero_iff (a : UInt32) : a &&& 0x80000000 = 0 ↔ a.toNat < 2 ^ 31 := by
  have ha := a.toNat_lt
  rw [← UInt32.toNat_inj, UInt32.toNat_and]
  have top : (0x80000000 : UInt32).toNat = 2 ^ 31 := rfl
  rw [top, Nat.and_two_pow, Nat.testBit_eq_decide_div_mod_eq]
  by_cases h : a.toNat / 2 ^ 31 % 2 = 1
  · simp only [h, decide_true, Bool.toNat_true, UInt32.toNat_zero]
    omega
  · simp only [h, decide_false, Bool.toNat_false, UInt32.toNat_zero]
    omega

/-- Adding a word to an accumulator that has room for it leaves it settled. -/
theorem addWord_spec {acc w : UInt32} (hacc : acc.toNat < 2 ^ 32 - 2 ^ 16) (hw : w.toNat < 65536) :
    (addWord acc w).toNat < 2 ^ 31 ∧
      endAround (addWord acc w).toNat = endAround (acc.toNat + w.toNat) := by
  have hsum : (acc + w).toNat = acc.toNat + w.toNat := by rw [UInt32.toNat_add]; omega
  unfold addWord
  by_cases h : (acc + w) &&& 0x80000000 = 0
  · simp only [h, ne_eq, not_true_eq_false, if_false]
    exact ⟨(topBit_eq_zero_iff _).mp h, by rw [hsum]⟩
  · simp only [h, ne_eq, not_false_eq_true, if_true]
    rw [toNat_foldOnce, endAround_fold, hsum]
    exact ⟨by omega, rfl⟩

/-- The sum of the words of a byte string, each passed through `f`. -/
def sumWords (f : UInt32 → UInt32) : Bytes → Nat
  | lo :: hi :: rest => (f (word lo hi)).toNat + sumWords f rest
  | [last] => (f (word last 0)).toNat
  | [] => 0

/-- The sum of the words of a byte string. -/
def wordSum (b : Bytes) : Nat := sumWords id b

theorem sumWords_append (f : UInt32 → UInt32) {x : Bytes} (hx : x.length % 2 = 0) (y : Bytes) :
    sumWords f (x ++ y) = sumWords f x + sumWords f y := by
  induction x using sumWords.induct with
  | case1 lo hi rest ih =>
    simp only [List.length_cons] at hx
    simp only [List.cons_append, sumWords, ih (by omega), Nat.add_assoc]
  | case2 last => simp at hx
  | case3 => simp [sumWords]

theorem wordSum_append {x : Bytes} (hx : x.length % 2 = 0) (y : Bytes) :
    wordSum (x ++ y) = wordSum x + wordSum y := sumWords_append id hx y

/-- Only zero bytes have no sum. -/
theorem eq_zero_of_wordSum_eq_zero {b : Bytes} (h : wordSum b = 0) : ∀ d ∈ b, d = 0 := by
  induction b using sumWords.induct with
  | case1 lo hi rest ih =>
    simp only [wordSum, sumWords, id_eq, toNat_word] at h ih
    have hlo : lo = 0 := UInt8.toNat_inj.mp (by simp only [UInt8.toNat_zero]; omega)
    have hhi : hi = 0 := UInt8.toNat_inj.mp (by simp only [UInt8.toNat_zero]; omega)
    intro d hd
    simp only [List.mem_cons] at hd
    obtain rfl | rfl | hd := hd
    · exact hlo
    · exact hhi
    · exact ih (by omega) d hd
  | case2 last =>
    simp only [wordSum, sumWords, id_eq, toNat_word] at h
    intro d hd
    rw [List.mem_singleton.mp hd]
    exact UInt8.toNat_inj.mp (by simp only [UInt8.toNat_zero]; omega)
  | case3 => simp

theorem addWords_append {f : UInt32 → UInt32} {x : Bytes} (hx : x.length % 2 = 0) (acc : UInt32)
    (y : Bytes) : addWords f acc (x ++ y) = addWords f (addWords f acc x) y := by
  induction acc, x using addWords.induct (f := f) with
  | case1 acc lo hi rest ih =>
    simp only [List.length_cons] at hx
    simp only [List.cons_append, addWords, ih (by omega)]
  | case2 acc last => simp at hx
  | case3 acc => rfl

theorem addWords_spec {f : UInt32 → UInt32} (hf : ∀ lo hi, (f (word lo hi)).toNat < 65536)
    {acc : UInt32} (hacc : acc.toNat < 2 ^ 31) (b : Bytes) :
    endAround (addWords f acc b).toNat = endAround (acc.toNat + sumWords f b) ∧
      (b.length % 2 = 0 → (addWords f acc b).toNat < 2 ^ 31) := by
  induction acc, b using addWords.induct (f := f) with
  | case1 acc lo hi rest ih =>
    obtain ⟨hlt, hsum⟩ := addWord_spec (hacc.trans (by decide)) (hf lo hi)
    obtain ⟨h1, h2⟩ := ih hlt
    refine ⟨?_, fun hb => h2 (by simp only [List.length_cons] at hb; omega)⟩
    rw [addWords, h1, endAround_congr hsum, sumWords, Nat.add_assoc]
  | case2 acc last =>
    have hl := hf last 0
    refine ⟨?_, fun hb => by simp at hb⟩
    rw [addWords, sumWords, UInt32.toNat_add]
    congr 1
    omega
  | case3 acc => exact ⟨by simp [addWords, sumWords], fun _ => by simpa [addWords] using hacc⟩

theorem endAround_add_bytes {c : Checksum} (hc : c.Settled) (b : Bytes) :
    endAround (c.add b).acc.toNat = endAround (c.acc.toNat + wordSum b) :=
  (addWords_spec (f := id) toNat_word_lt hc b).1

/-- Whole words may be added before the rest. -/
theorem add_append {x : Bytes} (hx : x.length % 2 = 0) (c : Checksum) (y : Bytes) :
    c.add (x ++ y) = (c.add x).add y := by
  rw [add, addWords_append hx]
  rfl

/-- A sum to which whole words are added stays settled. -/
theorem Settled.add {c : Checksum} (hc : c.Settled) {b : Bytes} (hb : b.length % 2 = 0) :
    (c.add b).Settled :=
  (addWords_spec (f := id) toNat_word_lt hc b).2 hb

theorem toNat_complement {w : UInt32} (h : w.toNat < 65536) :
    (0xFFFF - w).toNat = 65535 - w.toNat := by
  rw [UInt32.toNat_sub_of_le]
  · rfl
  · rw [UInt32.le_iff_toNat_le]
    change w.toNat ≤ 65535
    omega

theorem toNat_complement_word_lt (lo hi : UInt8) : (0xFFFF - word lo hi).toNat < 65536 := by
  have h := toNat_word_lt lo hi
  rw [toNat_complement h]
  omega

theorem endAround_sub_bytes {c : Checksum} (hc : c.Settled) (b : Bytes) :
    endAround (c.sub b).acc.toNat =
      endAround (c.acc.toNat + sumWords (fun w => 0xFFFF - w) b) :=
  (addWords_spec (f := fun w => 0xFFFF - w) toNat_complement_word_lt hc b).1

theorem Settled.sub {c : Checksum} (hc : c.Settled) {b : Bytes} (hb : b.length % 2 = 0) :
    (c.sub b).Settled :=
  (addWords_spec (f := fun w => 0xFFFF - w) toNat_complement_word_lt hc b).2 hb

/-! ### Sums that verify -/

/-- The sum of a range that holds its own checksum: all ones. -/
def Verifies (c : Checksum) : Prop := c.sumBytes = [0xFF, 0xFF]

instance (c : Checksum) : Decidable c.Verifies := by unfold Verifies; infer_instance

/-- The folded sum, low byte first. -/
theorem sumBytes_eq (c : Checksum) :
    c.sumBytes =
      [UInt8.ofNat (endAround c.acc.toNat), UInt8.ofNat (endAround c.acc.toNat / 256)] := by
  have h := endAround_lt c.acc.toNat
  rw [sumBytes, ← toNat_fold] at *
  simp only [List.cons.injEq, and_true]
  constructor
  · rw [← UInt8.toNat_inj]
    simp
  · rw [← UInt8.toNat_inj]
    simp [Nat.shiftRight_eq_div_pow]

theorem verifies_iff (c : Checksum) : c.Verifies ↔ endAround c.acc.toNat = 65535 := by
  have h := endAround_lt c.acc.toNat
  rw [Verifies, sumBytes_eq]
  simp only [List.cons.injEq, and_true, ← UInt8.toNat_inj, UInt8.toNat_ofNat', UInt8.reduceToNat]
  omega

theorem verifies_add_iff {c : Checksum} (hc : c.Settled) (b : Bytes) :
    (c.add b).Verifies ↔ c.acc.toNat + wordSum b ≠ 0 ∧ (c.acc.toNat + wordSum b) % 65535 = 0 := by
  rw [verifies_iff, endAround_add_bytes hc, endAround_eq_iff]

theorem verifies_compute_iff (b : Bytes) :
    (compute b).Verifies ↔ wordSum b ≠ 0 ∧ wordSum b % 65535 = 0 := by
  have hz : zero.acc.toNat = 0 := rfl
  rw [compute, verifies_add_iff settled_zero, hz, Nat.zero_add]

/-- The words of a closed checksum complement the sum. -/
theorem wordSum_header (c : Checksum) : wordSum c.header = 65535 - endAround c.acc.toNat := by
  have h := endAround_lt c.acc.toNat
  have hsize : UInt8.size = 256 := rfl
  rw [header, sumBytes_eq]
  simp only [List.map_cons, List.map_nil, wordSum, sumWords, id_eq, toNat_word, UInt8.toNat_not,
    UInt8.toNat_ofNat', hsize]
  omega

end Checksum

end Dataplane

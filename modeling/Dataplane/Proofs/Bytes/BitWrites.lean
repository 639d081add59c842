import Dataplane.Bytes.Bits
import Dataplane.Proofs.Bytes.Arithmetic

/-!
# Bit operations on numbers

Bit operations go over the bytes or the bits of a field one by one. Seen as numbers, writing bits
replaces a range of them (`Bytes.testBit_writeBits`), and combining a field with a shorter operand
keeps the bits above those of the operand (`Bytes.testBit_and`, `Bytes.toNat_or`).
-/

namespace Dataplane.Bytes

/-! ### The bits of a number in its bytes -/

theorem testBit_eq_false {b : Bytes} {i : Nat} (h : 8 * b.length ≤ i) :
    b.toNat.testBit i = false := by
  refine Nat.testBit_lt_two_pow ((toNat_lt b).trans_le ?_)
  rw [show 256 = 2 ^ 8 from rfl, ← pow_mul]
  exact Nat.pow_le_pow_right (by decide) h

/-- The bits of a number are those of the bytes that write it, from the last byte on. -/
theorem testBit_toNat {b : Bytes} {i : Nat} (h : i < 8 * b.length) :
    b.toNat.testBit i = (b.getD (b.length - 1 - i / 8) 0).toNat.testBit (i % 8) := by
  have hbit := bit_eq_testBit (show 8 * b.length - 1 - i < 8 * b.length by omega)
  have hpos : 8 * b.length - 1 - (8 * b.length - 1 - i) = i := by omega
  have hbyte : (8 * b.length - 1 - i) / 8 = b.length - 1 - i / 8 := by omega
  have hplace : 7 - (8 * b.length - 1 - i) % 8 = i % 8 := by omega
  rw [hpos] at hbit
  rw [← hbit, bit, hbyte, hplace]

/-! ### Bits of a byte -/

section Byte

variable {k : Nat} (hk : k < 8) (d : UInt8)
include hk

theorem toNat_ofNat_mod : (UInt8.ofNat k).toNat % 8 = k := by
  rw [UInt8.toNat_ofNat']
  omega

theorem toNat_mask : ((1 : UInt8) <<< UInt8.ofNat k).toNat = 2 ^ k := by
  have hlt : 2 ^ k < 2 ^ 8 := Nat.pow_lt_pow_right (by decide) hk
  rw [UInt8.toNat_shiftLeft, toNat_ofNat_mod hk, show (1 : UInt8).toNat = 1 from rfl,
    Nat.one_shiftLeft, Nat.mod_eq_of_lt hlt]

/-- A byte shifted down and cut to one bit. -/
theorem testBit_shifted : decide (d >>> UInt8.ofNat k &&& 1 = 1) = d.toNat.testBit k := by
  have hone : d >>> UInt8.ofNat k &&& 1 = 1 ↔ d.toNat / 2 ^ k % 2 = 1 := by
    rw [← UInt8.toNat_inj, UInt8.toNat_and, UInt8.toNat_shiftRight, toNat_ofNat_mod hk,
      show (1 : UInt8).toNat = 1 from rfl, Nat.and_one_is_mod, Nat.shiftRight_eq_div_pow]
  rw [decide_eq_decide.mpr hone, Nat.testBit_eq_decide_div_mod_eq]

/-- A byte with one bit set or cleared by a mask. -/
theorem testBit_masked (on : Bool) {j : Nat} (hj : j < 8) :
    (if on then d ||| (1 : UInt8) <<< UInt8.ofNat k
      else d &&& ~~~((1 : UInt8) <<< UInt8.ofNat k)).toNat.testBit j =
      if j = k then on else d.toNat.testBit j := by
  cases on with
  | true =>
    rw [if_pos rfl, UInt8.toNat_or, Nat.testBit_or, toNat_mask hk, Nat.testBit_two_pow]
    by_cases h : j = k
    · simp [h]
    · simp [h, Ne.symm h]
  | false =>
    have hnot : (~~~((1 : UInt8) <<< UInt8.ofNat k)).toNat = 2 ^ 8 - (2 ^ k + 1) := by
      rw [UInt8.toNat_not, toNat_mask hk, Nat.sub_sub, Nat.add_comm 1]
      rfl
    rw [if_neg Bool.false_ne_true, UInt8.toNat_and, Nat.testBit_and, hnot,
      Nat.testBit_two_pow_sub_succ (Nat.pow_lt_pow_right (by decide) hk), Nat.testBit_two_pow]
    by_cases h : j = k
    · simp [h]
    · simp [h, Ne.symm h, hj]

end Byte

/-! ### Writing bits -/

theorem lowBit_eq {b : Bytes} {i : Nat} (h : i < 8 * b.length) :
    b.lowBit i = b.toNat.testBit i := by
  rw [lowBit, testBit_shifted (Nat.mod_lt i (by decide)), testBit_toNat h]

@[simp] theorem length_setLowBit (b : Bytes) (i : Nat) (on : Bool) :
    (b.setLowBit i on).length = b.length := List.length_modify _ _ _

theorem testBit_setLowBit {b : Bytes} {i : Nat} (h : i < 8 * b.length) (on : Bool) (j : Nat) :
    (b.setLowBit i on).toNat.testBit j = if j = i then on else b.toNat.testBit j := by
  by_cases hj : j < 8 * b.length
  · have hplace : b.length - 1 - j / 8 < b.length := by omega
    have hlen := length_setLowBit b i on
    rw [testBit_toNat (by rw [hlen]; exact hj), hlen, testBit_toNat hj, setLowBit,
      List.getD_eq_getElem?_getD, List.getElem?_modify, List.getElem?_eq_getElem hplace,
      List.getD_eq_getElem?_getD, List.getElem?_eq_getElem hplace, Option.map_eq_map,
      Option.map_some, Option.getD_some, Option.getD_some]
    by_cases hbyte : b.length - 1 - i / 8 = b.length - 1 - j / 8
    · -- the same byte, so the positions in it decide
      have hi : j % 8 = i % 8 ↔ j = i := by omega
      rw [if_pos hbyte, testBit_masked (Nat.mod_lt i (by decide)) _ _ (Nat.mod_lt j (by decide)),
        if_congr hi rfl rfl]
    · have hi : j ≠ i := by
        rintro rfl
        exact hbyte rfl
      rw [if_neg hbyte, if_neg hi]
  · have hi : j ≠ i := by omega
    rw [if_neg hi, testBit_eq_false (by rw [length_setLowBit]; omega), testBit_eq_false (by omega)]

@[simp] theorem length_writeLowBits (field : Bytes) (pos : Nat) (val : Bytes) (count : Nat) :
    (field.writeLowBits pos val count).length = field.length := by
  induction count with
  | zero => rfl
  | succ count ih => rw [writeLowBits, length_setLowBit, ih]

/-- Every step of the loop puts in one more bit. -/
theorem testBit_writeLowBits {field val : Bytes} {pos count : Nat}
    (hfield : pos + count ≤ 8 * field.length) (hval : count ≤ 8 * val.length) (j : Nat) :
    (field.writeLowBits pos val count).toNat.testBit j =
      if pos ≤ j ∧ j < pos + count then val.toNat.testBit (j - pos) else field.toNat.testBit j := by
  induction count with
  | zero =>
    have hout : ¬(pos ≤ j ∧ j < pos + 0) := by omega
    rw [writeLowBits, if_neg hout]
  | succ count ih =>
    rw [writeLowBits, testBit_setLowBit (by rw [length_writeLowBits]; omega), lowBit_eq (by omega),
      ih (by omega) (by omega)]
    by_cases hj : j = pos + count
    · have hin : pos ≤ j ∧ j < pos + (count + 1) := by omega
      have hi : j - pos = count := by omega
      rw [if_pos hj, if_pos hin, hi]
    · have hsame : (pos ≤ j ∧ j < pos + (count + 1)) ↔ (pos ≤ j ∧ j < pos + count) := by omega
      rw [if_neg hj, if_congr hsame rfl rfl]

/-- The bits of the range are replaced by the low bits of the operand. -/
theorem testBit_writeBits {field val b : Bytes} {r : BitRange}
    (h : field.writeBits? r val = some b) :
    b.length = field.length ∧ ∀ i, b.toNat.testBit i =
      if r.pos ≤ i ∧ i < r.pos + r.count then val.toNat.testBit (i - r.pos)
      else field.toNat.testBit i := by
  obtain ⟨⟨hfield, hval⟩, h⟩ := Option.ite_none_right_eq_some.mp h
  cases h
  exact ⟨length_writeLowBits _ _ _ _, testBit_writeLowBits hfield hval⟩

/-! ### Combining bytes -/

section Combine

variable {f : UInt8 → UInt8 → UInt8} {g : Bool → Bool → Bool}
  (hf : ∀ d e j, (f d e).toNat.testBit j = g (d.toNat.testBit j) (e.toNat.testBit j))

theorem testBit_append (a b : Bytes) (i : Nat) :
    (toNat (a ++ b)).testBit i =
      if i < 8 * b.length then b.toNat.testBit i else a.toNat.testBit (i - 8 * b.length) := by
  have hlt : b.toNat < 2 ^ (8 * b.length) := by
    rw [pow_mul]
    exact toNat_lt b
  rw [toNat_append, show 256 = 2 ^ 8 from rfl, ← pow_mul, Nat.mul_comm a.toNat,
    Nat.testBit_two_pow_mul_add _ hlt]

theorem testBit_cons (d : UInt8) (b : Bytes) (i : Nat) :
    (toNat (d :: b)).testBit i =
      if i < 8 * b.length then b.toNat.testBit i else d.toNat.testBit (i - 8 * b.length) := by
  have hd : toNat [d] = d.toNat := by simp [toNat_cons]
  rw [← hd, ← testBit_append, List.singleton_append]

include hf

/-- What is done to the bits of each byte is done to the bits of the numbers. -/
theorem testBit_zipWith {a b : Bytes} (h : a.length = b.length) {i : Nat}
    (hi : i < 8 * b.length) :
    (toNat (List.zipWith f a b)).testBit i = g (a.toNat.testBit i) (b.toNat.testBit i) := by
  induction a generalizing b with
  | nil =>
    rw [← h] at hi
    exact absurd hi (Nat.not_lt_zero i)
  | cons d a ih =>
    cases b with
    | nil => cases h
    | cons e b =>
      have hlen : a.length = b.length := Nat.succ.inj h
      have hzip : (List.zipWith f a b).length = b.length := by
        rw [List.length_zipWith, hlen, Nat.min_self]
      rw [List.zipWith_cons_cons, testBit_cons, testBit_cons, testBit_cons, hzip, hlen]
      split
      · rename_i hlow
        exact ih hlen hlow
      · exact hf d e _

/-- A field whose low bytes are combined with an operand keeps the bits above those of the
operand. -/
theorem testBit_combine {field val b : Bytes} (h : combine? f field val = some b) :
    b.length = field.length ∧ ∀ i, b.toNat.testBit i =
      if i < 8 * val.length then g (field.toNat.testBit i) (val.toNat.testBit i)
      else field.toNat.testBit i := by
  obtain ⟨hle, h⟩ := Option.ite_none_right_eq_some.mp h
  cases h
  have hdrop : (field.drop (field.length - val.length)).length = val.length := by
    rw [List.length_drop]
    omega
  have hzip : (List.zipWith f (field.drop (field.length - val.length)) val).length =
      val.length := by
    rw [List.length_zipWith, hdrop, Nat.min_self]
  have hsplit := List.take_append_drop (field.length - val.length) field
  refine ⟨?_, fun i => ?_⟩
  · rw [List.length_append, List.length_take, hzip]
    omega
  · conv_rhs => rw [← hsplit]
    rw [testBit_append, testBit_append, hzip, hdrop]
    split
    · rename_i hi
      exact testBit_zipWith hf hdrop hi
    · rfl

end Combine

/-- Bits are cleared where the operand has a zero; above the operand none is. -/
theorem testBit_and {field val b : Bytes} (h : field.and? val = some b) :
    b.length = field.length ∧ ∀ i, b.toNat.testBit i =
      (field.toNat.testBit i && (val.toNat.testBit i || decide (8 * val.length ≤ i))) := by
  obtain ⟨hlen, hbits⟩ := testBit_combine (g := (· && ·))
    (fun d e j => by rw [UInt8.toNat_and, Nat.testBit_and]) h
  refine ⟨hlen, fun i => ?_⟩
  rw [hbits]
  by_cases hi : i < 8 * val.length
  · have hnot : ¬8 * val.length ≤ i := by omega
    simp [hi, hnot]
  · have hle : 8 * val.length ≤ i := by omega
    simp [hi, hle]

theorem toNat_or {field val b : Bytes} (h : field.or? val = some b) :
    b.length = field.length ∧ b.toNat = field.toNat ||| val.toNat := by
  obtain ⟨hlen, hbits⟩ := testBit_combine (g := (· || ·))
    (fun d e j => by rw [UInt8.toNat_or, Nat.testBit_or]) h
  refine ⟨hlen, Nat.eq_of_testBit_eq fun i => ?_⟩
  rw [hbits, Nat.testBit_or]
  split
  · rfl
  · rename_i hi
    rw [testBit_eq_false (by omega : 8 * val.length ≤ i), Bool.or_false]

end Dataplane.Bytes

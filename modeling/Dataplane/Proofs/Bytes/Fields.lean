import Dataplane.Bytes.Block
import Mathlib.Data.List.Induction
import Mathlib.Tactic.Ring

/-!
# Numbers and slots

What storing into a slot of a block leaves behind: the slot holds what was stored, a slot apart
from it holds what it held, and storing what is already there changes nothing.

The first part ties the two directions of network order together: the number of a byte string,
written at the same width, is the byte string.
-/

namespace Dataplane

namespace Bytes

/-! ### Numbers in network order -/

@[simp] theorem toNat_nil : toNat [] = 0 := rfl

theorem toNat_concat (b : Bytes) (d : UInt8) : toNat (b ++ [d]) = toNat b * 256 + d.toNat := by
  simp [toNat, List.foldl_append]

theorem toNat_lt (b : Bytes) : toNat b < 256 ^ b.length := by
  induction b using List.reverseRecOn with
  | nil => simp
  | append_singleton b d ih =>
    have hd := d.toNat_lt
    rw [toNat_concat, List.length_append, List.length_singleton, pow_succ]
    omega

theorem ofNat_toNat (b : Bytes) : ofNat b.length (toNat b) = b := by
  induction b using List.reverseRecOn with
  | nil => rfl
  | append_singleton b d ih =>
    have hd := d.toNat_lt
    rw [List.length_append, List.length_singleton, ofNat_succ, toNat_concat]
    have hq : (toNat b * 256 + d.toNat) / 256 = toNat b := by omega
    have hr : UInt8.ofNat (toNat b * 256 + d.toNat) = d := by
      apply UInt8.toNat_inj.mp
      rw [UInt8.toNat_ofNat']
      omega
    rw [hq, hr, ih]

theorem toNat_ofNat (width n : Nat) : toNat (ofNat width n) = n % 256 ^ width := by
  induction width generalizing n with
  | zero => rw [pow_zero, Nat.mod_one]; rfl
  | succ w ih =>
    have hpow : 256 ^ (w + 1) = 256 * 256 ^ w := Nat.pow_succ'
    rw [ofNat_succ, toNat_concat, ih, UInt8.toNat_ofNat', hpow, Nat.mod_mul]
    omega

theorem toNat_eq_zero {b : Bytes} (h : ∀ d ∈ b, d = 0) : toNat b = 0 := by
  induction b using List.reverseRecOn with
  | nil => rfl
  | append_singleton b d ih =>
    have hd : d = 0 := h d (by simp)
    rw [toNat_concat, ih fun d' hd' => h d' (List.mem_append_left _ hd'), hd]
    rfl

/-- A byte string of the right width is stored as it is. -/
theorem resize_of_length_eq {width : Nat} {b : Bytes} (h : b.length = width) :
    resize width b = b := by
  simp [resize, h]

end Bytes

/-! ### Slots -/

/-- Two slots of one block that have no byte in common. -/
def Slot.Apart {n : Nat} (s s' : Slot n) : Prop :=
  s.start + s.width ≤ s'.start ∨ s'.start + s'.width ≤ s.start

instance {n : Nat} (s s' : Slot n) : Decidable (s.Apart s') := by
  unfold Slot.Apart; infer_instance

namespace Block

variable {n : Nat}

@[ext] theorem ext {b b' : Block n} (h : b.bytes = b'.bytes) : b = b' := by
  cases b; cases b'; cases h; rfl

/-- A block is what lies before a slot, the slot, and what lies after it. -/
theorem bytes_eq (b : Block n) (s : Slot n) :
    b.bytes = b.bytes.take s.start ++ (b.get s ++ b.bytes.drop (s.start + s.width)) := by
  rw [get, ← List.drop_drop, List.take_append_drop, List.take_append_drop]

theorem bytes_set {s : Slot n} {val : Bytes} (b : Block n) (h : val.length = s.width) :
    (b.set s val).bytes = b.bytes.take s.start ++ (val ++ b.bytes.drop (s.start + s.width)) := by
  simp only [set, Bytes.resize_of_length_eq h, List.append_assoc]

@[simp] theorem length_take_start (b : Block n) (s : Slot n) :
    (b.bytes.take s.start).length = s.start := by
  have := b.length_eq
  have := s.fits
  simp; omega

theorem get_set_self (b : Block n) (s : Slot n) (val : Bytes) :
    (b.set s val).get s = val.resize s.width := by
  have h := b.length_take_start s
  simp only [set, get, List.append_assoc]
  rw [List.drop_append_of_le_length (by omega), List.drop_of_length_le (by omega), List.nil_append,
    List.take_append_of_le_length (by simp), List.take_of_length_le (by simp)]

/-- Storing to a slot leaves a slot apart from it as it is. -/
theorem get_set_of_apart {s s' : Slot n} (h : s.Apart s') (b : Block n) (val : Bytes) :
    (b.set s val).get s' = b.get s' := by
  have hlen := b.length_eq
  have hs := s.fits
  have hs' := s'.fits
  apply List.ext_getElem?
  intro i
  simp only [set, get, List.getElem?_take, List.getElem?_drop, List.append_assoc,
    List.getElem?_append, List.length_take, Bytes.length_resize, hlen]
  split
  · rcases h with h | h
    · have h1 : ¬ s'.start + i < min s.start n := by omega
      have h2 : ¬ s'.start + i - min s.start n < s.width := by omega
      rw [if_neg h1, if_neg h2]
      congr 1
      omega
    · have h1 : s'.start + i < min s.start n := by omega
      have h2 : s'.start + i < s.start := by omega
      rw [if_pos h1, if_pos h2]
  · rfl

/-- Storing what a slot holds changes nothing. -/
theorem set_get (b : Block n) (s : Slot n) : b.set s (b.get s) = b := by
  ext1
  rw [bytes_set b (b.length_get s), ← bytes_eq]

theorem setNum_num (b : Block n) (s : Slot n) : b.setNum s (b.num s) = b := by
  have h := Bytes.ofNat_toNat (b.get s)
  rw [length_get] at h
  rw [setNum, num, h, set_get]

/-- What stands where after a slot has been stored to. -/
theorem getElem?_bytes_set (b : Block n) (s : Slot n) (val : Bytes) (i : Nat) :
    (b.set s val).bytes[i]? = if s.start ≤ i ∧ i < s.start + s.width then
      (val.resize s.width)[i - s.start]? else b.bytes[i]? := by
  have hlen := b.length_take_start s
  simp only [set, List.append_assoc, List.getElem?_append, hlen, Bytes.length_resize]
  split
  · rename_i hi
    rw [if_neg (by omega), List.getElem?_take_of_lt hi]
  · split
    · rw [if_pos (by omega)]
    · rw [if_neg (by omega), List.getElem?_drop]
      congr 1
      omega

theorem getElem?_set_outside {s : Slot n} {i : Nat} (h : i < s.start ∨ s.start + s.width ≤ i)
    (b : Block n) (val : Bytes) : (b.set s val).bytes[i]? = b.bytes[i]? := by
  rw [getElem?_bytes_set, if_neg (by omega)]

/-- Of two stores to a slot the second counts. -/
theorem set_set (b : Block n) (s : Slot n) (val val' : Bytes) :
    (b.set s val).set s val' = b.set s val' := by
  ext1
  apply List.ext_getElem?
  intro i
  simp only [getElem?_bytes_set]
  split <;> rfl

/-- Stores to slots that lie apart may be exchanged. -/
theorem set_comm {s s' : Slot n} (h : s.Apart s') (b : Block n) (val val' : Bytes) :
    (b.set s val).set s' val' = (b.set s' val').set s val := by
  ext1
  apply List.ext_getElem?
  intro i
  simp only [getElem?_bytes_set]
  split <;> split <;> first | rfl | (rcases h with h | h <;> omega)

theorem num_setNum (b : Block n) (s : Slot n) (val : Nat) :
    (b.setNum s val).num s = val % 256 ^ s.width := by
  rw [setNum, num, get_set_self, Bytes.resize_of_length_eq (Bytes.length_ofNat _ _),
    Bytes.toNat_ofNat]

theorem num_eq_zero {b : Block n} (h : ∀ d ∈ b.bytes, d = 0) (s : Slot n) : b.num s = 0 :=
  Bytes.toNat_eq_zero fun d hd => h d (List.mem_of_mem_drop (List.mem_of_mem_take hd))

theorem get_setNum_of_apart {s s' : Slot n} (h : s.Apart s') (b : Block n) (val : Nat) :
    (b.setNum s val).get s' = b.get s' := get_set_of_apart h b _

end Block

end Dataplane

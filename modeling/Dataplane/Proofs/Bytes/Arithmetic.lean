import Dataplane.Field
import Dataplane.Proofs.Bytes.Fields
import Mathlib.Tactic.LinearCombination

/-!
# Arithmetic on byte strings

Fields are stored and changed byte by byte. Seen as numbers, bringing an operand to the width of a
field, adding it and subtracting it are arithmetic modulo a power of 256 (`FieldOp.toNat_apply`),
and the bits of a byte string are the bits of its number (`Bytes.bit_eq_testBit`).
-/

namespace Dataplane

/-! ### Bit ranges of numbers -/

namespace BitRange

theorem testBit_read (r : BitRange) (n i : Nat) :
    (r.read n).testBit i = (decide (i < r.count) && n.testBit (r.pos + i)) := by
  rw [read, Nat.one_shiftLeft, Nat.testBit_mod_two_pow, Nat.testBit_shiftRight]

/-- Writing replaces the bits of the range and no others. -/
theorem testBit_write (r : BitRange) (n val i : Nat) :
    (r.write n val).testBit i =
      if r.pos ≤ i ∧ i < r.pos + r.count then val.testBit (i - r.pos) else n.testBit i := by
  have hlow : n % 2 ^ r.pos < 2 ^ r.pos := Nat.mod_lt _ (Nat.two_pow_pos _)
  have hmid : val % 2 ^ r.count < 2 ^ r.count := Nat.mod_lt _ (Nat.two_pow_pos _)
  have hwrite : r.write n val =
      2 ^ r.pos * (2 ^ r.count * (n >>> (r.pos + r.count)) + val % 2 ^ r.count) +
        n % 2 ^ r.pos := by
    rw [write, Nat.one_shiftLeft, Nat.one_shiftLeft, Nat.shiftLeft_eq, Nat.shiftLeft_eq, pow_add]
    ring
  rw [hwrite, Nat.testBit_two_pow_mul_add _ hlow, Nat.testBit_two_pow_mul_add _ hmid,
    Nat.testBit_mod_two_pow, Nat.testBit_mod_two_pow, Nat.testBit_shiftRight]
  by_cases hp : i < r.pos
  · have hout : ¬ (r.pos ≤ i ∧ i < r.pos + r.count) := by omega
    simp [hp, hout]
  · by_cases hc : i < r.pos + r.count
    · have hin : r.pos ≤ i ∧ i < r.pos + r.count := by omega
      have hi : i - r.pos < r.count := by omega
      simp [hp, hin, hi]
    · have hi : ¬ i - r.pos < r.count := by omega
      have hback : r.pos + r.count + (i - r.pos - r.count) = i := by omega
      simp [hp, hc, hi, hback]

theorem read_write (r : BitRange) (n val : Nat) : r.read (r.write n val) = val % 2 ^ r.count := by
  apply Nat.eq_of_testBit_eq
  intro i
  rw [testBit_read, testBit_write, Nat.testBit_mod_two_pow]
  by_cases hi : i < r.count
  · have hin : r.pos ≤ r.pos + i ∧ r.pos + i < r.pos + r.count := by omega
    simp [hin]
  · simp [hi]

end BitRange

namespace Bytes

/-! ### Ranges of byte strings -/

/-- A range of the middle part of some bytes. -/
theorem range_between {mid : Bytes} {k n : Nat} (front back : Bytes)
    (h : k + n ≤ mid.length) :
    ((front ++ mid ++ back).drop (front.length + k)).take n = (mid.drop k).take n := by
  rw [List.append_assoc, List.drop_append, List.drop_eq_nil_of_le (Nat.le_add_right _ k),
    Nat.add_sub_cancel_left, List.nil_append, List.drop_append_of_le_length (by omega),
    List.take_append_of_le_length (by rw [List.length_drop]; omega)]

/-- A range overwritten in the middle part is overwritten in the whole. -/
theorem overwrite_between {mid : Bytes} {k n : Nat} (front back val : Bytes)
    (h : k + n ≤ mid.length) :
    front ++ (mid.take k ++ val ++ mid.drop (k + n)) ++ back =
      (front ++ mid ++ back).take (front.length + k) ++ val ++
        (front ++ mid ++ back).drop (front.length + (k + n)) := by
  have htake : (front ++ mid ++ back).take (front.length + k) = front ++ mid.take k := by
    rw [List.append_assoc, List.take_append, List.take_of_length_le (Nat.le_add_right _ k),
      Nat.add_sub_cancel_left, List.take_append_of_le_length (by omega)]
  have hdrop : (front ++ mid ++ back).drop (front.length + (k + n)) = mid.drop (k + n) ++ back := by
    rw [List.append_assoc, List.drop_append, List.drop_eq_nil_of_le (Nat.le_add_right _ (k + n)),
      Nat.add_sub_cancel_left, List.nil_append, List.drop_append_of_le_length h]
  rw [htake, hdrop]
  simp only [List.append_assoc]

/-! ### Numbers of byte strings -/

theorem toNat_cons (d : UInt8) (b : Bytes) :
    toNat (d :: b) = d.toNat * 256 ^ b.length + toNat b := by
  induction b using List.reverseRecOn with
  | nil => simp [toNat]
  | append_singleton b e ih =>
    rw [← List.cons_append, toNat_concat, ih, toNat_concat, List.length_append,
      List.length_singleton, pow_succ]
    ring

theorem toNat_append (a b : Bytes) : toNat (a ++ b) = toNat a * 256 ^ b.length + toNat b := by
  induction a with
  | nil => simp
  | cons d a ih =>
    rw [List.cons_append, toNat_cons, toNat_cons, ih, List.length_append, pow_add]
    ring

/-- Bringing a number to a width keeps it modulo a power of 256. -/
theorem toNat_resize (width : Nat) (b : Bytes) :
    toNat (resize width b) = toNat b % 256 ^ width := by
  have hpad : toNat (List.replicate (width - b.length) (0 : UInt8)) = 0 :=
    toNat_eq_zero fun d hd => List.eq_of_mem_replicate hd
  rw [resize, toNat_append, hpad, zero_mul, zero_add]
  have hlow := toNat_lt (b.drop (b.length - width))
  have hsplit : toNat b = toNat (b.take (b.length - width)) *
      256 ^ (b.drop (b.length - width)).length + toNat (b.drop (b.length - width)) := by
    rw [← toNat_append, List.take_append_drop]
  by_cases hw : width ≤ b.length
  · have hlen : (b.drop (b.length - width)).length = width := by simp; omega
    rw [hlen] at hsplit hlow
    rw [hsplit, Nat.mul_add_mod_self_right, Nat.mod_eq_of_lt hlow]
  · have hall : b.length - width = 0 := by omega
    have hlt : toNat b < 256 ^ width :=
      lt_of_lt_of_le (toNat_lt b) (Nat.pow_le_pow_right (by omega) (by omega))
    rw [hall, List.drop_zero, Nat.mod_eq_of_lt hlt]

/-- The number of a byte string given low byte first. -/
def lowFirst (b : Bytes) : Nat := toNat b.reverse

theorem lowFirst_cons (d : UInt8) (b : Bytes) : lowFirst (d :: b) = d.toNat + 256 * lowFirst b := by
  rw [lowFirst, List.reverse_cons, toNat_concat, lowFirst]
  ring

theorem lowFirst_eq (b : Bytes) : lowFirst b = (b.headD 0).toNat + 256 * lowFirst b.tail := by
  cases b with
  | nil => rfl
  | cons d b => exact lowFirst_cons d b

theorem addCarry_onto (dst arg high : Bytes) (carry : Nat) :
    addCarry dst arg carry high = addCarry dst arg carry [] ++ high := by
  induction dst generalizing arg carry high with
  | nil => rfl
  | cons d ds ih => rw [addCarry, addCarry, ih, ih _ [_]]; simp

theorem subBorrow_onto (dst arg high : Bytes) (borrow : Nat) :
    subBorrow dst arg borrow high = subBorrow dst arg borrow [] ++ high := by
  induction dst generalizing arg borrow high with
  | nil => rfl
  | cons d ds ih => rw [subBorrow, subBorrow, ih, ih _ [_]]; simp

/-- The last digit of a number modulo a power of 256, and what stands before it. -/
theorem emod_digit (q : ℤ) {r : ℤ} (h0 : 0 ≤ r) (h : r < 256) (k : Nat) :
    (256 * q + r) % 256 ^ (k + 1) = q % 256 ^ k * 256 + r := by
  have hpos : (0 : ℤ) < 256 ^ k := pow_pos (by norm_num) k
  have hlow := Int.emod_nonneg q hpos.ne'
  have hhigh := Int.emod_lt_of_pos q hpos
  have hsplit : 256 * q + r = q % 256 ^ k * 256 + r + 256 ^ (k + 1) * (q / 256 ^ k) := by
    have hq := Int.emod_add_mul_ediv q (256 ^ k)
    rw [pow_succ']
    linear_combination -256 * hq
  rw [hsplit, Int.add_mul_emod_self_left, Int.emod_eq_of_lt (by omega)]
  rw [pow_succ']
  omega

/-- Adding with a carry, byte by byte from the low end, adds the numbers. -/
theorem toNat_addCarry (dst arg : Bytes) (carry : Nat) :
    (toNat (addCarry dst arg carry []) : ℤ) =
      (lowFirst dst + lowFirst arg + carry) % 256 ^ dst.length := by
  induction dst generalizing arg carry with
  | nil => simp [addCarry]
  | cons d ds ih =>
    rw [addCarry, addCarry_onto, toNat_concat, UInt8.toNat_ofNat', lowFirst_cons d ds,
      lowFirst_eq arg, List.length_cons]
    generalize (arg.headD 0).toNat = a
    generalize hsum : d.toNat + a + carry = sum
    have hsplit : ((d.toNat + 256 * lowFirst ds : Nat) : ℤ) + (a + 256 * lowFirst arg.tail : Nat) +
        carry = 256 * (lowFirst ds + lowFirst arg.tail + (sum / 256 : Nat)) +
          (sum % 256 : Nat) := by
      omega
    rw [hsplit, emod_digit _ (by omega) (by omega), ← ih]
    rfl

/-- Subtracting with a borrow, byte by byte from the low end, subtracts the numbers. -/
theorem toNat_subBorrow (dst arg : Bytes) (borrow : Nat) (hb : borrow ≤ 1) :
    (toNat (subBorrow dst arg borrow []) : ℤ) =
      (lowFirst dst - lowFirst arg - borrow) % 256 ^ dst.length := by
  induction dst generalizing arg borrow with
  | nil => simp [subBorrow]
  | cons d ds ih =>
    have hd := d.toNat_lt
    have ha := (arg.headD 0).toNat_lt
    rw [subBorrow, subBorrow_onto, toNat_concat, UInt8.toNat_ofNat', lowFirst_cons d ds,
      lowFirst_eq arg, List.length_cons]
    generalize (arg.headD 0).toNat = a at ha
    generalize hdiff : 256 + d.toNat - a - borrow = diff
    have hsplit : ((d.toNat + 256 * lowFirst ds : Nat) : ℤ) - (a + 256 * lowFirst arg.tail : Nat) -
        borrow = 256 * (lowFirst ds - lowFirst arg.tail - (1 - diff / 256 : Nat)) +
          (diff % 256 : Nat) := by
      omega
    rw [hsplit, emod_digit _ (by omega) (by omega), ← ih _ _ (by omega)]
    rfl

theorem toNat_add (dst arg : Bytes) :
    (toNat (add dst arg) : ℤ) = (toNat dst + toNat arg) % 256 ^ dst.length := by
  rw [add, toNat_addCarry, lowFirst, lowFirst, List.reverse_reverse, List.reverse_reverse,
    List.length_reverse, Nat.cast_zero, add_zero]

theorem toNat_sub (dst arg : Bytes) :
    (toNat (sub dst arg) : ℤ) = (toNat dst - toNat arg) % 256 ^ dst.length := by
  rw [sub, toNat_subBorrow _ _ _ (by omega), lowFirst, lowFirst, List.reverse_reverse,
    List.reverse_reverse, List.length_reverse, Nat.cast_zero, sub_zero]

/-! ### Bits of byte strings -/

/-- The bit at a position, the most significant bit of the first byte at position 0; past the end
it counts as zero. -/
def bit (b : Bytes) (i : Nat) : Bool := (b.getD (i / 8) 0).toNat.testBit (7 - i % 8)

theorem bit_append (a b : Bytes) (i : Nat) :
    bit (a ++ b) i = if i < 8 * a.length then bit a i else bit b (i - 8 * a.length) := by
  simp only [bit, List.getD_eq_getElem?_getD, List.getElem?_append]
  split
  · have hi : i < 8 * a.length := by omega
    rw [if_pos hi]
  · have hi : ¬ i < 8 * a.length := by omega
    have hdiv : (i - 8 * a.length) / 8 = i / 8 - a.length := by omega
    have hmod : (i - 8 * a.length) % 8 = i % 8 := by omega
    rw [if_neg hi, hdiv, hmod]

/-- The bits of a byte string are the bits of its number, the other way round. -/
theorem bit_eq_testBit {b : Bytes} {i : Nat} (h : i < 8 * b.length) :
    bit b i = (toNat b).testBit (8 * b.length - 1 - i) := by
  induction b using List.reverseRecOn with
  | nil => simp at h
  | append_singleton b d ih =>
    have hd : d.toNat < 2 ^ 8 := d.toNat_lt
    rw [List.length_append, List.length_singleton] at h ⊢
    have hnum : toNat (b ++ [d]) = 2 ^ 8 * toNat b + d.toNat := by rw [toNat_concat]; ring
    rw [bit_append, hnum, Nat.testBit_two_pow_mul_add _ hd]
    by_cases hi : i < 8 * b.length
    · have hhigh : ¬ 8 * (b.length + 1) - 1 - i < 8 := by omega
      have hpos : 8 * (b.length + 1) - 1 - i - 8 = 8 * b.length - 1 - i := by omega
      rw [if_pos hi, if_neg hhigh, hpos, ih hi]
    · have hlow : 8 * (b.length + 1) - 1 - i < 8 := by omega
      have hdiv : (i - 8 * b.length) / 8 = 0 := by omega
      have hpos : 7 - (i - 8 * b.length) % 8 = 8 * (b.length + 1) - 1 - i := by omega
      rw [if_neg hi, if_pos hlow, bit, hdiv, hpos]
      rfl

end Bytes

/-! ### Operations on numbers -/

namespace FieldOp

/-- What an operation does to numbers, before the result is cut to the width of a field. -/
def number : FieldOp → (field arg : ℤ) → ℤ
  | set, _, arg => arg
  | inc, field, arg => field + arg
  | dec, field, arg => field - arg

/-- On bytes an operation is arithmetic modulo a power of 256. -/
theorem toNat_apply (op : FieldOp) (field arg : Bytes) :
    ((op.apply field arg).toNat : ℤ) = op.number field.toNat arg.toNat % 256 ^ field.length := by
  cases op with
  | set => rw [apply, Bytes.toNat_resize]; push_cast; rfl
  | inc => exact Bytes.toNat_add field arg
  | dec => exact Bytes.toNat_sub field arg

end FieldOp

end Dataplane

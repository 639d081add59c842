import Dataplane.Proofs.Bytes.Arithmetic

/-!
# Arithmetic on byte strings, in machine words

Addition and subtraction go through a byte string from its low end and keep a carry or a borrow. The
library does this in natural numbers; a machine does it in words of 16 bits, signed ones for the
subtraction, where the difference of two bytes may fall below zero.

No step leaves the range of its words (`addCarry16?_eq`, `subBorrow16?_eq`), so both end with the
same bytes. As numbers these are the sum and the difference modulo a power of 256, whatever the
widths of the two operands, and either operation undoes the other (`wrapping_arithmetic`).
-/

namespace Dataplane.Bytes

/-! ### Words of 16 bits -/

/-- The sum of two words, if it is one. -/
def plus16? (a b : UInt16) : Option UInt16 :=
  if a.toNat + b.toNat < 2 ^ 16 then some (a + b) else none

/-- A signed number as a signed word, if it is one. -/
def signed16? (n : ℤ) : Option Int16 :=
  if -2 ^ 15 ≤ n ∧ n < 2 ^ 15 then some (Int16.ofInt n) else none

/-- A byte as a signed word. -/
def signedByte (d : UInt8) : Int16 := Int16.ofNat d.toNat

/-- Adds `arg` to `dst`, both given low byte first, in words. -/
def addCarry16? : (dst arg : Bytes) → (carry : UInt16) → (high : Bytes) → Option Bytes
  | [], _, _, high => some high
  | d :: ds, arg, carry, high => do
    let sum ← plus16? (← plus16? d.toUInt16 (arg.headD 0).toUInt16) carry
    addCarry16? ds arg.tail (sum >>> 8) (sum.toUInt8 :: high)

/-- Subtracts `arg` from `dst`, both given low byte first, in signed words. A difference below zero
borrows 256 from the next byte. -/
def subBorrow16? : (dst arg : Bytes) → (borrow : Int16) → (high : Bytes) → Option Bytes
  | [], _, _, high => some high
  | d :: ds, arg, borrow, high => do
    let bytes ← signed16? ((signedByte d).toInt - (signedByte (arg.headD 0)).toInt)
    let diff ← signed16? (bytes.toInt - borrow.toInt)
    if diff < 0 then
      let diff ← signed16? (diff.toInt + 256)
      subBorrow16? ds arg.tail 1 (UInt8.ofInt diff.toInt :: high)
    else subBorrow16? ds arg.tail 0 (UInt8.ofInt diff.toInt :: high)

/-- The sum of `dst` and `arg`, aligned at their low ends, in words. -/
def add16? (dst arg : Bytes) : Option Bytes := addCarry16? dst.reverse arg.reverse 0 []

/-- The difference of `dst` and `arg`, aligned at their low ends, in signed words. -/
def sub16? (dst arg : Bytes) : Option Bytes := subBorrow16? dst.reverse arg.reverse 0 []

theorem plus16?_of_fits {a b : UInt16} (h : a.toNat + b.toNat < 2 ^ 16) :
    plus16? a b = some (a + b) := if_pos h

theorem toInt_signedByte (d : UInt8) : (signedByte d).toInt = d.toNat :=
  Int16.toInt_ofNat_of_lt (d.toNat_lt.trans (by norm_num))

theorem signed16?_of_fits {n : ℤ} (h : -2 ^ 15 ≤ n ∧ n < 2 ^ 15) :
    ∃ x, signed16? n = some x ∧ x.toInt = n :=
  ⟨_, if_pos h, Int16.toInt_ofInt_of_le h.1 h.2⟩

theorem ofInt_eq_ofNat {n : ℤ} {m : Nat} (h : n % 256 = m % 256) :
    UInt8.ofInt n = UInt8.ofNat m := by
  apply UInt8.toNat_inj.mp
  rw [UInt8.ofInt, UInt8.toNat_ofNat', UInt8.toNat_ofNat']
  omega

/-! ### The loops -/

/-- Two bytes and a carry fit into a word, and the carry out of them is at most one again. -/
theorem addCarry16?_eq (dst arg : Bytes) (carry : UInt16) (h : carry.toNat ≤ 1) (high : Bytes) :
    addCarry16? dst arg carry high = some (addCarry dst arg carry.toNat high) := by
  induction dst generalizing arg carry high with
  | nil => rfl
  | cons d ds ih =>
    have hd := d.toNat_lt
    have ha := (arg.headD 0).toNat_lt
    have hbytes : (d.toUInt16 + (arg.headD 0).toUInt16).toNat =
        d.toNat + (arg.headD 0).toNat := by
      rw [UInt16.toNat_add, UInt8.toNat_toUInt16, UInt8.toNat_toUInt16]
      omega
    have hsum : (d.toUInt16 + (arg.headD 0).toUInt16 + carry).toNat =
        d.toNat + (arg.headD 0).toNat + carry.toNat := by
      rw [UInt16.toNat_add, hbytes]
      omega
    rw [addCarry16?, addCarry, plus16?_of_fits (by simp only [UInt8.toNat_toUInt16]; omega),
      Option.bind_eq_bind, Option.bind_some, plus16?_of_fits (by omega), Option.bind_some]
    generalize d.toUInt16 + (arg.headD 0).toUInt16 + carry = sum at hsum
    have hcarry : (sum >>> 8).toNat = sum.toNat / 256 := by
      rw [UInt16.toNat_shiftRight]
      exact Nat.shiftRight_eq_div_pow _ 8
    have hbyte : sum.toUInt8 = UInt8.ofNat sum.toNat := rfl
    rw [ih _ _ (by omega), hcarry, hbyte, hsum]

/-- The difference of two bytes and a borrow is a signed word. It is below zero exactly when 256
more is needed, and then the next byte is borrowed from. -/
theorem subBorrow16?_eq (dst arg : Bytes) {borrow : Int16} {k : Nat} (h : borrow.toInt = k)
    (hk : k ≤ 1) (high : Bytes) :
    subBorrow16? dst arg borrow high = some (subBorrow dst arg k high) := by
  induction dst generalizing arg borrow k high with
  | nil => rfl
  | cons d ds ih =>
    have hd := d.toNat_lt
    have ha := (arg.headD 0).toNat_lt
    rw [subBorrow16?, subBorrow, toInt_signedByte, toInt_signedByte]
    generalize (arg.headD 0).toNat = a at ha
    obtain ⟨bytes, hbytes, hbytesNum⟩ :=
      signed16?_of_fits (n := (d.toNat : ℤ) - a) (by omega)
    obtain ⟨diff, hdiff, hdiffNum⟩ :=
      signed16?_of_fits (n := bytes.toInt - borrow.toInt) (by omega)
    have hneg : diff < 0 ↔ diff.toInt < 0 := Int16.lt_iff_toInt_lt
    rw [hbytes, Option.bind_eq_bind, Option.bind_some, hdiff, Option.bind_some]
    by_cases hlow : diff.toInt < 0
    · obtain ⟨lent, hlent, hlentNum⟩ := signed16?_of_fits (n := diff.toInt + 256) (by omega)
      have hnext : 1 - (256 + d.toNat - a - k) / 256 = 1 := by omega
      have hbyte : UInt8.ofInt lent.toInt = UInt8.ofNat (256 + d.toNat - a - k) :=
        ofInt_eq_ofNat (by omega)
      rw [if_pos (hneg.mpr hlow), hlent, Option.bind_some, ih _ (k := 1) rfl le_rfl, hnext,
        hbyte]
    · have hnext : 1 - (256 + d.toNat - a - k) / 256 = 0 := by omega
      have hbyte : UInt8.ofInt diff.toInt = UInt8.ofNat (256 + d.toNat - a - k) :=
        ofInt_eq_ofNat (by omega)
      rw [if_neg (mt hneg.mp hlow), ih _ (k := 0) rfl (Nat.zero_le 1), hnext, hbyte]

theorem add16?_eq (dst arg : Bytes) : add16? dst arg = some (add dst arg) :=
  addCarry16?_eq _ _ 0 (Nat.zero_le 1) _

theorem sub16?_eq (dst arg : Bytes) : sub16? dst arg = some (sub dst arg) :=
  subBorrow16?_eq _ _ rfl (Nat.zero_le 1) _

/-! ### Undoing -/

/-- Byte strings of one length that write the same number are the same. -/
theorem eq_of_toNat_eq {a b : Bytes} (hlen : a.length = b.length) (h : toNat a = toNat b) :
    a = b := by
  rw [← ofNat_toNat a, ← ofNat_toNat b, hlen, h]

/-- The number of a byte string is its own remainder. -/
theorem toNat_emod (b : Bytes) : (toNat b : ℤ) % 256 ^ b.length = toNat b :=
  Int.emod_eq_of_lt (Int.natCast_nonneg _) (by exact_mod_cast toNat_lt b)

theorem sub_add_self (dst arg : Bytes) : sub (add dst arg) arg = dst := by
  apply eq_of_toNat_eq (by rw [length_sub, length_add])
  have h : (toNat (sub (add dst arg) arg) : ℤ) = toNat dst := by
    rw [toNat_sub, toNat_add, length_add, Int.emod_sub_emod, add_sub_cancel_right, toNat_emod]
  exact_mod_cast h

theorem add_sub_self (dst arg : Bytes) : add (sub dst arg) arg = dst := by
  apply eq_of_toNat_eq (by rw [length_add, length_sub])
  have h : (toNat (add (sub dst arg) arg) : ℤ) = toNat dst := by
    rw [toNat_add, toNat_sub, length_sub, Int.emod_add_emod, sub_add_cancel, toNat_emod]
  exact_mod_cast h

/-- **Arithmetic on byte strings**: of any two operands, addition, subtraction and overwriting leave
the sum, the difference and the operand modulo the power of 256 that the width of the field stands
for; addition and subtraction undo each other, and are what the loops over machine words compute. -/
theorem wrapping_arithmetic (dst arg : Bytes) :
    ((add dst arg).length = dst.length ∧
      toNat (add dst arg) = (toNat dst + toNat arg) % 256 ^ dst.length) ∧
    ((sub dst arg).length = dst.length ∧
      (toNat (sub dst arg) : ℤ) = (toNat dst - toNat arg) % 256 ^ dst.length) ∧
    (sub (add dst arg) arg = dst ∧ add (sub dst arg) arg = dst) ∧
    ((resize dst.length arg).length = dst.length ∧
      toNat (resize dst.length arg) = toNat arg % 256 ^ dst.length) ∧
    (add16? dst arg = some (add dst arg) ∧ sub16? dst arg = some (sub dst arg)) := by
  have hadd : toNat (add dst arg) = (toNat dst + toNat arg) % 256 ^ dst.length := by
    exact_mod_cast toNat_add dst arg
  exact ⟨⟨length_add dst arg, hadd⟩, ⟨length_sub dst arg, toNat_sub dst arg⟩,
    ⟨sub_add_self dst arg, add_sub_self dst arg⟩,
    ⟨length_resize _ arg, toNat_resize _ arg⟩, add16?_eq dst arg, sub16?_eq dst arg⟩

/-- The carry out of the highest byte is lost, and so are the bytes of a longer operand. -/
example : add [0xFF, 0xFF, 0xFF] [2] = [0, 0, 1] ∧ sub [0x00] [0x12, 0x01] = [0xFF] := by decide

end Dataplane.Bytes

import Dataplane.Crc
import Dataplane.Proofs.Bytes.Arithmetic
import Mathlib.Algebra.CharP.Two
import Mathlib.Algebra.Field.ZMod
import Mathlib.Algebra.Polynomial.FieldDivision
import Mathlib.Data.Nat.Bitwise

/-!
# CRC-16 as a remainder

The register of the CRC-16 goes through a byte string bit by bit, with shifts and exclusive ors.
Seen as polynomials over the field of two elements, the byte string is divided by
`X ^ 16 + X ^ 12 + X ^ 5 + 1`, and the register holds the remainder (`crc16_remainder`). That it
starts from ones adds ones to the 16 highest coefficients of what is divided.

Two bytes behind a byte string bring the register to zero exactly when they are its CRC-16
(`Crc16.append_eq_zero_iff`).

## The model

`bitPolynomial` has given bits as coefficients. A byte string gives its bits in reading order, the
highest power first, and a word gives them by their places. `Crc16.Holds c p` says that the register
`c` holds the remainder of `p`. A bit shifted out multiplies `p` by `X`, a byte moved in adds to its
high powers, and a byte string does both for each of its bytes (`Crc16.Holds.run`).
-/

namespace Dataplane

open Polynomial

/-! ### Polynomials with given bits -/

/-- The polynomial over the field of two elements with a bit for each of the `n` lowest powers. -/
noncomputable def bitPolynomial (n : Nat) (bit : Nat → Bool) : (ZMod 2)[X] :=
  ∑ i ∈ Finset.range n, if bit i then X ^ i else 0

theorem coeff_bitPolynomial (n : Nat) (bit : Nat → Bool) (i : Nat) :
    (bitPolynomial n bit).coeff i = if i < n ∧ bit i then 1 else 0 := by
  have hterm (j : Nat) : (if bit j then X ^ j else (0 : (ZMod 2)[X])).coeff i =
      if i = j then (if bit j then 1 else 0) else 0 := by
    by_cases hj : bit j <;> simp [hj, coeff_X_pow]
  rw [bitPolynomial, finsetSum_coeff]
  simp only [hterm, Finset.sum_ite_eq, Finset.mem_range, ite_and]

theorem degree_bitPolynomial_lt (n : Nat) (bit : Nat → Bool) :
    (bitPolynomial n bit).degree < n := by
  rw [degree_lt_iff_coeff_zero]
  intro i hi
  rw [coeff_bitPolynomial, if_neg (fun h => absurd h.1 (Nat.not_lt.mpr hi))]

theorem bitPolynomial_congr {n : Nat} {bit bit' : Nat → Bool} (h : ∀ i < n, bit i = bit' i) :
    bitPolynomial n bit = bitPolynomial n bit' := by
  apply Finset.sum_congr rfl
  intro i hi
  rw [h i (Finset.mem_range.mp hi)]

theorem bitPolynomial_false (n : Nat) : bitPolynomial n (fun _ => false) = 0 := by
  simp [bitPolynomial]

/-- The bits that two polynomials differ in are those of their sum. -/
theorem bitPolynomial_xor (n : Nat) (bit bit' : Nat → Bool) :
    bitPolynomial n (fun i => bit i ^^ bit' i) = bitPolynomial n bit + bitPolynomial n bit' := by
  rw [bitPolynomial, bitPolynomial, bitPolynomial, ← Finset.sum_add_distrib]
  apply Finset.sum_congr rfl
  intro i _
  cases bit i <;> cases bit' i <;> simp [CharTwo.add_self_eq_zero]

/-- Bits are split into low ones and high ones. -/
theorem bitPolynomial_add (m n : Nat) (bit : Nat → Bool) :
    bitPolynomial (m + n) bit =
      bitPolynomial n (fun i => bit (m + i)) * X ^ m + bitPolynomial m bit := by
  rw [bitPolynomial, Finset.sum_range_add, add_comm, bitPolynomial, Finset.sum_mul, bitPolynomial]
  congr 1
  apply Finset.sum_congr rfl
  intro i _
  rw [ite_mul, zero_mul, ← pow_add, add_comm i]

/-- Zeros below the bits move them up. -/
theorem bitPolynomial_mul_X_pow (n k : Nat) (bit : Nat → Bool) :
    bitPolynomial n bit * X ^ k =
      bitPolynomial (k + n) fun i => decide (k ≤ i) && bit (i - k) := by
  have hlow : bitPolynomial k (fun i => decide (k ≤ i) && bit (i - k)) = 0 := by
    rw [← bitPolynomial_false k]
    apply bitPolynomial_congr
    intro i hi
    rw [decide_eq_false (Nat.not_le.mpr hi), Bool.false_and]
  rw [bitPolynomial_add, hlow, add_zero]
  congr 1
  apply bitPolynomial_congr
  intro i _
  rw [decide_eq_true (Nat.le_add_right k i), Bool.true_and, Nat.add_sub_cancel_left]

/-! ### Byte strings as polynomials -/

namespace Bytes

/-- The polynomial a byte string writes: the most significant bit of the first byte is the
coefficient of the highest power. -/
noncomputable def polynomial (b : Bytes) : (ZMod 2)[X] :=
  bitPolynomial (8 * b.length) fun i => bit b (8 * b.length - 1 - i)

/-- It has the bits of the number the byte string writes. -/
theorem polynomial_eq (b : Bytes) :
    b.polynomial = bitPolynomial (8 * b.length) b.toNat.testBit := by
  apply bitPolynomial_congr
  intro i hi
  have hpos : 8 * b.length - 1 - (8 * b.length - 1 - i) = i := by omega
  rw [bit_eq_testBit (by omega), hpos]

@[simp] theorem polynomial_nil : polynomial [] = 0 := by
  simp [polynomial, bitPolynomial]

theorem polynomial_append (a b : Bytes) :
    (a ++ b).polynomial = a.polynomial * X ^ (8 * b.length) + b.polynomial := by
  have hlen : 8 * (a ++ b).length = 8 * b.length + 8 * a.length := by
    rw [List.length_append]
    ring
  rw [polynomial, hlen, bitPolynomial_add]
  congr 1
  · congr 1
    apply bitPolynomial_congr
    intro i hi
    have hpos : 8 * b.length + 8 * a.length - 1 - (8 * b.length + i) = 8 * a.length - 1 - i := by
      omega
    rw [hpos, bit_append, if_pos (by omega)]
  · apply bitPolynomial_congr
    intro i hi
    have hpos : 8 * b.length + 8 * a.length - 1 - i - 8 * a.length = 8 * b.length - 1 - i := by
      omega
    rw [bit_append, if_neg (by omega), hpos]

end Bytes

/-! ### Words of the register as polynomials -/

namespace Crc16

/-- The polynomial of a word: each bit is the coefficient of the power of its place. -/
noncomputable def polynomial (c : UInt16) : (ZMod 2)[X] := bitPolynomial 16 c.toNat.testBit

/-- What the register divides by. -/
noncomputable def generator : (ZMod 2)[X] := X ^ 16 + X ^ 12 + X ^ 5 + 1

theorem polynomial_xor (c d : UInt16) : polynomial (c ^^^ d) = polynomial c + polynomial d := by
  rw [polynomial, polynomial, polynomial, ← bitPolynomial_xor]
  apply bitPolynomial_congr
  intro i _
  rw [UInt16.toNat_xor, Nat.testBit_xor]

/-- A word has no other bits than those of its polynomial. -/
theorem polynomial_eq_zero_iff {c : UInt16} : polynomial c = 0 ↔ c = 0 := by
  constructor
  · intro h
    apply UInt16.toNat_inj.mp
    apply Nat.eq_of_testBit_eq
    intro i
    have hcoeff : (polynomial c).coeff i = 0 := by rw [h, coeff_zero]
    rw [polynomial, coeff_bitPolynomial] at hcoeff
    rw [UInt16.toNat_zero, Nat.zero_testBit, ← Bool.not_eq_true]
    by_cases hi : i < 16
    · simpa [hi] using hcoeff
    · have hbig : c.toNat < 2 ^ i :=
        c.toNat_lt.trans_le (Nat.pow_le_pow_right (by omega) (by omega))
      simp [Nat.testBit_lt_two_pow hbig]
  · rintro rfl
    simp [polynomial, bitPolynomial]

/-- The ones the register starts from. -/
theorem polynomial_ones : polynomial 0xFFFF = ∑ i ∈ Finset.range 16, X ^ i := by
  rw [polynomial, bitPolynomial]
  apply Finset.sum_congr rfl
  intro i hi
  have hbit : ∀ i < 16, (0xFFFF : UInt16).toNat.testBit i = true := by decide
  rw [if_pos (hbit i (Finset.mem_range.mp hi))]

/-- The powers of the generator below the highest are the bits that a shift adds. -/
theorem generator_eq : generator = X ^ 16 + polynomial 0x1021 := by
  have hbits : polynomial 0x1021 = X ^ 12 + X ^ 5 + 1 := by
    have hones : (Finset.range 16).filter (fun i => (0x1021 : UInt16).toNat.testBit i) =
        {12, 5, 0} := by decide
    rw [polynomial, bitPolynomial, ← Finset.sum_filter, hones, Finset.sum_insert (by decide),
      Finset.sum_insert (by decide), Finset.sum_singleton, pow_zero, add_assoc]
  rw [generator, hbits]
  ring

/-- A word and its two bytes are one polynomial. -/
theorem polynomial_ofNat (c : UInt16) : (Bytes.ofNat 2 c.toNat).polynomial = polynomial c := by
  have hlt : c.toNat < 256 ^ 2 := c.toNat_lt
  rw [Bytes.polynomial_eq, Bytes.toNat_ofNat, Nat.mod_eq_of_lt hlt, Bytes.length_ofNat, polynomial]

/-- Bits go up in a shift, and those past the word are lost. -/
theorem testBit_shiftLeft (c : UInt16) {k : UInt16} (hk : k.toNat < 16) {i : Nat} (hi : i < 16) :
    (c <<< k).toNat.testBit i = (decide (k.toNat ≤ i) && c.toNat.testBit (i - k.toNat)) := by
  rw [UInt16.toNat_shiftLeft, Nat.testBit_mod_two_pow, Nat.mod_eq_of_lt hk, Nat.testBit_shiftLeft,
    decide_eq_true hi, Bool.true_and]

/-- A byte moved to the high end of a word. -/
theorem polynomial_high (b : UInt8) :
    polynomial (b.toUInt16 <<< 8) = Bytes.polynomial [b] * X ^ 8 := by
  have hnum : Bytes.toNat [b] = b.toUInt16.toNat := by simp [Bytes.toNat]
  rw [Bytes.polynomial_eq, bitPolynomial_mul_X_pow, polynomial]
  apply bitPolynomial_congr
  intro i hi
  rw [testBit_shiftLeft _ (by decide) hi, hnum]
  rfl

/-- Only the top bit is lost in a shift. -/
theorem polynomial_mul_X (c : UInt16) :
    polynomial c * X = polynomial (c <<< 1) + if c &&& 0x8000 ≠ 0 then X ^ 16 else 0 := by
  have hlow : bitPolynomial 16 (fun i => decide (1 ≤ i) && c.toNat.testBit (i - 1)) =
      polynomial (c <<< 1) := by
    apply bitPolynomial_congr
    intro i hi
    rw [testBit_shiftLeft _ (by decide) hi]
    rfl
  have htop : c &&& 0x8000 ≠ 0 ↔ c.toNat.testBit 15 := by
    have hmask : (c &&& 0x8000).toNat = (c.toNat.testBit 15).toNat * 2 ^ 15 := by
      rw [UInt16.toNat_and, ← Nat.and_two_pow]
      rfl
    rw [ne_eq, ← UInt16.toNat_inj, hmask]
    cases c.toNat.testBit 15 <;> decide
  -- the product has 17 bits, those of the shifted word and above them the top bit of `c`
  have hmul := bitPolynomial_mul_X_pow 16 1 c.toNat.testBit
  rw [pow_one, Nat.add_comm 1 16, bitPolynomial_add, hlow] at hmul
  rw [polynomial, hmul, add_comm]
  simp only [htop]
  simp [bitPolynomial]

/-! ### Division in the register -/

variable {c : UInt16} {p : (ZMod 2)[X]}

/-- The register holds the remainder of a polynomial. -/
def Holds (c : UInt16) (p : (ZMod 2)[X]) : Prop := polynomial c = p % generator

theorem degree_polynomial_lt (c : UInt16) : (polynomial c).degree < generator.degree := by
  have hlow := degree_bitPolynomial_lt 16 (0x1021 : UInt16).toNat.testBit
  have hdeg : generator.degree = 16 := by
    rw [generator_eq, degree_add_eq_left_of_degree_lt, degree_X_pow]
    · rfl
    · rw [degree_X_pow]
      exact hlow
  rw [hdeg]
  exact degree_bitPolynomial_lt 16 _

theorem generator_ne_zero : generator ≠ 0 := by
  intro h
  have hdeg := degree_polynomial_lt 0
  rw [h, degree_zero] at hdeg
  exact not_lt_bot hdeg

theorem holds_iff_dvd : Holds c p ↔ generator ∣ p - polynomial c := by
  have hself : polynomial c % generator = polynomial c :=
    (mod_eq_self_iff generator_ne_zero).mpr (degree_polynomial_lt c)
  constructor
  · intro h
    rw [Holds] at h
    rw [h, EuclideanDomain.mod_eq_sub_mul_div, sub_sub_cancel]
    exact dvd_mul_right _ _
  · intro h
    rw [Holds, mod_eq_of_dvd_sub h, hself]

theorem Holds.add {d : UInt16} {q : (ZMod 2)[X]} (hc : Holds c p) (hd : Holds d q) :
    Holds (c ^^^ d) (p + q) := by
  rw [Holds] at hc hd ⊢
  rw [polynomial_xor, hc, hd, add_mod]

/-- A word holds its own polynomial. -/
theorem holds_polynomial (c : UInt16) : Holds c (polynomial c) := by
  rw [holds_iff_dvd, sub_self]
  exact dvd_zero _

/-- A bit out of the register multiplies what is divided by `X`. A one lost at the top is the
highest power of the generator, so the other powers are taken away with it. -/
theorem Holds.shift (h : Holds c p) : Holds (Crc16.shift c) (p * X) := by
  rw [holds_iff_dvd] at h ⊢
  have hstep : generator ∣ polynomial c * X - polynomial (Crc16.shift c) := by
    rw [polynomial_mul_X, Crc16.shift]
    split_ifs with htop
    · rw [polynomial_xor, add_sub_add_left_eq_sub, CharTwo.sub_eq_add, ← generator_eq]
    · rw [add_zero, sub_self]
      exact dvd_zero _
  have hsplit : p * X - polynomial (Crc16.shift c) =
      (p - polynomial c) * X + (polynomial c * X - polynomial (Crc16.shift c)) := by
    ring
  rw [hsplit]
  exact dvd_add (h.mul_right X) hstep

theorem Holds.shifts (h : Holds c p) (n : Nat) :
    Holds (Nat.repeat Crc16.shift n c) (p * X ^ n) := by
  induction n with
  | zero => rwa [pow_zero, mul_one]
  | succ n ih =>
    rw [pow_succ, ← mul_assoc]
    exact ih.shift

/-- A byte is added at the high end of the register, and eight bits go out. -/
theorem Holds.step (h : Holds c p) (b : UInt8) :
    Holds (Crc16.step c b) (p * X ^ 8 + Bytes.polynomial [b] * X ^ 16) := by
  have hbyte : Holds (b.toUInt16 <<< 8) (Bytes.polynomial [b] * X ^ 8) :=
    polynomial_high b ▸ holds_polynomial _
  have hstep := (h.add hbyte).shifts 8
  rwa [add_mul, mul_assoc _ (X ^ 8) (X ^ 8), ← pow_add] at hstep

/-- Division goes on through the bytes that follow what was divided before. -/
theorem Holds.run (h : Holds c p) (m : Bytes) :
    Holds (m.foldl Crc16.step c) (p * X ^ (8 * m.length) + m.polynomial * X ^ 16) := by
  -- a byte changes what the register holds, so both are general
  induction m generalizing c p with
  | nil => simpa using h
  | cons b m ih =>
    have hread : p * X ^ (8 * (b :: m).length) + Bytes.polynomial (b :: m) * X ^ 16 =
        (p * X ^ 8 + Bytes.polynomial [b] * X ^ 16) * X ^ (8 * m.length) +
          Bytes.polynomial m * X ^ 16 := by
      rw [← List.singleton_append, Bytes.polynomial_append, List.length_append,
        List.length_singleton]
      ring
    rw [List.foldl_cons, hread]
    exact ih (h.step b)

/-! ### Checking -/

theorem Holds.eq_zero_iff (h : Holds c p) : c = 0 ↔ generator ∣ p := by
  rw [← polynomial_eq_zero_iff, h, EuclideanDomain.mod_eq_zero]

/-- Powers of `X` have no factor in common with the generator. -/
theorem generator_dvd_mul_X_pow (n : Nat) : generator ∣ p * X ^ n ↔ generator ∣ p := by
  have hcoprime : IsCoprime generator X := by
    refine ⟨1, -(X ^ 15 + X ^ 11 + X ^ 4), ?_⟩
    rw [generator]
    ring
  exact ⟨hcoprime.pow_right.dvd_of_dvd_mul_right, fun h => h.mul_right _⟩

/-- Two bytes after a byte string bring the register to zero exactly when they are its CRC-16. -/
theorem append_eq_zero_iff (m : Bytes) (c : UInt16) :
    crc16 (m ++ Bytes.ofNat 2 c.toNat) = 0 ↔ c = crc16 m := by
  have hrun := (holds_polynomial (crc16 m)).run (Bytes.ofNat 2 c.toNat)
  rw [Bytes.length_ofNat, polynomial_ofNat, ← add_mul, ← polynomial_xor] at hrun
  have hall : crc16 (m ++ Bytes.ofNat 2 c.toNat) =
      (Bytes.ofNat 2 c.toNat).foldl step (crc16 m) := List.foldl_append
  rw [hall, hrun.eq_zero_iff, generator_dvd_mul_X_pow,
    ← (holds_polynomial _).eq_zero_iff, UInt16.xor_eq_zero_iff, eq_comm]

end Crc16

/-- **The CRC-16 is a remainder**: a byte string moved up by 16 places, with ones added to the 16
highest of them, is divided by `X ^ 16 + X ^ 12 + X ^ 5 + 1`, and the CRC-16 is what remains. With
its own CRC-16 behind it, high byte first, a byte string has the CRC-16 zero. -/
theorem crc16_remainder (m : Bytes) :
    Crc16.polynomial (crc16 m) =
        (m.polynomial * X ^ 16 + (∑ i ∈ Finset.range 16, X ^ i) * X ^ (8 * m.length)) %
          (X ^ 16 + X ^ 12 + X ^ 5 + 1) ∧
      crc16 (m ++ Bytes.ofNat 2 (crc16 m).toNat) = 0 := by
  have hrun := (Crc16.holds_polynomial 0xFFFF).run m
  rw [Crc16.Holds, Crc16.polynomial_ones, add_comm] at hrun
  exact ⟨hrun, (Crc16.append_eq_zero_iff m _).mpr rfl⟩

/-- The digits from 1 to 9, the usual text to tell such checks apart by, and the empty text. -/
example : crc16 [0x31, 0x32, 0x33, 0x34, 0x35, 0x36, 0x37, 0x38, 0x39] = 0x29B1 ∧
    crc16 [] = 0xFFFF := by decide +kernel

end Dataplane

import Dataplane.TokenBucket
import Mathlib.Data.UInt
import Mathlib.Tactic.NormNum

/-!
# Token buckets in machine words

The tokens of a bucket are natural numbers. A machine keeps them in 64-bit words: it multiplies the
time gone by with the rate in a double word, divides, cuts the quotient to the largest word if it
does not fit, and adds it to the tokens with an addition that stops at the largest word.

Nothing of this shows: the product always fits in the double word, and what is cut off by the two
stops would have been cut off at the depth of the bucket anyway (`take?_words`).
-/

namespace Dataplane

namespace TokenBucket

/-- A token bucket in 64-bit words. -/
structure Words where
  /-- The tokens added per second. -/
  rate : UInt64
  /-- The depth of the bucket. -/
  burst : UInt64
  /-- The tokens left by the last packet that was let through. -/
  tokens : UInt64
  /-- When that packet was let through. -/
  last : Option Moment
  deriving DecidableEq

namespace Words

/-- The largest word. -/
def top : UInt64 := 0xffffffffffffffff

/-- The difference of two words, or zero. -/
def satSub (a b : UInt64) : UInt64 := if b ≤ a then a - b else 0

/-- The sum of two words, or the largest word. -/
def satAdd (a b : UInt64) : UInt64 := if a + b < a then top else a + b

/-- The lesser of two words. -/
def lesser (a b : UInt64) : UInt64 := if a ≤ b then a else b

/-- The product of two words in a double word. -/
def wideMul (a b : UInt64) : BitVec 128 := a.toBitVec.setWidth 128 * b.toBitVec.setWidth 128

/-- A double word as a word, or the largest word. -/
def narrow (x : BitVec 128) : UInt64 :=
  if x ≤ top.toBitVec.setWidth 128 then ⟨x.setWidth 64⟩ else top

/-- The tokens that have come in since the last packet was let through. -/
def refill (w : Words) (now : Moment) : UInt64 :=
  match w.last with
  | some last => narrow (wideMul (satSub now.nanos last.nanos) w.rate / 1000000000#128)
  | none => 0

/-- The tokens that can be taken at a moment. -/
def available (w : Words) (now : Moment) : UInt64 :=
  lesser (satAdd w.tokens (w.refill now)) w.burst

/-- The bucket after a packet of `len` bytes was let through, if there are tokens for it. -/
def take? (w : Words) (len : UInt64) (now : Moment) : Option Words :=
  if w.available now < len then none
  else some { w with tokens := w.available now - len, last := some now }

theorem toNat_top : top.toNat = 2 ^ 64 - 1 := rfl

theorem toNat_satSub (a b : UInt64) : (satSub a b).toNat = a.toNat - b.toNat := by
  unfold satSub
  split
  case isTrue h => exact UInt64.toNat_sub_of_le _ _ h
  case isFalse h =>
    have : a.toNat ≤ b.toNat := Nat.le_of_lt (UInt64.lt_iff_toNat_lt.mp (UInt64.not_le.mp h))
    simp only [UInt64.toNat_zero]
    omega

theorem toNat_satAdd (a b : UInt64) :
    (satAdd a b).toNat = min (a.toNat + b.toNat) (2 ^ 64 - 1) := by
  have ha := a.toNat_lt
  have hb := b.toNat_lt
  unfold satAdd
  split
  case isTrue h =>
    rw [UInt64.lt_iff_toNat_lt, UInt64.toNat_add] at h
    rw [toNat_top]
    omega
  case isFalse h =>
    rw [UInt64.lt_iff_toNat_lt, UInt64.toNat_add] at h
    rw [UInt64.toNat_add]
    omega

/-- A product of two words fits in a double word. -/
theorem toNat_wideMul (a b : UInt64) : (wideMul a b).toNat = a.toNat * b.toNat := by
  have hfits : a.toNat * b.toNat < 2 ^ 128 :=
    calc a.toNat * b.toNat < 2 ^ 64 * 2 ^ 64 := Nat.mul_lt_mul'' a.toNat_lt b.toNat_lt
      _ = 2 ^ 128 := by norm_num
  have ha : a.toNat < 2 ^ 128 := Nat.lt_trans a.toNat_lt (by norm_num)
  have hb : b.toNat < 2 ^ 128 := Nat.lt_trans b.toNat_lt (by norm_num)
  simp only [wideMul, BitVec.toNat_mul, BitVec.toNat_setWidth, UInt64.toNat_toBitVec]
  rw [Nat.mod_eq_of_lt ha, Nat.mod_eq_of_lt hb, Nat.mod_eq_of_lt hfits]

theorem toNat_narrow (x : BitVec 128) : (narrow x).toNat = min x.toNat (2 ^ 64 - 1) := by
  have htop : (top.toBitVec.setWidth 128).toNat = 2 ^ 64 - 1 := rfl
  unfold narrow
  split
  case isTrue h =>
    rw [BitVec.le_def, htop] at h
    show (x.setWidth 64).toNat = _
    rw [BitVec.toNat_setWidth]
    omega
  case isFalse h =>
    rw [BitVec.le_def, htop] at h
    rw [toNat_top]
    omega

theorem toNat_lesser (a b : UInt64) : (lesser a b).toNat = min a.toNat b.toNat := by
  unfold lesser
  split
  case isTrue h => exact (Nat.min_eq_left (UInt64.le_iff_toNat_le.mp h)).symm
  case isFalse h =>
    have : b.toNat ≤ a.toNat := Nat.le_of_lt (UInt64.lt_iff_toNat_lt.mp (UInt64.not_le.mp h))
    exact (Nat.min_eq_right this).symm

end Words

/-- The words of a bucket. -/
def words (b : TokenBucket) : Words := ⟨b.rate, b.burst, UInt64.ofNat b.tokens, b.last⟩

variable (b : TokenBucket) (now : Moment)

theorem toNat_words_tokens : b.words.tokens.toNat = b.tokens :=
  UInt64.toNat_ofNat_of_lt' (Nat.lt_of_le_of_lt b.tokens_le b.burst.toNat_lt)

theorem toNat_words_refill : (b.words.refill now).toNat = min (b.refill now) (2 ^ 64 - 1) := by
  unfold refill Words.refill
  rw [show b.words.last = b.last from rfl]
  cases b.last with
  | none => rfl
  | some last =>
    show (Words.narrow _).toNat = _
    rw [Words.toNat_narrow, BitVec.toNat_udiv, Words.toNat_wideMul, Words.toNat_satSub]
    rfl

/-- The two stops at the largest word come to nothing: the depth of the bucket is a word. -/
theorem toNat_words_available : (b.words.available now).toNat = b.available now := by
  have hburst := b.burst.toNat_lt
  have htokens := b.tokens_le
  unfold Words.available available
  rw [Words.toNat_lesser, Words.toNat_satAdd, toNat_words_tokens, toNat_words_refill]
  show min _ b.burst.toNat = _
  omega

theorem available_le_burst : b.available now ≤ b.burst.toNat := Nat.min_le_right _ _

/-- Letting a packet through in machine words is letting it through. -/
theorem take?_words (len : UInt64) :
    b.words.take? len now = (b.take? len.toNat now).map words := by
  have havail := b.toNat_words_available now
  unfold Words.take? take?
  by_cases h : len.toNat ≤ b.available now
  · have hle : len ≤ b.words.available now := by rwa [UInt64.le_iff_toNat_le, havail]
    rw [if_neg (UInt64.not_lt.mpr hle), if_pos h]
    have hleft : b.words.available now - len = UInt64.ofNat (b.available now - len.toNat) := by
      apply UInt64.toNat_inj.mp
      have hlt : b.available now - len.toNat < 2 ^ 64 :=
        Nat.lt_of_le_of_lt (Nat.sub_le _ _)
          (Nat.lt_of_le_of_lt (b.available_le_burst now) b.burst.toNat_lt)
      rw [UInt64.toNat_sub_of_le _ _ hle, havail, UInt64.toNat_ofNat_of_lt' hlt]
    rw [hleft]
    rfl
  · have hlt : b.words.available now < len := by
      rw [UInt64.lt_iff_toNat_lt, havail]
      exact Nat.not_le.mp h
    rw [if_pos hlt, if_neg h]
    rfl

end TokenBucket

end Dataplane

import Dataplane.Proofs.Bytes.Fields
import Dataplane.Proofs.Checksum.Sum

/-!
# Checksums in network order

A checksum in a header is the complement of the one's complement sum of the words of the bytes, most
significant byte first, and a last odd byte is the high byte of a word. The accumulator does not
work that way: it takes the first byte of a pair as the low one and puts carries back in as late as
it can. What it closes into is the same (`Checksum.closed_network_order`).

## The model

`onesAdd` adds two words and puts the carry back in at once, and `onesSum` adds up the words of a
byte string from the left. Exchanging the bytes of every word multiplies the sum by 256 modulo
65535, and exchanges the bytes of the folded sum. That says nothing about which of the two zeros a
sum comes to, so zero is followed apart: only zero bytes add up to it, in either order.
-/

namespace Dataplane

namespace Checksum

/-! ### One's complement sums -/

/-- One's complement addition of two words: a carry goes back in at the low end. -/
def onesAdd (a b : Nat) : Nat := if a + b < 65536 then a + b else a + b - 65535

/-- The words of a byte string, most significant byte first; a last odd byte is padded with a zero
byte. -/
def netWords : Bytes → List Nat
  | hi :: lo :: rest => Bytes.toNat [hi, lo] :: netWords rest
  | [last] => [Bytes.toNat [last, 0]]
  | [] => []

/-- The one's complement sum of the words of a byte string. -/
def onesSum (b : Bytes) : Nat := (netWords b).foldl onesAdd 0

/-- A folded sum is known from its remainder and from whether it is zero. -/
theorem endAround_unique {m n : Nat} (hm : m < 65536) (hzero : m = 0 ↔ n = 0)
    (hmod : m % 65535 = n % 65535) : endAround n = m := by
  unfold endAround
  split_ifs <;> omega

theorem onesAdd_eq {a b : Nat} (ha : a < 65536) (hb : b < 65536) :
    onesAdd a b = endAround (a + b) := by
  unfold onesAdd endAround
  split_ifs <;> omega

/-- It makes no difference when the carries are put back in. -/
theorem foldl_onesAdd {ws : List Nat} (hws : ∀ w ∈ ws, w < 65536) {a : Nat} (ha : a < 65536) :
    ws.foldl onesAdd a = endAround (a + ws.sum) := by
  induction ws generalizing a with
  | nil => exact (endAround_of_lt ha).symm
  | cons w ws ih =>
    obtain ⟨hw, hws⟩ := List.forall_mem_cons.mp hws
    have hadd := onesAdd_eq ha hw
    have hlt : onesAdd a w < 65536 := hadd ▸ endAround_lt _
    rw [List.foldl_cons, ih hws hlt, hadd, endAround_add, List.sum_cons, Nat.add_assoc]

theorem toNat_pair (hi lo : UInt8) : Bytes.toNat [hi, lo] = 256 * hi.toNat + lo.toNat := by
  simp only [Bytes.toNat, List.foldl_cons, List.foldl_nil]
  omega

theorem toNat_pair_lt (hi lo : UInt8) : Bytes.toNat [hi, lo] < 65536 := by
  have hh := hi.toNat_lt
  have hl := lo.toNat_lt
  rw [toNat_pair]
  omega

theorem netWords_lt (b : Bytes) : ∀ w ∈ netWords b, w < 65536 := by
  induction b using netWords.induct with
  | case1 hi lo rest ih => exact List.forall_mem_cons.mpr ⟨toNat_pair_lt hi lo, ih⟩
  | case2 last => exact List.forall_mem_cons.mpr ⟨toNat_pair_lt last 0, by simp⟩
  | case3 => simp [netWords]

theorem onesSum_eq (b : Bytes) : onesSum b = endAround (netWords b).sum := by
  rw [onesSum, foldl_onesAdd (netWords_lt b) (by omega), Nat.zero_add]

theorem onesSum_lt (b : Bytes) : onesSum b < 65536 := onesSum_eq b ▸ endAround_lt _

/-! ### The order of the bytes in a word -/

/-- With the bytes of every word exchanged, the sum is 256 times as large, up to multiples of
65535. -/
theorem sum_netWords_mod (b : Bytes) : (netWords b).sum % 65535 = 256 * wordSum b % 65535 := by
  induction b using netWords.induct with
  | case1 hi lo rest ih =>
    simp only [wordSum] at ih
    simp only [netWords, List.sum_cons, toNat_pair, wordSum, sumWords, id_eq, toNat_word]
    omega
  | case2 last =>
    simp only [netWords, List.sum_cons, List.sum_nil, toNat_pair, wordSum, sumWords, id_eq,
      toNat_word, UInt8.toNat_zero]
    omega
  | case3 => rfl

/-- Either both sums are zero or none is. -/
theorem sum_netWords_eq_zero_iff (b : Bytes) : (netWords b).sum = 0 ↔ wordSum b = 0 := by
  induction b using netWords.induct with
  | case1 hi lo rest ih =>
    simp only [wordSum] at ih
    simp only [netWords, List.sum_cons, toNat_pair, wordSum, sumWords, id_eq, toNat_word]
    omega
  | case2 last =>
    simp only [netWords, List.sum_cons, List.sum_nil, toNat_pair, wordSum, sumWords, id_eq,
      toNat_word, UInt8.toNat_zero]
    omega
  | case3 => simp [netWords, wordSum, sumWords]

/-- The sum in network order is the folded sum with its two bytes exchanged. -/
theorem onesSum_eq_swap (b : Bytes) :
    onesSum b = 256 * (endAround (wordSum b) % 256) + endAround (wordSum b) / 256 := by
  have hlt := endAround_lt (wordSum b)
  have hmod := endAround_mod (wordSum b)
  have hzero := endAround_eq_zero_iff (wordSum b)
  have hsum := sum_netWords_mod b
  have hnil := sum_netWords_eq_zero_iff b
  rw [onesSum_eq]
  refine endAround_unique (by omega) (by omega) ?_
  omega

/-! ### Closed checksums -/

theorem fold_eq_iff {c d : Checksum} :
    c.fold = d.fold ↔ endAround c.acc.toNat = endAround d.acc.toNat := by
  rw [← toNat_fold, ← toNat_fold, UInt32.toNat_inj, Checksum.mk.injEq]

/-- What is stored depends on the folded sum only. -/
theorem header_congr {c d : Checksum} (h : c.fold = d.fold) : c.header = d.header := by
  rw [header, header, sumBytes, sumBytes, h]

theorem endAround_compute (b : Bytes) :
    endAround (compute b).acc.toNat = endAround (wordSum b) := by
  have hz : zero.acc.toNat = 0 := rfl
  rw [compute, endAround_add_bytes settled_zero, hz, Nat.zero_add]

/-- The two bytes of a folded sum are one word. -/
theorem wordSum_sumBytes (c : Checksum) : wordSum c.sumBytes = endAround c.acc.toNat := by
  have h := endAround_lt c.acc.toNat
  rw [sumBytes_eq]
  simp only [wordSum, sumWords, id_eq, toNat_word, UInt8.toNat_ofNat']
  omega

/-- Sums over two ranges are added like the ranges, if the first takes up whole words. -/
theorem fold_addSum {x : Bytes} (hx : x.length % 2 = 0) (y : Bytes) :
    ((compute x).addSum (compute y)).fold = (compute (x ++ y)).fold := by
  have hsettled : (compute x).Settled := settled_zero.add hx
  rw [fold_eq_iff, addSum, endAround_add_bytes hsettled, wordSum_sumBytes, endAround_compute y,
    Nat.add_comm, endAround_add, Nat.add_comm, endAround_congr (endAround_compute x),
    endAround_compute, wordSum_append hx]

/-- The complement of a word is that of its two bytes. -/
theorem complement_swap {n : Nat} (hn : n < 65536) :
    (65535 - (256 * (n % 256) + n / 256)) / 256 = 255 - n % 256 ∧
      (65535 - (256 * (n % 256) + n / 256)) % 256 = 255 - n / 256 := by
  obtain ⟨hi, lo, rfl, hhi, hlo⟩ : ∃ hi lo, n = 256 * hi + lo ∧ hi < 256 ∧ lo < 256 :=
    ⟨n / 256, n % 256, by omega, by omega, by omega⟩
  have hdiv : (256 * hi + lo) / 256 = hi := by omega
  have hmod : (256 * hi + lo) % 256 = lo := by omega
  have hsplit : 65535 - (256 * lo + hi) = 256 * (255 - lo) + (255 - hi) := by omega
  rw [hdiv, hmod, hsplit]
  constructor <;> omega

theorem ofBytes_eq (b : Bytes) : ofBytes b = Bytes.ofNat 2 (65535 - onesSum b) := by
  have hlt := endAround_lt (wordSum b)
  obtain ⟨hdiv, hmod⟩ := complement_swap hlt
  have hsize : UInt8.size = 256 := rfl
  rw [ofBytes, header, sumBytes_eq, endAround_compute, onesSum_eq_swap]
  simp only [Bytes.ofNat, Bytes.ofNatOnto, List.map_cons, List.map_nil, List.cons.injEq, and_true,
    ← UInt8.toNat_inj, UInt8.toNat_not, UInt8.toNat_ofNat', hsize, Nat.reducePow, hdiv, hmod]
  omega

/-- The two bytes stored for a byte string write, most significant byte first, the complement of the
one's complement sum of its words in network order. The sum may be taken in two parts, the first of
whole words: the second part is added to the first, or the sum of the second part is. -/
theorem closed_network_order (b : Bytes) :
    ofBytes b = Bytes.ofNat 2 (65535 - onesSum b) ∧ onesSum b ≤ 65535 ∧
      ∀ x y, b = x ++ y → x.length % 2 = 0 →
        ((compute x).add y).fold = (compute b).fold ∧
          ((compute x).addSum (compute y)).fold = (compute b).fold := by
  refine ⟨ofBytes_eq b, Nat.le_of_lt_succ (onesSum_lt b), ?_⟩
  rintro x y rfl hx
  refine ⟨?_, fold_addSum hx y⟩
  rw [compute, compute, add_append hx]

/-- A sum that goes over the end of a word, of an odd number of bytes, in two parts. -/
theorem closed_network_order_odd :
    ofBytes [0xFF, 0xFE, 0x12, 0x34, 0x56] = [0x97, 0xCC] ∧
      ((compute [0xFF, 0xFE]).addSum (compute [0x12, 0x34, 0x56])).fold =
        (compute [0xFF, 0xFE, 0x12, 0x34, 0x56]).fold := by
  have h := closed_network_order [0xFF, 0xFE, 0x12, 0x34, 0x56]
  exact ⟨h.1.trans (by decide), (h.2.2 [0xFF, 0xFE] [0x12, 0x34, 0x56] rfl rfl).2⟩

end Checksum

end Dataplane

import Dataplane.Proofs.Checksum.Replacing

/-!
# When the accumulator overflows

The accumulator is folded after every whole word that sets its top bit, but not after an odd last
byte. So it overflows exactly where some stretch of one-byte ranges, which are never folded, takes
it to 2^32 (`Checksum.Start.overflows_iff`). Such a stretch has at least 32767 ranges in it; words
never overflow, however many there are.

## The model

`add?`, `sub?` and `addSum?` are `add`, `sub` and `addSum` with every addition checked: they have no
value if one of them does not fit into 32 bits, and the value of the unchecked ones otherwise
(`Call.applyChecked?_eq`). A call goes wrong only at its first addition (`addWords?_eq`), since a
whole word leaves the accumulator settled.
-/

namespace Dataplane

namespace Checksum

variable {f : UInt32 → UInt32} {acc w : UInt32} {b : Bytes} {c : Checksum}

/-! ### Checked additions -/

/-- The sum of two words, if it fits. -/
def plus? (a b : UInt32) : Option UInt32 :=
  if a.toNat + b.toNat < 2 ^ 32 then some (a + b) else none

/-- One fold of the carries, checked. -/
def foldOnce? (acc : UInt32) : Option UInt32 :=
  plus? (acc >>> 16) (acc &&& 0xFFFF)

/-- The accumulator after adding a word, checked. -/
def addWord? (acc w : UInt32) : Option UInt32 := do
  let sum ← plus? acc w
  if sum &&& 0x80000000 ≠ 0 then foldOnce? sum else some sum

/-- The accumulator after adding the words of a byte range, checked. -/
def addWords? (f : UInt32 → UInt32) (acc : UInt32) : Bytes → Option UInt32
  | lo :: hi :: rest => do addWords? f (← addWord? acc (f (word lo hi))) rest
  | [last] => plus? acc (f (word last 0))
  | [] => some acc

/-- The sum with a byte range added, checked. -/
def add? (c : Checksum) (b : Bytes) : Option Checksum :=
  (addWords? id c.acc b).map .mk

/-- The sum with a byte range taken out, checked. -/
def sub? (c : Checksum) (b : Bytes) : Option Checksum :=
  (addWords? (fun w => 0xFFFF - w) c.acc b).map .mk

/-- The sum with every carry folded in, checked. -/
def fold? (c : Checksum) : Option Checksum := do
  return ⟨← foldOnce? (← foldOnce? c.acc)⟩

/-- The sum of two sums, checked. -/
def addSum? (c d : Checksum) : Option Checksum := do
  let folded ← d.fold?
  c.add? [folded.acc.toUInt8, (folded.acc >>> 8).toUInt8]

theorem plus?_of_fits (h : acc.toNat + w.toNat < 2 ^ 32) : plus? acc w = some (acc + w) := if_pos h

theorem plus?_of_overflow (h : 2 ^ 32 ≤ acc.toNat + w.toNat) : plus? acc w = none :=
  if_neg (Nat.not_lt.mpr h)

/-- Folding never overflows. -/
theorem foldOnce?_eq (acc : UInt32) : foldOnce? acc = some (foldOnce acc) := by
  have hacc := acc.toNat_lt
  refine plus?_of_fits ?_
  rw [toNat_highHalf, toNat_lowHalf]
  omega

theorem fold?_eq (c : Checksum) : c.fold? = some c.fold := by
  rw [fold?, foldOnce?_eq, Option.bind_eq_bind, Option.bind_some, foldOnce?_eq]
  rfl

theorem addSum?_eq (c d : Checksum) : c.addSum? d = c.add? d.sumBytes := by
  rw [addSum?, fold?_eq]
  rfl

theorem addWord?_of_fits (h : acc.toNat + w.toNat < 2 ^ 32) :
    addWord? acc w = some (addWord acc w) := by
  rw [addWord?, plus?_of_fits h, addWord, Option.bind_eq_bind, Option.bind_some]
  simp only [foldOnce?_eq]
  split <;> rfl

theorem addWord?_of_overflow (h : 2 ^ 32 ≤ acc.toNat + w.toNat) : addWord? acc w = none := by
  rw [addWord?, plus?_of_overflow h]
  rfl

/-! ### The first addition -/

/-- Whatever fits, a word leaves the accumulator settled. -/
theorem addWord_lt (h : acc.toNat + w.toNat < 2 ^ 32) : (addWord acc w).toNat < 2 ^ 31 := by
  have hsum : (acc + w).toNat = acc.toNat + w.toNat := by
    rw [UInt32.toNat_add, Nat.mod_eq_of_lt h]
  rw [addWord]
  split
  · rw [toNat_foldOnce, hsum]
    omega
  · rename_i htop
    exact (topBit_eq_zero_iff _).mp (not_not.mp htop)

/-- A settled accumulator takes in any byte range. -/
theorem addWords?_of_settled (hf : ∀ lo hi, (f (word lo hi)).toNat < 65536)
    (hacc : acc.toNat < 2 ^ 31) : addWords? f acc b = some (addWords f acc b) := by
  induction acc, b using addWords.induct (f := f) with
  | case1 acc lo hi rest ih =>
    have hword := hf lo hi
    have hsettled := (addWord_spec (hacc.trans (by decide)) hword).1
    rw [addWords?, addWord?_of_fits (by omega), Option.bind_eq_bind, Option.bind_some, ih hsettled,
      addWords]
  | case2 acc last =>
    have hlast := hf last 0
    exact plus?_of_fits (by omega)
  | case3 acc => rfl

/-- The first number that a byte range adds. -/
def firstWord (f : UInt32 → UInt32) : Bytes → Nat
  | lo :: hi :: _ => (f (word lo hi)).toNat
  | [last] => (f (word last 0)).toNat
  | [] => 0

theorem firstWord_lt (hf : ∀ lo hi, (f (word lo hi)).toNat < 65536) : firstWord f b < 65536 := by
  match b with
  | lo :: hi :: _ => exact hf lo hi
  | [last] => exact hf last 0
  | [] => exact Nat.zero_lt_succ _

/-- Only the first addition can overflow. -/
theorem addWords?_eq (hf : ∀ lo hi, (f (word lo hi)).toNat < 65536) (acc : UInt32) (b : Bytes) :
    addWords? f acc b =
      if acc.toNat + firstWord f b < 2 ^ 32 then some (addWords f acc b) else none := by
  match b with
  | lo :: hi :: rest =>
    by_cases hfits : acc.toNat + (f (word lo hi)).toNat < 2 ^ 32
    · rw [addWords?, addWord?_of_fits hfits, Option.bind_eq_bind, Option.bind_some,
        addWords?_of_settled hf (addWord_lt hfits), firstWord, if_pos hfits, addWords]
    · rw [addWords?, addWord?_of_overflow (Nat.le_of_not_lt hfits), firstWord, if_neg hfits]
      rfl
  | [last] => rfl
  | [] => exact (if_pos acc.toNat_lt).symm

/-- Fewer than two bytes are added as they are. -/
theorem toNat_addWords_of_short (hb : b.length < 2) (hfits : acc.toNat + firstWord f b < 2 ^ 32) :
    (addWords f acc b).toNat = acc.toNat + firstWord f b := by
  match b with
  | lo :: hi :: rest => exact absurd hb (by simp)
  | [last] =>
    rw [addWords, UInt32.toNat_add]
    exact Nat.mod_eq_of_lt hfits
  | [] => rfl

/-- A whole word leaves the accumulator settled, but for an odd byte at the end. -/
theorem addWords_lt_of_word (hf : ∀ lo hi, (f (word lo hi)).toNat < 65536) (hb : 2 ≤ b.length)
    (hfits : acc.toNat + firstWord f b < 2 ^ 32) :
    (addWords f acc b).toNat < 2 ^ 31 + 2 ^ 16 := by
  match b with
  | lo :: hi :: rest =>
    rw [addWords]
    exact addWords_lt hf (addWord_lt hfits)
  | [_] => exact absurd hb (by simp)
  | [] => exact absurd hb (by simp)

/-! ### Calls -/

/-- A call that changes a sum. -/
inductive Call where
  /-- A byte range is added. -/
  | add (b : Bytes)
  /-- A byte range is taken out. -/
  | sub (b : Bytes)
  /-- Another sum is added. -/
  | addSum (d : Checksum)

namespace Call

/-- The sum after a call. -/
def apply (c : Checksum) : Call → Checksum
  | .add b => c.add b
  | .sub b => c.sub b
  | .addSum d => c.addSum d

/-- The sum after a call, every addition checked. -/
def applyChecked? (c : Checksum) : Call → Option Checksum
  | .add b => c.add? b
  | .sub b => c.sub? b
  | .addSum d => c.addSum? d

/-- The bytes a call goes through. -/
def bytes : Call → Bytes
  | .add b => b
  | .sub b => b
  | .addSum d => d.sumBytes

/-- What a call adds for a word. -/
def pass : Call → UInt32 → UInt32
  | .sub _ => fun w => 0xFFFF - w
  | _ => id

/-- The first number a call adds. -/
def first (x : Call) : Nat := firstWord x.pass x.bytes

/-- The call goes through less than a whole word. -/
def Short (x : Call) : Prop := x.bytes.length < 2

theorem apply_eq (c : Checksum) (x : Call) : x.apply c = ⟨addWords x.pass c.acc x.bytes⟩ := by
  cases x <;> rfl

theorem pass_lt (x : Call) (lo hi : UInt8) : (x.pass (word lo hi)).toNat < 65536 := by
  cases x with
  | add b => exact toNat_word_lt lo hi
  | sub b => exact toNat_complement_word_lt lo hi
  | addSum d => exact toNat_word_lt lo hi

theorem first_lt (x : Call) : x.first < 65536 := firstWord_lt x.pass_lt

/-- A call overflows exactly if the first number it adds does not fit. -/
theorem applyChecked?_eq (c : Checksum) (x : Call) :
    x.applyChecked? c = if c.acc.toNat + x.first < 2 ^ 32 then some (x.apply c) else none := by
  have hchecked : x.applyChecked? c = (addWords? x.pass c.acc x.bytes).map .mk := by
    cases x with
    | add b => rfl
    | sub b => rfl
    | addSum d => exact addSum?_eq c d
  rw [hchecked, addWords?_eq x.pass_lt, apply_eq, first]
  split <;> rfl

theorem toNat_apply_of_short {x : Call} (hx : x.Short) (hfits : c.acc.toNat + x.first < 2 ^ 32) :
    (x.apply c).acc.toNat = c.acc.toNat + x.first := by
  rw [apply_eq]
  exact toNat_addWords_of_short hx hfits

theorem apply_lt_of_not_short {x : Call} (hx : ¬ x.Short)
    (hfits : c.acc.toNat + x.first < 2 ^ 32) : (x.apply c).acc.toNat < 2 ^ 31 + 2 ^ 16 := by
  rw [apply_eq]
  exact addWords_lt_of_word x.pass_lt (Nat.le_of_not_lt hx) hfits

end Call

/-! ### Sequences of calls -/

/-- Where a sum comes from. -/
inductive Start where
  /-- The empty sum. -/
  | new
  /-- The sum of a byte range. -/
  | compute (b : Bytes)
  /-- The sum that a header's checksum closes. -/
  | ofHeader (lo hi : UInt8)

namespace Start

/-- The sum to start with. -/
def sum : Start → Checksum
  | new => zero
  | compute b => Checksum.compute b
  | ofHeader lo hi => Checksum.ofHeader lo hi

/-- The sum to start with, every addition checked. -/
def sum? : Start → Option Checksum
  | new => some zero
  | compute b => zero.add? b
  | ofHeader lo hi => some (Checksum.ofHeader lo hi)

/-- The sum after a sequence of calls. -/
def run (s : Start) (calls : List Call) : Checksum :=
  calls.foldl (fun c x => x.apply c) s.sum

/-- The sum after a sequence of calls, every addition checked. -/
def run? (s : Start) (calls : List Call) : Option Checksum := do
  calls.foldlM (fun c x => x.applyChecked? c) (← s.sum?)

variable {s : Start} {calls before stretch : List Call} {x : Call}

/-- No start overflows. -/
theorem sum?_eq (s : Start) : s.sum? = some s.sum := by
  cases s with
  | new => rfl
  | compute b =>
    rw [sum?, add?, addWords?_of_settled (f := id) toNat_word_lt settled_zero]
    rfl
  | ofHeader lo hi => rfl

theorem sum_lt (s : Start) : s.sum.acc.toNat < 2 ^ 31 + 2 ^ 16 := by
  cases s with
  | new => exact settled_zero.trans (by decide)
  | compute b => exact addWords_lt (f := id) toNat_word_lt settled_zero
  | ofHeader lo hi => exact (toNat_complement_word_lt lo hi).trans (by decide)

theorem run_concat : s.run (calls ++ [x]) = x.apply (s.run calls) := by
  rw [run, List.foldl_append]
  rfl

theorem run?_nil : s.run? [] = some s.sum := by
  rw [run?, sum?_eq]
  rfl

theorem run?_append (before after : List Call) :
    s.run? (before ++ after) = s.run? before >>= after.foldlM (fun c x => x.applyChecked? c) := by
  rw [run?, run?, sum?_eq]
  exact List.foldlM_append

theorem isSome_run?_of_append {after : List Call} (h : (s.run? (before ++ after)).isSome) :
    (s.run? before).isSome := by
  rw [run?_append] at h
  cases hrun : s.run? before with
  | none => simp [hrun] at h
  | some c => rfl

/-- One more call overflows, or it does not and the sum is the unchecked one. -/
theorem run?_concat (h : s.run? calls = some (s.run calls)) (x : Call) :
    s.run? (calls ++ [x]) =
      if (s.run calls).acc.toNat + x.first < 2 ^ 32 then some (s.run (calls ++ [x])) else none := by
  rw [run?_append, h, run_concat, ← Call.applyChecked?_eq]
  simp

/-- A sequence that does not overflow ends in the unchecked sum. -/
theorem run?_of_isSome (h : (s.run? calls).isSome) : s.run? calls = some (s.run calls) := by
  induction calls using List.reverseRecOn with
  | nil => exact run?_nil
  | append_singleton calls x ih =>
    have hcalls := ih (isSome_run?_of_append h)
    rw [run?_concat hcalls] at h ⊢
    split at h
    · rename_i hfits
      exact if_pos hfits
    · cases h

/-- The last call of a sequence that does not overflow has room. -/
theorem fits_of_isSome (h : (s.run? (calls ++ [x])).isSome) :
    (s.run calls).acc.toNat + x.first < 2 ^ 32 := by
  rw [run?_concat (run?_of_isSome (isSome_run?_of_append h))] at h
  split at h
  · assumption
  · cases h

/-! ### Stretches of short calls -/

/-- What the calls of a stretch come to, no fold between them. -/
def total (stretch : List Call) : Nat := (stretch.map Call.first).sum

theorem run_append_of_short (hrun : (s.run? (before ++ stretch)).isSome)
    (hshort : ∀ x ∈ stretch, x.Short) :
    (s.run (before ++ stretch)).acc.toNat = (s.run before).acc.toNat + total stretch := by
  induction stretch using List.reverseRecOn with
  | nil => rw [List.append_nil]; rfl
  | append_singleton stretch x ih =>
    rw [List.forall_mem_append, List.forall_mem_singleton] at hshort
    rw [← List.append_assoc] at hrun ⊢
    rw [run_concat, Call.toNat_apply_of_short hshort.2 (fits_of_isSome hrun),
      ih (isSome_run?_of_append hrun) hshort.1]
    simp [total, Nat.add_assoc]

/-- An empty range adds nothing, so only the others count. -/
theorem total_le (stretch : List Call) :
    total stretch ≤ 65535 * stretch.countP (·.bytes ≠ []) := by
  induction stretch with
  | nil => simp [total]
  | cons x stretch ih =>
    have hx := x.first_lt
    rw [total, List.map_cons, List.sum_cons, ← total, List.countP_cons]
    by_cases hbytes : x.bytes = []
    · have hfirst : x.first = 0 := by rw [Call.first, hbytes]; rfl
      simp only [hbytes, hfirst]
      simpa using ih
    · rw [if_pos (decide_eq_true hbytes)]
      omega

/-- Every sequence ends in a stretch of short calls, and before it the accumulator is nearly
settled. -/
theorem exists_stretch (h : (s.run? calls).isSome) :
    ∃ before stretch, calls = before ++ stretch ∧ (∀ x ∈ stretch, x.Short) ∧
      (s.run before).acc.toNat < 2 ^ 31 + 2 ^ 16 := by
  induction calls using List.reverseRecOn with
  | nil => exact ⟨[], [], rfl, by simp, sum_lt s⟩
  | append_singleton calls x ih =>
    by_cases hx : x.Short
    · obtain ⟨before, stretch, rfl, hshort, hlt⟩ := ih (isSome_run?_of_append h)
      refine ⟨before, stretch ++ [x], by simp, ?_, hlt⟩
      rw [List.forall_mem_append, List.forall_mem_singleton]
      exact ⟨hshort, hx⟩
    · refine ⟨calls ++ [x], [], by simp, by simp, ?_⟩
      rw [run_concat]
      exact Call.apply_lt_of_not_short hx (fits_of_isSome h)

/-- A sequence that overflows does so at some call. -/
theorem exists_overflow (h : s.run? calls = none) :
    ∃ done last after, calls = done ++ last :: after ∧ (s.run? done).isSome ∧
      2 ^ 32 ≤ (s.run done).acc.toNat + last.first := by
  induction calls using List.reverseRecOn with
  | nil => rw [run?_nil] at h; cases h
  | append_singleton calls x ih =>
    cases hcalls : s.run? calls with
    | none =>
      obtain ⟨done, last, after, rfl, hdone, hover⟩ := ih hcalls
      exact ⟨done, last, after ++ [x], by simp, hdone, hover⟩
    | some c =>
      have hdone : (s.run? calls).isSome := by rw [hcalls]; rfl
      rw [run?_concat (run?_of_isSome hdone)] at h
      refine ⟨calls, x, [], rfl, hdone, Nat.le_of_not_lt fun hfits => ?_⟩
      rw [if_pos hfits] at h
      cases h

/-- Some addition overflows exactly if a stretch of calls, each with fewer than two bytes, and one
more call take the accumulator to 2^32; a stretch of at least 32767 one-byte calls, then. If none
does, the sum is the unchecked one. -/
theorem overflows_iff (s : Start) (calls : List Call) :
    (s.run? calls = none ↔
      ∃ before stretch last after, calls = before ++ stretch ++ last :: after ∧
        (∀ x ∈ stretch, x.Short) ∧ 32767 ≤ stretch.countP (·.bytes ≠ []) ∧
        2 ^ 32 ≤ (s.run before).acc.toNat + total stretch + last.first) ∧
    ∀ c, s.run? calls = some c → c = s.run calls := by
  refine ⟨⟨fun hnone => ?_, ?_⟩, fun c hc => ?_⟩
  · obtain ⟨done, last, after, rfl, hdone, hover⟩ := exists_overflow hnone
    obtain ⟨before, stretch, rfl, hshort, hlt⟩ := exists_stretch hdone
    rw [run_append_of_short hdone hshort] at hover
    have hlast := last.first_lt
    have htotal := total_le stretch
    exact ⟨before, stretch, last, after, rfl, hshort, by omega, hover⟩
  · rintro ⟨before, stretch, last, after, rfl, hshort, -, hover⟩
    rw [List.append_cons] at *
    by_contra hsome
    have hlast := isSome_run?_of_append (Option.isSome_iff_ne_none.mpr hsome)
    have hfits := fits_of_isSome hlast
    rw [run_append_of_short (isSome_run?_of_append hlast) hshort] at hfits
    exact Nat.not_lt.mpr hover hfits
  · have hrun := run?_of_isSome (Option.isSome_iff_exists.mpr ⟨c, hc⟩)
    exact Option.some.inj (hc.symm.trans hrun)

/-! ### An overflow -/

/-- Below the top bit nothing is folded. -/
theorem toNat_addWords_of_lt (hlt : acc.toNat + sumWords f b < 2 ^ 31) :
    (addWords f acc b).toNat = acc.toNat + sumWords f b := by
  induction acc, b using addWords.induct (f := f) with
  | case1 acc lo hi rest ih =>
    rw [sumWords, ← Nat.add_assoc] at hlt
    have hsum : (acc + f (word lo hi)).toNat = acc.toNat + (f (word lo hi)).toNat := by
      rw [UInt32.toNat_add]
      omega
    have hword : addWord acc (f (word lo hi)) = acc + f (word lo hi) :=
      if_neg (not_not.mpr ((topBit_eq_zero_iff _).mpr (by omega)))
    rw [hword, hsum] at ih
    rw [addWords, hword, ih hlt, sumWords, Nat.add_assoc]
  | case2 acc last =>
    rw [sumWords] at hlt
    rw [addWords, UInt32.toNat_add, sumWords]
    omega
  | case3 acc => rfl

theorem wordSum_replicate (n : Nat) (d : UInt8) :
    wordSum (.replicate (2 * n) d) = 257 * d.toNat * n := by
  induction n with
  | zero => rfl
  | succ n ih =>
    rw [Nat.mul_succ, List.replicate_succ, List.replicate_succ, wordSum, sumWords, ← wordSum, ih,
      id, toNat_word]
    ring

theorem toNat_compute_ones {n : Nat} {lo hi : UInt8}
    (hlt : 65535 * n + (word lo hi).toNat < 2 ^ 31) :
    (Checksum.compute (.replicate (2 * n) 0xFF ++ [lo, hi])).acc.toNat =
      65535 * n + (word lo hi).toNat := by
  have hsum : sumWords id (.replicate (2 * n) 0xFF ++ [lo, hi]) =
      65535 * n + (word lo hi).toNat := by
    rw [sumWords_append id (by simp), ← wordSum, wordSum_replicate]
    rfl
  rw [Checksum.compute, add, toNat_addWords_of_lt (by rw [hsum]; simpa [zero] using hlt), hsum]
  exact Nat.zero_add _

theorem overflows_of_replicate {n : Nat} (hx : x.Short)
    (hover : 2 ^ 32 ≤ s.sum.acc.toNat + n * x.first) : s.run? (.replicate n x) = none := by
  by_contra hsome
  have hok : (s.run? ([] ++ .replicate n x)).isSome := Option.isSome_iff_ne_none.mpr hsome
  have hrun := run_append_of_short hok fun y hy => List.eq_of_mem_replicate hy ▸ hx
  have htotal : total (.replicate n x) = n * x.first := by
    rw [total, List.map_replicate, List.sum_replicate_nat]
  have hlt := (s.run ([] ++ .replicate n x)).acc.toNat_lt
  rw [hrun, htotal] at hlt
  exact Nat.not_lt.mpr hover hlt

/-- A range that takes the accumulator up to the fold, and 32769 one-byte ranges taken out after
it. -/
theorem overflows_after_ones :
    (Start.compute (.replicate (2 * 32768) 0xFF ++ [0xFF, 0x7F])).run?
      (.replicate 32769 (.sub [0])) = none := by
  refine overflows_of_replicate Nat.one_lt_two ?_
  rw [sum, toNat_compute_ones (by decide)]
  decide

end Start

end Checksum

end Dataplane

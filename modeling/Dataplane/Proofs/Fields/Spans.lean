import Dataplane.Proofs.Bytes.Arithmetic

/-!
# Spans of bits in byte strings

A field of a header occupies a *span* of the header's bytes: a range of bits in the number that some
neighbouring bytes write. A slot is the case in which the range is all of the bits.

## What is proved

* `BitSpan.read_write`: reading a span back gives what was written, cut to the bits of the span.
* `BitSpan.bit_write`: writing a span leaves every bit outside it as it is.
* `BitSpan.read_between`: a span of a part of a byte string is a span of the whole, further back.
* `BitSpan.Change` puts the three together: what is left of a byte string after a change at a span.
-/

namespace Dataplane

/-! ### Spans -/

/-- Where a field lies in a byte string: some bits of the number that `size` bytes write, and the
width at which its value is given. -/
structure BitSpan where
  /-- The offset of the first byte. -/
  start : Nat
  /-- The number of bytes. -/
  size : Nat
  /-- The bits of the number they write. -/
  bits : BitRange
  /-- The number of bytes of a value. -/
  width : Nat
  deriving DecidableEq

namespace BitSpan

/-- The span of some whole bytes. -/
def ofBytes (start size : Nat) : BitSpan := ⟨start, size, ⟨0, 8 * size⟩, size⟩

/-- The span of the bytes of a slot. -/
def ofSlot {n : Nat} (s : Slot n) : BitSpan := ofBytes s.start s.width

/-- The span of a bit range of a slot. -/
def ofBits {n : Nat} (s : Slot n) (r : BitRange) (width : Nat) : BitSpan :=
  ⟨s.start, s.width, r, width⟩

/-- The same bits with `k` bytes more before them. -/
def after (s : BitSpan) (k : Nat) : BitSpan := { s with start := k + s.start }

/-- The bytes of the span. -/
def word (s : BitSpan) (b : Bytes) : Bytes := (b.drop s.start).take s.size

/-- The value of the span. -/
def read (s : BitSpan) (b : Bytes) : Bytes := Bytes.ofNat s.width (s.bits.read (s.word b).toNat)

/-- The string with the low bits of a number in the span. -/
def write (s : BitSpan) (b : Bytes) (val : Nat) : Bytes :=
  b.take s.start ++ Bytes.ofNat s.size (s.bits.write (s.word b).toNat val) ++
    b.drop (s.start + s.size)

/-- The span lies inside a string of `len` bytes, and its values have room for its bits. -/
structure Fits (s : BitSpan) (len : Nat) : Prop where
  bytes : s.start + s.size ≤ len
  bits : s.bits.pos + s.bits.count ≤ 8 * s.size
  value : s.bits.count ≤ 8 * s.width

/-- Is the bit at a position one of the span? -/
def Holds (s : BitSpan) (i : Nat) : Prop :=
  8 * (s.start + s.size) ≤ i + s.bits.pos + s.bits.count ∧ i + s.bits.pos < 8 * (s.start + s.size)

instance (s : BitSpan) (i : Nat) : Decidable (s.Holds i) := by unfold Holds; infer_instance

variable {s : BitSpan} {b : Bytes}

/-! ### Reading and writing spans -/

theorem length_word (h : s.start + s.size ≤ b.length) : (s.word b).length = s.size := by
  simp [word]; omega

theorem length_write (h : s.start + s.size ≤ b.length) (val : Nat) :
    (s.write b val).length = b.length := by
  simp [write]; omega

@[simp] theorem length_read : (s.read b).length = s.width := by simp [read]

/-- A byte string is what lies before a span, the bytes of the span, and what lies after it. -/
theorem eq_around (s : BitSpan) (b : Bytes) :
    b = b.take s.start ++ s.word b ++ b.drop (s.start + s.size) := by
  rw [word, ← List.drop_drop, List.append_assoc, List.take_append_drop, List.take_append_drop]

theorem word_between (a c : Bytes) (h : s.start + s.size ≤ b.length) :
    (s.after a.length).word (a ++ b ++ c) = s.word b := Bytes.range_between a c h

/-- A span of a part of a byte string is a span of the whole, further back. -/
theorem read_between (a c : Bytes) (h : s.start + s.size ≤ b.length) :
    (s.after a.length).read (a ++ b ++ c) = s.read b := by
  rw [read, read, word_between a c h]
  rfl

theorem word_write (h : s.start + s.size ≤ b.length) (val : Nat) :
    s.word (s.write b val) = Bytes.ofNat s.size (s.bits.write (s.word b).toNat val) := by
  have hstart : (b.take s.start).length = s.start := by simp; omega
  rw [word, write, List.append_assoc, List.drop_append, List.drop_of_length_le (by omega),
    List.nil_append, hstart, Nat.sub_self, List.drop_zero, List.take_append_of_le_length (by simp),
    List.take_of_length_le (by simp)]

/-- Reading a span back gives what was written, cut to the bits of the span. -/
theorem read_write (h : s.Fits b.length) (val : Nat) :
    s.read (s.write b val) = Bytes.ofNat s.width (val % 2 ^ s.bits.count) := by
  have hwide : s.bits.read (s.bits.write (s.word b).toNat val % 256 ^ s.size) =
      s.bits.read (s.bits.write (s.word b).toNat val) := by
    have hbits := h.bits
    have hpow : 256 ^ s.size = 2 ^ (8 * s.size) := by rw [pow_mul]; rfl
    apply Nat.eq_of_testBit_eq
    intro i
    rw [BitRange.testBit_read, BitRange.testBit_read, hpow, Nat.testBit_mod_two_pow]
    by_cases hi : i < s.bits.count
    · have hin : s.bits.pos + i < 8 * s.size := by omega
      simp [hin]
    · simp [hi]
  rw [read, word_write h.bytes, Bytes.toNat_ofNat, hwide, BitRange.read_write]

/-- Writing a span replaces its bits and leaves every other bit as it is. -/
theorem bit_write (h : s.Fits b.length) (val i : Nat) :
    Bytes.bit (s.write b val) i =
      if s.Holds i then val.testBit (8 * (s.start + s.size) - 1 - i - s.bits.pos)
      else Bytes.bit b i := by
  have hbytes := h.bytes
  have hbits := h.bits
  have hstart : (b.take s.start).length = s.start := by simp; omega
  have hword := length_word h.bytes
  conv_rhs => rw [eq_around s b]
  simp only [write, List.append_assoc, Bytes.bit_append, hstart, hword, Bytes.length_ofNat]
  by_cases hbefore : i < 8 * s.start
  · have hout : ¬ s.Holds i := by unfold Holds; omega
    rw [if_pos hbefore, if_neg hout, if_pos hbefore]
  · by_cases hin : i - 8 * s.start < 8 * s.size
    · have hwritten : i - 8 * s.start < 8 * (Bytes.ofNat s.size
          (s.bits.write (s.word b).toNat val)).length := by
        rw [Bytes.length_ofNat]; exact hin
      have hwhole : i - 8 * s.start < 8 * (s.word b).length := by rw [hword]; exact hin
      have hpow : 256 ^ s.size = 2 ^ (8 * s.size) := by rw [pow_mul]; rfl
      have hlow : 8 * s.size - 1 - (i - 8 * s.start) < 8 * s.size := by omega
      rw [if_neg hbefore, if_neg hbefore, if_pos hin, if_pos hin, Bytes.bit_eq_testBit hwritten,
        Bytes.bit_eq_testBit hwhole, Bytes.length_ofNat, hword, Bytes.toNat_ofNat, hpow,
        Nat.testBit_mod_two_pow, BitRange.testBit_write]
      have hpos : 8 * s.size - 1 - (i - 8 * s.start) - s.bits.pos =
          8 * (s.start + s.size) - 1 - i - s.bits.pos := by omega
      simp only [hlow, decide_true, Bool.true_and, hpos]
      have hholds : (s.bits.pos ≤ 8 * s.size - 1 - (i - 8 * s.start) ∧
          8 * s.size - 1 - (i - 8 * s.start) < s.bits.pos + s.bits.count) ↔ s.Holds i := by
        unfold Holds; omega
      rw [if_congr hholds rfl rfl]
    · have hout : ¬ s.Holds i := by unfold Holds; omega
      rw [if_neg hout, if_neg hbefore, if_neg hin, if_neg hbefore, if_neg hin]

/-! ### Slots and lists as byte strings -/

section Block

variable {n : Nat}

theorem fits_ofSlot (s : Slot n) : (ofSlot s).Fits n :=
  ⟨s.fits, by simp [ofSlot, ofBytes], le_rfl⟩

theorem read_ofBytes {start size : Nat} (h : start + size ≤ b.length) :
    (ofBytes start size).read b = (b.drop start).take size := by
  have hlen : ((b.drop start).take size).length = size := by simp; omega
  have hlt := Bytes.toNat_lt ((b.drop start).take size)
  have hall : (BitRange.mk 0 (8 * size)).read (Bytes.toNat ((b.drop start).take size)) =
      Bytes.toNat ((b.drop start).take size) := by
    rw [BitRange.read, Nat.one_shiftLeft, Nat.shiftRight_zero, pow_mul]
    rw [hlen] at hlt
    exact Nat.mod_eq_of_lt hlt
  have hnum := Bytes.ofNat_toNat ((b.drop start).take size)
  rw [hlen] at hnum
  rw [read, word]
  exact (congrArg (Bytes.ofNat size) hall).trans hnum

/-- Writing whole bytes is replacing them. -/
theorem write_ofBytes {start size : Nat} {val : Bytes} (h : start + size ≤ b.length)
    (hval : val.length = size) :
    (ofBytes start size).write b val.toNat = b.take start ++ val ++ b.drop (start + size) := by
  have hlen : ((b.drop start).take size).length = size := by simp; omega
  have hlt := Bytes.toNat_lt ((b.drop start).take size)
  have hlt' := Bytes.toNat_lt val
  rw [hlen] at hlt
  rw [hval] at hlt'
  have hall : (BitRange.mk 0 (8 * size)).write (Bytes.toNat ((b.drop start).take size)) val.toNat =
      val.toNat := by
    have hhigh : Bytes.toNat ((b.drop start).take size) >>> (8 * size) = 0 := by
      rw [Nat.shiftRight_eq_div_pow, pow_mul]
      exact Nat.div_eq_of_lt hlt
    have hlow : val.toNat % 2 ^ (8 * size) = val.toNat := by
      rw [pow_mul]
      exact Nat.mod_eq_of_lt hlt'
    simp [BitRange.write, hhigh, Nat.one_shiftLeft, hlow, Nat.mod_one]
  have hnum := Bytes.ofNat_toNat val
  rw [hval] at hnum
  show b.take start ++ Bytes.ofNat size ((BitRange.mk 0 (8 * size)).write
    (Bytes.toNat ((b.drop start).take size)) val.toNat) ++ b.drop (start + size) = _
  rw [hall, hnum]

theorem read_ofSlot (b : Block n) (s : Slot n) : (ofSlot s).read b.bytes = b.get s :=
  read_ofBytes (by rw [b.length_eq]; exact s.fits)

theorem bytes_set (b : Block n) (s : Slot n) (val : Bytes) :
    (b.set s val).bytes = (ofSlot s).write b.bytes (val.resize s.width).toNat :=
  (write_ofBytes (by rw [b.length_eq]; exact s.fits) (Bytes.length_resize _ _)).symm

theorem bytes_update (b : Block n) (s : Slot n) (op : FieldOp) (arg : Bytes) :
    (b.update s op arg).bytes = (ofSlot s).write b.bytes (op.apply (b.get s) arg).toNat := by
  have hlen : (op.apply (b.get s) arg).length = s.width := by simp
  rw [Block.update, bytes_set, Bytes.resize_of_length_eq hlen]

theorem bytes_updateBits (b : Block n) (s : Slot n) (r : BitRange) (width : Nat) (op : FieldOp)
    (arg : Bytes) :
    (b.updateBits s r width op arg).bytes =
      (ofBits s r width).write b.bytes (op.apply (b.getBits s r width) arg).toNat := by
  rw [Block.updateBits, Block.setBits, Block.setNum, Block.bytes_set b (Bytes.length_ofNat _ _),
    ← List.append_assoc]
  rfl

end Block

section List

variable {α : Type} {l : List α} {i : Nat} {x x' : α}

theorem flatMap_around (f : α → Bytes) (h : l[i]? = some x) :
    l.flatMap f = (l.take i).flatMap f ++ f x ++ (l.drop (i + 1)).flatMap f := by
  obtain ⟨hi, rfl⟩ := List.getElem?_eq_some_iff.mp h
  conv_lhs => rw [← List.take_append_drop i l, List.drop_eq_getElem_cons hi]
  rw [List.flatMap_append, List.flatMap_cons, List.append_assoc]

theorem flatMap_set (f : α → Bytes) (h : l[i]? = some x) :
    (l.set i x').flatMap f = (l.take i).flatMap f ++ f x' ++ (l.drop (i + 1)).flatMap f := by
  obtain ⟨hi, -⟩ := List.getElem?_eq_some_iff.mp h
  rw [List.set_eq_take_append_cons_drop, if_pos hi, List.flatMap_append, List.flatMap_cons,
    List.append_assoc]

theorem modify_eq_set (g : α → α) (h : l[i]? = some x) : l.modify i g = l.set i (g x) := by
  obtain ⟨hi, rfl⟩ := List.getElem?_eq_some_iff.mp h
  rw [List.modify_eq_take_cons_drop hi, List.set_eq_take_append_cons_drop, if_pos hi]

theorem read_flatMap (f : α → Bytes) (h : l[i]? = some x)
    (hs : s.start + s.size ≤ (f x).length) :
    (s.after ((l.take i).flatMap f).length).read (l.flatMap f) = s.read (f x) := by
  rw [flatMap_around f h, read_between _ _ hs]

end List

/-! ### Changes at a span -/

/-- A byte string changes at a span: reading the span then gives a number cut to its bits, and every
bit outside the span, and outside another one `beside` it, is as it was. -/
structure Change (s : BitSpan) (beside : Option BitSpan) (val : Nat) (b b' : Bytes) : Prop where
  fits : s.Fits b.length
  length_eq : b'.length = b.length
  read : s.read b' = Bytes.ofNat s.width (val % 2 ^ s.bits.count)
  kept : ∀ i, ¬ s.Holds i → (∀ c ∈ beside, ¬ c.Holds i) → Bytes.bit b' i = Bytes.bit b i

theorem change_write (h : s.Fits b.length) (val : Nat) : s.Change none val b (s.write b val) where
  fits := h
  length_eq := length_write h.bytes val
  read := read_write h val
  kept i hi _ := by rw [bit_write h, if_neg hi]

theorem Fits.mono {n len : Nat} (h : s.Fits n) (hlen : n ≤ len) : s.Fits len :=
  ⟨h.bytes.trans hlen, h.bits, h.value⟩

theorem Fits.after {len : Nat} (h : s.Fits len) {k len' : Nat} (hlen : k + len ≤ len') :
    (s.after k).Fits len' where
  bytes := by
    have := h.bytes
    show k + s.start + s.size ≤ len'
    omega
  bits := h.bits
  value := h.value

theorem Fits.between (h : s.Fits b.length) (a c : Bytes) :
    (s.after a.length).Fits (a ++ b ++ c).length := h.after (by simp)

theorem Fits.flatMap {α : Type} {l : List α} {i : Nat} {x : α} (f : α → Bytes) (h : l[i]? = some x)
    (hs : s.Fits (f x).length) :
    (s.after ((l.take i).flatMap f).length).Fits (l.flatMap f).length := by
  rw [flatMap_around f h]
  exact hs.between _ _

theorem holds_after {k i : Nat} (h : 8 * k ≤ i) : (s.after k).Holds i ↔ s.Holds (i - 8 * k) := by
  show 8 * (k + s.start + s.size) ≤ i + s.bits.pos + s.bits.count ∧
    i + s.bits.pos < 8 * (k + s.start + s.size) ↔ _
  unfold Holds
  omega

/-- A change of a part of a byte string is a change of the whole, further back. -/
theorem Change.between {beside : Option BitSpan} {val : Nat} {b' : Bytes}
    (h : s.Change beside val b b') (a c : Bytes) :
    (s.after a.length).Change (beside.map (·.after a.length)) val (a ++ b ++ c) (a ++ b' ++ c) where
  fits := h.fits.between a c
  length_eq := by simp [h.length_eq]
  read := by
    have hfits : s.start + s.size ≤ b'.length := h.length_eq ▸ h.fits.bytes
    rw [read_between a c hfits]
    exact h.read
  kept i hi hc := by
    simp only [List.append_assoc, Bytes.bit_append, h.length_eq]
    by_cases hbefore : i < 8 * a.length
    · simp [hbefore]
    · have hi' : ¬ s.Holds (i - 8 * a.length) := by rwa [← holds_after (by omega)]
      have hc' : ∀ c ∈ beside, ¬ c.Holds (i - 8 * a.length) := by
        intro c' hc'
        rw [← holds_after (by omega)]
        exact hc _ (Option.mem_map_of_mem _ hc')
      rw [h.kept _ hi' hc']

theorem after_after (s : BitSpan) (k k' : Nat) : (s.after k).after k' = s.after (k' + k) := by
  simp [after, Nat.add_assoc]

@[simp] theorem after_zero (s : BitSpan) : s.after 0 = s := by simp [after]

theorem read_front (c : Bytes) (h : s.start + s.size ≤ b.length) : s.read (b ++ c) = s.read b := by
  simpa using read_between [] c h

theorem Change.front {beside : Option BitSpan} {val : Nat} {b' : Bytes}
    (h : s.Change beside val b b') (c : Bytes) : s.Change beside val (b ++ c) (b' ++ c) := by
  cases beside <;> simpa using h.between [] c

/-- A change of what one element of a list writes is a change of what the list writes. -/
theorem Change.flatMap {α : Type} {l : List α} {i : Nat} {x x' : α} {beside : Option BitSpan}
    {val : Nat} (f : α → Bytes) (h : l[i]? = some x) (hc : s.Change beside val (f x) (f x')) :
    (s.after ((l.take i).flatMap f).length).Change
      (beside.map (·.after ((l.take i).flatMap f).length)) val (l.flatMap f)
        ((l.set i x').flatMap f) := by
  rw [flatMap_around f h, flatMap_set f h]
  exact hc.between _ _

section Block

variable {n : Nat}

theorem change_update (b : Block n) (s : Slot n) (op : FieldOp) (arg : Bytes) :
    (ofSlot s).Change none (op.apply ((ofSlot s).read b.bytes) arg).toNat b.bytes
      (b.update s op arg).bytes := by
  rw [bytes_update, read_ofSlot]
  exact change_write (by rw [b.length_eq]; exact fits_ofSlot s) _

theorem change_updateBits (b : Block n) {s : Slot n} {r : BitRange} {width : Nat}
    (hbits : r.pos + r.count ≤ 8 * s.width) (hvalue : r.count ≤ 8 * width) (op : FieldOp)
    (arg : Bytes) :
    (ofBits s r width).Change none (op.apply ((ofBits s r width).read b.bytes) arg).toNat b.bytes
      (b.updateBits s r width op arg).bytes := by
  rw [bytes_updateBits]
  exact change_write ⟨by rw [b.length_eq]; exact s.fits, hbits, hvalue⟩ _

/-- Reading a slot of a block that stands among other bytes. -/
theorem read_slot (a c : Bytes) (b : Block n) (s : Slot n) :
    ((ofSlot s).after a.length).read (a ++ b.bytes ++ c) = b.get s := by
  rw [read_between _ _ (by rw [b.length_eq]; exact s.fits), read_ofSlot]

theorem change_slot (a c : Bytes) (b : Block n) (s : Slot n) (op : FieldOp) (arg : Bytes) :
    ((ofSlot s).after a.length).Change none (op.apply (b.get s) arg).toNat (a ++ b.bytes ++ c)
      (a ++ (b.update s op arg).bytes ++ c) := by
  rw [← read_ofSlot]
  exact (change_update b s op arg).between a c

theorem read_slot_front (b : Block n) (s : Slot n) (c : Bytes) :
    (ofSlot s).read (b.bytes ++ c) = b.get s := by
  simpa using read_slot [] c b s

theorem change_slot_front (b : Block n) (s : Slot n) (op : FieldOp) (arg c : Bytes) :
    (ofSlot s).Change none (op.apply (b.get s) arg).toNat (b.bytes ++ c)
      ((b.update s op arg).bytes ++ c) := by
  simpa using change_slot [] c b s op arg

/-- A store to a slot apart from a changed one is a change beside it. -/
theorem Change.set_apart {b b' : Block n} {s s' : Slot n} {val : Nat}
    (h : (ofSlot s).Change none val b.bytes b'.bytes) (hs : s'.Apart s) (v : Bytes) :
    (ofSlot s).Change (some (ofSlot s')) val b.bytes (b'.set s' v).bytes where
  fits := h.fits
  length_eq := by rw [b.length_eq, Block.length_eq]
  read := by
    rw [read_ofSlot, Block.get_set_of_apart hs, ← read_ofSlot]
    exact h.read
  kept i hi hc := by
    have hfits : (ofSlot s').Fits b'.bytes.length := by rw [b'.length_eq]; exact fits_ofSlot s'
    rw [bytes_set, bit_write hfits, if_neg (hc _ rfl), h.kept i hi (by simp)]

end Block

end BitSpan

end Dataplane

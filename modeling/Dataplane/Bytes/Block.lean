import Dataplane.Bytes

/-!
# Fixed-size blocks and the fields in them

The fixed part of a header is a block of a known number of bytes. A field of it is a *slot*, a
range of bytes inside the block, or a *bit range* of such a slot read as a number.

## The model

A `Slot` carries the proof that it lies inside its block, so reading and writing one cannot fail,
and writing keeps the size of the block. Storing to a slot brings the value to the slot's width
first.
-/

namespace Dataplane

/-- A byte string of length `n`. -/
structure Block (n : Nat) where
  /-- The bytes. -/
  bytes : Bytes
  /-- There are `n` of them. -/
  length_eq : bytes.length = n
  deriving DecidableEq

/-- A range of bytes inside a block of `n` bytes. -/
structure Slot (n : Nat) where
  /-- The offset of the first byte. -/
  start : Nat
  /-- The number of bytes. -/
  width : Nat
  /-- The range ends inside the block. -/
  fits : start + width ≤ n

/-- The slot of some bytes in a block that goes on for `rest` bytes behind it. -/
def Slot.of (start width : Nat) {rest : Nat} : Slot (rest + (start + width)) :=
  ⟨start, width, Nat.le_add_left _ _⟩

@[simp] theorem Slot.start_of (start width rest : Nat) :
    (Slot.of start width : Slot (rest + (start + width))).start = start := rfl

@[simp] theorem Slot.width_of (start width rest : Nat) :
    (Slot.of start width : Slot (rest + (start + width))).width = width := rfl

/-- A range of bits inside a number, `pos` bits up from the least significant one. -/
structure BitRange where
  /-- The lowest bit. -/
  pos : Nat
  /-- The number of bits. -/
  count : Nat
  deriving DecidableEq

namespace BitRange

/-- The bits of `n` in the range, as a number. -/
def read (r : BitRange) (n : Nat) : Nat :=
  n >>> r.pos % 1 <<< r.count

/-- The number `n` with the bits in the range replaced by the low bits of `val`. -/
def write (r : BitRange) (n val : Nat) : Nat :=
  (n >>> (r.pos + r.count)) <<< (r.pos + r.count) + (val % 1 <<< r.count) <<< r.pos +
    n % 1 <<< r.pos

end BitRange

namespace Block

variable {n : Nat}

/-- The block whose bytes are all zero. -/
def zero (n : Nat) : Block n := ⟨List.replicate n 0, List.length_replicate⟩

instance : Inhabited (Block n) := ⟨zero n⟩

/-- A byte string as a block, if it has the right length. -/
def ofBytes? (n : Nat) (b : Bytes) : Option (Block n) :=
  if h : b.length = n then some ⟨b, h⟩ else none

/-- The number `val` as a block of `n` bytes in network order. -/
def ofNat (n val : Nat) : Block n := ⟨Bytes.ofNat n val, Bytes.length_ofNat n val⟩

/-- The byte at an offset; past the end it counts as zero. -/
def byte (b : Block n) (i : Nat) : UInt8 := b.bytes.getD i 0

/-- The bytes of a slot. -/
def get (b : Block n) (s : Slot n) : Bytes :=
  (b.bytes.drop s.start).take s.width

@[simp] theorem length_get (b : Block n) (s : Slot n) : (b.get s).length = s.width := by
  have := b.length_eq
  have := s.fits
  simp [get]; omega

/-- The block with the bytes of a slot replaced by `val`, brought to the slot's width. -/
def set (b : Block n) (s : Slot n) (val : Bytes) : Block n :=
  ⟨b.bytes.take s.start ++ val.resize s.width ++ b.bytes.drop (s.start + s.width), by
    have := b.length_eq
    have := s.fits
    simp; omega⟩

/-- The number a slot holds. -/
def num (b : Block n) (s : Slot n) : Nat :=
  (b.get s).toNat

/-- The block with the number `val` in a slot, cut to the slot's width. -/
def setNum (b : Block n) (s : Slot n) (val : Nat) : Block n :=
  b.set s (Bytes.ofNat s.width val)

/-- The number a bit range of a slot holds. -/
def bits (b : Block n) (s : Slot n) (r : BitRange) : Nat :=
  r.read (b.num s)

/-- The block with the low bits of `val` in a bit range of a slot. -/
def setBits (b : Block n) (s : Slot n) (r : BitRange) (val : Nat) : Block n :=
  b.setNum s (r.write (b.num s) val)

end Block

end Dataplane

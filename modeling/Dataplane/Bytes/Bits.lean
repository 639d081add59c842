import Dataplane.Bytes.Block

/-!
# Bit operations on fields

Operands of bit operations are aligned with a field at the low ends of both, and bits are counted
from there: bit 0 is the lowest bit of the last byte.
-/

namespace Dataplane.Bytes

/-- One bit of a string that has that many. -/
def lowBit (b : Bytes) (i : Nat) : Bool :=
  b.getD (b.length - 1 - i / 8) 0 >>> UInt8.ofNat (i % 8) &&& 1 = 1

/-- The string with one bit set or cleared. -/
def setLowBit (b : Bytes) (i : Nat) (on : Bool) : Bytes :=
  let mask : UInt8 := 1 <<< UInt8.ofNat (i % 8)
  b.modify (b.length - 1 - i / 8) fun d => if on then d ||| mask else d &&& ~~~mask

/-- The field with the low `count` bits of `val` put in one after the other, from bit `pos` up. -/
def writeLowBits (field : Bytes) (pos : Nat) (val : Bytes) : (count : Nat) → Bytes
  | 0 => field
  | i + 1 => (writeLowBits field pos val i).setLowBit (pos + i) (val.lowBit i)

/-- The field with the bits in a range replaced by the low bits of `val`, if both have that many
bits. -/
def writeBits? (field : Bytes) (r : BitRange) (val : Bytes) : Option Bytes :=
  if r.pos + r.count ≤ 8 * field.length ∧ r.count ≤ 8 * val.length then
    some (field.writeLowBits r.pos val r.count)
  else none

/-- The field with its low bytes combined with the bytes of `val`, if it is as wide as `val`. -/
def combine? (f : UInt8 → UInt8 → UInt8) (field val : Bytes) : Option Bytes :=
  if val.length ≤ field.length then
    let high := field.length - val.length
    some (field.take high ++ List.zipWith f (field.drop high) val)
  else none

/-- The field with the bits cleared that are zero in `val`. -/
def and? (field val : Bytes) : Option Bytes := combine? (· &&& ·) field val

/-- The field with the bits set that are one in `val`. -/
def or? (field val : Bytes) : Option Bytes := combine? (· ||| ·) field val

end Dataplane.Bytes

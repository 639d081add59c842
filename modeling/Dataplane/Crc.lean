import Dataplane.Bytes

/-!
# Cyclic redundancy checks

The two checks the engine hashes with. CRC-32 works from the low bit up, starts and ends
complemented, and uses the polynomial `0xEDB88320`. CRC-16 works from the high bit down, starts
from all ones, and uses the polynomial `x^16 + x^12 + x^5 + 1`.
-/

namespace Dataplane

namespace Crc32

/-- One bit out of the remainder. -/
def shift (c : UInt32) : UInt32 :=
  if c &&& 1 ≠ 0 then (c >>> 1) ^^^ 0xEDB88320 else c >>> 1

/-- One byte into the remainder. -/
def step (c : UInt32) (b : UInt8) : UInt32 :=
  Nat.repeat shift 8 (c ^^^ b.toUInt32)

end Crc32

/-- The CRC-32 of a byte string. -/
def crc32 (b : Bytes) : UInt32 :=
  b.foldl Crc32.step 0xFFFFFFFF ^^^ 0xFFFFFFFF

namespace Crc16

/-- One bit out of the remainder. -/
def shift (c : UInt16) : UInt16 :=
  if c &&& 0x8000 ≠ 0 then (c <<< 1) ^^^ 0x1021 else c <<< 1

/-- One byte into the remainder. -/
def step (c : UInt16) (b : UInt8) : UInt16 :=
  Nat.repeat shift 8 (c ^^^ (b.toUInt16 <<< 8))

end Crc16

/-- The CRC-16 of a byte string. -/
def crc16 (b : Bytes) : UInt16 :=
  b.foldl Crc16.step 0xFFFF

end Dataplane

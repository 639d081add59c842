import Dataplane.Bytes

/-!
# The internet checksum

A rolling one's complement sum of 16-bit words, which can be built up over several byte ranges or
adjusted by taking old bytes out and adding new ones, before it is closed into the two bytes stored
in a header.

## The model

The sum is taken with the first byte of each pair as the *low* byte of a word. The one's complement
sum does not depend on that choice as long as the result is stored the same way, so the closed
checksum is still in network order. Carries above the low 16 bits are collected in a 32-bit
accumulator, which is folded whenever its top bit is set; a last odd byte is added as if a zero
byte followed it, without that check.
-/

namespace Dataplane

/-- A rolling one's complement sum, carries not yet folded in. -/
structure Checksum where
  /-- The accumulator. -/
  acc : UInt32
  deriving DecidableEq

namespace Checksum

/-- The empty sum. -/
def zero : Checksum := ⟨0⟩

/-- Two bytes as a word, the first one low. -/
def word (lo hi : UInt8) : UInt32 :=
  lo.toUInt32 + hi.toUInt32 <<< 8

/-- One fold of the carries into the low 16 bits. -/
def foldOnce (acc : UInt32) : UInt32 :=
  (acc >>> 16) + (acc &&& 0xFFFF)

/-- The accumulator after adding a word, folded if its top bit is then set. -/
def addWord (acc w : UInt32) : UInt32 :=
  let sum := acc + w
  if sum &&& 0x80000000 ≠ 0 then foldOnce sum else sum

/-- Adds to `acc` the words of a byte range, each passed through `f` first. -/
def addWords (f : UInt32 → UInt32) (acc : UInt32) : Bytes → UInt32
  | lo :: hi :: rest => addWords f (addWord acc (f (word lo hi))) rest
  | [last] => acc + f (word last 0)
  | [] => acc

/-- The sum with a byte range added. -/
def add (c : Checksum) (b : Bytes) : Checksum :=
  ⟨addWords id c.acc b⟩

/-- The sum with a byte range taken out: its complement is added. -/
def sub (c : Checksum) (b : Bytes) : Checksum :=
  ⟨addWords (fun w => 0xFFFF - w) c.acc b⟩

/-- The sum of a byte range. -/
def compute (b : Bytes) : Checksum := zero.add b

/-- The sum with every carry folded in. Two folds are enough for any accumulator. -/
def fold (c : Checksum) : Checksum :=
  ⟨foldOnce (foldOnce c.acc)⟩

/-- The folded sum as two bytes, the low one first. -/
def sumBytes (c : Checksum) : Bytes :=
  let s := c.fold.acc
  [s.toUInt8, (s >>> 8).toUInt8]

/-- The sum of two sums. -/
def addSum (c d : Checksum) : Checksum := c.add d.sumBytes

/-- The two bytes stored in a header: the complement of the folded sum. -/
def header (c : Checksum) : Bytes :=
  c.sumBytes.map (~~~ ·)

/-- The sum that closes into the given two header bytes. -/
def ofHeader (lo hi : UInt8) : Checksum :=
  ⟨0xFFFF - word lo hi⟩

/-- The checksum of a byte range, closed. -/
def ofBytes (b : Bytes) : Bytes := (compute b).header

@[simp] theorem length_header (c : Checksum) : c.header.length = 2 := rfl

end Checksum

end Dataplane

import Dataplane.Bytes

/-!
# Hexadecimal text of bytes

Each byte is written as two lower-case digits, high digit first, with nothing between bytes.
Reading takes digits of either case.
-/

namespace Dataplane.Bytes

/-- The lower-case digit of a number below sixteen. -/
def hexDigit (n : Nat) : Char :=
  if n < 10 then Char.ofNat (48 + n) else Char.ofNat (87 + n)

/-- The number a hexadecimal digit stands for, in either case. -/
def hexValue? (c : Char) : Option Nat :=
  if '0' ≤ c ∧ c ≤ '9' then some (c.toNat - 48)
  else if 'a' ≤ c ∧ c ≤ 'f' then some (c.toNat - 87)
  else if 'A' ≤ c ∧ c ≤ 'F' then some (c.toNat - 55)
  else none

/-- The two digits of a byte. -/
def hexPair (b : UInt8) : List Char :=
  [hexDigit (b.toNat / 16), hexDigit (b.toNat % 16)]

/-- The text of a byte string. -/
def toHex (b : Bytes) : String :=
  String.ofList (b.flatMap hexPair)

/-- The bytes whose digits are `cs`, appended to the reverse of `done`. -/
def ofHexChars? (done : Bytes) : List Char → Option Bytes
  | [] => some done.reverse
  | hi :: lo :: rest =>
    match hexValue? hi, hexValue? lo with
    | some h, some l => ofHexChars? (UInt8.ofNat (16 * h + l) :: done) rest
    | _, _ => none
  | [_] => none

/-- The byte string a text of digit pairs writes. -/
def ofHex? (s : String) : Option Bytes :=
  ofHexChars? [] s.toList

end Dataplane.Bytes

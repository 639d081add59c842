import Dataplane.Bytes.Block
import Dataplane.Bytes.Hex

/-!
# MAC addresses

A MAC address is six bytes. It is written as six pairs of lower-case hexadecimal digits with colons
between them.

## The model

Reading cuts the text at its colons and takes each piece as an octet: one or more hexadecimal
digits of either case, a plus sign allowed before them, whose value fits a byte. The pieces are
taken in order, and the first one that is one too many or no octet decides the error.
-/

namespace Dataplane

/-- A MAC address. -/
structure MacAddr where
  /-- The six bytes. -/
  block : Block 6
  deriving DecidableEq

/-- Why a text is no MAC address. -/
inductive MacError where
  /-- There are more than six octets. -/
  | tooManyOctets (text : String)
  /-- A piece between colons is no octet. -/
  | badOctet (text : String)
  /-- There are fewer than six octets. -/
  | wrongCount (count : Nat)
  deriving DecidableEq

/-- The wording of a MAC address error. -/
def MacError.message : MacError → String
  | tooManyOctets s => s!"too many octets: {s}"
  | badOctet s => s!"bad octet: {s}"
  | wrongCount n => s!"incorrect number of bytes: {n}"

namespace MacAddr

def zero : MacAddr := ⟨.zero 6⟩

def broadcast : MacAddr := ⟨⟨List.replicate 6 0xFF, List.length_replicate⟩⟩

/-- The bytes of an address. -/
def bytes (m : MacAddr) : Bytes := m.block.bytes

/-- The address whose bytes are `b`, if there are six of them. -/
def ofBytes? (b : Bytes) : Option MacAddr := (Block.ofBytes? 6 b).map .mk

/-- The display text of an address. -/
def text (m : MacAddr) : String := ":".intercalate (m.bytes.map fun b => Bytes.toHex [b])

/-! ### Reading -/

/-- The pieces of a text between its colons. -/
def pieces : List Char → List (List Char)
  | [] => [[]]
  | ':' :: rest => [] :: pieces rest
  | c :: rest =>
    match pieces rest with
    | [] => [[c]]
    | p :: ps => (c :: p) :: ps

/-- The number that hexadecimal digits write, after the number `done` of the digits before. -/
def hexNumber? (done : Nat) : List Char → Option Nat
  | [] => some done
  | c :: rest =>
    match Bytes.hexValue? c with
    | some d => hexNumber? (done * 16 + d) rest
    | none => none

/-- The digits of an octet, its sign taken off. -/
def unsigned : List Char → List Char
  | '+' :: digits => digits
  | digits => digits

/-- The byte that an octet writes. -/
def octet? (piece : List Char) : Option UInt8 :=
  match unsigned piece, hexNumber? 0 (unsigned piece) with
  | _ :: _, some n => if n < 256 then some (UInt8.ofNat n) else none
  | _, _ => none

/-- Takes the pieces of the text `s` in order; `done` holds the bytes read. -/
def readOctets (s : String) (done : Bytes) : List (List Char) → Except MacError MacAddr
  | [] =>
    match ofBytes? done with
    | some m => .ok m
    | none => .error (.wrongCount done.length)
  | piece :: rest =>
    if done.length = 6 then .error (.tooManyOctets s)
    else match octet? piece with
      | some b => readOctets s (done ++ [b]) rest
      | none => .error (.badOctet (String.ofList piece))

/-- The address a text writes. -/
def ofText (s : String) : Except MacError MacAddr := readOctets s [] (pieces s.toList)

end MacAddr

end Dataplane

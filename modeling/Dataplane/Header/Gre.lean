import Dataplane.Header.Ethernet

/-!
# Generic routing encapsulation

A GRE header is a word of flags, the type of what follows, and up to three optional words:
checksum, key and sequence number, in that order.

## The model

Each optional word is there exactly when its flag is set; headers with other flags or a version are
refused. The first update of an absent key or sequence number inserts it. A rebuild stamps the type
of an IP header that follows and, where the checksum word is present, the checksum over the header
and everything inside.
-/

namespace Dataplane

/-- A GRE header. -/
structure Gre where
  /-- Flags and type. -/
  base : Block 4
  /-- The checksum word. -/
  checksum : Option (Block 4)
  /-- The key. -/
  key : Option (Block 4)
  /-- The sequence number. -/
  seq : Option (Block 4)
  deriving DecidableEq

namespace Gre

def flagsSlot : Slot 4 := .of 0 2
def typeSlot : Slot 4 := .of 2 2
def wordSlot : Slot 4 := .of 0 4
def checksumSlot : Slot 4 := .of 0 2
def checksumFlag : Nat := 0x8000
def keyFlag : Nat := 0x2000
def seqFlag : Nat := 0x1000

/-- A header without optional words. -/
def fresh : Gre := ⟨.zero 4, none, none, none⟩

/-! ### What the header says -/

/-- The known flags that are set. -/
def flags (h : Gre) : Nat :=
  h.base.num flagsSlot &&& (checksumFlag ||| keyFlag ||| seqFlag)

/-- The type of what follows. -/
def etherType (h : Gre) : Nat := h.base.num typeSlot

/-- The kind of what follows. -/
def nextKind (h : Gre) : HeaderKind :=
  if h.etherType = EtherType.ip4 then .ip4
  else if h.etherType = EtherType.ip6 then .ip6
  else .payload

/-- The type that announces a kind, if rebuilding stamps one. -/
def typeOfKind? : HeaderKind → Option Nat
  | .ip4 => some EtherType.ip4
  | .ip6 => some EtherType.ip6
  | _ => none

/-! ### The wire form -/

/-- The optional words that are present. -/
def words (h : Gre) : List (Block 4) :=
  h.checksum.toList ++ h.key.toList ++ h.seq.toList

/-- The number of bytes on the wire. -/
def wireLen (h : Gre) : Nat := 4 + 4 * h.words.length

/-- The bytes on the wire. -/
def emit (h : Gre) : Bytes := h.base.bytes ++ h.words.flatMap (·.bytes)

/-- Reads an optional word if its flag is set. -/
def readWord (flags flag : Nat) (f : Frame) : Except ParseError (Option (Block 4) × Frame) :=
  if flags &&& flag = 0 then .ok (none, f)
  else do
    let (word, f) ← ParseError.ofRead (f.readBlock 4)
    return (some word, f)

/-- Reads a header. -/
def read (f : Frame) : Except ParseError (Gre × Frame) := do
  let (base, f) ← ParseError.ofRead (f.readBlock 4)
  let flags := base.num flagsSlot
  if flags % 8 ≠ 0 then throw (.badHeader .gre .unsupportedVersion)
  if flags &&& (checksumFlag ||| keyFlag ||| seqFlag) ≠ flags then
    throw (.badHeader .gre .unsupportedFlags)
  let (checksum, f) ← readWord flags checksumFlag f
  let (key, f) ← readWord flags keyFlag f
  let (seq, f) ← readWord flags seqFlag f
  return (⟨base, checksum, key, seq⟩, f)

/-- The header that `b` writes, if it has the same flags as this one. -/
def reload? (h : Gre) (b : Bytes) : Option Gre :=
  match read (.ofBytes b) with
  | .ok (h', f) => if f.unread = [] ∧ h'.flags = h.flags then some h' else none
  | .error _ => none

/-! ### Fields -/

/-- The value of a field. -/
def get? (h : Gre) : FieldNum → Option Bytes
  | .greProtocol => some (h.base.get typeSlot)
  | .greKey => h.key.map (·.bytes)
  | .greSeq => h.seq.map (·.bytes)
  | _ => none

/-- The fixed part with a flag set. -/
def setFlag (h : Gre) (flag : Nat) : Block 4 :=
  h.base.setNum flagsSlot (h.flags ||| flag)

/-- An optional word after an operation; an absent one counts as zero. -/
def updateWord (word : Option (Block 4)) (op : FieldOp) (arg : Bytes) : Option (Block 4) :=
  some ((word.getD (.zero 4)).update wordSlot op arg)

/-- The header after an operation on a field. It is then dirty. -/
def update? (h : Gre) (num : FieldNum) (op : FieldOp) (arg : Bytes) : Option Gre :=
  match num with
  | .greProtocol => some { h with base := h.base.update typeSlot op arg }
  | .greKey => some { h with base := h.setFlag keyFlag, key := updateWord h.key op arg }
  | .greSeq => some { h with base := h.setFlag seqFlag, seq := updateWord h.seq op arg }
  | _ => none

/-! ### Derived fields -/

/-- The header with the checksum computed over it and `inner`, if it carries one. -/
def stampChecksum (h : Gre) (inner : Bytes) : Gre :=
  match h.checksum with
  | none => h
  | some _ =>
    let cleared := { h with checksum := some (.zero 4) }
    let sum := Checksum.ofBytes (cleared.emit ++ inner)
    { h with checksum := some ((Block.zero 4).set checksumSlot sum) }

/-- Stamps the type, if given, and the checksum of what is inside. -/
def rebuild (h : Gre) (innerType : Option Nat) (inner : Bytes) : Gre :=
  match innerType with
  | some t => stampChecksum { h with base := h.base.setNum typeSlot t } inner
  | none => h.stampChecksum inner

end Gre

end Dataplane

import Dataplane.Header.Error

/-!
# MPLS label stacks

Each entry of a stack is a word: a label of 20 bits, a traffic class of 3 bits, the bottom-of-stack
bit, and a time to live of 8 bits.

## The model

Reading goes on until an entry with the bottom-of-stack bit. A pushed entry takes over the time to
live of the entry it covers and does not have that bit, so the bit stays on the last entry only.
-/

namespace Dataplane

/-- A label stack, outermost entry first. -/
structure LabelStack where
  /-- The entries. -/
  entries : List (Block 4)
  deriving DecidableEq

namespace LabelStack

def wordSlot : Slot 4 := .of 0 4
def labelBits : BitRange := ⟨12, 20⟩
def classBits : BitRange := ⟨9, 3⟩
def bottomBits : BitRange := ⟨8, 1⟩
def ttlBits : BitRange := ⟨0, 8⟩

/-- The time to live of an entry that covers no other. -/
def defaultTtl : Nat := 64

/-- Is this the last entry of a stack? -/
def isBottom (entry : Block 4) : Bool := entry.bits wordSlot bottomBits = 1

/-- An entry with the given time to live, and everything else zero. -/
def entryWithTtl (ttl : Nat) : Block 4 := (Block.zero 4).setBits wordSlot ttlBits ttl

/-- A stack of one fresh entry. -/
def fresh : LabelStack := ⟨[(entryWithTtl defaultTtl).setBits wordSlot bottomBits 1]⟩

/-- The number of entries. -/
def depth (s : LabelStack) : Nat := s.entries.length

/-- The label of an entry. -/
def label (entry : Block 4) : Nat := entry.bits wordSlot labelBits

/-! ### The wire form -/

/-- The number of bytes on the wire. -/
def wireLen (s : LabelStack) : Nat := 4 * s.entries.length

/-- The bytes on the wire. -/
def emit (s : LabelStack) : Bytes := s.entries.flatMap (·.bytes)

/-- Reads entries up to the last one of a stack, at most `fuel` of them. -/
def readEntries : (fuel : Nat) → Frame → Except ReadError (List (Block 4) × Frame)
  | 0, f => .error (f.shortage 4)
  | fuel + 1, f => do
    let (entry, f) ← f.readBlock 4
    if isBottom entry then return ([entry], f)
    let (entries, f) ← readEntries fuel f
    return (entry :: entries, f)

/-- Reads a stack. Every entry reads bytes, so the number of unread bytes bounds their number. -/
def read (f : Frame) : Except ReadError (LabelStack × Frame) := do
  let (entries, f) ← readEntries (f.length + 1) f
  return (⟨entries⟩, f)

/-- The stack that `b` writes, if it is as deep as this one. -/
def reload? (s : LabelStack) (b : Bytes) : Option LabelStack :=
  match read (.ofBytes b) with
  | .ok (s', f) => if f.unread = [] ∧ s'.depth = s.depth then some s' else none
  | .error _ => none

/-! ### Fields -/

/-- The bit range of a field and the width of its value. -/
def field? : FieldNum → Option (BitRange × Nat)
  | .mplsLabel => some (labelBits, 4)
  | .mplsTc => some (classBits, 1)
  | .mplsTtl => some (ttlBits, 1)
  | _ => none

/-- The value of a field. -/
def get? (s : LabelStack) (num : FieldNum) (inst : Instance) : Option Bytes := do
  let (r, width) ← field? num
  let i ← inst.resolve s.depth
  let entry ← s.entries[i]?
  return entry.getBits wordSlot r width

/-- The stack after an operation on a field. -/
def update? (s : LabelStack) (num : FieldNum) (inst : Instance) (op : FieldOp) (arg : Bytes) :
    Option LabelStack := do
  let (r, width) ← field? num
  let i ← inst.resolve s.depth
  return ⟨s.entries.modify i (·.updateBits wordSlot r width op arg)⟩

/-! ### Adding and removing entries -/

/-- Covers the outermost entry with a new one. -/
def push (s : LabelStack) (kind : HeaderKind) : Except HeaderError LabelStack :=
  if kind = .mpls then
    let ttl := match s.entries.head? with
      | some e => e.bits wordSlot ttlBits
      | none => defaultTtl
    .ok ⟨entryWithTtl ttl :: s.entries⟩
  else .error (.doubleEncap kind)

/-- Removes the outermost entry; also says whether nothing is left. -/
def pop (s : LabelStack) (kind : HeaderKind) : Except HeaderError (LabelStack × Bool) :=
  if kind = .mpls then .ok (⟨s.entries.tail⟩, s.entries.tail.isEmpty)
  else .error (.wrongOutermost kind .mpls)

end LabelStack

end Dataplane

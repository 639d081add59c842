import Dataplane.Header.Error
import Dataplane.Header.Surroundings

/-!
# Per-packet metadata

Metadata is the forwarding state that travels with a packet. It has no bytes on the wire.

## The model

The fields lie side by side in one block. The scratch attributes come in four widths with eight
occurrences each; every other field occurs once. Only the scratch attributes can be added to and
subtracted from. The packet length is a cached copy of the wire length of everything inside.
-/

namespace Dataplane

/-- Per-packet metadata. -/
structure Metadata where
  /-- The fields, side by side. -/
  block : Block 149
  deriving DecidableEq

namespace Metadata

/-- Metadata with every field zero. -/
def fresh : Metadata := ⟨.zero 149⟩

/-! ### Where the fields lie -/

/-- The number of occurrences of each scratch attribute. -/
def scratchSlots : Nat := 8

def inputSlot : Slot 149 := .of 0 8
def outputSlot : Slot 149 := .of 8 8
def lengthSlot : Slot 149 := .of 64 4

/-- The slot of a field that occurs once. -/
def soleSlot? : FieldNum → Option (Slot 149)
  | .inputPort => some inputSlot
  | .outputPort => some outputSlot
  | .vrf => some ⟨16, 8, by decide⟩
  | .nexthopId => some ⟨24, 8, by decide⟩
  | .nexthopGroupId => some ⟨32, 8, by decide⟩
  | .trapId => some ⟨40, 8, by decide⟩
  | .tunnelId => some ⟨48, 8, by decide⟩
  | .policerId => some ⟨56, 8, by decide⟩
  | .packetLength => some lengthSlot
  | .packetAction => some ⟨68, 1, by decide⟩
  | _ => none

/-- The start and the width of the first occurrence of a scratch attribute. -/
def scratchBase? : FieldNum → Option (Nat × Nat)
  | .attribute8 => some (69, 1)
  | .attribute16 => some (77, 2)
  | .attribute24 => some (93, 3)
  | .attribute32 => some (117, 4)
  | _ => none

/-- The slot of an occurrence of a scratch attribute. -/
def scratchSlot? (num : FieldNum) (inst : Instance) : Option (Slot 149) :=
  match scratchBase? num, inst.resolve scratchSlots with
  | some (base, width), some i =>
    if h : base + i * width + width ≤ 149 then some ⟨base + i * width, width, h⟩ else none
  | _, _ => none

/-- The slot of a field. -/
def slot? (num : FieldNum) (inst : Instance) : Option (Slot 149) :=
  match scratchSlot? num inst with
  | some s => some s
  | none => if inst.isSole then soleSlot? num else none

/-! ### Ports and length -/

/-- The port the packet came in by. -/
def inputPort (m : Metadata) : Nat := m.block.num inputSlot

/-- The port the packet leaves by. -/
def outputPort (m : Metadata) : Nat := m.block.num outputSlot

/-- The cached packet length. -/
def packetLength (m : Metadata) : Nat := m.block.num lengthSlot

def setInputPort (m : Metadata) (nid : Nat) : Metadata := ⟨m.block.setNum inputSlot nid⟩

def setOutputPort (m : Metadata) (nid : Nat) : Metadata := ⟨m.block.setNum outputSlot nid⟩

/-- Caches the wire length of everything inside, or the largest length that fits. -/
def cacheLength (m : Metadata) (around : Surroundings) : Metadata :=
  ⟨m.block.setNum lengthSlot (min around.innerLen 4294967295)⟩

/-! ### Fields -/

/-- The value of a field. -/
def get (m : Metadata) (num : FieldNum) (inst : Instance) : Except FieldError Bytes :=
  match slot? num inst with
  | some s => .ok (m.block.get s)
  | none => .error (.noSuchField (.field num inst))

/-- The metadata after an operation on a field. -/
def update (m : Metadata) (num : FieldNum) (inst : Instance) (op : FieldOp) (arg : Bytes) :
    Except FieldError Metadata :=
  if op ≠ .set ∧ (scratchSlot? num inst).isNone then .error (.badOp (.field num inst) op)
  else match slot? num inst with
    | some s => .ok ⟨m.block.update s op arg⟩
    | none => .error (.noSuchField (.field num inst))

end Metadata

end Dataplane

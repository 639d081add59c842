import Dataplane.Bytes.Bits
import Dataplane.Config.Basic
import Dataplane.Packet

/-!
# Updates of packets

An update action overwrites a field of a packet with its operand, with another field, or with the
field itself after an operation on its bits. A value that is read back, changed and stored goes
through the field's own update, which cuts it to the bits the field has.
-/

namespace Dataplane

namespace UpdateConfig

/-- The packet with the field set to what `f` makes of its value and the operand. Where `f` refuses,
the size reported is `size` of the value. -/
def combine (u : UpdateConfig) (p : Packet) (f : Bytes → Bytes → Option Bytes)
    (size : Bytes → Nat) : Except FieldError Packet := do
  let old ← p.get u.field
  match f old u.value with
  | some val => p.update u.field .set val
  | none => throw (.badSize u.field (size old))

/-- The packet after an update. -/
def apply (u : UpdateConfig) (p : Packet) : Except FieldError Packet :=
  match u.op with
  | .set => p.update u.field .set u.value
  | .inc => p.update u.field .inc u.value
  | .dec => p.update u.field .dec u.value
  | .copy =>
    match u.src with
    | none => .error (.noSuchField u.field)
    | some src => do
      let old ← p.get u.field
      let val ← p.get src
      p.update u.field .set (val.resize old.length)
  | .bitWrite =>
    u.combine p (·.writeBits? ⟨u.bitOffset.toNat, u.bitCount.toNat⟩ ·) List.length
  | .bitAnd => u.combine p Bytes.and? fun _ => u.value.length
  | .bitOr => u.combine p Bytes.or? fun _ => u.value.length

end UpdateConfig

end Dataplane

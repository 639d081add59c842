import Dataplane.Bytes.Compact
import Dataplane.Config.Basic
import Dataplane.Crc

/-!
# The byte form and the hash of actions

Two lists of built actions are taken to be equal when the hashes of their actions are. The hash of
an action is the CRC-32 of the byte form of its configuration, followed by a byte for its flag.

## The model

Variants and members of finite types are numbered in the order in which they are listed. The fields
of a variant follow its number in order, without names.
-/

namespace Dataplane

open Bytes (varint ofBool ofText sized ofOption ofList)

/-- The byte form of a member of a finite type. -/
def Bytes.ofMember {α : Type} [BEq α] [Enumerated α] (a : α) : Bytes :=
  varint (Enumerated.index a)

/-- The byte form of a field identifier. -/
def FieldId.compact : FieldId → Bytes
  | field num i => [0] ++ Bytes.ofMember num ++ [i.val]
  | udf g offset size i =>
    [1] ++ Bytes.ofMember g ++ varint offset.toNat ++ varint size.toNat ++ [i.val]

/-- The byte form of an update. -/
def UpdateConfig.compact (u : UpdateConfig) : Bytes :=
  u.field.compact ++ Bytes.ofMember u.op ++ sized u.value ++ ofOption FieldId.compact u.src ++
    varint u.bitOffset.toNat ++ varint u.bitCount.toNat

mutual

/-- The byte form of an action. -/
def ActionConfig.compact : ActionConfig → Bytes
  | .proceed => [0]
  | .drop => [1]
  | .debug => [2]
  | .decap k => [3] ++ Bytes.ofMember k
  | .encap k => [4] ++ Bytes.ofMember k
  | .evaluate => [5]
  | .output => [6]
  | .transmit port immediate => [7] ++ ofText port ++ ofBool immediate
  | .lookup table => [8] ++ ofText table
  | .mirror port actions fields =>
    [9] ++ ofOption ofText port ++ varint actions.length ++ listedCompact actions ++
      ofList FieldId.compact fields
  | .ratelimit rate burst => [10] ++ varint rate.toNat ++ varint burst.toNat
  | .reparse k fields front =>
    [11] ++ Bytes.ofMember k ++ ofList FieldId.compact fields ++ sized front
  | .select fields algo lists =>
    [12] ++ ofList FieldId.compact fields ++ Bytes.ofMember algo ++ varint lists.length ++
      listsCompact lists
  | .swapOutput => [13]
  | .update u => [14] ++ u.compact
  | .flowCounter counter => [15] ++ ofText counter
  | .custom kind args =>
    [16] ++ ofText kind ++ ofList (fun (k, v) => ofText k ++ ofText v) args.pairs

/-- The byte form of an action of a list. -/
def Flagged.compact : ListedConfig → Bytes
  | ⟨action, onEvaluate⟩ => action.compact ++ ofBool onEvaluate

/-- The byte forms of the actions of a list, one after the other. -/
def listedCompact : List ListedConfig → Bytes
  | [] => []
  | a :: as => a.compact ++ listedCompact as

/-- The byte forms of lists of actions, one after the other. -/
def listsCompact : List (List ListedConfig) → Bytes
  | [] => []
  | l :: ls => varint l.length ++ listedCompact l ++ listsCompact ls

end

/-- The hash of an action of a list. -/
def Flagged.hash (a : ListedConfig) : UInt32 := crc32 a.compact

end Dataplane

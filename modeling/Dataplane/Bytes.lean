/-!
# Byte strings

A byte string is a list of bytes, first byte first, and a multi-byte value is held in network
order: the most significant byte comes first.

## The model

`toNat` gives the number a byte string writes and `ofNat` writes a number in a given width. The
three ways of storing an operand in a field of fixed width are `resize` (overwrite), `add` and
`sub`; the last two work byte by byte from the low end with a carry or a borrow, so they are
defined for every width. The main statements here are that each of the three keeps the width of
the field.
-/

namespace Dataplane

/-- A string of bytes, first byte first. -/
abbrev Bytes := List UInt8

namespace Bytes

/-! ### Numbers in network order -/

/-- The number a byte string writes, most significant byte first. -/
def toNat (b : Bytes) : Nat :=
  b.foldl (fun n d => n * 256 + d.toNat) 0

/-- The low `width` bytes of a number, most significant first, put in front of `low`. -/
def ofNatOnto : (width : Nat) → (n : Nat) → (low : Bytes) → Bytes
  | 0, _, low => low
  | width + 1, n, low => ofNatOnto width (n / 256) (UInt8.ofNat n :: low)

/-- The low `width` bytes of a number, most significant first. -/
def ofNat (width n : Nat) : Bytes := ofNatOnto width n []

theorem ofNatOnto_eq (width n : Nat) (low : Bytes) :
    ofNatOnto width n low = ofNat width n ++ low := by
  induction width generalizing n low with
  | zero => rfl
  | succ w ih => rw [ofNat, ofNatOnto, ofNatOnto, ih, ih _ [_]]; simp

theorem ofNat_succ (width n : Nat) :
    ofNat (width + 1) n = ofNat width (n / 256) ++ [UInt8.ofNat n] := by
  rw [ofNat, ofNatOnto, ofNatOnto_eq]

@[simp] theorem length_ofNat (width n : Nat) : (ofNat width n).length = width := by
  induction width generalizing n with
  | zero => rfl
  | succ w ih => simp [ofNat_succ, ih]

/-! ### Storing an operand in a field -/

/-- A byte string brought to `width` bytes: a short one is padded with zeros on the left, a long
one loses its high bytes. -/
def resize (width : Nat) (b : Bytes) : Bytes :=
  List.replicate (width - b.length) 0 ++ b.drop (b.length - width)

@[simp] theorem length_resize (width : Nat) (b : Bytes) : (resize width b).length = width := by
  simp [resize]; omega

/-- Adds `arg` to `dst`, both given low byte first, and puts the sum in front of `high`. Bytes of
`arg` past the width of `dst`, and the last carry, are lost. -/
def addCarry : (dst arg : Bytes) → (carry : Nat) → (high : Bytes) → Bytes
  | [], _, _, high => high
  | d :: ds, arg, carry, high =>
    let sum := d.toNat + (arg.headD 0).toNat + carry
    addCarry ds arg.tail (sum / 256) (UInt8.ofNat sum :: high)

/-- Subtracts `arg` from `dst`, both given low byte first, and puts the difference in front of
`high`. Bytes of `arg` past the width of `dst`, and the last borrow, are lost. -/
def subBorrow : (dst arg : Bytes) → (borrow : Nat) → (high : Bytes) → Bytes
  | [], _, _, high => high
  | d :: ds, arg, borrow, high =>
    let diff := 256 + d.toNat - (arg.headD 0).toNat - borrow
    subBorrow ds arg.tail (1 - diff / 256) (UInt8.ofNat diff :: high)

/-- The sum of `dst` and `arg`, aligned at their low ends and wrapped at the width of `dst`. -/
def add (dst arg : Bytes) : Bytes :=
  addCarry dst.reverse arg.reverse 0 []

/-- The difference of `dst` and `arg`, aligned at their low ends and wrapped at the width of
`dst`. -/
def sub (dst arg : Bytes) : Bytes :=
  subBorrow dst.reverse arg.reverse 0 []

theorem length_addCarry (dst arg high : Bytes) (carry : Nat) :
    (addCarry dst arg carry high).length = dst.length + high.length := by
  induction dst generalizing arg carry high with
  | nil => simp [addCarry]
  | cons d ds ih => simp [addCarry, ih]; omega

theorem length_subBorrow (dst arg high : Bytes) (borrow : Nat) :
    (subBorrow dst arg borrow high).length = dst.length + high.length := by
  induction dst generalizing arg borrow high with
  | nil => simp [subBorrow]
  | cons d ds ih => simp [subBorrow, ih]; omega

@[simp] theorem length_add (dst arg : Bytes) : (add dst arg).length = dst.length := by
  simp [add, length_addCarry]

@[simp] theorem length_sub (dst arg : Bytes) : (sub dst arg).length = dst.length := by
  simp [sub, length_subBorrow]

/-! ### Ranges of bytes -/

/-- Does a byte string have at least `n` bytes? Looks at no more than `n` of them. -/
def reaches : (n : Nat) → Bytes → Bool
  | 0, _ => true
  | _ + 1, [] => false
  | n + 1, _ :: b => reaches n b

theorem reaches_iff {n : Nat} {b : Bytes} : reaches n b ↔ n ≤ b.length := by
  induction n generalizing b with
  | zero => simp [reaches]
  | succ n ih => cases b <;> simp [reaches, ih]

/-- The `size` bytes from `start` on, if the string has that many. -/
def slice? (b : Bytes) (start size : Nat) : Option Bytes :=
  if start + size ≤ b.length then some ((b.drop start).take size) else none

/-- The string with the bytes from `start` on replaced by `val`, if it reaches that far. -/
def overwrite? (b : Bytes) (start : Nat) (val : Bytes) : Option Bytes :=
  if start + val.length ≤ b.length then
    some (b.take start ++ val ++ b.drop (start + val.length))
  else none

end Bytes

end Dataplane

import Dataplane.Bytes.Block

/-!
# Frame cursors

A cursor reads a frame from the front and strips it from the back. Bytes already read or stripped
are out of its reach.

## The model

The cursor holds the bytes still unread and the number already read. A reading function returns
the bytes with the cursor that is left, or the cause why there are not enough; the cursor before a
failed call is still at hand, so a failure changes nothing.
-/

namespace Dataplane

/-- Why a frame could not give the bytes asked for. -/
inductive ReadError where
  /-- Nothing is left. -/
  | endOfFrame
  /-- Something is left, but not enough. -/
  | notEnoughBytes (wanted avail : Nat)
  deriving DecidableEq

/-- The text of a read error. -/
def ReadError.message : ReadError → String
  | endOfFrame => "end of frame"
  | notEnoughBytes wanted avail => s!"not enough bytes: wanted {wanted}, have {avail}"

/-- A cursor over a frame. -/
structure Frame where
  /-- The number of bytes read so far. -/
  offset : Nat
  /-- The bytes not read and not stripped. -/
  unread : Bytes
  deriving DecidableEq

namespace Frame

/-- The cursor at the start of a frame. -/
def ofBytes (b : Bytes) : Frame := ⟨0, b⟩

/-- The number of unread bytes. -/
def length (f : Frame) : Nat := f.unread.length

/-- The largest count an error reports. -/
def maxCount : Nat := UInt64.size - 1

/-- Why `wanted` bytes cannot be had. A count past the largest one is reported as the largest. -/
def shortage (f : Frame) (wanted : Nat) : ReadError :=
  if f.length = 0 then .endOfFrame else .notEnoughBytes (min wanted maxCount) f.length

/-- The `n` bytes that start `start` bytes on, without reading them. -/
def peek (f : Frame) (start n : Nat) : Except ReadError Bytes :=
  if f.unread.reaches (start + n) then .ok ((f.unread.drop start).take n)
  else .error (f.shortage (start + n))

/-- The next `n` bytes as a block, read. -/
def readBlock (f : Frame) (n : Nat) : Except ReadError (Block n × Frame) :=
  if h : f.unread.reaches n then
    have hlen : (f.unread.take n).length = n := by
      rw [List.length_take]
      exact Nat.min_eq_left (Bytes.reaches_iff.1 h)
    .ok (⟨f.unread.take n, hlen⟩, ⟨f.offset + n, f.unread.drop n⟩)
  else .error (f.shortage n)

/-- The next `n` bytes, read. -/
def read (f : Frame) (n : Nat) : Except ReadError (Bytes × Frame) :=
  if f.unread.reaches n then .ok (f.unread.take n, ⟨f.offset + n, f.unread.drop n⟩)
  else .error (f.shortage n)

/-- Everything that is left, read. -/
def readRest (f : Frame) : Bytes × Frame :=
  (f.unread, ⟨f.offset + f.length, []⟩)

/-- The last `n` bytes, stripped. -/
def strip (f : Frame) (n : Nat) : Except ReadError (Bytes × Frame) :=
  if n ≤ f.length then
    .ok (f.unread.drop (f.length - n), ⟨f.offset, f.unread.take (f.length - n)⟩)
  else .error (f.shortage n)

end Frame

end Dataplane

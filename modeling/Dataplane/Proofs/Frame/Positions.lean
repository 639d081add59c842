import Dataplane.Frame
import Dataplane.Proofs.Bytes.Arithmetic
import Dataplane.Proofs.InPlace.Calls
import Dataplane.Proofs.TokenBucket.Words

/-!
# Cursors kept as positions

A machine does not cut a frame up: it keeps the buffer and two positions in it, and every call
computes the ends of a range of the buffer from them. A sum that is no machine word, a difference
below zero, or a range that does not lie in the buffer would stop it.

None of this happens (`Cursor.perform_place`). The one sum that can be too large, that of an offset
and a count, is cut to the largest word before it is compared with what is left, and no buffer is
that long; so a call that passes the comparison computes positions inside the buffer.

## The model

The calls on positions are computations in place, so what a call has changed before it stops stays
changed. `Cursor.place f` are the positions of a frame `f`, in a buffer in which the unread bytes
of `f` lie at its offset (`Frame.In`).
-/

namespace Dataplane

open InPlace TokenBucket.Words

/-- A byte string that memory can hold. -/
structure Buffer where
  /-- The bytes. -/
  bytes : Bytes
  /-- There are fewer of them than half of the words. -/
  length_lt : bytes.length < 2 ^ 63

/-- A call on a cursor. -/
inductive Frame.Call where
  /-- The bytes that start some bytes on, not read. -/
  | peek (start n : UInt64)
  /-- The next bytes. -/
  | read (n : UInt64)
  /-- All bytes that are left. -/
  | rest
  /-- The last bytes. -/
  | strip (n : UInt64)
  deriving DecidableEq

/-- A call on a frame. -/
def Frame.perform : Frame.Call → InPlace ReadError Frame Bytes
  | .peek start n => atOnce fun f => (f.peek start.toNat n.toNat).map (f, ·)
  | .read n => atOnce fun f => (f.read n.toNat).map Prod.swap
  | .rest => atOnce fun f => .ok f.readRest.swap
  | .strip n => atOnce fun f => (f.strip n.toNat).map Prod.swap

theorem Frame.peek_eq (f : Frame) (start n : Nat) :
    f.peek start n = if start + n ≤ f.length then .ok ((f.unread.drop start).take n)
      else .error (f.shortage (start + n)) :=
  if_congr Bytes.reaches_iff rfl rfl

theorem Frame.read_eq (f : Frame) (n : Nat) :
    f.read n = if n ≤ f.length then .ok (f.unread.take n, ⟨f.offset + n, f.unread.drop n⟩)
      else .error (f.shortage n) :=
  if_congr Bytes.reaches_iff rfl rfl

/-- Why a call on positions gives no bytes. -/
inductive Cursor.Halt where
  /-- There are not enough bytes. -/
  | refused (e : ReadError)
  /-- A sum or a difference is no word, or a range does not lie in the buffer. -/
  | fault
  deriving DecidableEq

/-- The two positions of a cursor in a buffer. -/
structure Cursor where
  /-- Where the unread bytes begin. -/
  pos : UInt64
  /-- Where they end. -/
  stop : UInt64
  deriving DecidableEq

namespace Cursor

/-! ### Calls -/

/-- A sum, which has to be a word. -/
def plus (x y : UInt64) : InPlace Halt Cursor UInt64 := do
  refuseIf (2 ^ 64 ≤ x.toNat + y.toNat) .fault
  return x + y

/-- A difference, which has to be a word. -/
def minus (x y : UInt64) : InPlace Halt Cursor UInt64 := do
  refuseIf (x.toNat < y.toNat) .fault
  return x - y

/-- The bytes between two positions, which have to lie in the buffer one behind the other. -/
def range (b : Buffer) (first last : UInt64) : InPlace Halt Cursor Bytes := do
  refuseIf (¬(first.toNat ≤ last.toNat ∧ last.toNat ≤ b.bytes.length)) .fault
  return (b.bytes.drop first.toNat).take (last.toNat - first.toNat)

/-- The number of unread bytes. -/
def length : InPlace Halt Cursor UInt64 := do
  let c ← current
  minus c.stop c.pos

/-- Refuses a call that wants more bytes than there are. -/
def check (wanted : UInt64) : InPlace Halt Cursor Unit := do
  let avail ← length
  refuseIf (avail = 0 ∧ 0 < wanted) (.refused .endOfFrame)
  refuseIf (avail < wanted) (.refused (.notEnoughBytes wanted.toNat avail.toNat))

/-- The bytes that start some bytes on, not read. -/
def peek (b : Buffer) (start n : UInt64) : InPlace Halt Cursor Bytes := do
  check (satAdd start n)
  let first ← plus (← current).pos start
  range b first (← plus first n)

/-- The next bytes. The position moves before the range is taken. -/
def read (b : Buffer) (n : UInt64) : InPlace Halt Cursor Bytes := do
  check n
  let first := (← current).pos
  let pos ← plus first n
  modify fun c => { c with pos }
  range b first pos

/-- All bytes that are left. -/
def rest (b : Buffer) : InPlace Halt Cursor Bytes := do
  let first := (← current).pos
  modify fun c => { c with pos := c.stop }
  range b first (← current).stop

/-- The last bytes. The end moves before the range is taken. -/
def strip (b : Buffer) (n : UInt64) : InPlace Halt Cursor Bytes := do
  check n
  let stop ← minus (← current).stop n
  modify fun c => { c with stop }
  range b stop (← plus stop n)

/-- A call on positions in a buffer. -/
def perform (b : Buffer) : Frame.Call → InPlace Halt Cursor Bytes
  | .peek start n => peek b start n
  | .read n => read b n
  | .rest => rest b
  | .strip n => strip b n

end Cursor

/-! ### Frames in a buffer -/

/-- The unread bytes of the frame lie in the buffer, at the offset of the frame. -/
def Frame.In (f : Frame) (b : Buffer) : Prop :=
  ∃ front back, b.bytes = front ++ (f.unread ++ back) ∧ front.length = f.offset

namespace Cursor

/-- The positions of a frame. -/
def place (f : Frame) : Cursor := ⟨UInt64.ofNat f.offset, UInt64.ofNat (f.offset + f.length)⟩

variable {b : Buffer} {f : Frame} {x y n : UInt64} {c : Cursor}

theorem plus_of_fits (h : x.toNat + y.toNat < 2 ^ 64) :
    plus x y c = .ok (x + y) c := by
  rw [plus, bind_apply, refuseIf_of_not (Nat.not_le.mpr h)]
  rfl

theorem minus_of_le (h : y.toNat ≤ x.toNat) : minus x y c = .ok (x - y) c := by
  rw [minus, bind_apply, refuseIf_of_not (Nat.not_lt.mpr h)]
  rfl

theorem bounds_of_in (h : f.In b) : f.offset + f.length ≤ b.bytes.length := by
  obtain ⟨front, back, hb, hfront⟩ := h
  rw [hb, List.length_append, List.length_append, hfront, Frame.length]
  omega

theorem toNat_pos_place (h : f.In b) : (place f).pos.toNat = f.offset := by
  have hbounds := bounds_of_in h
  have hlen := b.length_lt
  exact UInt64.toNat_ofNat_of_lt' (by rw [UInt64.size]; omega)

theorem toNat_stop_place (h : f.In b) : (place f).stop.toNat = f.offset + f.length := by
  have hbounds := bounds_of_in h
  have hlen := b.length_lt
  exact UInt64.toNat_ofNat_of_lt' (by rw [UInt64.size]; omega)

/-- Positions between the two of a frame mark a range of its unread bytes. -/
theorem range_of_in (h : f.In b) {i k : Nat} (hk : i + k ≤ f.length)
    (hx : x.toNat = f.offset + i) (hy : y.toNat = f.offset + (i + k)) :
    range b x y c = .ok ((f.unread.drop i).take k) c := by
  have hbounds := bounds_of_in h
  obtain ⟨front, back, hb, hfront⟩ := h
  have hsize : y.toNat - x.toNat = k := by omega
  have hbytes : (b.bytes.drop x.toNat).take k = (f.unread.drop i).take k := by
    rw [hb, hx, ← hfront, ← List.append_assoc, Bytes.range_between front back hk]
  rw [range, bind_apply, refuseIf_of_not (by omega), hsize, hbytes]
  rfl

theorem length_place (h : f.In b) :
    length (place f) = .ok (UInt64.ofNat f.length) (place f) := by
  have hpos := toNat_pos_place h
  have hstop := toNat_stop_place h
  have hle : (place f).pos.toNat ≤ (place f).stop.toNat := by omega
  have hdiff : (place f).stop - (place f).pos = UInt64.ofNat f.length := by
    apply UInt64.toNat_inj.mp
    have hbounds := bounds_of_in h
    have hlen := b.length_lt
    rw [UInt64.toNat_sub_of_le _ _ (UInt64.le_iff_toNat_le.mpr hle), hpos, hstop,
      UInt64.toNat_ofNat_of_lt' (by rw [UInt64.size]; omega)]
    omega
  rw [length, bind_apply, current_apply]
  dsimp only
  rw [minus_of_le hle, hdiff]

/-- A call is refused, with the frame's own reason, exactly when the frame is too short. -/
theorem check_place (h : f.In b) (wanted : UInt64) :
    check wanted (place f) = if wanted.toNat ≤ f.length then .ok () (place f)
      else .error (.refused (f.shortage wanted.toNat)) (place f) := by
  have hbounds := bounds_of_in h
  have hlen := b.length_lt
  have havail : (UInt64.ofNat f.length).toNat = f.length :=
    UInt64.toNat_ofNat_of_lt' (by rw [UInt64.size]; omega)
  have hwanted := wanted.toNat_lt
  have hzero : UInt64.ofNat f.length = 0 ↔ f.length = 0 := by
    rw [← UInt64.toNat_inj, havail]
    rfl
  have hpositive : 0 < wanted ↔ 0 < wanted.toNat := UInt64.lt_iff_toNat_lt
  have hless : UInt64.ofNat f.length < wanted ↔ f.length < wanted.toNat := by
    rw [UInt64.lt_iff_toNat_lt, havail]
  have hreported : min wanted.toNat Frame.maxCount = wanted.toNat :=
    Nat.min_eq_left (by rw [Frame.maxCount, UInt64.size]; omega)
  rw [check, bind_apply, length_place h]
  dsimp only
  rw [bind_apply, Frame.shortage, hreported]
  by_cases hfits : wanted.toNat ≤ f.length
  · rw [refuseIf_of_not (by rw [hzero, hpositive]; omega)]
    dsimp only
    rw [refuseIf_of_not (by rw [hless]; omega), if_pos hfits]
  · rw [if_neg hfits]
    by_cases hempty : f.length = 0
    · rw [refuseIf_of (by rw [hzero, hpositive]; omega), if_pos hempty]
    · rw [refuseIf_of_not (by rw [hzero]; tauto)]
      dsimp only
      rw [refuseIf_of (by rw [hless]; omega), if_neg hempty, havail]

/-! ### The calls of a frame -/

theorem eq_place (hpos : c.pos.toNat = f.offset) (hstop : c.stop.toNat = f.offset + f.length) :
    c = place f := by
  rw [place, ← hstop, ← hpos, UInt64.ofNat_toNat, UInt64.ofNat_toNat]

/-- The outcome of a call on a frame, seen on its positions. -/
def outcome : EStateM.Result ReadError Frame Bytes → EStateM.Result Halt Cursor Bytes
  | .ok a f => .ok a (place f)
  | .error e f => .error (.refused e) (place f)

/-- A look ahead adds two words before it compares. If the sum is cut to the largest word, the
frame is too short for that as well. -/
theorem peek_place (h : f.In b) (start n : UInt64) :
    peek b start n (place f) = outcome (f.perform (.peek start n)) := by
  have hbounds := bounds_of_in h
  have hlen := b.length_lt
  have hpos := toNat_pos_place h
  have hsum := toNat_satAdd start n
  rw [peek, bind_apply, check_place h, Frame.perform, atOnce_apply, Frame.peek_eq]
  by_cases hfits : start.toNat + n.toNat ≤ f.length
  · have hfirst : ((place f).pos + start).toNat = f.offset + start.toNat := by
      rw [UInt64.toNat_add, hpos]
      omega
    have hlast : ((place f).pos + start + n).toNat = f.offset + (start.toNat + n.toNat) := by
      rw [UInt64.toNat_add, hfirst]
      omega
    rw [if_pos (by omega), if_pos hfits]
    dsimp only
    rw [bind_apply, current_apply]
    dsimp only
    rw [bind_apply, plus_of_fits (by omega)]
    dsimp only
    rw [bind_apply, plus_of_fits (by omega)]
    exact range_of_in h hfits hfirst hlast
  · have hcut : min (satAdd start n).toNat Frame.maxCount =
        min (start.toNat + n.toNat) Frame.maxCount := by
      rw [hsum, Frame.maxCount, UInt64.size]
      omega
    rw [if_neg (by omega), if_neg hfits, Frame.shortage, Frame.shortage, hcut]
    rfl

theorem read_place (h : f.In b) (n : UInt64) :
    read b n (place f) = outcome (f.perform (.read n)) := by
  have hbounds := bounds_of_in h
  have hlen := b.length_lt
  have hpos := toNat_pos_place h
  have hstop := toNat_stop_place h
  rw [read, bind_apply, check_place h, Frame.perform, atOnce_apply, Frame.read_eq]
  by_cases hfits : n.toNat ≤ f.length
  · have hlast : ((place f).pos + n).toNat = f.offset + (0 + n.toNat) := by
      rw [UInt64.toNat_add, hpos]
      omega
    have hmoved : { place f with pos := (place f).pos + n } =
        place ⟨f.offset + n.toNat, f.unread.drop n.toNat⟩ := by
      apply eq_place
      · rw [hlast, Nat.zero_add]
      · show (place f).stop.toNat = f.offset + n.toNat + (f.unread.drop n.toNat).length
        rw [hstop, List.length_drop]
        show _ = f.offset + n.toNat + (f.length - n.toNat)
        omega
    rw [if_pos hfits, if_pos hfits]
    dsimp only
    rw [bind_apply, current_apply]
    dsimp only
    rw [bind_apply, plus_of_fits (by omega)]
    dsimp only
    rw [bind_apply, modify_apply]
    dsimp only
    rw [range_of_in h (i := 0) (by omega) hpos hlast, List.drop_zero, hmoved]
    rfl
  · rw [if_neg hfits, if_neg hfits]
    rfl

theorem rest_place (h : f.In b) : rest b (place f) = outcome (f.perform .rest) := by
  have hpos := toNat_pos_place h
  have hstop := toNat_stop_place h
  have hmoved : { place f with pos := (place f).stop } = place f.readRest.2 := by
    apply eq_place
    · exact hstop
    · exact hstop.trans (Nat.add_zero _).symm
  have hall : (f.unread.drop 0).take f.length = f.unread := List.take_length
  rw [rest, bind_apply, current_apply]
  dsimp only
  rw [bind_apply, modify_apply]
  dsimp only
  rw [bind_apply, current_apply]
  dsimp only
  rw [range_of_in h (i := 0) (k := f.length) (by omega) hpos (by rw [hstop, Nat.zero_add]), hall,
    hmoved]
  rfl

theorem strip_place (h : f.In b) (n : UInt64) :
    strip b n (place f) = outcome (f.perform (.strip n)) := by
  have hbounds := bounds_of_in h
  have hlen := b.length_lt
  have hpos := toNat_pos_place h
  have hstop := toNat_stop_place h
  rw [strip, bind_apply, check_place h, Frame.perform, atOnce_apply, Frame.strip]
  by_cases hfits : n.toNat ≤ f.length
  · have hle : n.toNat ≤ (place f).stop.toNat := by omega
    have hfirst : ((place f).stop - n).toNat = f.offset + (f.length - n.toNat) := by
      rw [UInt64.toNat_sub_of_le _ _ (UInt64.le_iff_toNat_le.mpr hle), hstop]
      omega
    have hlast : ((place f).stop - n + n).toNat =
        f.offset + (f.length - n.toNat + n.toNat) := by
      rw [UInt64.toNat_add, hfirst]
      omega
    have hmoved : { place f with stop := (place f).stop - n } =
        place ⟨f.offset, f.unread.take (f.length - n.toNat)⟩ := by
      apply eq_place
      · exact hpos
      · show ((place f).stop - n).toNat = f.offset + (f.unread.take (f.length - n.toNat)).length
        have hkept : (f.unread.take (f.length - n.toNat)).length = f.length - n.toNat :=
          List.length_take_of_le (Nat.sub_le _ _)
        rw [hfirst, hkept]
    have htail : (f.unread.drop (f.length - n.toNat)).take n.toNat =
        f.unread.drop (f.length - n.toNat) := by
      apply List.take_of_length_le
      rw [List.length_drop]
      show f.length - _ ≤ _
      omega
    rw [if_pos hfits, if_pos hfits]
    dsimp only
    rw [bind_apply, current_apply]
    dsimp only
    rw [bind_apply, minus_of_le hle]
    dsimp only
    rw [bind_apply, modify_apply]
    dsimp only
    rw [bind_apply, plus_of_fits (by omega)]
    dsimp only
    rw [range_of_in h (k := n.toNat) (by omega) hfirst hlast, htail, hmoved]
    rfl
  · rw [if_neg hfits, if_neg hfits]
    rfl

/-- Calls on positions do what the calls on the frame do: no sum, difference or range is ever out
of bounds, and a refused call leaves the positions where they were. -/
theorem perform_place (h : f.In b) (call : Frame.Call) :
    perform b call (place f) = outcome (f.perform call) := by
  cases call with
  | peek start n => exact peek_place h start n
  | read n => exact read_place h n
  | rest => exact rest_place h
  | strip n => exact strip_place h n

end Cursor

end Dataplane

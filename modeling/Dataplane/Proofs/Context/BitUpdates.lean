import Dataplane.Context.Build
import Dataplane.Context.Run
import Dataplane.Proofs.Bytes.BitWrites
import Dataplane.Proofs.Packet.Storing

/-!
# Updates of the bits of a field

An update that writes, clears or sets bits of a field, or copies another field into it, reads the
field, makes a number of its value and the operand, and stores the number cut to the bits of the
field. The packet then goes on, and no byte of it beside the field has changed. If the field is not
there, if the operand does not fit it, if the field to be copied is not there, or if the header
cannot take the new bytes, then the packet is dropped, counted and logged as an error, and otherwise
left as it was (`Run.perform_bit_update`).

## The model

`UpdateConfig.Makes` is the arithmetic of the four operations, in terms of the bits of numbers.
`UpdateConfig.newValue?` are the bytes that the operations compute, one byte or one bit after the
other, and these write the number that is made (`UpdateConfig.newValue?_eq_some_iff`).
-/

namespace Dataplane

namespace UpdateConfig

variable {u : UpdateConfig} {p q : Packet} {old val : Bytes} {m m' : Nat}

/-! ### The number that is stored -/

/-- The number that an operation on the bits of a field makes of the value of the field. Bits are
counted from the lowest one. -/
def Makes (u : UpdateConfig) (p : Packet) (old : Bytes) (m : Nat) : Prop :=
  match u.op with
  | .bitWrite =>
    u.bitOffset.toNat + u.bitCount.toNat ≤ 8 * old.length ∧ ∀ i, m.testBit i =
      if u.bitOffset.toNat ≤ i ∧ i < u.bitOffset.toNat + u.bitCount.toNat then
        u.value.toNat.testBit (i - u.bitOffset.toNat)
      else old.toNat.testBit i
  | .bitAnd =>
    u.value.length ≤ old.length ∧ ∀ i, m.testBit i =
      (old.toNat.testBit i && (u.value.toNat.testBit i || decide (8 * u.value.length ≤ i)))
  | .bitOr => u.value.length ≤ old.length ∧ m = old.toNat ||| u.value.toNat
  | .copy => ∃ src ∈ u.src, ∃ val, p.get src = .ok val ∧ m = val.toNat % 256 ^ old.length
  | .set | .inc | .dec => False

/-- The bytes that an operation on the bits of a field makes of the value of the field. -/
def newValue? (u : UpdateConfig) (p : Packet) (old : Bytes) : Option Bytes :=
  match u.op with
  | .bitWrite => old.writeBits? ⟨u.bitOffset.toNat, u.bitCount.toNat⟩ u.value
  | .bitAnd => old.and? u.value
  | .bitOr => old.or? u.value
  | .copy => u.src >>= fun src => (p.get src).toOption.map (·.resize old.length)
  | .set | .inc | .dec => none

/-- An operation makes at most one number of a value. -/
theorem Makes.unique (h : u.Makes p old m) (h' : u.Makes p old m') : m = m' := by
  unfold Makes at h h'
  cases hop : u.op with
  | bitWrite | bitAnd =>
    rw [hop] at h h'
    exact Nat.eq_of_testBit_eq fun i => (h.2 i).trans (h'.2 i).symm
  | bitOr =>
    rw [hop] at h h'
    exact h.2.trans h'.2.symm
  | copy =>
    rw [hop] at h h'
    obtain ⟨src, hsrc, val, hval, rfl⟩ := h
    obtain ⟨src', hsrc', val', hval', rfl⟩ := h'
    cases hsrc.symm.trans hsrc'
    cases hval.symm.trans hval'
    rfl
  | set | inc | dec =>
    rw [hop] at h
    exact h.elim

/-- The bytes that an operation computes are as many as before, and write the number it makes. -/
theorem makes_newValue? (h : u.newValue? p old = some val) :
    val.length = old.length ∧ u.Makes p old val.toNat := by
  unfold newValue? at h
  unfold Makes
  cases hop : u.op with
  | bitWrite =>
    rw [hop] at h
    obtain ⟨hlen, hbits⟩ := Bytes.testBit_writeBits h
    exact ⟨hlen, (Option.ite_none_right_eq_some.mp h).1.1, hbits⟩
  | bitAnd =>
    rw [hop] at h
    obtain ⟨hlen, hbits⟩ := Bytes.testBit_and h
    exact ⟨hlen, (Option.ite_none_right_eq_some.mp h).1, hbits⟩
  | bitOr =>
    rw [hop] at h
    obtain ⟨hlen, hnumber⟩ := Bytes.toNat_or h
    exact ⟨hlen, (Option.ite_none_right_eq_some.mp h).1, hnumber⟩
  | copy =>
    rw [hop] at h
    obtain ⟨src, hsrc, h⟩ := Option.bind_eq_some_iff.mp h
    obtain ⟨read, hread, rfl⟩ := Option.map_eq_some_iff.mp h
    exact ⟨Bytes.length_resize _ _, src, hsrc, read, toOption_eq_some_iff.mp hread,
      Bytes.toNat_resize _ _⟩
  | set | inc | dec =>
    rw [hop] at h
    cases h

/-- The bytes are computed wherever the number can be made. -/
theorem Makes.exists_newValue? (hu : Build.updateFault? u = none) (h : u.Makes p old m) :
    ∃ val, u.newValue? p old = some val := by
  unfold Makes at h
  unfold newValue?
  unfold Build.updateFault? at hu
  cases hop : u.op with
  | bitWrite =>
    rw [hop] at h hu
    have hcount : u.bitCount.toNat ≤ 8 * u.value.length := by
      by_contra hmore
      simp only [if_pos (Nat.lt_of_not_le hmore)] at hu
      split at hu <;> cases hu
    exact ⟨_, if_pos ⟨h.1, hcount⟩⟩
  | bitAnd | bitOr =>
    rw [hop] at h
    exact ⟨_, if_pos h.1⟩
  | copy =>
    rw [hop] at h
    obtain ⟨src, hsrc, val, hval, -⟩ := h
    refine ⟨val.resize old.length, Option.bind_eq_some_iff.mpr ⟨src, hsrc, ?_⟩⟩
    rw [hval]
    rfl
  | set | inc | dec =>
    rw [hop] at h
    exact h.elim

/-- The bytes that an accepted operation computes write the number that it makes. -/
theorem newValue?_eq_some_iff (hu : Build.updateFault? u = none) :
    u.newValue? p old = some val ↔ ∃ m, u.Makes p old m ∧ val = Bytes.ofNat old.length m := by
  constructor
  · intro h
    obtain ⟨hlen, hmakes⟩ := makes_newValue? h
    exact ⟨val.toNat, hmakes, by rw [← hlen, Bytes.ofNat_toNat]⟩
  · rintro ⟨m, hmakes, rfl⟩
    obtain ⟨val, hval⟩ := hmakes.exists_newValue? hu
    obtain ⟨hlen, hmakes'⟩ := makes_newValue? hval
    rw [hval, hmakes.unique hmakes', ← hlen, Bytes.ofNat_toNat]

/-! ### Applying the update -/

/-- A field combined with the operand is read, made anew and stored. -/
theorem combine_eq_ok_iff {f : Bytes → Bytes → Option Bytes} {size : Bytes → Nat} :
    u.combine p f size = .ok q ↔ ∃ old val, p.get u.field = .ok old ∧ f old u.value = some val ∧
      p.update u.field .set val = .ok q := by
  rw [combine, bind_eq_ok_iff]
  refine exists_congr fun old => ?_
  cases f old u.value with
  | none => simp [throw, throwThe, MonadExceptOf.throw]
  | some val => simp

/-- An update of bits reads the field, makes the new bytes and stores them. -/
theorem apply_eq_ok_iff (hop : u.op ∈ [UpdateOp.bitWrite, .bitAnd, .bitOr, .copy]) :
    u.apply p = .ok q ↔ ∃ old val, p.get u.field = .ok old ∧ u.newValue? p old = some val ∧
      p.update u.field .set val = .ok q := by
  unfold apply newValue?
  cases hc : u.op with
  | bitWrite | bitAnd | bitOr => exact combine_eq_ok_iff
  | copy =>
    cases u.src with
    | none => simp
    | some src =>
      show (p.get u.field >>= fun old => p.get src >>= fun read =>
          p.update u.field .set (read.resize old.length)) = .ok q ↔
        ∃ old val, p.get u.field = .ok old ∧
          (p.get src).toOption.map (·.resize old.length) = some val ∧ _
      simp only [bind_eq_ok_iff, Option.map_eq_some_iff, toOption_eq_some_iff]
      constructor
      · rintro ⟨old, hget, read, hread, hset⟩
        exact ⟨old, _, hget, ⟨read, hread, rfl⟩, hset⟩
      · rintro ⟨old, _, hget, ⟨read, hread, rfl⟩, hset⟩
        exact ⟨old, hget, read, hread, hset⟩
  | set | inc | dec => simp [hc] at hop

end UpdateConfig

/-! ### Running the update -/

namespace Run

open UpdateConfig

variable {r : Run} {u : UpdateConfig}

/-- The number that an accepted update of bits makes is stored, if the field is there to take it. -/
theorem stored_of_takes (hp : r.packet.Reached) (hu : Build.updateFault? u = none)
    (hop : u.op ∈ [UpdateOp.bitWrite, .bitAnd, .bitOr, .copy]) {old : Bytes} {m : Nat}
    (hget : r.packet.get u.field = .ok old) (hmakes : u.Makes r.packet old m)
    (htakes : r.packet.Takes u.field (Bytes.ofNat old.length m)) :
    ∃ q, u.apply r.packet = .ok q ∧ r.packet.Stored q u.field old m := by
  obtain ⟨q, hset, hstored⟩ := (Packet.set_readable hp hget m).1 htakes
  have hnew := (newValue?_eq_some_iff hu).mpr ⟨m, hmakes, rfl⟩
  exact ⟨q, (apply_eq_ok_iff hop).mpr ⟨old, _, hget, hnew, hset⟩, hstored⟩

/-- An accepted update of bits that succeeds has made a number that the field takes. -/
theorem takes_of_apply (hp : r.packet.Reached) (hu : Build.updateFault? u = none)
    (hop : u.op ∈ [UpdateOp.bitWrite, .bitAnd, .bitOr, .copy]) {q : Packet}
    (h : u.apply r.packet = .ok q) :
    ∃ old m, r.packet.get u.field = .ok old ∧ u.Makes r.packet old m ∧
      r.packet.Takes u.field (Bytes.ofNat old.length m) := by
  obtain ⟨old, val, hget, hnew, hset⟩ := (apply_eq_ok_iff hop).mp h
  obtain ⟨m, hmakes, rfl⟩ := (newValue?_eq_some_iff hu).mp hnew
  exact ⟨old, m, hget, hmakes, (Packet.set_readable hp hget m).2 q hset⟩

/-- An accepted update of bits stores the number it makes of the field, cut to the bits of the
field, changes nothing beside it, and lets the packet go on. If there is no such number, or no field
to take it, the packet is dropped with its headers and metadata as they were, an error counted and
one line logged. -/
theorem perform_bit_update (hp : r.packet.Reached) (hu : Build.updateFault? u = none)
    (hop : u.op ∈ [UpdateOp.bitWrite, .bitAnd, .bitOr, .copy]) :
    (∀ old m, r.packet.get u.field = .ok old → u.Makes r.packet old m →
      r.packet.Takes u.field (Bytes.ofNat old.length m) →
        ∃ q, r.perform (.update u) = (.of .proceed, { r with packet := q }) ∧
          r.packet.Stored q u.field old m) ∧
    ((∀ old m, r.packet.get u.field = .ok old → u.Makes r.packet old m →
      ¬r.packet.Takes u.field (Bytes.ofNat old.length m)) →
        ∃ (e : FieldError) (counters : Counters),
          r.perform (.update u) = (.of .drop, { r with
            counters := counters
            packet := { r.packet with
              log := r.packet.log ++ [⟨.error, s!"{u.text}: {e.message}"⟩] } }) ∧
          ∀ id, counters.get? id = (r.counters.get? id).map fun n =>
            if id = ⟨.error, .packets⟩ then n + 1
            else if id = ⟨.error, .octets⟩ then n + UInt64.ofNat r.packet.length
            else n) := by
  constructor
  · intro old m hget hmakes htakes
    obtain ⟨q, happly, hstored⟩ := stored_of_takes hp hu hop hget hmakes htakes
    refine ⟨q, ?_, hstored⟩
    show r.update u = _
    rw [update, happly]
    rfl
  · intro hnot
    cases happly : u.apply r.packet with
    | ok q =>
      obtain ⟨old, m, hget, hmakes, htakes⟩ := takes_of_apply hp hu hop happly
      exact absurd htakes (hnot old m hget hmakes)
    | error e =>
      refine ⟨e, _, ?_, Counters.get?_count _ _ _⟩
      show r.update u = _
      rw [update, happly]
      rfl

/-- Eight bits written from bit sixteen of a label of twenty bits leave four of them, and an operand
of five bytes is refused. -/
theorem perform_bit_update_label : ∃ p,
    Packet.parse .mpls [0, 1, 0, 64, 0, 2, 0x1B, 64, 7] = .ok p ∧
    (∃ q, perform ⟨.fresh "main" 0, p, .port⟩
        (.update ⟨.field .mplsLabel ⟨1⟩, .bitWrite, [0xFF], none, 16, 8⟩) =
          (.of .proceed, ⟨.fresh "main" 0, q, .port⟩) ∧
      q.get (.field .mplsLabel ⟨1⟩) = .ok [0, 0x0F, 0, 0x21]) ∧
    ∃ log counters, perform ⟨.fresh "main" 0, p, .port⟩
        (.update ⟨.field .mplsLabel ⟨1⟩, .bitOr, [1, 0, 0, 0, 0], none, 0, 0⟩) =
          (.of .drop, ⟨.fresh "main" 0, { p with log := log }, counters⟩) ∧
      counters.get? ⟨.error, .packets⟩ = some 1 ∧ counters.get? ⟨.error, .octets⟩ = some 9 := by
  have parsed : ∃ p ∈ (Packet.parse .mpls [0, 1, 0, 64, 0, 2, 0x1B, 64, 7]).toOption,
      (p.get (.field .mplsLabel ⟨1⟩)).toOption = some [0, 0, 0, 0x21] ∧ p.length = 9 := by
    decide +kernel
  obtain ⟨p, hp, hget, hlength⟩ := parsed
  have hp := toOption_eq_some_iff.mp hp
  have hget := toOption_eq_some_iff.mp hget
  refine ⟨p, hp, ?_, ?_⟩
  · obtain ⟨hstores, -⟩ := perform_bit_update (r := ⟨.fresh "main" 0, p, .port⟩)
      (u := ⟨.field .mplsLabel ⟨1⟩, .bitWrite, [0xFF], none, 16, 8⟩) (.parse hp) rfl (by decide)
    obtain ⟨q, hperform, hstored⟩ := hstores _ 0xFF0021 hget
      ⟨by decide, fun i => BitRange.testBit_write ⟨16, 8⟩ 0x21 0xFF i⟩ trivial
    exact ⟨q, hperform, hstored.value⟩
  · obtain ⟨-, hdrops⟩ := perform_bit_update (r := ⟨.fresh "main" 0, p, .port⟩)
      (u := ⟨.field .mplsLabel ⟨1⟩, .bitOr, [1, 0, 0, 0, 0], none, 0, 0⟩) (.parse hp) rfl
      (by decide)
    obtain ⟨e, counters, hperform, hcounters⟩ := hdrops fun old m hold hmakes => by
      cases hget.symm.trans hold
      exact absurd hmakes.1 (by decide)
    refine ⟨_, counters, hperform, ?_⟩
    rw [hcounters, hcounters, hlength]
    exact ⟨rfl, rfl⟩

end Run

end Dataplane

import Dataplane.Proofs.Frame.Positions

/-!
# Where the bytes of a frame go

A cursor is read from the front and stripped from the back, in any order. What has been read, what
is still unread and what has been stripped, the last piece first, are the whole buffer
(`Frame.calls_account`), so nothing is read twice, lost, or both read and stripped.

## The model

`InPlace.answers` makes calls one after the other and keeps a log of the answers. An error does not
end the sequence: the next call finds what the refused one has left.
-/

namespace Dataplane

open InPlace

/-! ### Sequences of calls -/

namespace InPlace

variable {κ ε σ α : Type}

/-- The answer to a call, and what the call leaves. -/
def answer : EStateM.Result ε σ α → Except ε α × σ
  | .ok a s => (.ok a, s)
  | .error e s => (.error e, s)

/-- The calls of a list with their answers, and what the last one leaves. -/
def answers (perform : κ → InPlace ε σ α) : List κ → σ → List (κ × Except ε α) × σ
  | [], s => ([], s)
  | c :: cs, s =>
    let first := answer (perform c s)
    let rest := answers perform cs first.2
    ((c, first.1) :: rest.1, rest.2)

end InPlace

namespace Frame.Call

/-- The bytes that a call has read. -/
def readBytes : Call × Except ReadError Bytes → Bytes
  | (.read _, .ok b) | (.rest, .ok b) => b
  | _ => []

/-- The bytes that a call has stripped. -/
def stripBytes : Call × Except ReadError Bytes → Bytes
  | (.strip _, .ok b) => b
  | _ => []

end Frame.Call

/-- The positions at the start of a buffer. -/
def Cursor.start (b : Buffer) : Cursor := ⟨0, UInt64.ofNat b.bytes.length⟩

variable {b : Buffer} {f : Frame}

/-- What one call takes off the front and the back of a frame. -/
theorem Frame.perform_account (f : Frame) (call : Call) :
    let r := answer (f.perform call)
    f.unread = Call.readBytes (call, r.1) ++ (r.2.unread ++ Call.stripBytes (call, r.1)) ∧
      r.2.offset = f.offset + (Call.readBytes (call, r.1)).length := by
  cases call with
  | peek start n =>
    rw [perform, atOnce_apply, peek_eq]
    split_ifs <;> simp [answer, Except.map, Call.readBytes, Call.stripBytes]
  | read n =>
    rw [perform, atOnce_apply, read_eq]
    split_ifs with hfits
    · have hlen : (f.unread.take n.toNat).length = n.toNat := List.length_take_of_le hfits
      simp [answer, Except.map, Call.readBytes, Call.stripBytes, hlen]
    · simp [answer, Except.map, Call.readBytes, Call.stripBytes]
  | rest =>
    rw [perform, atOnce_apply]
    simp [answer, Call.readBytes, Call.stripBytes, readRest, Frame.length]
  | strip n =>
    rw [perform, atOnce_apply, strip]
    split_ifs <;> simp [answer, Except.map, Call.readBytes, Call.stripBytes]

/-- The same for a sequence of calls: what is stripped later lies further in. -/
theorem Frame.answers_account (calls : List Call) (f : Frame) :
    let r := answers Frame.perform calls f
    f.unread = r.1.flatMap Call.readBytes ++
        (r.2.unread ++ r.1.reverse.flatMap Call.stripBytes) ∧
      r.2.offset = f.offset + (r.1.flatMap Call.readBytes).length := by
  induction calls generalizing f with
  | nil => simp [answers]
  | cons call calls ih =>
    obtain ⟨hunread, hoffset⟩ := f.perform_account call
    obtain ⟨hrest, hend⟩ := ih (answer (f.perform call)).2
    constructor
    · rw [hunread, hrest]
      simp [answers, List.append_assoc]
    · rw [answers, hend, hoffset]
      simp [Nat.add_assoc]

/-! ### Positions -/

theorem Frame.In.perform (h : f.In b) (call : Call) : (answer (f.perform call)).2.In b := by
  obtain ⟨hunread, hoffset⟩ := f.perform_account call
  obtain ⟨front, back, hb, hfront⟩ := h
  generalize (answer (f.perform call)).1 = a at hunread hoffset
  refine ⟨front ++ Call.readBytes (call, a), Call.stripBytes (call, a) ++ back, ?_, ?_⟩
  · rw [hb, hunread]
    simp only [List.append_assoc]
  · rw [List.length_append, hfront, hoffset]

theorem Frame.in_answers (h : f.In b) (calls : List Call) :
    (answers Frame.perform calls f).2.In b := by
  induction calls generalizing f with
  | nil => exact h
  | cons call calls ih => exact ih (h.perform call)

/-- A refused call leaves the frame alone. -/
theorem Frame.eq_of_perform_error {call : Call} {e : ReadError} {f' : Frame}
    (h : f.perform call = .error e f') : f' = f := by
  cases call <;> rw [perform, atOnce_apply] at h
  all_goals
    split at h <;> cases h
    rfl

theorem Frame.in_ofBytes (b : Buffer) : (ofBytes b.bytes).In b :=
  ⟨[], [], by simp [ofBytes], rfl⟩

namespace Cursor

theorem start_eq (b : Buffer) : start b = place (.ofBytes b.bytes) := by
  rw [place, Frame.ofBytes, Frame.length, Nat.zero_add]
  rfl

/-- An answer to a call on a frame, as the positions give it. -/
def refusing (entry : Frame.Call × Except ReadError Bytes) : Frame.Call × Except Halt Bytes :=
  (entry.1, entry.2.mapError .refused)

theorem answer_outcome (r : EStateM.Result ReadError Frame Bytes) :
    answer (outcome r) = ((answer r).1.mapError .refused, place (answer r).2) := by
  cases r <;> rfl

/-- Calls on the positions of a frame are answered as the calls on the frame, to the last one. -/
theorem answers_place (h : f.In b) (calls : List Frame.Call) :
    answers (perform b) calls (place f) =
      ((answers Frame.perform calls f).1.map refusing,
        place (answers Frame.perform calls f).2) := by
  induction calls generalizing f with
  | nil => rfl
  | cons call calls ih =>
    rw [answers, perform_place h, answer_outcome]
    dsimp only
    rw [ih (h.perform call)]
    rfl

/-- At the positions of a frame a call that fails was refused, and leaves them where they are. -/
theorem eq_place_of_error (h : f.In b) {call : Frame.Call} {e : Halt} {c : Cursor}
    (he : perform b call (place f) = .error e c) : c = place f ∧ e ≠ .fault := by
  rw [perform_place h] at he
  cases hcall : f.perform call with
  | ok a f' =>
    rw [hcall] at he
    cases he
  | error e' f' =>
    rw [hcall] at he
    cases he
    exact ⟨congrArg place (Frame.eq_of_perform_error hcall), nofun⟩

end Cursor

/-! ### Peeking -/

namespace Frame

theorem isOk_peek_iff (f : Frame) (start n : Nat) :
    (f.peek start n).isOk ↔ start + n ≤ f.length := by
  rw [peek_eq]
  split_ifs with h
  · exact iff_of_true rfl h
  · exact iff_of_false nofun h

/-- A look ahead shows what a read would give after the bytes before it were read. -/
theorem exists_read_of_peek {start n : Nat} {bytes : Bytes} (h : f.peek start n = .ok bytes) :
    ∃ skipped f₁ f₂, f.read start = .ok (skipped, f₁) ∧ f₁.read n = .ok (bytes, f₂) := by
  rw [peek_eq] at h
  split_ifs at h with hfits
  cases h
  have hrest : n ≤ length ⟨f.offset + start, f.unread.drop start⟩ := by
    rw [length, List.length_drop]
    exact Nat.le_sub_of_add_le' hfits
  exact ⟨_, _, _, (f.read_eq start).trans (if_pos (Nat.le_of_add_right_le hfits)),
    (read_eq _ n).trans (if_pos hrest)⟩

/-- **Where the bytes of a buffer go**: after any calls, what was read, what is unread, and what was
stripped, the last piece first, are the buffer, and the cursor says how much of it is where. On
positions in the buffer the same calls get the same answers, and never run out of bounds. -/
theorem calls_account (b : Buffer) (calls : List Call) :
    let log := (answers perform calls (ofBytes b.bytes)).1
    let f := (answers perform calls (ofBytes b.bytes)).2
    log.flatMap Call.readBytes ++ f.unread ++ log.reverse.flatMap Call.stripBytes = b.bytes ∧
      f.offset = (log.flatMap Call.readBytes).length ∧
      f.length = b.bytes.length - (log.flatMap Call.readBytes).length -
        (log.reverse.flatMap Call.stripBytes).length ∧
      (∀ start n, (f.peek start n).isOk ↔ start + n ≤ f.length) ∧
      (∀ start n bytes, f.peek start n = .ok bytes →
        ∃ skipped f₁ f₂, f.read start = .ok (skipped, f₁) ∧ f₁.read n = .ok (bytes, f₂)) ∧
      (∀ call e f', f.perform call = .error e f' → f' = f) ∧
      ∃ c, answers (Cursor.perform b) calls (Cursor.start b) = (log.map Cursor.refusing, c) ∧
        c.pos.toNat = f.offset ∧ c.stop.toNat = f.offset + f.length ∧
        ∀ call e c', Cursor.perform b call c = .error e c' → c' = c ∧ e ≠ .fault := by
  intro log f
  obtain ⟨hbytes, hoffset⟩ := answers_account calls (ofBytes b.bytes)
  have hin : f.In b := in_answers (in_ofBytes b) calls
  refine ⟨?_, ?_, ?_, f.isOk_peek_iff, fun _ _ _ => exists_read_of_peek,
    fun _ _ _ => eq_of_perform_error, Cursor.place f, ?_, Cursor.toNat_pos_place hin,
    Cursor.toNat_stop_place hin, fun _ _ _ => Cursor.eq_place_of_error hin⟩
  · rw [List.append_assoc]
    exact hbytes.symm
  · rw [hoffset]
    exact Nat.zero_add _
  · have hlen : b.bytes.length = (log.flatMap Call.readBytes).length +
        (f.length + (log.reverse.flatMap Call.stripBytes).length) := by
      rw [Frame.length, ← List.length_append, ← List.length_append]
      exact congrArg List.length hbytes
    omega
  · rw [Cursor.start_eq]
    exact Cursor.answers_place (in_ofBytes b) calls

/-- Bytes that were read are not stripped. -/
theorem calls_account_four :
    let b : Buffer := ⟨[1, 2, 3, 4], by decide⟩
    let calls := [.read 3, .strip 2, .strip 1]
    let log := (answers perform calls (ofBytes b.bytes)).1
    log.map (·.2) = [.ok [1, 2, 3], .error (.notEnoughBytes 2 1), .ok [4]] ∧
      ∃ c, answers (Cursor.perform b) calls (Cursor.start b) = (log.map Cursor.refusing, c) ∧
        c.pos.toNat = 3 ∧ c.stop.toNat = 3 := by
  obtain ⟨-, -, -, -, -, -, c, hcalls, hpos, hstop, -⟩ :=
    calls_account ⟨[1, 2, 3, 4], by decide⟩ [.read 3, .strip 2, .strip 1]
  exact ⟨rfl, c, hcalls, hpos, hstop⟩

end Frame

end Dataplane

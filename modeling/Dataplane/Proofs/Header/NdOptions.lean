import Dataplane.Proofs.Header.Rereading

/-!
# The options of neighbor discovery messages

The bytes behind the body of a neighbor discovery message are read as options if they can be cut
into records that each give their length, in units of eight bytes, by a second byte that is not
zero. They can then be cut in one way only, and the options read are the records; any other bytes
are refused as malformed. Conversely a message is read back from what it emits, if each of its
options is as long as such a record can be (`Icmp6.options_read`).

## The model

`NdOption.readAll` is bounded by its fuel. `NdOption.Ends` is the loop without a bound: it goes on
from round to round until nothing is left or a round refuses (`NdOption.round`). Each round takes
bytes off the frame, so the loop ends on every frame, and with more fuel than bytes the bounded
reader gives what it ends with.
-/

namespace Dataplane

namespace NdOption

/-! ### Records -/

/-- The second byte is the number of units of eight bytes that the record is long, and not zero. -/
def IsRecord (r : Bytes) : Prop := ∃ units : UInt8, 1 ≤ units.toNat ∧ r[1]? = some units ∧
  r.length = 8 * units.toNat

/-- Cutting a byte string into consecutive records. -/
structure Cuts (b : Bytes) (records : List Bytes) : Prop where
  /-- The records are the byte string, one after the other. -/
  joined : records.flatten = b
  /-- Each of them is one. -/
  each : ∀ r ∈ records, IsRecord r

/-- The option that a record is. -/
def ofRecord (r : Bytes) : NdOption := ⟨r.headD 0, r.drop 2⟩

variable {r : Bytes} {records records' : List Bytes} {b : Bytes} {o : NdOption} {f f' : Frame}
  {opts : List NdOption} {fuel : Nat}

/-- Of records that lead two byte strings that are the same, one is not longer than the other. -/
theorem IsRecord.eq_of_append {r' rest rest' : Bytes} (hr : IsRecord r) (hr' : IsRecord r')
    (h : r ++ rest = r' ++ rest') : r = r' ∧ rest = rest' := by
  obtain ⟨units, hpos, hget, hlen⟩ := hr
  obtain ⟨units', hpos', hget', hlen'⟩ := hr'
  have hsecond : (r ++ rest)[1]? = (r' ++ rest')[1]? := by rw [h]
  rw [List.getElem?_append_left (by omega), List.getElem?_append_left (by omega), hget, hget',
    Option.some.injEq] at hsecond
  exact List.append_inj h (by rw [hlen, hlen', hsecond])

/-- A byte string is cut in one way at most. -/
theorem Cuts.unique (h : Cuts b records) (h' : Cuts b records') : records = records' := by
  have ne_nil {r : Bytes} {rest : List Bytes} (hr : IsRecord r) : (r :: rest).flatten ≠ [] := by
    obtain ⟨units, hpos, -, hlen⟩ := hr
    rw [List.flatten_cons]
    exact List.append_ne_nil_of_left_ne_nil (List.ne_nil_of_length_pos (by omega)) _
  induction records generalizing b records' with
  | nil =>
    cases records' with
    | nil => rfl
    | cons r' records' =>
      obtain ⟨hr', -⟩ := List.forall_mem_cons.mp h'.each
      exact absurd (h'.joined.trans h.joined.symm) (ne_nil hr')
  | cons r records ih =>
    obtain ⟨hr, hrecords⟩ := List.forall_mem_cons.mp h.each
    cases records' with
    | nil => exact absurd (h.joined.trans h'.joined.symm) (ne_nil hr)
    | cons r' records' =>
      obtain ⟨hr', hrecords'⟩ := List.forall_mem_cons.mp h'.each
      obtain ⟨rfl, hrest⟩ := hr.eq_of_append hr' (h.joined.trans h'.joined.symm)
      rw [ih ⟨rfl, hrecords⟩ ⟨hrest.symm, hrecords'⟩]

/-- A record is an option that gives its length. -/
theorem IsRecord.regular (hr : IsRecord r) : (ofRecord r).Regular ∧ (ofRecord r).emit = r := by
  obtain ⟨units, hpos, hget, hlen⟩ := hr
  obtain ⟨kind, rest, rfl⟩ := List.exists_cons_of_length_pos (show 0 < r.length by omega)
  obtain ⟨units', data, rfl⟩ := List.exists_cons_of_length_pos (show 0 < rest.length by
    rw [List.length_cons] at hlen
    omega)
  cases hget
  have hdata : 2 + data.length = units.toNat * 8 := by
    simp only [List.length_cons] at hlen
    omega
  have hunits : (ofRecord (kind :: units :: data)).units = units := units_eq hdata
  refine ⟨?_, ?_⟩
  · rw [Regular, hunits]
    exact hdata.symm
  · rw [emit, hunits]
    rfl

theorem Regular.isRecord (ho : o.Regular) : IsRecord o.emit := by
  have hlen : o.units.toNat * 8 = 2 + o.data.length := ho
  exact ⟨o.units, by omega, rfl, by rw [o.length_emit, wireLen]; omega⟩

/-- The lengths an option can have if a record can be as long. -/
theorem regular_of_whole (hle : o.wireLen ≤ 2040) (hwhole : 8 ∣ o.wireLen) : o.Regular := by
  have hlt : o.wireLen / 8 < 256 := by omega
  rw [Regular, units, if_pos hlt, UInt8.toNat_ofNat', Nat.mod_eq_of_lt hlt,
    Nat.div_mul_cancel hwhole]

/-! ### The loop -/

/-- One round of the loop: the end, or an option and what is left of the frame. -/
def round (f : Frame) : Except ParseError (Option (NdOption × Frame)) :=
  match f.unread with
  | [] => .ok none
  | [_] => .error (.malformedOption .icmp6 .truncated)
  | kind :: units :: _ =>
    let len := units.toNat * 8
    if len = 0 then .error (.malformedOption .icmp6 .zeroLength)
    else if !f.unread.reaches len then .error (.malformedOption .icmp6 .overrunsFrame)
    else do
      let (bytes, f) ← ParseError.ofRead (f.read len)
      return some (⟨kind, bytes.drop 2⟩, f)

/-- The rounds that start at a frame come to an end, with a result. -/
inductive Ends : Frame → Except ParseError (List NdOption × Frame) → Prop
  /-- Nothing is left. -/
  | done {f : Frame} (h : round f = .ok none) : Ends f (.ok ([], f))
  /-- A round refuses. -/
  | refused {f : Frame} {e : ParseError} (h : round f = .error e) : Ends f (.error e)
  /-- A round reads an option, and the loop goes on. -/
  | next {f f' : Frame} {o : NdOption} {r : Except ParseError (List NdOption × Frame)}
      (h : round f = .ok (some (o, f'))) (hrest : Ends f' r) :
      Ends f (r.map fun (opts, f') => (o :: opts, f'))

/-- The bounded reader goes round once for each unit of fuel. -/
theorem readAll_succ (fuel : Nat) (f : Frame) : readAll (fuel + 1) f = (do
    match ← round f with
    | none => return ([], f)
    | some (o, f) =>
      let (opts, f) ← readAll fuel f
      return (o :: opts, f)) := by
  rw [readAll, round]
  rcases f.unread with _ | ⟨kind, _ | ⟨units, rest⟩⟩
  · rfl
  · rfl
  · dsimp only
    split_ifs
    · rfl
    · rfl
    · cases f.read _ <;> rfl

/-- A round that reads an option takes bytes off the frame. -/
theorem lt_of_round (h : round f = .ok (some (o, f'))) : f'.length < f.length := by
  rw [round] at h
  split at h
  · cases h
  · cases h
  · dsimp only at h
    split at h
    · cases h
    · rename_i hzero
      split at h
      · cases h
      · obtain ⟨⟨bytes, f₁⟩, h₁, h⟩ := bind_eq_ok_iff.mp h
        cases h
        obtain ⟨hreads, hlen⟩ := Frame.reads_of_read (ofRead_eq_ok_iff.mp h₁)
        have htotal := congrArg List.length hreads
        rw [List.length_append, hlen] at htotal
        show f₁.unread.length < f.unread.length
        omega

/-- A round refuses an option only because of the option. -/
theorem fault_of_round {e : ParseError} (h : round f = .error e) :
    ∃ fault, e = .malformedOption .icmp6 fault := by
  rw [round] at h
  split at h
  · cases h
  · cases h
    exact ⟨_, rfl⟩
  · dsimp only at h
    split at h
    · cases h
      exact ⟨_, rfl⟩
    · split at h
      · cases h
        exact ⟨_, rfl⟩
      · rename_i hreaches
        rw [Bool.not_eq_true, Bool.not_eq_false'] at hreaches
        rw [Frame.read, if_pos hreaches] at h
        cases h

/-- With more fuel than bytes the reader goes on to the end of the loop. -/
theorem ends_readAll (hfuel : f.length < fuel) : Ends f (readAll fuel f) := by
  induction fuel generalizing f with
  | zero => exact absurd hfuel (Nat.not_lt_zero _)
  | succ fuel ih =>
    rw [readAll_succ]
    cases h : round f with
    | error e => exact .refused h
    | ok next =>
      cases next with
      | none => exact .done h
      | some next =>
        obtain ⟨o, f'⟩ := next
        have hrest := ih (Nat.lt_of_lt_of_le (lt_of_round h) (Nat.le_of_lt_succ hfuel))
        exact .next h hrest

/-- There is one end to come to. -/
theorem Ends.unique {r r' : Except ParseError (List NdOption × Frame)} (h : Ends f r)
    (h' : Ends f r') : r = r' := by
  induction h generalizing r' with
  | done hround =>
    cases h' with
    | done => rfl
    | refused hround' => cases hround.symm.trans hround'
    | next hround' => cases hround.symm.trans hround'
  | refused hround =>
    cases h' with
    | done hround' => cases hround.symm.trans hround'
    | refused hround' => rw [Except.error.inj (hround.symm.trans hround')]
    | next hround' => cases hround.symm.trans hround'
  | next hround _ ih =>
    cases h' with
    | done hround' => cases hround.symm.trans hround'
    | refused hround' => cases hround.symm.trans hround'
    | next hround' hrest' =>
      cases hround.symm.trans hround'
      rw [ih hrest']

theorem Ends.fault {e : ParseError} (h : Ends f (.error e)) :
    ∃ fault, e = .malformedOption .icmp6 fault := by
  generalize hr : Except.error e = r at h
  induction h with
  | done => cases hr
  | refused h =>
    cases hr
    exact fault_of_round h
  | @next _ _ _ r h hrest ih =>
    cases r with
    | error e' =>
      cases hr
      exact ih rfl
    | ok _ => cases hr

/-! ### What is read -/

theorem cuts_of_readAll (hfuel : f.length < fuel) (e : readAll fuel f = .ok (opts, f')) :
    Cuts f.unread (opts.map emit) := by
  have hreads := reads_of_readAll e
  rw [Frame.Reads, unread_of_readAll hfuel e, List.append_nil] at hreads
  refine ⟨by rw [hreads, List.flatMap_def], ?_⟩
  intro r hr
  obtain ⟨o, ho, rfl⟩ := List.mem_map.mp hr
  exact (regular_of_readAll e o ho).isRecord

theorem readAll_of_cuts (hfuel : f.length < fuel) (h : Cuts f.unread records) :
    (records.map ofRecord).map emit = records ∧
      ∃ f', readAll fuel f = .ok (records.map ofRecord, f') ∧ f'.unread = [] := by
  have hemit : (records.map ofRecord).map emit = records := by
    rw [List.map_map]
    exact (List.map_congr_left fun r hr => (h.each r hr).regular.2).trans (List.map_id _)
  have hregular : ∀ o ∈ records.map ofRecord, o.Regular := by
    intro o ho
    obtain ⟨r, hr, rfl⟩ := List.mem_map.mp ho
    exact (h.each r hr).regular.1
  have hbytes : f.unread = (records.map ofRecord).flatMap (·.emit) := by
    rw [List.flatMap_def, hemit, h.joined]
  have hfew : (records.map ofRecord).length < fuel := by
    have hle : (records.map ofRecord).length ≤ ((records.map ofRecord).flatMap (·.emit)).length :=
      length_le_flatMap fun o _ => Nat.succ_pos _
    rw [← hbytes] at hle
    exact Nat.lt_of_le_of_lt hle hfuel
  exact ⟨hemit, readAll_of_unread hregular hfew hbytes⟩

end NdOption

/-- The options of a neighbor discovery message, read with more fuel than there are bytes. Reading
ends on every frame. Where the bytes can be cut into records, they can be cut in one way only, the
options read are the records, and nothing is left; where they cannot be, they are refused as
malformed. And a message whose body is that of its type, with options of 8 to 2040 bytes in whole
units, is read back from what it emits, to the last byte. -/
theorem Icmp6.options_read :
    (∀ f fuel, f.length < fuel →
      (∀ r, NdOption.Ends f r ↔ r = NdOption.readAll fuel f) ∧
      (∀ records, NdOption.Cuts f.unread records →
        (∀ records', NdOption.Cuts f.unread records' → records' = records) ∧
        (records.map NdOption.ofRecord).map NdOption.emit = records ∧
        ∃ f', NdOption.readAll fuel f = .ok (records.map NdOption.ofRecord, f') ∧ f'.unread = []) ∧
      ((¬∃ records, NdOption.Cuts f.unread records) →
        ∃ fault, NdOption.readAll fuel f = .error (.malformedOption .icmp6 fault))) ∧
    ∀ h : Icmp6, (h.type, h.body.length) ∈ [(133, 0), (134, 8), (135, 16), (136, 16), (137, 32)] →
      (∀ o ∈ h.options, 8 ≤ o.wireLen ∧ o.wireLen ≤ 2040 ∧ 8 ∣ o.wireLen) →
      ∀ f, f.unread = h.emit →
        ∃ f', Icmp6.read f = .ok ({ h with pseudo := .unseen }, f') ∧ f'.unread = [] := by
  refine ⟨fun f fuel hfuel => ?_, fun h htype hoptions f hf => ?_⟩
  · have hends := NdOption.ends_readAll hfuel
    refine ⟨fun r => ⟨fun h => h.unique hends, fun h => h ▸ hends⟩, fun records h => ?_,
      fun hnone => ?_⟩
    · exact ⟨fun records' h' => h'.unique h, NdOption.readAll_of_cuts hfuel h⟩
    · cases e : NdOption.readAll fuel f with
      | ok read => exact absurd ⟨_, NdOption.cuts_of_readAll hfuel e⟩ hnone
      | error e' =>
        obtain ⟨fault, rfl⟩ := NdOption.Ends.fault (e ▸ hends)
        exact ⟨fault, rfl⟩
  · have hbody : bodyLen? h.type = some h.body.length := by
      simp only [List.mem_cons, Prod.mk.injEq, List.not_mem_nil, or_false] at htype
      obtain ⟨ht, hb⟩ | ⟨ht, hb⟩ | ⟨ht, hb⟩ | ⟨ht, hb⟩ | ⟨ht, hb⟩ := htype <;> rw [ht, hb] <;> rfl
    have hregular : h.Regular := by
      refine ⟨by rw [hbody, Option.getD_some], fun o ho => ?_, fun hplain => ?_⟩
      · obtain ⟨-, hle, hwhole⟩ := hoptions o ho
        exact NdOption.regular_of_whole hle hwhole
      · exact absurd (by rw [isNeighborDiscovery, hbody]; rfl) hplain
    exact Icmp6.read_of_unread hregular (hf.trans (List.append_nil _).symm) fun _ => rfl

/-- One option of eight bytes; the same with half an option behind it; and a router solicitation
with that option. -/
theorem Icmp6.options_read_solicitation :
    (∃ f', NdOption.readAll 9 (.ofBytes [1, 1, 2, 0, 0, 0, 0, 7]) =
      .ok ([⟨1, [2, 0, 0, 0, 0, 7]⟩], f') ∧ f'.unread = []) ∧
    (∃ fault, NdOption.readAll 10 (.ofBytes [1, 1, 2, 0, 0, 0, 0, 7, 1]) =
      .error (.malformedOption .icmp6 fault)) ∧
    ∃ f', Icmp6.read (.ofBytes [133, 0, 0, 0, 0, 0, 0, 0, 1, 1, 2, 0, 0, 0, 0, 7]) =
      .ok (⟨⟨[133, 0, 0, 0, 0, 0, 0, 0], rfl⟩, [], [⟨1, [2, 0, 0, 0, 0, 7]⟩], .unseen⟩, f') ∧
        f'.unread = [] := by
  refine ⟨?_, ?_, ?_⟩
  · have hcuts : NdOption.Cuts [1, 1, 2, 0, 0, 0, 0, 7] [[1, 1, 2, 0, 0, 0, 0, 7]] :=
      ⟨rfl, by simp [NdOption.IsRecord]⟩
    exact ((Icmp6.options_read.1 (.ofBytes _) 9 (by decide)).2.1 _ hcuts).2.2
  · refine (Icmp6.options_read.1 (.ofBytes _) 10 (by decide)).2.2 ?_
    rintro ⟨records, hcuts⟩
    have hfuel : (Frame.ofBytes [1, 1, 2, 0, 0, 0, 0, 7, 1]).length < 10 := by decide
    obtain ⟨-, f', hread, -⟩ := NdOption.readAll_of_cuts hfuel hcuts
    cases hread
  · exact Icmp6.options_read.2 ⟨⟨_, rfl⟩, [], [⟨1, [2, 0, 0, 0, 0, 7]⟩], .unseen⟩ (by decide)
      (by decide) (.ofBytes _) rfl

end Dataplane

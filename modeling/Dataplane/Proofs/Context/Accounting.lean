import Dataplane.Context.Run
import Dataplane.Proofs.InPlace.Packet

/-!
# What actions count

A packet does not vanish without a trace: an action that drops its packet counts it, once, on one of
the events that stand for a loss, and leaves the packet as it was but for a line in its log. An
action that does not drop its packet counts nothing but debugging and the limiting of the rate
(`Run.action_accounts`). This is so of every action of the library; actions brought in from outside
decide for themselves (`Action.IsOwn`), and a mirror action accounts for a replica.

## The model

Several actions drop a packet after an operation on it was refused, and count the length the packet
has by then. `Run.performInPlace` are the actions of an engine that changes the packet step by step
where it is, so that a refused operation could leave it half changed and of another length.
-/

namespace Dataplane

open InPlace

/-! ### Counters -/

namespace Counters

variable {c c' : Counters}

/-- From one set of counters to another, an event of a packet of `len` bytes has been counted once,
and nothing else. -/
structure CountedOnce (c c' : Counters) (e : CounterEvent) (len : Nat) : Prop where
  packets : ∃ n, c.get? ⟨e, .packets⟩ = some n ∧ c'.get? ⟨e, .packets⟩ = some (n + 1)
  octets : ∃ n, c.get? ⟨e, .octets⟩ = some n ∧ c'.get? ⟨e, .octets⟩ = some (n + UInt64.ofNat len)
  others : ∀ id : CounterId, id.event ≠ e → c'.get? id = c.get? id

theorem get?_count_of_ne {e : CounterEvent} {id : CounterId} (h : id.event ≠ e) (c : Counters)
    (len : Nat) : (c.count e len).get? id = c.get? id := by
  have hpackets : id ≠ ⟨e, .packets⟩ := fun heq => h (congrArg CounterId.event heq)
  have hoctets : id ≠ ⟨e, .octets⟩ := fun heq => h (congrArg CounterId.event heq)
  simp [get?_count, hpackets, hoctets]

/-- Counters that are all there are counted on. -/
theorem countedOnce (hall : ∀ id, (c.get? id).isSome) (e : CounterEvent) (len : Nat) :
    c.CountedOnce (c.count e len) e len := by
  obtain ⟨n, hn⟩ := Option.isSome_iff_exists.mp (hall ⟨e, .packets⟩)
  obtain ⟨m, hm⟩ := Option.isSome_iff_exists.mp (hall ⟨e, .octets⟩)
  exact ⟨⟨n, hn, by simp [get?_count, hn]⟩, ⟨m, hm, by simp [get?_count, hm]⟩,
    fun _ h => get?_count_of_ne h c len⟩

end Counters

/-- Is the event a loss of the packet it is counted of? -/
def CounterEvent.IsLoss (e : CounterEvent) : Prop :=
  e ∈ [drop, error, encapError, txError, ratelimit]

instance : DecidablePred CounterEvent.IsLoss := fun e =>
  inferInstanceAs (Decidable (e ∈ [.drop, .error, .encapError, .txError, .ratelimit]))

/-- Is the action one of the library's own? -/
def Action.IsOwn : Action → Prop
  | stamp .. | record .. | jump .. => False
  | _ => True

/-! ### Actions that change the packet where it is -/

namespace UpdateConfig

/-- Sets the field to what `f` makes of its value and the operand. -/
def combineInPlace (u : UpdateConfig) (f : Bytes → Bytes → Option Bytes) (size : Bytes → Nat) :
    InPlace FieldError Packet Unit := do
  let old ← fromExcept ((← current).get u.field)
  match f old u.value with
  | some val => Packet.updateInPlace u.field .set val
  | none => throw (.badSize u.field (size old))

/-- Updates the packet. -/
def applyInPlace (u : UpdateConfig) : InPlace FieldError Packet Unit :=
  match u.op with
  | .set => Packet.updateInPlace u.field .set u.value
  | .inc => Packet.updateInPlace u.field .inc u.value
  | .dec => Packet.updateInPlace u.field .dec u.value
  | .copy =>
    match u.src with
    | none => throw (.noSuchField u.field)
    | some src => do
      let old ← fromExcept ((← current).get u.field)
      let val ← fromExcept ((← current).get src)
      Packet.updateInPlace u.field .set (val.resize old.length)
  | .bitWrite =>
    u.combineInPlace (·.writeBits? ⟨u.bitOffset.toNat, u.bitCount.toNat⟩ ·) List.length
  | .bitAnd => u.combineInPlace Bytes.and? fun _ => u.value.length
  | .bitOr => u.combineInPlace Bytes.or? fun _ => u.value.length

theorem combineInPlace_eq (u : UpdateConfig) (f : Bytes → Bytes → Option Bytes)
    (size : Bytes → Nat) :
    u.combineInPlace f size = atOnce (silent (u.combine · f size)) := by
  funext p
  rw [combineInPlace, bind_apply, current_apply, atOnce_apply, silent, combine]
  dsimp only
  rw [bind_apply]
  cases p.get u.field with
  | error e => rfl
  | ok old =>
    rw [fromExcept_ok]
    simp only [bind, Except.bind]
    cases f old u.value with
    | none => rfl
    | some val =>
      dsimp only
      rw [Packet.updateInPlace_eq, atOnce_apply, silent]

/-- An update is done at once. -/
theorem applyInPlace_eq (u : UpdateConfig) : u.applyInPlace = atOnce (silent u.apply) := by
  unfold applyInPlace apply
  cases u.op with
  | set | inc | dec => exact Packet.updateInPlace_eq _ _ _
  | bitWrite | bitAnd | bitOr => exact combineInPlace_eq _ _ _
  | copy =>
    cases u.src with
    | none => rfl
    | some src =>
      funext p
      simp only [bind_apply, current_apply, atOnce_apply, silent]
      cases p.get u.field with
      | error e => rfl
      | ok old =>
        rw [fromExcept_ok]
        dsimp only
        cases p.get src with
        | error e => rfl
        | ok val =>
          rw [fromExcept_ok]
          dsimp only
          rw [Packet.updateInPlace_eq, atOnce_apply, silent]
          rfl

end UpdateConfig

namespace Run

variable {ε : Type} {r : Run} {a : Action} {s : Step}

/-- Makes a call on the packet. If the call is refused, `refused` goes on with the packet as the
call has left it. -/
def attempt (r : Run) (call : InPlace ε Packet Unit) (refused : Run → ε → Step) : Step :=
  match call r.packet with
  | .ok () p => { r with packet := p }.proceed
  | .error e p => refused { r with packet := p } e

/-- What an action does, the packet changed where it is. -/
def performInPlace (r : Run) : Action → Step
  | .decap kind => r.attempt (Packet.decapInPlace kind) fun r e =>
      (r.modifyPacket (·.logDebug s!"decap {kind.text}: {e.message}")).proceed
  | .encap kind => r.attempt (Packet.encapInPlace kind) fun r e =>
      r.fail .encapError s!"encap {kind.text}: {e.message}"
  | .reparse kind fields front => r.attempt (Packet.reparseInPlace kind fields front) fun r e =>
      r.fail .error s!"reparse as {kind.text}: {e.message}"
  | .update u => r.attempt u.applyInPlace fun r e => r.fail .error s!"{u.text}: {e.message}"
  | a => r.perform a

theorem attempt_atOnce (r : Run) (f : Packet → Except ε Packet) (refused : Run → ε → Step) :
    r.attempt (atOnce (silent f)) refused = match f r.packet with
      | .ok p => { r with packet := p }.proceed
      | .error e => refused r e := by
  rw [attempt, atOnce_apply, silent]
  cases f r.packet <;> rfl

/-- No refused operation leaves the packet half changed. -/
theorem performInPlace_eq (r : Run) (a : Action) : r.performInPlace a = r.perform a := by
  cases a with
  | decap kind =>
    rw [performInPlace, Packet.decapInPlace_eq, attempt_atOnce, perform, decap]
    cases r.packet.decap kind <;> rfl
  | encap kind =>
    rw [performInPlace, Packet.encapInPlace_eq, attempt_atOnce, perform, encap]
    cases r.packet.encap kind <;> rfl
  | reparse kind fields front =>
    rw [performInPlace, Packet.reparseInPlace_eq, attempt_atOnce, perform, reparse]
    cases r.packet.reparse kind fields front <;> rfl
  | update u =>
    rw [performInPlace, UpdateConfig.applyInPlace_eq, attempt_atOnce, perform, update]
    cases u.apply r.packet <;> rfl
  | _ => rfl

/-! ### Accounting for the packet -/

/-- What the counters and the packet show after an action. -/
structure Accounted (r : Run) (s : Step) : Prop where
  /-- A packet that is dropped is counted once, and is as it was but for its log. -/
  dropped : s.1.state = .drop →
    (∃ e : CounterEvent, e.IsLoss ∧ r.counters.CountedOnce s.2.counters e r.packet.length) ∧
      s.2.packet = { r.packet with log := s.2.packet.log }
  /-- A packet that is not dropped is counted as debugged or limited at most. -/
  kept : s.1.state ≠ .drop → ∀ id : CounterId, id.event ≠ .ratelimit → id.event ≠ .rxDebug →
    s.2.counters.get? id = r.counters.get? id

/-- An action that goes on without counting. -/
theorem Accounted.of_uncounted (hstate : s.1.state ≠ .drop)
    (hcounters : s.2.counters = r.counters) : r.Accounted s :=
  ⟨fun h => absurd h hstate, fun _ id _ _ => by rw [hcounters]⟩

/-- An action that drops the packet after counting a loss. -/
theorem Accounted.of_loss (hall : ∀ id, (r.counters.get? id).isSome) {e : CounterEvent}
    (he : e.IsLoss) (hstate : s.1.state = .drop)
    (hcounters : s.2.counters = r.counters.count e r.packet.length)
    (hpacket : s.2.packet = { r.packet with log := s.2.packet.log }) : r.Accounted s :=
  ⟨fun _ => ⟨⟨e, he, hcounters ▸ Counters.countedOnce hall e r.packet.length⟩, hpacket⟩,
    fun h => absurd hstate h⟩

/-- A call that changes the packet, and what is done if it is refused. -/
theorem accounted_attempt {f : Packet → Except ε Packet} {refused : Run → ε → Step}
    (h : ∀ e, r.Accounted (refused r e)) : r.Accounted (r.attempt (atOnce (silent f)) refused) := by
  rw [attempt_atOnce]
  split
  · exact .of_uncounted nofun rfl
  · exact h _

/-- What an action does in a pipeline, a mirror action apart. -/
theorem actWith_eq (pipeline : ActionList → Bounded Verdict) {x : Listed Action}
    (hmirror : ∀ port actions fields, x.action ≠ .mirror port actions fields) :
    actWith pipeline x r = some (r.perform x.action) := by
  obtain ⟨a, onEvaluate, hash, serial⟩ := x
  cases a with
  | mirror port actions fields => exact absurd rfl (hmirror port actions fields)
  | _ => rfl

section AllCounters

variable (hall : ∀ id, (r.counters.get? id).isSome)
include hall

theorem accounted_fail {e : CounterEvent} (he : e.IsLoss) (msg : String) :
    r.Accounted (r.fail e msg) :=
  .of_loss hall he rfl rfl rfl

theorem accounted_transmit (port : Ref) (immediate : Bool) :
    r.Accounted (r.transmit port immediate) := by
  unfold transmit
  split
  · cases immediate <;> exact .of_uncounted nofun rfl
  · exact accounted_fail hall (by decide) _

theorem accounted_swapOutput : r.Accounted r.swapOutput := by
  unfold swapOutput
  split
  · exact .of_uncounted nofun rfl
  · exact accounted_fail hall (by decide) _

theorem accounted_lookup (table : Ref) : r.Accounted (r.lookup table) := by
  unfold lookup
  split
  · exact .of_uncounted nofun rfl
  · exact accounted_fail hall (by decide) _

/-- A packet over the rate is counted as limited, whether it is dropped or passes by advice. -/
theorem accounted_ratelimit (bucket : Nat) : r.Accounted (r.ratelimit bucket) := by
  unfold ratelimit
  dsimp only
  split
  · exact .of_uncounted nofun rfl
  · split
    · exact ⟨nofun, fun _ id hid _ => Counters.get?_count_of_ne hid r.counters r.packet.length⟩
    · exact .of_loss hall (e := .ratelimit) (by decide) rfl rfl rfl

theorem accounted_select (fields : List FieldId) (algo : SelectAlgo) (lists : List ActionList) :
    r.Accounted (r.select fields algo lists) := by
  unfold select
  split
  · exact accounted_fail hall (by decide) _
  · exact .of_uncounted nofun (counters_keyNumber ..)

theorem accounted_performInPlace (hown : a.IsOwn)
    (hmirror : ∀ port actions fields, a ≠ .mirror port actions fields) :
    r.Accounted (r.performInPlace a) := by
  cases a with
  | drop => exact .of_loss hall (e := .drop) (by decide) rfl rfl rfl
  | debug => exact ⟨nofun, fun _ id _ hid => Counters.get?_count_of_ne hid r.counters _⟩
  | evaluate => exact .of_uncounted nofun rfl
  | decap kind =>
    rw [performInPlace, Packet.decapInPlace_eq]
    exact accounted_attempt fun _ => .of_uncounted nofun rfl
  | encap kind =>
    rw [performInPlace, Packet.encapInPlace_eq]
    exact accounted_attempt fun _ => accounted_fail hall (by decide) _
  | reparse kind fields front =>
    rw [performInPlace, Packet.reparseInPlace_eq]
    exact accounted_attempt fun _ => accounted_fail hall (by decide) _
  | output =>
    have hstate (found : Bool) : (if found then Disposition.output else .proceed) ≠ .drop := by
      cases found <;> nofun
    exact .of_uncounted (hstate _) rfl
  | transmit port immediate => exact accounted_transmit hall port immediate
  | swapOutput => exact accounted_swapOutput hall
  | lookup table => exact accounted_lookup hall table
  | mirror port actions fields => exact absurd rfl (hmirror port actions fields)
  | ratelimit _ _ bucket => exact accounted_ratelimit hall bucket
  | select fields algo lists => exact accounted_select hall fields algo lists
  | update u =>
    rw [performInPlace, UpdateConfig.applyInPlace_eq]
    exact accounted_attempt fun _ => accounted_fail hall (by decide) _
  | flowCount counter => exact .of_uncounted nofun rfl
  | stamp | record | jump => exact hown.elim

/-- Where all counters are there to be counted on, every action of the library but a mirror action
accounts for its packet: if it drops the packet, it has counted one loss, once and with the length
that the packet had before, no other counter has changed, and neither have the headers, the metadata
or anything else of the packet but its log; if it does not, no counter has changed but those of
limiting and debugging. It makes no difference that packets are changed where they are. -/
theorem action_accounts {x : Listed Action} (hown : x.action.IsOwn)
    (hmirror : ∀ port actions fields, x.action ≠ .mirror port actions fields)
    (pipeline : ActionList → Bounded Verdict) :
    actWith pipeline x r = some (r.performInPlace x.action) ∧
      r.Accounted (r.performInPlace x.action) := by
  refine ⟨?_, accounted_performInPlace hall hown hmirror⟩
  rw [performInPlace_eq, actWith_eq pipeline hmirror]

end AllCounters

/-- A payload cannot be added: the packet is dropped, and its three bytes are counted. -/
theorem action_accounts_payload : ∃ p r, Packet.parse .payload [1, 2, 3] = .ok p ∧
    r = Run.mk (.fresh "main" 0) p (.ofIds CounterId.all) ∧
    (r.performInPlace (.encap .payload)).1.state = .drop ∧
    ∃ e : CounterEvent, e.IsLoss ∧
      r.counters.CountedOnce (r.performInPlace (.encap .payload)).2.counters e 3 := by
  refine ⟨_, _, rfl, rfl, rfl, ?_⟩
  refine ((action_accounts ?_ (x := ⟨.encap .payload, false, 0, 0⟩) trivial nofun
    fun _ => failure).2.dropped rfl).1
  rintro ⟨e, u⟩
  cases e <;> cases u <;> rfl

end Run

end Dataplane

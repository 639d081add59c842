import Dataplane.Context.Traffic
import Dataplane.Proofs.Context.Aiming
import Dataplane.Proofs.Context.Nesting

/-!
# Uses of objects

A packet reaches an object in three ways: it is written to a port, a transmit action makes a port its
output port, and a lookup goes on with the actions of a table. Ports are found by NID or by the
reference of an action, and neither says whether the port was cleaned up since; so each way has its
own check. Here all of them are watched together.

## The model

A *watched* computation does what the plain one does and notes down every `Use`: the object, the
registry at that moment, and what was done. Every write is noted, whatever it is that is written to,
and so is what every transmit action and every lookup decides. What was noted stays so when there is
no result because mirror actions nest too deep. Watched computations give what the plain ones give
(`watching`), and every use is a proper one (`properly`): what is written to is a port that was not
cleaned up, and a transmit action or a lookup whose object was cleaned up drops the packet.
-/

namespace Dataplane

/-- The body of the object with a serial number, if it was not cleaned up. -/
def Registry.liveBody? {β : Type} (r : Registry β) (i : Nat) : Option β :=
  (r.get? i).bind fun o => if o.cleaned then none else some o.body

/-- What is done with an object. -/
inductive Deed where
  /-- A packet is written to it. -/
  | write (pkt : Packet)
  /-- A transmit action that names it decides something. -/
  | transmit (out : Outcome (Listed Action))
  /-- A lookup that names it decides something. -/
  | lookup (out : Outcome (Listed Action))

/-- Something done with an object, and the registry when it was done. -/
structure Use where
  registry : Registry Object
  serial : Nat
  deed : Deed

/-- Is a packet written only to a port that was not cleaned up, and did transmit actions and lookups
use only what was not cleaned up, and drop the packet otherwise? -/
def Use.Proper (u : Use) : Prop :=
  match u.deed with
  | .write _ => ∃ p lent, u.registry.liveBody? u.serial = some (.port p lent)
  | .transmit out =>
    (∃ p lent, ∃ immediate : Bool, u.registry.liveBody? u.serial = some (.port p lent) ∧
      out = .of (if immediate then .output else .proceed)) ∨
    u.registry.WasCleaned u.serial ∧ out = .of .drop
  | .lookup out =>
    (∃ t lent, u.registry.liveBody? u.serial = some (.table t lent) ∧ out = .andThen t.lookup) ∨
    u.registry.WasCleaned u.serial ∧ out = .of .drop

/-- A computation that notes down uses, also if it has no result. -/
abbrev Noting := OptionT (StateM (List Use))

/-- Notes a use down. -/
def note (u : Use) : Noting Unit := fun uses => (some .unit, uses ++ [u])

/-- Notes a use down, if there is one. -/
def note? : Option Use → Noting Unit
  | some u => note u
  | none => pure ()

/-! ### Watched computations -/

namespace Context

/-- Writes a packet to a port, watched. -/
def watchedWrite (c : Context) (serial : Nat) (pkt : Packet) : Noting (Disposition × Context) := do
  note ⟨c.registry, serial, .write pkt⟩
  return c.write serial pkt

/-- Sends a packet to its output port, watched. -/
def watchedDispatch (c : Context) (pkt : Packet) : Noting (Disposition × Context) :=
  match c.resolvePort pkt.outputPort with
  | some port => c.watchedWrite port.serial pkt
  | none => return if c.hasSink then (.consume, { c with sunk := c.sunk ++ [pkt] }) else (.drop, c)

end Context

namespace Run

/-- A computation on runs that notes down uses. -/
abbrev Watched := StateT Run Noting

/-- Delivers a replica whose pipeline ended in `state`, watched. -/
def watchedDeliver (c : Context) (port : Option Ref) (replica : Packet) (state : Disposition) :
    Noting (Delivery × Context) :=
  if !c.isOpen then return (.failed "context is gone", c)
  else match state, port with
    | .output, _ => return handedOn "output" (← c.watchedDispatch replica)
    | .proceed, some port =>
      if c.registry.isCleaned port.serial then return (.failed s!"mirror port {port.id} is gone", c)
      else do
        return handedOn "mirror" (← c.watchedWrite port.serial (replica.setOutputPort port.nid))
    | .proceed, none =>
      return (.unclaimed, c.logLine .note s!"mirror replica {replica.text} has no destination")
    | _, _ => return (.unclaimed, c)

/-- Runs a pipeline on a replica of the packet and delivers the replica, watched. -/
def watchedMirror (pipeline : ActionList → Watched Verdict) (port : Option Ref)
    (actions : ActionList) (fields : List FieldId) : Watched (Outcome (Listed Action)) := do
  let before ← get
  let len := before.packet.length
  match before.packet.replica fields with
  | .error e => set (before.afterDelivery len (.failed e.message))
  | .ok replica =>
    set { before with packet := replica }
    let verdict ← pipeline actions
    let after ← get
    let (delivery, context) ← watchedDeliver after.context port after.packet verdict.state
    set (Run.afterDelivery ⟨context, before.packet, after.counters⟩ len delivery)
  return .of .proceed

/-- What an action decides about the object that it names, if it is a transmit action or a lookup. -/
def useOf? (r : Registry Object) (a : Action) (out : Outcome (Listed Action)) : Option Use :=
  match a with
  | .transmit port _ => some ⟨r, port.serial, .transmit out⟩
  | .lookup table => some ⟨r, table.serial, .lookup out⟩
  | _ => none

/-- What an action does, a mirror action apart, watched. -/
def watchedPerform (a : Action) : Watched (Outcome (Listed Action)) := do
  let before ← get
  let out ← modifyGet (·.perform a)
  note? (useOf? before.context.registry a out)
  return out

/-- What an action of a list does, where `pipeline` runs the pipelines of replicas, watched. -/
def watchedAct (pipeline : ActionList → Watched Verdict) (a : Listed Action) :
    Watched (Outcome (Listed Action)) :=
  match a.action with
  | .mirror port actions fields => watchedMirror pipeline port actions fields
  | action => watchedPerform action

/-- Runs the pipeline of a replica, watched. -/
def watchedReplica : (depth : Nat) → ActionList → Watched Verdict
  | 0, _ => failure
  | depth + 1, actions => pipelineWith (watchedAct (watchedReplica depth)) actions

/-- Runs a pipeline of actions, where mirror actions nest at most `depth` deep, watched. -/
def watchedPipeline (depth : Nat) (actions : ActionList) : Watched Verdict :=
  pipelineWith (watchedAct (watchedReplica depth)) actions

end Run

namespace Context

/-- Sends out the packet of a run, watched. -/
def watchedSendOut (r : Run) : Noting (Disposition × Run) := do
  let (state, context) ← r.context.watchedDispatch r.packet
  let event : CounterEvent := if state = Disposition.drop then .txError else .tx
  return (state, { r with context }.count event)

/-- Lets a packet cross an object, watched. -/
def watchedReceive (depth : Nat) (c : Context) (ref : Ref) (dir : Direction) (pkt : Packet) :
    Noting (Disposition × Context) :=
  match c.body? ref.serial >>= Object.port? with
  | none => return (.drop, c)
  | some port => do
    let (packet, counters) := arrive ref.nid dir pkt port.counters
    let (verdict, r) ← Run.watchedPipeline depth (port.actions dir) ⟨c, packet, counters⟩
    let (state, r) ← if verdict.state = .output then watchedSendOut r else pure (verdict.state, r)
    return (state, r.context.setPortCounters ref.serial r.counters)

end Context

/-! ### Watching changes nothing -/

section Noting

variable {β γ : Type} {x : Noting β} {f : β → Noting γ} {uses uses' : List Use} {b : β}

theorem noting_bind_some (h : x uses = (some b, uses')) : (x >>= f) uses = f b uses' := by
  simp only [bind, OptionT.bind, OptionT.mk, StateT.bind, h]

theorem noting_bind_none (h : x uses = (none, uses')) : (x >>= f) uses = (none, uses') := by
  simp only [bind, OptionT.bind, OptionT.mk, StateT.bind, h]
  rfl

/-- A computation that notes down uses gives a result, or none, whatever was noted before. -/
def Gives (x : Noting β) (y : Option β) : Prop := ∀ uses, (x uses).1 = y

theorem Gives.bind {y : Option β} {g : β → Option γ} (hx : Gives x y)
    (hf : ∀ b, Gives (f b) (g b)) : Gives (x >>= f) (y.bind g) := by
  intro uses
  rw [← hx uses]
  rcases hstep : x uses with ⟨_ | b, uses'⟩
  · rw [noting_bind_none hstep]
    rfl
  · rw [noting_bind_some hstep]
    exact hf b uses'

/-- The result is known before going on. -/
theorem Gives.bind_some {y : Option γ} (hx : Gives x (some b)) (hf : Gives (f b) y) :
    Gives (x >>= f) y := by
  intro uses
  have hstep : x uses = (some b, (x uses).2) := Prod.ext (hx uses) rfl
  rw [noting_bind_some hstep]
  exact hf _

theorem gives_pure (b : β) : Gives (pure b) (some b) := fun _ => rfl

theorem gives_note (u : Use) : Gives (note u) (some .unit) := fun _ => rfl

end Noting

namespace Context

theorem gives_watchedWrite (c : Context) (serial : Nat) (pkt : Packet) :
    Gives (c.watchedWrite serial pkt) (some (c.write serial pkt)) :=
  (gives_note _).bind_some (gives_pure _)

theorem gives_watchedDispatch (c : Context) (pkt : Packet) :
    Gives (c.watchedDispatch pkt) (some (c.dispatch pkt)) := by
  rw [watchedDispatch, dispatch]
  cases c.resolvePort pkt.outputPort with
  | some port => exact gives_watchedWrite c port.serial pkt
  | none => exact gives_pure _

end Context

namespace Run

open Context

theorem gives_watchedDeliver (c : Context) (port : Option Ref) (replica : Packet)
    (state : Disposition) :
    Gives (watchedDeliver c port replica state) (some (deliver c port replica state)) := by
  unfold watchedDeliver deliver
  split_ifs
  · exact gives_pure _
  cases state with
  | output => exact (gives_watchedDispatch c replica).bind_some (gives_pure _)
  | proceed =>
    cases port with
    | none => exact gives_pure _
    | some port =>
      simp only
      split_ifs
      · exact gives_pure _
      · exact (gives_watchedWrite c _ _).bind_some (gives_pure _)
  | _ => exact gives_pure _

/-- The watched computation, the notes apart, does what the plain one does. -/
def watching : RunRel Watched Bounded where
  rel x y := ∀ r, Gives (x r) (y r)
  rel_pure _ _ := gives_pure _
  rel_bind hx hf r := (hx r).bind fun v => hf v.1 v.2
  rel_get _ := gives_pure _
  rel_set _ _ := gives_pure _
  rel_modifyGet _ _ := gives_pure _

/-- Something is noted down while a run waits. -/
theorem watching_lift_bind {β γ : Type} {x : Noting β} {b : β} {f : β → Watched γ}
    {y : Bounded γ} (hx : Gives x (some b)) (hf : watching.rel (f b) y) :
    watching.rel ((x : Watched β) >>= f) y := by
  intro r
  have hlift : Gives ((x : Watched β) r) (some (b, r)) := hx.bind_some (gives_pure _)
  exact hlift.bind_some (hf r)

theorem gives_note? (u : Option Use) : Gives (note? u) (some .unit) := by
  cases u with
  | none => exact gives_pure _
  | some u => exact gives_note u

theorem watchedPerform_watching (a : Action) :
    watching.rel (watchedPerform a) (modifyGet (·.perform a)) := by
  intro r
  have hnoted : watching.rel
      ((note? (useOf? r.context.registry a (r.perform a).1) : Watched Unit) >>= fun _ =>
        pure (r.perform a).1) (pure (r.perform a).1) :=
    watching_lift_bind (gives_note? _) (watching.rel_pure _)
  exact hnoted (r.perform a).2

theorem watchedAct_watching {p : ActionList → Watched Verdict} {p' : ActionList → Bounded Verdict}
    (hp : ∀ actions, watching.rel (p actions) (p' actions)) (a : Listed Action) :
    watching.rel (watchedAct p a) (actWith p' a) := by
  unfold watchedAct actWith
  cases a.action with
  | mirror port actions fields =>
    refine watching.rel_bind watching.rel_get fun before => ?_
    cases before.packet.replica fields with
    | error e => exact watching.rel_bind (watching.rel_set _) fun _ => watching.rel_pure _
    | ok replica =>
      refine watching.rel_bind (watching.rel_set _) fun _ => ?_
      refine watching.rel_bind (hp actions) fun verdict => ?_
      refine watching.rel_bind watching.rel_get fun after => ?_
      refine watching_lift_bind (gives_watchedDeliver after.context port after.packet _) ?_
      exact watching.rel_bind (watching.rel_set _) fun _ => watching.rel_pure _
  | _ => exact watchedPerform_watching _

theorem watchedReplica_watching (depth : Nat) (actions : ActionList) :
    watching.rel (watchedReplica depth actions) (replica depth actions) := by
  induction depth generalizing actions with
  | zero => exact fun _ _ => rfl
  | succ depth ih =>
    change watching.rel _ (pipeline depth actions)
    rw [pipeline_eq]
    exact pipelineWith_rel watching (watchedAct_watching ih) actions

/-- A watched pipeline gives what the plain one gives. -/
theorem gives_watchedPipeline (depth : Nat) (actions : ActionList) (r : Run) :
    Gives (watchedPipeline depth actions r) (pipeline depth actions r) :=
  watchedReplica_watching (depth + 1) actions r

end Run

namespace Context

theorem gives_watchedSendOut (r : Run) : Gives (watchedSendOut r) (some (sendOut r)) :=
  (gives_watchedDispatch r.context r.packet).bind_some (gives_pure _)

/-- A watched packet that crosses an object has the effect it has anyway. -/
theorem gives_watchedReceive (depth : Nat) (c : Context) (ref : Ref) (dir : Direction)
    (pkt : Packet) :
    Gives (c.watchedReceive depth ref dir pkt) (c.receive depth ref dir pkt) := by
  rw [watchedReceive, receive]
  cases c.body? ref.serial >>= Object.port? with
  | none => exact gives_pure _
  | some port =>
    refine (Run.gives_watchedPipeline depth _ _).bind fun v => ?_
    obtain ⟨verdict, r⟩ := v
    by_cases hout : verdict.state = .output
    · simp only [if_pos hout]
      exact (gives_watchedSendOut r).bind_some (gives_pure _)
    · simp only [if_neg hout]
      exact gives_pure _

end Context

/-! ### What is used -/

section Live

variable {r : Registry Object} {i : Nat} {k : ObjectKind}

theorem Object.eq_port {b : Object} (h : Composite.kind b = .port) : ∃ p lent, b = .port p lent := by
  cases b with
  | port p lent => exact ⟨p, lent, rfl⟩
  | _ => cases h

theorem Object.eq_table {b : Object} (h : Composite.kind b = .table) :
    ∃ t lent, b = .table t lent := by
  cases b with
  | table t lent => exact ⟨t, lent, rfl⟩
  | _ => cases h

theorem Registry.liveBody?_of_kindOf? (hk : r.kindOf? i = some k) (hc : r.isCleaned i = false) :
    ∃ b, r.liveBody? i = some b ∧ Composite.kind b = k := by
  obtain ⟨o, ho, rfl⟩ := Option.map_eq_some_iff.1 hk
  simp only [isCleaned, ho] at hc
  exact ⟨o.body, by simp [liveBody?, ho, hc], rfl⟩

theorem Registry.wasCleaned_of_kindOf? (hk : r.kindOf? i = some k) (hc : r.isCleaned i = true) :
    r.WasCleaned i := by
  obtain ⟨o, ho, -⟩ := Option.map_eq_some_iff.1 hk
  simp only [isCleaned, ho] at hc
  exact ⟨o, ho, hc⟩

theorem Registry.get?_of_liveBody? {b : Object} (h : r.liveBody? i = some b) :
    ∃ o, r.get? i = some o ∧ o.cleaned = false ∧ o.body = b := by
  obtain ⟨o, ho, hbody⟩ := Option.bind_eq_some_iff.1 h
  split_ifs at hbody with hc
  cases hbody
  exact ⟨o, ho, by simpa using hc, rfl⟩

/-- What is resolved is a port that was not cleaned up, whoever had its NID before. -/
theorem Context.liveBody?_of_resolvePort {c : Context} {nid : Nat} {ref : Ref}
    (h : c.resolvePort nid = some ref) :
    ∃ p lent, c.registry.liveBody? ref.serial = some (.port p lent) := by
  unfold resolvePort at h
  split_ifs at h
  split at h
  · rename_i ref' hfind
    split_ifs at h with huse
    cases h
    obtain ⟨i, -, href⟩ := Registry.findNid_eq_ok_iff.1 hfind
    obtain ⟨o, ho, rfl⟩ := Registry.ref?_eq_some_iff.1 href
    obtain ⟨b, hb, hk⟩ := Registry.liveBody?_of_kindOf? (Registry.kindOf?_of_get? ho)
      (by simpa using huse.2)
    obtain ⟨p, lent, rfl⟩ := Object.eq_port (hk.trans huse.1)
    exact ⟨p, lent, hb⟩
  · cases h

end Live

namespace Run

open Context

variable {r : Run} {a : Action} {u : Use}

/-- A transmit action whose port was cleaned up drops the packet. -/
theorem transmit_proper {port : Ref} (h : r.context.registry.kindOf? port.serial = some .port)
    (immediate : Bool) :
    Use.Proper ⟨r.context.registry, port.serial, .transmit (r.transmit port immediate).1⟩ := by
  cases hc : r.context.registry.isCleaned port.serial with
  | true => exact .inr ⟨Registry.wasCleaned_of_kindOf? h hc, by simp [transmit, isUsable, hc, fail]⟩
  | false =>
    obtain ⟨b, hb, hk⟩ := Registry.liveBody?_of_kindOf? h hc
    obtain ⟨p, lent, rfl⟩ := Object.eq_port hk
    exact .inl ⟨p, lent, immediate, hb, by simp [transmit, isUsable, hc]⟩

/-- A lookup whose table was cleaned up drops the packet. -/
theorem lookup_proper {table : Ref} (h : r.context.registry.kindOf? table.serial = some .table) :
    Use.Proper ⟨r.context.registry, table.serial, .lookup (r.lookup table).1⟩ := by
  cases hc : r.context.registry.isCleaned table.serial with
  | true => exact .inr ⟨Registry.wasCleaned_of_kindOf? h hc, by simp [lookup, isUsable, hc, fail]⟩
  | false =>
    obtain ⟨b, hb, hk⟩ := Registry.liveBody?_of_kindOf? h hc
    obtain ⟨t, lent, rfl⟩ := Object.eq_table hk
    obtain ⟨o, ho, -, hbody⟩ := Registry.get?_of_liveBody? hb
    have htable : (r.context.body? table.serial >>= Object.table?) = some t := by
      simp [body?, ho, hbody, Object.table?]
    exact .inl ⟨t, lent, hb, by simp only [lookup, isUsable, hc, htable, Bool.not_false]⟩

theorem useOf?_proper (ha : a.Aimed r.context.registry.kindOf?)
    (hu : useOf? r.context.registry a (r.perform a).1 = some u) :
    u.Proper ∧ u.registry = r.context.registry := by
  cases a with
  | transmit port immediate =>
    cases hu
    exact ⟨transmit_proper (Action.aimed_transmit.1 ha) immediate, rfl⟩
  | lookup table =>
    cases hu
    exact ⟨lookup_proper (Action.aimed_lookup.1 ha), rfl⟩
  | _ => cases hu

/-- What an aimed action may go on with is aimed. -/
theorem continuations_aimed {c : Context} (hc : c.registry.WellAimed)
    (ha : a.Aimed c.registry.kindOf?) {next : ActionList} (hnext : next ∈ c.continuations a) :
    next.Aimed c.registry.kindOf? := by
  cases a with
  | lookup table =>
    obtain ⟨t, ht, rfl⟩ := Option.map_eq_some_iff.1 (Option.mem_toList.1 hnext)
    obtain ⟨o, lent, ho, hbody⟩ := get?_of_table ht
    refine fun b hb => hc table.serial o ho b ?_
    rw [hbody]
    exact Table.mem_of_mem_lookup hb
  | select fields algo lists => exact Action.aimed_select.1 ha next hnext
  | jump next' state =>
    obtain rfl := List.mem_singleton.1 hnext
    exact Action.aimed_jump.1 ha
  | _ => cases hnext

end Run

/-! ### Proper uses -/

/-- A use that is proper and comes after a registry, with no object registered in between. -/
structure Use.ProperAfter (start : Registry Object) (u : Use) : Prop where
  proper : u.Proper
  steady : start.Steady u.registry

/-- All that is noted down are proper uses. -/
def noting (start : Registry Object) : MonadPred Noting where
  holds P x := ∀ uses, (∀ u ∈ uses, u.ProperAfter start) →
    (∀ u ∈ (x uses).2, u.ProperAfter start) ∧ ∀ b, (x uses).1 = some b → P b
  holds_pure {_ P b} hb uses huses := ⟨huses, fun b' hb' => Option.some.inj hb' ▸ hb⟩
  holds_bind {_ _ P Q x f} hx hf uses huses := by
    obtain ⟨huses', hresult⟩ := hx uses huses
    rcases hstep : x uses with ⟨_ | b, uses'⟩
    · rw [noting_bind_none hstep]
      rw [hstep] at huses'
      exact ⟨huses', fun b hb => nomatch hb⟩
    · rw [noting_bind_some hstep]
      rw [hstep] at huses' hresult
      exact hf b (hresult b rfl) uses' huses'

theorem noting_mono {start : Registry Object} {β : Type} {P Q : β → Prop} {x : Noting β}
    (hx : (noting start).holds P x) (h : ∀ b, P b → Q b) : (noting start).holds Q x := by
  intro uses huses
  obtain ⟨huses', hresult⟩ := hx uses huses
  exact ⟨huses', fun b hb => h b (hresult b hb)⟩

/-- All that is noted down are proper uses, and the registry stays steady. -/
def properly (start : Registry Object) : MonadPred Run.Watched where
  holds {β} P x := ∀ r : Run, start.Steady r.context.registry →
    (noting start).holds (fun v : β × Run => P v.1 ∧ start.Steady v.2.context.registry) (x r)
  holds_pure hb _ hr := (noting start).holds_pure ⟨hb, hr⟩
  holds_bind hx hf r hr := (noting start).holds_bind (hx r hr) fun v hv => hf v.1 hv.1 v.2 hv.2

section Proper

variable {start : Registry Object}

theorem note_holds {u : Use} (hu : u.ProperAfter start) :
    (noting start).holds (fun _ => True) (note u) := by
  intro uses huses
  refine ⟨fun u' hu' => ?_, fun _ _ => trivial⟩
  rcases List.mem_append.1 hu' with hu' | hu'
  · exact huses u' hu'
  · obtain rfl := List.mem_singleton.1 hu'
    exact hu

theorem note?_holds {u : Option Use} (hu : ∀ u', u = some u' → u'.ProperAfter start) :
    (noting start).holds (fun _ => True) (note? u) := by
  cases u with
  | none => exact (noting start).holds_pure trivial
  | some u => exact note_holds (hu u rfl)

namespace Context

theorem watchedWrite_holds {c : Context} {serial : Nat} (hc : start.Steady c.registry)
    (hport : ∃ p lent, c.registry.liveBody? serial = some (.port p lent)) (pkt : Packet) :
    (noting start).holds (fun v => start.Steady v.2.registry) (c.watchedWrite serial pkt) :=
  (noting start).holds_bind (note_holds ⟨hport, hc⟩) fun _ _ =>
    (noting start).holds_pure (hc.trans (keptByActions_steady.write c serial pkt))

theorem watchedDispatch_holds {c : Context} (hc : start.Steady c.registry) (pkt : Packet) :
    (noting start).holds (fun v => start.Steady v.2.registry) (c.watchedDispatch pkt) := by
  rw [watchedDispatch]
  cases hport : c.resolvePort pkt.outputPort with
  | some port => exact watchedWrite_holds hc (liveBody?_of_resolvePort hport) pkt
  | none =>
    refine (noting start).holds_pure ?_
    split_ifs <;> exact hc

end Context

namespace Run

open Context

theorem watchedDeliver_holds {c : Context} (hc : start.Steady c.registry) {port : Option Ref}
    (hport : ∀ p ∈ port, start.kindOf? p.serial = some .port) (replica : Packet)
    (state : Disposition) :
    (noting start).holds (fun v => start.Steady v.2.registry)
      (watchedDeliver c port replica state) := by
  unfold watchedDeliver
  split_ifs
  · exact (noting start).holds_pure hc
  cases state with
  | output =>
    exact (noting start).holds_bind (watchedDispatch_holds hc replica) fun v hv =>
      (noting start).holds_pure hv
  | proceed =>
    cases port with
    | none => exact (noting start).holds_pure hc
    | some port =>
      simp only
      split_ifs with hcleaned
      · exact (noting start).holds_pure hc
      · have hkind := hport port rfl
        rw [← hc.kinds_eq] at hkind
        obtain ⟨b, hb, hk⟩ := Registry.liveBody?_of_kindOf? hkind (by simpa using hcleaned)
        obtain ⟨p, lent, rfl⟩ := Object.eq_port hk
        exact (noting start).holds_bind (watchedWrite_holds hc ⟨p, lent, hb⟩ _) fun v hv =>
          (noting start).holds_pure hv
  | _ => exact (noting start).holds_pure hc

/-- Something is noted down while a run waits. -/
theorem lift_bind_holds {β γ : Type} {P : β → Prop} {Q : γ → Prop} {x : Noting β}
    {f : β → Watched γ} (hx : (noting start).holds P x)
    (hf : ∀ b, P b → (properly start).holds Q (f b)) :
    (properly start).holds Q ((x : Watched β) >>= f) := by
  intro r hr
  have hlift : (noting start).holds (fun v : β × Run => P v.1 ∧ v.2 = r) ((x : Watched β) r) :=
    (noting start).holds_bind hx fun b hb => (noting start).holds_pure ⟨hb, rfl⟩
  refine (noting start).holds_bind hlift ?_
  rintro ⟨b, r'⟩ ⟨hb, rfl⟩
  exact hf b hb r' hr

theorem get_holds :
    (properly start).holds (fun r => start.Steady r.context.registry) (get : Watched Run) :=
  fun _ hr => (noting start).holds_pure ⟨hr, hr⟩

theorem set_holds {r : Run} (hr : start.Steady r.context.registry) :
    (properly start).holds (fun _ => True) (set r : Watched PUnit) :=
  fun _ _ => (noting start).holds_pure ⟨trivial, hr⟩

theorem watchedPerform_holds (hstart : start.WellAimed) {a : Action}
    (ha : a.Aimed start.kindOf?) :
    (properly start).holds (fun out => ActionList.Aimed start.kindOf? out.next)
      (watchedPerform a) := by
  intro r hr
  have hperform := hr.trans (keptByActions_steady.perform r a)
  have hnext : ActionList.Aimed start.kindOf? (r.perform a).1.next := by
    intro b hb
    obtain ⟨next, hnext, hb⟩ := mem_next_perform hb
    rw [← hr.kinds_eq] at ha ⊢
    exact continuations_aimed (hr.aimed hstart) ha hnext b hb
  have hnoted : (properly start).holds (fun out => ActionList.Aimed start.kindOf? out.next)
      ((note? (useOf? r.context.registry a (r.perform a).1) : Watched Unit) >>= fun _ =>
        pure (r.perform a).1) := by
    refine lift_bind_holds (note?_holds fun u hu => ?_) fun _ _ => (properly start).holds_pure hnext
    rw [← hr.kinds_eq] at ha
    obtain ⟨hproper, hregistry⟩ := useOf?_proper ha hu
    exact ⟨hproper, hregistry ▸ hr⟩
  exact hnoted _ hperform

/-- An action uses properly what it uses, if the pipelines of replicas do. -/
theorem watchedAct_holds (hstart : start.WellAimed) {p : ActionList → Watched Verdict}
    (hp : ∀ l : ActionList, l.Aimed start.kindOf? → (properly start).holds (fun _ => True) (p l))
    {a : Listed Action} (ha : a.action.Aimed start.kindOf?) :
    (properly start).holds (fun out => ∀ b ∈ out.next, b.action.Aimed start.kindOf?)
      (watchedAct p a) := by
  have hproceed : (properly start).holds
      (fun out => ∀ b ∈ out.next, b.action.Aimed start.kindOf?)
      (pure (.of .proceed) : Watched (Outcome (Listed Action))) :=
    (properly start).holds_pure nofun
  unfold watchedAct
  cases haction : a.action with
  | mirror port actions fields =>
    rw [haction] at ha
    obtain ⟨hport, hactions⟩ := Action.aimed_mirror.1 ha
    refine (properly start).holds_bind get_holds fun before hbefore => ?_
    cases before.packet.replica fields with
    | error e =>
      refine (properly start).holds_bind (set_holds ?_) fun _ _ => hproceed
      simpa using hbefore
    | ok replica =>
      refine (properly start).holds_bind (set_holds hbefore) fun _ _ => ?_
      refine (properly start).holds_bind (hp actions hactions) fun verdict _ => ?_
      refine (properly start).holds_bind get_holds fun after hafter => ?_
      refine lift_bind_holds (watchedDeliver_holds hafter hport after.packet verdict.state) ?_
      intro v hv
      refine (properly start).holds_bind (set_holds ?_) fun _ _ => hproceed
      simpa using hv
  | _ =>
    rw [haction] at ha
    exact watchedPerform_holds hstart ha

theorem pipelineWith_holds {act : Listed Action → Watched (Outcome (Listed Action))}
    (hact : ∀ a : Listed Action, a.action.Aimed start.kindOf? →
      (properly start).holds (fun out => ∀ b ∈ out.next, b.action.Aimed start.kindOf?) (act a))
    {actions : ActionList} (hactions : actions.Aimed start.kindOf?) :
    (properly start).holds (fun _ => True) (pipelineWith act actions) := by
  refine (properly start).holds_bind (Pipeline.evaluate_holds _ hact hactions) fun verdict _ => ?_
  split_ifs
  · exact (properly start).holds_bind (P := fun _ => True)
      (fun r hr => (noting start).holds_pure ⟨trivial, hr⟩) fun _ _ =>
      (properly start).holds_pure trivial
  · exact (properly start).holds_pure trivial

theorem watchedReplica_holds (hstart : start.WellAimed) (depth : Nat) {actions : ActionList}
    (hactions : actions.Aimed start.kindOf?) :
    (properly start).holds (fun _ => True) (watchedReplica depth actions) := by
  induction depth generalizing actions with
  | zero =>
    intro r _ uses huses
    exact ⟨huses, fun b hb => by cases hb⟩
  | succ depth ih =>
    rw [watchedReplica]
    exact pipelineWith_holds (fun a ha => watchedAct_holds hstart (fun l hl => ih hl) ha) hactions

/-- A pipeline of aimed actions uses properly what it uses. -/
theorem watchedPipeline_holds (hstart : start.WellAimed) (depth : Nat) {actions : ActionList}
    (hactions : actions.Aimed start.kindOf?) :
    (properly start).holds (fun _ => True) (watchedPipeline depth actions) :=
  watchedReplica_holds hstart (depth + 1) hactions

end Run

namespace Context

theorem watchedSendOut_holds {r : Run} (hr : start.Steady r.context.registry) :
    (noting start).holds (fun v => start.Steady v.2.context.registry) (watchedSendOut r) :=
  (noting start).holds_bind (watchedDispatch_holds hr r.packet) fun _ hv =>
    (noting start).holds_pure hv

/-- A packet that crosses an object uses properly what it uses. -/
theorem watchedReceive_holds (hstart : start.WellAimed) {c : Context}
    (hc : start.Steady c.registry) (depth : Nat) (ref : Ref) (dir : Direction) (pkt : Packet) :
    (noting start).holds (fun v => start.Steady v.2.registry)
      (c.watchedReceive depth ref dir pkt) := by
  rw [watchedReceive]
  cases hport : c.body? ref.serial >>= Object.port? with
  | none => exact (noting start).holds_pure hc
  | some port =>
    have hactions : (port.actions dir).Aimed start.kindOf? := by
      obtain ⟨b, hb, hp⟩ := Option.bind_eq_some_iff.1 hport
      obtain ⟨o, ho, rfl⟩ := Option.map_eq_some_iff.1 hb
      have haimed := hc.aimed hstart ref.serial o ho
      cases hbody : o.body with
      | port p lent =>
        rw [hbody] at hp haimed
        cases hp
        rw [← hc.kinds_eq]
        cases dir with
        | ingress => exact fun a ha => haimed a (List.mem_append_left _ ha)
        | egress => exact fun a ha => haimed a (List.mem_append_right _ ha)
      | _ =>
        rw [hbody] at hp
        cases hp
    refine (noting start).holds_bind (Run.watchedPipeline_holds hstart depth hactions _ hc) ?_
    rintro ⟨verdict, r⟩ ⟨-, hr⟩
    have hdone (state : Disposition) {r : Run} (hr : start.Steady r.context.registry) :
        (noting start).holds (fun v => start.Steady v.2.registry)
          (pure (state, r.context.setPortCounters ref.serial r.counters) : Noting _) :=
      (noting start).holds_pure (hr.trans (keptByActions_steady.modifyPort _ _ fun _ => ⟨rfl, rfl⟩))
    simp only
    split_ifs with hout
    · exact (noting start).holds_bind (watchedSendOut_holds hr) fun v hv => hdone v.1 hv
    · exact hdone verdict.state hr

end Context

end Proper

end Dataplane

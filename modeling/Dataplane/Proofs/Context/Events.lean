import Dataplane.Proofs.Context.Uses

/-!
# Objects that are gone

Objects are registered, configured, taken out and forced out, and in between packets are sent. A
reference in an action, the NID in a packet and the reference of a port outlive the object they are
of, and NIDs are handed out again. Still no packet is ever written to an object that was cleaned up
or is no port, and no lookup goes on with what a table held that was cleaned up.

## The model

An `Event` is a call, something done to objects besides, a change of the services of the context, or
traffic: a pipeline on a packet, a packet that crosses an object, or a packet that is sent to its
output port. Nobody has to hold what is released, objects that were cleaned up may still be
configured, and there may be traffic in the middle of a cascade. Traffic that has no result because
mirror actions nest too deep leaves the context as it was, but what it used until then counts.

That an object was cleaned up is read off its flag, which is set as often as the cleanup is run
(`Course.count_add`).
-/

namespace Dataplane

open Registry

/-- A port after a change that leaves it its actions. -/
def Port.driven (f : Port → Port) (p : Port) : Port := { f p with rx := p.rx, tx := p.tx }

/-- Something that happens to a context and to what is held outside. -/
inductive Event where
  | call (call : Call)
  /-- Takes an object out, or forces it out. -/
  | remove (id : String) (force : Bool)
  /-- Forces out every object, those selected first. -/
  | cleanup (select : Registered Object → Bool)
  /-- Takes a reference. -/
  | acquire (id : String)
  /-- Releases a reference. -/
  | release (object : Nat)
  /-- Begins to hold an object. -/
  | hold (object : Nat)
  /-- Lets an object go that was held. -/
  | letGo (object : Nat)
  /-- Runs one task of a cascade of releases, so that other events can come in the middle of it. -/
  | task (t : Task)
  | addEntry (table : Nat) (entry : String) (config : EntryConfig)
  | removeEntry (table : Nat) (entry : String)
  | clearTable (table : Nat)
  | updatePort (port : Nat) (config : PortConfig)
  /-- Changes a port, its actions apart. -/
  | drive (port : Nat) (f : Port → Port)
  /-- Replaces all of the context but its objects. -/
  | equip (services : Context)
  /-- Runs a list of actions on a packet, which may be one of a table or a port. -/
  | evaluate (depth : Nat) (source : Source) (pkt : Packet) (counters : Counters)
  /-- Lets a packet cross an object. -/
  | receive (depth : Nat) (object : Nat) (dir : Direction) (pkt : Packet)
  /-- Sends a packet to its output port. -/
  | dispatch (pkt : Packet)

namespace Caller

/-- The caller with its context replaced. -/
def withContext (s : Caller) (c : Context) : Caller := { s with context := c }

/-- The caller with the registry replaced, unless something failed. -/
def withResult {α : Type} (s : Caller) (result : Except RegistryError (α × Registry Object)) :
    Caller :=
  match result with
  | .ok (_, r) => s.withContext (s.context.withRegistry r)
  | .error _ => s

/-- The caller after some traffic, and what it used. -/
def watch {α : Type} (s : Caller) (x : Noting α) (context : α → Context) : Caller × List Use :=
  let (result, uses) := x []
  (s.withContext ((result.map context).getD s.context), uses)

/-- The caller after an event, and what was used. -/
def meet (s : Caller) : Event → Caller × List Use
  | .call call => ((s.perform call).2, [])
  | .remove id force => (s.withResult (s.context.registry.remove id force), [])
  | .cleanup select => (s.withContext (s.context.cleanup select).2, [])
  | .acquire id => (s.withResult (s.context.registry.acquire id), [])
  | .release object => (s.withContext (s.context.release [object]), [])
  | .hold object =>
    (s.withContext (s.context.withRegistry (s.context.registry.hold object)), [])
  | .letGo object =>
    (s.withContext (s.context.withRegistry (s.context.registry.letGo object)), [])
  | .task t => (s.withContext (s.context.withRegistry (s.context.registry.step t).1), [])
  | .addEntry table entry config =>
    ((s.attempt (Context.addEntryTo table entry config) fun _ s => s).2, [])
  | .removeEntry table entry =>
    ((s.attempt (Context.removeEntryOf table entry) fun _ s => s).2, [])
  | .clearTable table => (s.withContext (s.context.clearTable table), [])
  | .updatePort port config =>
    ((s.attempt (Context.updatePort port config) fun _ s => s).2, [])
  | .drive port f =>
    (s.withContext (s.context.modifyBody port (.modifyPort (Port.driven f))), [])
  | .equip services => (s.withContext (services.withRegistry s.context.registry), [])
  | .evaluate depth source pkt counters =>
    match s.list? source with
    | some actions =>
      s.watch (Run.watchedPipeline depth actions ⟨s.context, pkt, counters⟩) (·.2.context)
    | none => (s, [])
  | .receive depth object dir pkt =>
    match s.context.registry.ref? object with
    | some ref => s.watch (s.context.watchedReceive depth ref dir pkt) (·.2)
    | none => (s, [])
  | .dispatch pkt => s.watch (s.context.watchedDispatch pkt) (·.2)

/-- The caller after some events, the first one first. -/
def after (s : Caller) (events : List Event) : Caller :=
  events.foldl (fun s e => (s.meet e).1) s

/-- What is used in the course of some events, the first one first. -/
def uses (s : Caller) : List Event → List Use
  | [] => []
  | e :: events => (s.meet e).2 ++ (s.meet e).1.uses events

/-! ### What events keep -/

/-- All actions are aimed, those that objects hold and those that are held outside. -/
structure Aimed (s : Caller) : Prop where
  registry : s.context.registry.WellAimed
  lists : ∀ l ∈ s.lists, l.Aimed s.context.registry.kindOf?
  ports : ∀ p ∈ s.ports, (p.rx ++ p.tx).Aimed s.context.registry.kindOf?

/-- A caller whose actions are aimed and whose registry comes after that of another. -/
structure Advances (s s' : Caller) : Prop where
  registry : Succeeds s.context.registry s'.context.registry
  aimed : s'.Aimed

variable {s s' : Caller} {c : Context} {p : Port} {l : ActionList} {k : Nat}

namespace Aimed

/-- What is held outside afterwards was so before, or it is aimed. -/
theorem advance (h : s.Aimed) (hc : Succeeds s.context.registry s'.context.registry)
    (hlists : ∀ l ∈ s'.lists, l ∈ s.lists ∨ l.Aimed s.context.registry.kindOf?)
    (hports : ∀ p ∈ s'.ports, p ∈ s.ports ∨ (p.rx ++ p.tx).Aimed s.context.registry.kindOf?) :
    Advances s s' := by
  refine ⟨hc, hc.aimed h.registry, fun l hl => ActionList.Aimed.mono ?_ hc.kinds,
    fun p hp => ActionList.Aimed.mono ?_ hc.kinds⟩
  · rcases hlists l hl with hl | hl
    · exact h.lists l hl
    · exact hl
  · rcases hports p hp with hp | hp
    · exact h.ports p hp
    · exact hp

/-- Only the context changes. -/
theorem withContext (h : s.Aimed) (hc : Succeeds s.context.registry c.registry) :
    Advances s (s.withContext c) :=
  h.advance hc (fun _ hl => .inl hl) fun _ hp => .inl hp

theorem same (h : s.Aimed) : Advances s s := ⟨.refl _, h⟩

theorem withResult {α : Type} {result : Except RegistryError (α × Registry Object)}
    (h : s.Aimed) (hr : ∀ a r, result = .ok (a, r) → s.context.registry.Steady r) :
    Advances s (s.withResult result) := by
  unfold Caller.withResult
  split
  · rename_i a r
    exact h.withContext (hr a r rfl).toSucceeds
  · exact h.same

/-- Something is tried on the context. -/
theorem attempt {ε α : Type} {x : Attempt ε α} {next : α → Caller → Caller}
    {Q : α → Context → Prop} {E : Context → Prop} (h : s.Aimed)
    (hx : Attempt.Triple (fun c => s.context.registry.Steady c.registry) x Q E)
    (hnext : ∀ a c, Q a c → Advances s (next a (s.withContext c)))
    (hfail : ∀ c, E c → Succeeds s.context.registry c.registry) :
    Advances s (s.attempt x next).2 := by
  have hx := hx s.context (.refl _)
  unfold Caller.attempt
  split
  · rename_i a c hrun
    rw [hrun] at hx
    exact hnext a c hx
  · rename_i e c hrun
    rw [hrun] at hx
    exact h.withContext (hfail c hx)

/-- Something is tried that registers no object. -/
theorem attempt_steady {ε : Type} {x : Attempt ε Unit} (h : s.Aimed)
    (hx : Attempt.Triple (fun c => s.context.registry.Steady c.registry) x
      (fun _ c => s.context.registry.Steady c.registry)
      fun c => s.context.registry.Steady c.registry) :
    Advances s (s.attempt x fun _ s => s).2 :=
  h.attempt hx (fun _ _ hc => h.withContext hc.toSucceeds) fun _ hc => hc.toSucceeds

/-- An object is registered whose actions are aimed. -/
theorem registered {id : String} {body : Object} {next : Caller → Caller} (h : s.Aimed)
    (hbody : body.actions.Aimed s.context.registry.kindOf?)
    (hnext : ∀ c, (next (s.withContext c)).context = c ∧
      (next (s.withContext c)).lists = s.lists ∧
      ∀ p ∈ (next (s.withContext c)).ports, p ∈ s.ports) :
    Advances s (s.registered (s.context.addObject id body) next).2 := by
  unfold Caller.registered
  split
  · rename_i nid c hadd
    obtain ⟨hcontext, hlists, hports⟩ := hnext c
    refine h.advance ?_ (fun l hl => .inl (hlists ▸ hl)) fun p hp => .inl (hports p hp)
    rw [← hcontext] at hadd
    exact Context.succeeds_addObject hbody hadd
  · exact h.same

theorem onLive {serial : Nat} {kind : ObjectKind} {act : Bool × Caller} (h : s.Aimed)
    (hact : Advances s act.2) : Advances s (s.onLive serial kind act).2 := by
  unfold Caller.onLive
  split_ifs
  · exact hact
  · exact h.same

/-- Some actions are let go. -/
theorem letGo (h : Advances s s') (gone : List Part) : Advances s (s'.letGo gone) := by
  have hgone : Advances s' (s'.letGo gone) :=
    h.aimed.withContext (Context.steady_letGo s'.context s'.parts gone).toSucceeds
  exact ⟨h.registry.trans hgone.registry, hgone.aimed⟩

/-- Replacing actions of a port that is not registered. -/
theorem updateHeld (h : s.Aimed) (hp : s.ports[k]? = some p) (config : PortConfig) :
    Advances s (s.attempt (Build.actions config.actions) fun actions s =>
      { s with ports := s.ports.set k (p.setActions config.dir actions) }.letGo
        (Action.partsOfList (p.actions config.dir))).2 := by
  refine h.attempt (Context.actions_aimed _ config.actions) (fun actions c hc => ?_)
    fun c hc => hc.toSucceeds
  obtain ⟨hactions, hc⟩ := hc
  have hset : Advances s { s with
      context := c
      ports := s.ports.set k (p.setActions config.dir actions) } := by
    refine h.advance hc.toSucceeds (fun l hl => .inl hl) fun p' hp' => ?_
    rcases List.mem_or_eq_of_mem_set hp' with hp' | rfl
    · exact .inl hp'
    · refine .inr fun a ha => ?_
      rcases Context.mem_actions_setActions ha with ha | ha
      · exact h.ports p (List.mem_of_getElem? hp) a ha
      · exact hactions a ha
  exact letGo hset _

/-- A list that can be had is aimed. -/
theorem list? (h : s.Aimed) {source : Source} (hl : s.list? source = some l) :
    l.Aimed s.context.registry.kindOf? := by
  rcases of_list? hl with hl | ⟨l', hl', a, ha, hnext⟩ | ⟨p, hp, dir, rfl⟩ | ⟨serial, b, hb, hsub⟩
  · exact h.lists l hl
  · exact Run.continuations_aimed h.registry (h.lists l' hl' a ha) hnext
  · exact fun a ha => h.ports p hp a (Port.mem_of_mem_actions a ha)
  · obtain ⟨o, ho, rfl⟩ := Option.map_eq_some_iff.1 hb
    exact fun a ha => h.registry serial o ho a (hsub a ha)

/-- Every call keeps actions aimed. -/
theorem perform (h : s.Aimed) (call : Call) : Advances s (s.perform call).2 := by
  cases call with
  | createTable id config =>
    exact h.attempt (Context.createTable_succeeds _ id config) (fun _ _ hc => h.withContext hc)
      fun _ hc => hc
  | createCounter id ids =>
    exact h.registered ActionList.aimed_nil fun c => ⟨rfl, rfl, fun _ hp => hp⟩
  | createFlowCounter id =>
    exact h.registered ActionList.aimed_nil fun c => ⟨rfl, rfl, fun _ hp => hp⟩
  | addPort id port =>
    rw [Caller.perform]
    split
    · rename_i p hp
      exact h.registered (h.ports p (List.mem_of_getElem? hp)) fun c =>
        ⟨rfl, rfl, fun _ hp => List.mem_of_mem_eraseIdx hp⟩
    · exact h.same
  | removeObject id =>
    rw [Caller.perform]
    split
    · rename_i c hrem
      exact h.withContext (Context.steady_removeObject hrem).toSucceeds
    · exact h.same
  | addEntry table entry config =>
    exact h.onLive (h.attempt_steady (Context.addEntryTo_steady _ table entry config))
  | removeEntry table entry =>
    exact h.onLive (h.attempt_steady (Context.removeEntryOf_steady _ table entry))
  | clearTable table =>
    exact h.onLive (h.withContext (Context.steady_clearTable s.context table).toSucceeds)
  | updatePort port config =>
    exact h.onLive (h.attempt_steady (Context.updatePort_steady _ port config))
  | newPort =>
    refine h.advance (.refl _) (fun _ hl => .inl hl) fun p hp => ?_
    rcases List.mem_cons.1 hp with rfl | hp
    · exact .inr ActionList.aimed_nil
    · exact .inl hp
  | updateHeld port config =>
    rw [Caller.perform]
    split
    · rename_i p hp
      exact h.updateHeld hp config
    · exact h.same
  | dropPort port =>
    rw [Caller.perform]
    split
    · have hdropped : Advances s { s with ports := s.ports.eraseIdx port } :=
        h.advance (.refl _) (fun _ hl => .inl hl) fun _ hp => .inl (List.mem_of_mem_eraseIdx hp)
      exact letGo hdropped _
    · exact h.same
  | build configs =>
    refine h.attempt (Context.actions_aimed _ configs) (fun l c hl => ?_) fun _ hc => hc.toSucceeds
    refine h.advance hl.2.toSucceeds (fun l' hl' => ?_) fun _ hp => .inl hp
    rcases List.mem_cons.1 hl' with rfl | hl'
    · exact .inr hl.1
    · exact .inl hl'
  | take source =>
    rw [Caller.perform]
    split
    · rename_i l hl
      refine h.advance (Steady.lend _ _).toSucceeds (fun l' hl' => ?_) fun _ hp => .inl hp
      rcases List.mem_cons.1 hl' with rfl | hl'
      · exact .inr (h.list? hl)
      · exact .inl hl'
    · exact h.same
  | share picks =>
    refine h.advance (.refl _) (fun l' hl' => ?_) fun _ hp => .inl hp
    rcases List.mem_cons.1 hl' with rfl | hl'
    · refine .inr fun a ha => ?_
      obtain ⟨⟨list, place⟩, -, hpick⟩ := List.mem_filterMap.1 ha
      obtain ⟨l, hl, hplace⟩ := Option.bind_eq_some_iff.1 hpick
      exact h.lists l (List.mem_of_getElem? hl) a (List.mem_of_getElem? hplace)
    · exact .inl hl'
  | drop list =>
    rw [Caller.perform]
    split
    · have hdropped : Advances s { s with lists := s.lists.eraseIdx list } :=
        h.advance (.refl _) (fun _ hl => .inl (List.mem_of_mem_eraseIdx hl)) fun _ hp => .inl hp
      exact letGo hdropped _
    · exact h.same

/-- Traffic keeps actions aimed and uses properly what it uses. -/
theorem watch {α : Type} {x : Noting α} {context : α → Context} (h : s.Aimed)
    (hx : (noting s.context.registry).holds
      (fun a => s.context.registry.Steady (context a).registry) x) :
    Advances s (s.watch x context).1 ∧
      ∀ u ∈ (s.watch x context).2, u.ProperAfter s.context.registry := by
  obtain ⟨huses, hresult⟩ := hx [] (by simp)
  refine ⟨h.withContext ?_, huses⟩
  cases ha : (x []).1 with
  | none => exact .refl _
  | some a => exact (hresult a ha).toSucceeds

/-- Every event keeps actions aimed and uses properly what it uses. -/
theorem meet (h : s.Aimed) (e : Event) :
    Advances s (s.meet e).1 ∧ ∀ u ∈ (s.meet e).2, u.ProperAfter s.context.registry := by
  have hquiet {s' : Caller} (hs' : Advances s s') :
      Advances s s' ∧ ∀ u ∈ ([] : List Use), u.ProperAfter s.context.registry :=
    ⟨hs', by simp⟩
  cases e with
  | call call => exact hquiet (h.perform call)
  | remove id force => exact hquiet (h.withResult fun _ _ hrem => .remove hrem)
  | cleanup select =>
    exact hquiet (h.withContext (Context.steady_cleanup s.context select).toSucceeds)
  | acquire id =>
    refine hquiet (h.withResult fun ref r hacq => ?_)
    obtain ⟨-, rfl⟩ := acquire_ok hacq
    exact .take _ _
  | release object =>
    exact hquiet (h.withContext (Context.steady_release s.context [object]).toSucceeds)
  | hold object => exact hquiet (h.withContext (Steady.hold _ object).toSucceeds)
  | letGo object => exact hquiet (h.withContext (Steady.settle _ _).toSucceeds)
  | task t => exact hquiet (h.withContext (Steady.step _ t).toSucceeds)
  | addEntry table entry config =>
    exact hquiet (h.attempt_steady (Context.addEntryTo_steady _ table entry config))
  | removeEntry table entry =>
    exact hquiet (h.attempt_steady (Context.removeEntryOf_steady _ table entry))
  | clearTable table =>
    exact hquiet (h.withContext (Context.steady_clearTable s.context table).toSucceeds)
  | updatePort port config =>
    exact hquiet (h.attempt_steady (Context.updatePort_steady _ port config))
  | drive port f =>
    have hdriven (p : Port) : (Port.driven f p).rx = p.rx ∧ (Port.driven f p).tx = p.tx :=
      ⟨rfl, rfl⟩
    exact hquiet
      (h.withContext (Context.keptByActions_steady.modifyPort s.context port hdriven).toSucceeds)
  | equip services => exact hquiet (h.withContext (.refl _))
  | evaluate depth source pkt counters =>
    rw [Caller.meet]
    split
    · rename_i actions hactions
      exact h.watch (noting_mono
        (Run.watchedPipeline_holds h.registry depth (h.list? hactions) _ (.refl _))
        fun _ hv => hv.2)
    · exact hquiet h.same
  | receive depth object dir pkt =>
    rw [Caller.meet]
    split
    · exact h.watch (Context.watchedReceive_holds h.registry (.refl _) depth _ dir pkt)
    · exact hquiet h.same
  | dispatch pkt => exact h.watch (Context.watchedDispatch_holds (.refl _) pkt)

theorem after (h : s.Aimed) (events : List Event) : Advances s (s.after events) := by
  induction events generalizing s with
  | nil => exact h.same
  | cons e events ih =>
    obtain ⟨hregistry, haimed⟩ := (h.meet e).1
    have hlater := ih haimed
    exact ⟨hregistry.trans hlater.registry, hlater.aimed⟩

theorem uses (h : s.Aimed) (events : List Event) :
    ∀ u ∈ s.uses events, u.Proper ∧ Succeeds s.context.registry u.registry := by
  induction events generalizing s with
  | nil => simp [Caller.uses]
  | cons e events ih =>
    intro u hu
    obtain ⟨⟨hregistry, haimed⟩, huses⟩ := h.meet e
    rcases List.mem_append.1 hu with hu | hu
    · exact ⟨(huses u hu).proper, (huses u hu).steady.toSucceeds⟩
    · obtain ⟨hproper, hlater⟩ := ih haimed u hu
      exact ⟨hproper, hregistry.trans hlater⟩

end Aimed

theorem aimed_start (c : Context) : (start c).Aimed where
  registry i o ho := by simp [start, empty, get?] at ho
  lists := nofun
  ports := nofun

end Caller

/-- What was cleaned up is used no more: a transmit action or a lookup drops the packet. -/
theorem Use.Proper.of_wasCleaned {u : Use} (h : u.Proper) (hc : u.registry.WasCleaned u.serial) :
    u.deed = .transmit (.of .drop) ∨ u.deed = .lookup (.of .drop) := by
  obtain ⟨o, ho, hcleaned⟩ := hc
  have hnone : u.registry.liveBody? u.serial = none := by simp [liveBody?, ho, hcleaned]
  unfold Proper at h
  cases hdeed : u.deed with
  | write pkt =>
    rw [hdeed] at h
    obtain ⟨p, lent, hp⟩ := h
    cases hnone.symm.trans hp
  | transmit out =>
    rw [hdeed] at h
    rcases h with ⟨p, lent, immediate, hp, -⟩ | ⟨-, rfl⟩
    · cases hnone.symm.trans hp
    · exact .inl rfl
  | lookup out =>
    rw [hdeed] at h
    rcases h with ⟨t, lent, ht, -⟩ | ⟨-, rfl⟩
    · cases hnone.symm.trans ht
    · exact .inr rfl

namespace Caller

open Context

/-- Whatever happens and in whatever order, packets are written only to ports that were not cleaned
up, transmit actions and lookups use only what was not cleaned up and drop the packet otherwise, and
so what was cleaned up is used no more later on. The uses are those of the plain pipelines and
deliveries, since watching these changes nothing. -/
theorem uses_after (c : Context) (before later : List Event) :
    (∀ u ∈ ((start c).after before).uses later, u.Proper) ∧
    (∀ u ∈ ((start c).after before).uses later,
      ((start c).after before).context.registry.WasCleaned u.serial →
        u.deed = .transmit (.of .drop) ∨ u.deed = .lookup (.of .drop)) ∧
    (∀ depth actions r uses,
      (Run.watchedPipeline depth actions r uses).1 = Run.pipeline depth actions r) ∧
    (∀ depth (c : Context) ref dir pkt uses,
      (c.watchedReceive depth ref dir pkt uses).1 = c.receive depth ref dir pkt) ∧
    ∀ (c : Context) pkt uses, (c.watchedDispatch pkt uses).1 = some (c.dispatch pkt) := by
  have huses := ((aimed_start c).after before).aimed.uses later
  refine ⟨fun u hu => (huses u hu).1, fun u hu hc => ?_, Run.gives_watchedPipeline,
    fun depth c => gives_watchedReceive depth c, gives_watchedDispatch⟩
  obtain ⟨hproper, hsucceeds⟩ := huses u hu
  exact hproper.of_wasCleaned (hsucceeds.cleaned _ hc)

/-- A port is forced out between two packets for it: the first one is written, the second dropped. -/
example : (Packet.parse .payload [1]).map (fun pkt =>
    let send : List Event := [.evaluate 0 (.list 0) pkt .none, .dispatch (pkt.setOutputPort 1)]
    let events := [.call .newPort, .call (.addPort "vif0" 0),
      .call (.build [⟨.transmit "vif0" true, false⟩])] ++ send ++ [.remove "vif0" true] ++ send
    ((start (.fresh "fwd" 0)).uses events).map fun u => match u.deed with
      | .write _ => none
      | .transmit out | .lookup out => some out.state) =
    .ok [some .output, none, some .drop] := by cbv

end Caller

end Dataplane

import Dataplane.Proofs.Context.References
import Dataplane.Proofs.Registry.Courses

/-!
# The ways of calls

Whatever a call does to a context, it changes the registry by registering objects, taking and
releasing references, changing bodies and taking identifiers out. So there is a course from the empty
registry to that of every context which calls lead to, and each object is cleaned up once at most.

## The model

`Context.Along r c` says that there is a course from the registry `r` to that of the context `c`. A
call that builds actions fails before it has changed anything, or it takes the references of the
actions and goes on from there.
-/

namespace Dataplane

namespace Context

open Registry Attempt

variable {r : Registry Object} {c c' : Context} {held : Multiset Nat} {n : Nat} {i : Nat}
  {o : Registered Object} {forced taken : List Nat}

/-- Does a course lead from a registry to that of a context? -/
def Along (r : Registry Object) (c : Context) : Prop := ∃ log, Course r log c.registry

theorem Along.start (h : c.registry = r) : Along r c := ⟨[], h ▸ .start⟩

theorem Along.trans (h : Along r c) (h' : Along c.registry c') : Along r c' := by
  obtain ⟨log, h⟩ := h
  obtain ⟨log', h'⟩ := h'
  exact ⟨_, h.trans h'⟩

theorem Holding.along (h : Holding r taken n c) : Along r c :=
  ⟨[], h.registry ▸ Course.start.takeAll taken⟩

theorem Along.releaseAll (h : Along r c) (serials : List Nat) : Along r (c.release serials) := by
  rw [Context.release]
  split_ifs
  · obtain ⟨log, h⟩ := h
    obtain ⟨log', h'⟩ := exists_course_releaseAll c.registry serials
    exact ⟨_, h.trans h'⟩
  · exact h

theorem Along.modifyBody (h : Along r c) (i : Nat) (f : Object → Object) :
    Along r (c.modifyBody i f) := by
  obtain ⟨log, h⟩ := h
  exact ⟨log, h.change i f⟩

theorem Along.lend (h : Along r c) (serials : List Nat) : Along r (c.lend serials) := by
  obtain ⟨log, h⟩ := h
  exact ⟨log, h.mapBodies _⟩

theorem Along.letGo (h : Along r c) (held gone : List Part) : Along r (c.letGo held gone) :=
  letGo_induction (fun serials h => h.lend serials) (fun serials h => h.releaseAll serials) held gone h

theorem Along.notify (h : Along r c) (e : Notification) : Along r (c.notify e) := by
  rw [Context.notify]
  split_ifs <;> exact h

theorem Along.addObject {id : String} {body : Object} {nid : Nat} (h : Along r c)
    (hadd : c.addObject id body = .ok (nid, c')) : Along r c' := by
  obtain ⟨⟨nid', r'⟩, hins, heq⟩ := bind_eq_ok_iff.1 hadd
  cases heq
  obtain ⟨log, h⟩ := h
  have hnew : Along r (c.withRegistry r') := ⟨log, h.insert hins⟩
  exact hnew.notify _

theorem Along.removeObject {id : String} (h : Along r c) (hc : c.registry.Indexed [])
    (hremoved : c.removeObject id = .ok c') : Along r c' := by
  obtain ⟨⟨nid, r'⟩, hrem, heq⟩ := bind_eq_ok_iff.1 hremoved
  cases heq
  rw [hc.remove_eq] at hrem
  obtain ⟨ref, -, heq⟩ := map_eq_ok_iff.1 hrem
  cases heq
  obtain ⟨log, h⟩ := h
  obtain ⟨log', h'⟩ := exists_course_settle
    ({ c.registry with ids := c.registry.ids.erase id } : Registry Object)
    [.release ref.serial false]
  have hnew : Along r (c.withRegistry _) := ⟨_, (h.unname id).trans h'⟩
  exact hnew.notify _

/-! ### Tables and ports -/

theorem createTable_along (hr : r.Balanced held forced []) (id : String) (config : TableConfig) :
    Triple (Holding r [] n) (createTable id config) (fun _ => Along r) (Along r) := by
  unfold createTable
  refine Triple.bind ((Build.actions_spec hr config.defaultActions).mono (fun _ h => h)
    (fun _ _ h => h) fun _ h => h.along) fun actions => ?_
  refine Triple.get_bind fun s hs => ?_
  obtain ⟨m, -, -, hs⟩ := hs
  split
  · rename_i nid c hadd
    exact Triple.bind (R := fun _ => Along r) (Triple.set fun _ _ => hs.along.addObject hadd)
      fun _ => Triple.pure fun _ h => h
  · refine Triple.bind (R := fun _ => Along r) (Triple.modify ?_) fun _ => Triple.throw fun _ h => h
    rintro c rfl
    exact hs.along.releaseAll _

theorem addEntryTo_along (hr : r.Balanced held forced []) (i : Nat) (entry : String)
    (config : EntryConfig) :
    Triple (Holding r [] n) (addEntryTo i entry config) (fun _ => Along r) (Along r) := by
  unfold addEntryTo
  refine Triple.bind ((Build.actions_spec hr config.actions).adapt.mono (fun _ h => h)
    (fun _ _ h => h) fun _ h => h.along) fun actions => ?_
  refine Triple.get_bind fun s hs => ?_
  obtain ⟨m, -, -, hs⟩ := hs
  split
  · refine Triple.modify ?_
    rintro c rfl
    exact hs.along.modifyBody _ _
  · refine Triple.bind (R := fun _ => Along r) (Triple.modify ?_) fun _ => Triple.throw fun _ h => h
    rintro c rfl
    exact hs.along.releaseAll _

theorem removeEntryOf_along (i : Nat) (entry : String) :
    Triple (Holding r [] n) (removeEntryOf i entry) (fun _ => Along r) (Along r) := by
  unfold removeEntryOf
  refine Triple.get_bind fun s hs => ?_
  split
  · refine Triple.modify ?_
    rintro c rfl
    exact (hs.along.modifyBody _ _).releaseAll _
  · refine Triple.throw ?_
    rintro c rfl
    exact hs.along

theorem clearTable_along (c : Context) (i : Nat) : Along c.registry (c.clearTable i) := by
  unfold clearTable
  split
  · exact ((Along.start rfl).modifyBody _ _).releaseAll _
  · exact .start rfl

theorem updatePort_along (hr : r.Balanced held forced []) (i : Nat) (config : PortConfig) :
    Triple (Holding r [] n) (updatePort i config) (fun _ => Along r) (Along r) := by
  unfold updatePort
  refine Triple.bind ((Build.actions_spec hr config.actions).mono (fun _ h => h)
    (fun _ _ h => h) fun _ h => h.along) fun actions => ?_
  refine Triple.get_bind fun s hs => ?_
  obtain ⟨m, -, -, hs⟩ := hs
  refine Triple.modify ?_
  rintro c rfl
  exact (hs.along.modifyBody _ _).releaseAll _

end Context

namespace Caller

open Context Attempt

variable {s : Caller} {forced : List Nat}

/-- Trying something that goes along a course. -/
theorem Sound.attempt_along {ε α : Type} {x : Attempt ε α} {next : α → Caller → Caller}
    (h : s.Sound forced)
    (hx : Triple (Holding s.context.registry [] s.context.nextSerial) x
      (fun a c => Along s.context.registry (next a { s with context := c }).context)
      (Along s.context.registry)) :
    Along s.context.registry (s.attempt x next).2.context := by
  unfold Caller.attempt
  split
  · rename_i a c hrun
    exact hx.of_ok h.now.holding hrun
  · rename_i e c hrun
    exact hx.of_error h.now.holding hrun

/-- Registering an object. -/
theorem registered_along {id : String} {body : Object} {next : Caller → Caller}
    (hnext : ∀ c, (next { s with context := c }).context = c) :
    Along s.context.registry (s.registered (s.context.addObject id body) next).2.context := by
  unfold Caller.registered
  split
  · rename_i nid c hadd
    rw [hnext]
    exact (Along.start rfl).addObject hadd
  · exact .start rfl

theorem onLive_along {serial : Nat} {kind : ObjectKind} {act : Bool × Caller}
    (hact : Along s.context.registry act.2.context) :
    Along s.context.registry (s.onLive serial kind act).2.context := by
  unfold Caller.onLive
  split_ifs
  · exact hact
  · exact .start rfl

/-- Every call goes along a course. -/
theorem Sound.perform_along (h : s.Sound forced) (call : Call) :
    Along s.context.registry (s.perform call).2.context := by
  have hbalanced := h.now.balanced
  have hsame : Along s.context.registry s.context := .start rfl
  have hbuild (configs : List ListedConfig) :
      Triple (Holding s.context.registry [] s.context.nextSerial) (Build.actions configs)
        (fun _ => Along s.context.registry) (Along s.context.registry) :=
    (Build.actions_spec hbalanced configs).mono (fun _ h => h)
      (fun _ _ ⟨_, _, _, h⟩ => h.along) fun _ h => h.along
  cases call with
  | createTable id config => exact h.attempt_along (createTable_along hbalanced id config)
  | createCounter id ids =>
    rw [Caller.perform, Context.createCounter]
    exact registered_along fun _ => rfl
  | createFlowCounter id =>
    rw [Caller.perform, Context.createFlowCounter]
    exact registered_along fun _ => rfl
  | addPort id port =>
    rw [Caller.perform]
    split
    · exact registered_along fun _ => rfl
    · exact hsame
  | removeObject id =>
    rw [Caller.perform]
    split
    · rename_i c hrem
      exact hsame.removeObject hbalanced.toIndexed hrem
    · exact hsame
  | addEntry table entry config =>
    exact onLive_along (h.attempt_along (addEntryTo_along hbalanced table entry config))
  | removeEntry table entry =>
    exact onLive_along (h.attempt_along (removeEntryOf_along table entry))
  | clearTable table => exact onLive_along (clearTable_along s.context table)
  | updatePort port config =>
    exact onLive_along (h.attempt_along (updatePort_along hbalanced port config))
  | newPort => exact hsame
  | updateHeld port config =>
    rw [Caller.perform]
    split
    · exact h.attempt_along ((hbuild config.actions).mono (fun _ h => h)
        (fun _ _ h => h.letGo _ _) fun _ h => h)
    · exact hsame
  | dropPort port =>
    rw [Caller.perform]
    split
    · exact hsame.letGo _ _
    · exact hsame
  | build configs => exact h.attempt_along (hbuild configs)
  | take source =>
    rw [Caller.perform]
    split
    · exact hsame.lend _
    · exact hsame
  | share picks => exact hsame
  | drop list =>
    rw [Caller.perform]
    split
    · exact hsame.letGo _ _
    · exact hsame

/-- A course leads from the empty registry to that of every context which calls lead to. -/
theorem along_run (c : Context) (calls : List Call) : Along .empty (run c calls).context := by
  induction calls using List.reverseRecOn with
  | nil => exact .start rfl
  | append_singleton calls call ih =>
    rw [run, List.foldl_append]
    exact ih.trans ((sound_run c calls).perform_along call)

end Caller

end Dataplane

import Dataplane.Proofs.Context.Configuring
import Dataplane.Proofs.Context.Tables
import Mathlib.Data.List.Induction
import Mathlib.Data.List.Perm.Basic

/-!
# References of built actions

The references to an object are counted right, whatever is registered, configured and taken out: the
count is the number of times that built actions name the object, wherever the actions are, and one
for the index of identifiers. An action that is held in several places counts once, and its references
go with the last who holds it. A call that fails leaves all counts as they were.

## The model

A `Caller` is a context together with what is in hands outside: lists of actions, which may share
their actions with each other and with the tables and ports they came from, and ports that are not
registered yet, which may have actions already. Each call says whether it succeeded. Calls that change
tables and ports are by serial number and only for objects that were not cleaned up; any other call
fails and does nothing, so every list of calls is a history.
-/

namespace Dataplane

/-- The actions that the objects of a context hold and those in their lists, one by one. Objects that
were cleaned up do not count. -/
def Context.parts (c : Context) : List Part :=
  (c.registry.objects.filter fun o => !o.cleaned).flatMap fun o => o.body.parts

/-- Is there an object of a kind with a serial number, and was it not cleaned up? -/
def Context.hasLive (c : Context) (serial : Nat) (kind : ObjectKind) : Bool :=
  match c.registry.get? serial with
  | some o => c.registry.isLive serial o && Composite.kind o.body = kind
  | none => false

/-- A context, and what is held outside. -/
structure Caller where
  context : Context
  /-- Lists of actions. -/
  lists : List ActionList
  /-- Ports that are not registered yet. -/
  ports : List Port

/-- Where there is a list of actions that can be had outside. -/
inductive Source where
  /-- The list in a place. -/
  | list (place : Nat)
  /-- One of the lists with which a packet may go on after an action of that list. -/
  | branch (place action branch : Nat)
  /-- The actions of a port that is not registered. -/
  | port (place : Nat) (dir : Direction)
  /-- The actions of a port. -/
  | ofPort (port : Nat) (dir : Direction)
  /-- The actions of all entries of a table. -/
  | entries (table : Nat)
  /-- The actions of one entry of a table. -/
  | entry (table : Nat) (id : String)
  /-- The default actions of a table. -/
  | default (table : Nat)

/-- A call on a context, or something done with what is held outside. -/
inductive Call where
  | createTable (id : String) (config : TableConfig)
  | createCounter (id : String) (ids : List CounterId)
  | createFlowCounter (id : String)
  /-- Registers one of the ports. -/
  | addPort (id : String) (port : Nat)
  | removeObject (id : String)
  | addEntry (table : Nat) (entry : String) (config : EntryConfig)
  | removeEntry (table : Nat) (entry : String)
  | clearTable (table : Nat)
  | updatePort (port : Nat) (config : PortConfig)
  /-- Makes a port. -/
  | newPort
  /-- Replaces actions of a port that is not registered. -/
  | updateHeld (port : Nat) (config : PortConfig)
  /-- Drops a port that is not registered. -/
  | dropPort (port : Nat)
  /-- Builds a list of actions. -/
  | build (configs : List ListedConfig)
  /-- Gets a list that is there already, whose actions are shared from then on. -/
  | take (source : Source)
  /-- Makes a list of actions of the lists: each is the one of a list in a place. -/
  | share (picks : List (Nat × Nat))
  /-- Drops a list. -/
  | drop (list : Nat)

namespace Caller

/-- The actions of ports that are not registered and those in their lists, one by one. -/
def portParts (ports : List Port) : List Part := ports.flatMap fun p => (Object.port p []).parts

/-- The actions of lists and ports that are held outside and those in their lists, one by one. -/
def heldParts (lists : List ActionList) (ports : List Port) : List Part :=
  Action.partsOfLists lists ++ portParts ports

/-- The actions held outside and those in their lists, one by one. -/
def parts (s : Caller) : List Part := heldParts s.lists s.ports

/-- A context without objects and nothing held outside. -/
def start (c : Context) : Caller := ⟨{ c with registry := .empty, isOpen := true }, [], []⟩

/-- The list that a source is. -/
def list? (s : Caller) : Source → Option ActionList
  | .list place => s.lists[place]?
  | .branch place action branch => do
    let a ← s.lists[place]? >>= (·[action]?)
    (s.context.continuations a.action)[branch]?
  | .port place dir => s.ports[place]?.map (·.actions dir)
  | .ofPort port dir => (s.context.body? port >>= Object.port?).map (·.actions dir)
  | .entries table => (s.context.table? table).map (·.list)
  | .entry table id => s.context.table? table >>= (·.entryActions.lookup id)
  | .default table => (s.context.table? table).map (·.default)

/-- The caller after it has let go some actions, apart from those that it still holds. -/
def letGo (s : Caller) (gone : List Part) : Caller :=
  { s with context := s.context.letGo s.parts gone }

/-- Tries something on the context; also says whether it succeeded. -/
def attempt {ε α : Type} (s : Caller) (x : Attempt ε α) (next : α → Caller → Caller) :
    Bool × Caller :=
  match x s.context with
  | (.ok a, c) => (true, next a { s with context := c })
  | (.error _, c) => (false, { s with context := c })

/-- What a call that registers an object leads to. -/
def registered (s : Caller) (result : Except RegistryError (Nat × Context))
    (next : Caller → Caller) : Bool × Caller :=
  match result with
  | .ok (_, c) => (true, next { s with context := c })
  | .error _ => (false, s)

/-- Does something with an object of a kind, if there is one that was not cleaned up. -/
def onLive (s : Caller) (serial : Nat) (kind : ObjectKind) (act : Bool × Caller) : Bool × Caller :=
  if s.context.hasLive serial kind then act else (false, s)

/-- Does what a call says; also says whether it succeeded. -/
def perform (s : Caller) : Call → Bool × Caller
  | .createTable id config => s.attempt (Context.createTable id config) fun _ s => s
  | .createCounter id ids => s.registered (s.context.createCounter id ids) fun s => s
  | .createFlowCounter id => s.registered (s.context.createFlowCounter id) fun s => s
  | .addPort id port =>
    match s.ports[port]? with
    | some p =>
      let ports := s.ports.eraseIdx port
      let lent := (heldParts s.lists ports).map (·.serial)
      s.registered (s.context.addObject id (.port p lent)) fun s => { s with ports }
    | none => (false, s)
  | .removeObject id =>
    match s.context.removeObject id with
    | .ok c => (true, { s with context := c })
    | .error _ => (false, s)
  | .addEntry table entry config =>
    s.onLive table .table <| s.attempt (Context.addEntryTo table entry config) fun _ s => s
  | .removeEntry table entry =>
    s.onLive table .table <| s.attempt (Context.removeEntryOf table entry) fun _ s => s
  | .clearTable table =>
    s.onLive table .table (true, { s with context := s.context.clearTable table })
  | .updatePort port config =>
    s.onLive port .port <| s.attempt (Context.updatePort port config) fun _ s => s
  | .newPort => (true, { s with ports := .fresh :: s.ports })
  | .updateHeld port config =>
    match s.ports[port]? with
    | some p =>
      s.attempt (Build.actions config.actions) fun actions s =>
        { s with ports := s.ports.set port (p.setActions config.dir actions) }.letGo
          (Action.partsOfList (p.actions config.dir))
    | none => (false, s)
  | .dropPort port =>
    match s.ports[port]? with
    | some p =>
      (true, { s with ports := s.ports.eraseIdx port }.letGo (Object.port p []).parts)
    | none => (false, s)
  | .build configs =>
    s.attempt (Build.actions configs) fun l s => { s with lists := l :: s.lists }
  | .take source =>
    match s.list? source with
    | some l =>
      let lists := l :: s.lists
      (true, { s with
        context := s.context.lend ((heldParts lists s.ports).map (·.serial))
        lists })
    | none => (false, s)
  | .share picks =>
    let l := picks.filterMap fun (list, place) => s.lists[list]? >>= (·[place]?)
    (true, { s with lists := l :: s.lists })
  | .drop list =>
    match s.lists[list]? with
    | some l => (true, { s with lists := s.lists.eraseIdx list }.letGo (Action.partsOfList l))
    | none => (false, s)

/-- The caller after some calls, the first one first. -/
def run (c : Context) (calls : List Call) : Caller :=
  calls.foldl (fun s call => (s.perform call).2) (start c)

/-! ### What calls keep -/

/-- The references of lists and of ports that are held outside. -/
def outside (lists : List ActionList) (ports : List Port) : List Nat :=
  Part.refsOf (Part.distinct (heldParts lists ports))

/-- The counts are right while some objects were forced out, and objects have lent what is held
outside. -/
structure Sound (s : Caller) (forced : List Nat) : Prop where
  ready : s.context.Ready (outside s.lists s.ports : Multiset Nat) forced 0
  lends : s.context.Lends s.parts (portParts s.ports)

/-- What is said of a call: it keeps the counts right, and changes none of them if it fails. -/
structure Good (s : Caller) (forced : List Nat) (p : Bool × Caller) : Prop where
  sound : p.2.Sound forced
  unchanged : p.1 = false →
    p.2.context.registry = s.context.registry ∧ p.2.lists = s.lists ∧ p.2.ports = s.ports

variable {s s' : Caller} {forced : List Nat} {p : Port} {l : ActionList} {k n : Nat}
  {lists : List ActionList} {ports : List Port} {gone : List Part}

theorem mem_parts_of_mem {q : Part} (hl : l ∈ lists) (hq : q ∈ Action.partsOfList l) :
    q ∈ heldParts lists ports := by
  rw [heldParts, Action.partsOfLists_eq]
  exact List.mem_append_left _ (List.mem_flatMap.2 ⟨l, hl, hq⟩)

theorem perm_parts_erase (h : lists[k]? = some l) (ports : List Port) :
    (heldParts lists ports).Perm (Action.partsOfList l ++ heldParts (lists.eraseIdx k) ports) := by
  obtain ⟨hlt, rfl⟩ := List.getElem?_eq_some_iff.1 h
  have hperm := (List.getElem_cons_eraseIdx_perm hlt).symm.flatMap_right Action.partsOfList
  simp only [heldParts, Action.partsOfLists_eq, ← List.append_assoc]
  exact hperm.append_right _

theorem perm_portParts_erase (h : ports[k]? = some p) :
    (portParts ports).Perm ((Object.port p []).parts ++ portParts (ports.eraseIdx k)) := by
  obtain ⟨hlt, rfl⟩ := List.getElem?_eq_some_iff.1 h
  exact (List.getElem_cons_eraseIdx_perm hlt).symm.flatMap_right fun p => (Object.port p []).parts

/-- The actions of a port are replaced. -/
theorem perm_portParts_set (h : ports[k]? = some p) (dir : Direction) (actions : ActionList) :
    (Action.partsOfList actions ++ portParts ports).Perm
      (Action.partsOfList (p.actions dir) ++ portParts (ports.set k (p.setActions dir actions))) := by
  obtain ⟨kept, hold, hnew⟩ := Context.exists_perm_setActions p dir actions []
  have hset := (List.set_perm_cons_eraseIdx (List.getElem?_eq_some_iff.1 h).1
    (p.setActions dir actions)).flatMap_right fun p => (Object.port p []).parts
  refine List.perm_iff_count.2 fun q => ?_
  have hold := hold.count_eq q
  have hnew := hnew.count_eq q
  have hset := hset.count_eq q
  have herase := (perm_portParts_erase h).count_eq q
  simp only [portParts, List.flatMap_cons, List.count_append] at hold hnew hset herase ⊢
  omega

/-- What becomes of the ports becomes of all that is held outside. -/
theorem perm_heldParts (lists : List ActionList) {ports' : List Port} {new : List Part}
    (h : (new ++ portParts ports).Perm (gone ++ portParts ports')) :
    (new ++ heldParts lists ports).Perm (gone ++ heldParts lists ports') := by
  have hswap (ps qs rest : List Part) : (ps ++ (qs ++ rest)).Perm (qs ++ (ps ++ rest)) := by
    rw [← List.append_assoc, ← List.append_assoc]
    exact List.perm_append_comm.append_right rest
  exact (hswap ..).trans ((h.append_left _).trans (hswap ..))

theorem perm_heldParts_erase (lists : List ActionList) (h : ports[k]? = some p) :
    (heldParts lists ports).Perm
      ((Object.port p []).parts ++ heldParts lists (ports.eraseIdx k)) :=
  have hports : ([] ++ portParts ports).Perm _ := perm_portParts_erase h
  perm_heldParts lists hports

theorem mem_list_of_lookup {t : Table (Listed Action)} {id : String}
    (hl : t.entryActions.lookup id = some l) : ∀ a ∈ l, a ∈ t.list := by
  obtain ⟨before, later, heq, -⟩ := List.lookup_eq_some_iff.1 hl
  have hmem : (id, l) ∈ t.entryActions := heq ▸ List.mem_append_right _ List.mem_cons_self
  obtain ⟨⟨id', span⟩, -, hslice⟩ := List.mem_map.1 hmem
  cases hslice
  exact fun a ha => List.mem_of_mem_drop (List.mem_of_mem_take ha)

/-- Where a list comes from that can be had: it is held outside, alone, inside an action or by a port,
or its actions are those of an object. -/
theorem of_list? {source : Source} (hl : s.list? source = some l) :
    l ∈ s.lists ∨ (∃ l' ∈ s.lists, ∃ a ∈ l', l ∈ s.context.continuations a.action) ∨
      (∃ p ∈ s.ports, ∃ dir, l = p.actions dir) ∨
      ∃ serial b, s.context.body? serial = some b ∧ ∀ a ∈ l, a ∈ b.actions := by
  have htable {serial : Nat} {t : Table (Listed Action)} (ht : s.context.table? serial = some t)
      (hsub : ∀ a ∈ l, a ∈ t.allActions) :
      ∃ serial b, s.context.body? serial = some b ∧ ∀ a ∈ l, a ∈ b.actions := by
    obtain ⟨b, hb, ht⟩ := Option.bind_eq_some_iff.1 ht
    obtain ⟨lent, rfl⟩ := Object.eq_of_table? ht
    exact ⟨serial, _, hb, hsub⟩
  cases source with
  | list place => exact .inl (List.mem_of_getElem? hl)
  | branch place action branch =>
    obtain ⟨a, ha, hbranch⟩ := Option.bind_eq_some_iff.1 hl
    obtain ⟨l', hl', ha⟩ := Option.bind_eq_some_iff.1 ha
    exact .inr (.inl ⟨l', List.mem_of_getElem? hl', a, List.mem_of_getElem? ha,
      List.mem_of_getElem? hbranch⟩)
  | port place dir =>
    obtain ⟨p, hp, rfl⟩ := Option.map_eq_some_iff.1 hl
    exact .inr (.inr (.inl ⟨p, List.mem_of_getElem? hp, dir, rfl⟩))
  | ofPort port dir =>
    obtain ⟨p, hp, rfl⟩ := Option.map_eq_some_iff.1 hl
    obtain ⟨b, hb, hp⟩ := Option.bind_eq_some_iff.1 hp
    obtain ⟨lent, rfl⟩ := Object.eq_of_port? hp
    exact .inr (.inr (.inr ⟨port, _, hb, Port.mem_of_mem_actions⟩))
  | entries table =>
    obtain ⟨t, ht, rfl⟩ := Option.map_eq_some_iff.1 hl
    exact .inr (.inr (.inr (htable ht fun a ha => List.mem_append_left _ ha)))
  | entry table id =>
    obtain ⟨t, ht, hentry⟩ := Option.bind_eq_some_iff.1 hl
    exact .inr (.inr (.inr (htable ht fun a ha =>
      List.mem_append_left _ (mem_list_of_lookup hentry a ha))))
  | default table =>
    obtain ⟨t, ht, rfl⟩ := Option.map_eq_some_iff.1 hl
    exact .inr (.inr (.inr (htable ht fun a ha => List.mem_append_right _ ha)))

/-- A list that can be had is held by someone already. -/
theorem mem_of_list? {source : Source} (hl : s.list? source = some l) {q : Part}
    (hq : q ∈ Action.partsOfList l) : q ∈ s.parts ++ s.context.registry.placed := by
  have hbody {serial : Nat} {b : Object} (hb : s.context.body? serial = some b)
      (hsub : ∀ a ∈ l, a ∈ b.actions) : q ∈ s.parts ++ s.context.registry.placed := by
    obtain ⟨o, ho, rfl⟩ := Option.map_eq_some_iff.1 hb
    exact List.mem_append_right _
      (Registry.mem_placed_of_get? ho (Action.mem_partsOfList_of_subset hsub hq))
  rcases of_list? hl with hl | ⟨l', hl', a, ha, hnext⟩ | ⟨p, hp, dir, rfl⟩ | ⟨serial, b, hb, hsub⟩
  · exact List.mem_append_left _ (mem_parts_of_mem hl hq)
  · have hinside (hq : q ∈ a.action.parts) : q ∈ s.parts ++ s.context.registry.placed := by
      refine List.mem_append_left _ (mem_parts_of_mem hl' ?_)
      rw [Action.partsOfList_eq]
      exact List.mem_flatMap.2 ⟨a, ha, Action.mem_partsOfListed hq⟩
    cases haction : a.action with
    | lookup table =>
      rw [haction] at hnext
      obtain ⟨t, ht, rfl⟩ := Option.map_eq_some_iff.1 (Option.mem_toList.1 hnext)
      obtain ⟨b, hb, ht⟩ := Option.bind_eq_some_iff.1 ht
      obtain ⟨lent, rfl⟩ := Object.eq_of_table? ht
      exact hbody hb fun _ hb => Table.mem_of_mem_lookup hb
    | select fields algo lists =>
      rw [haction] at hnext hinside
      rw [Action.parts, Action.partsOfLists_eq] at hinside
      exact hinside (List.mem_flatMap.2 ⟨l, hnext, hq⟩)
    | jump next state =>
      rw [haction] at hnext hinside
      obtain rfl := List.mem_singleton.1 hnext
      exact hinside hq
    | _ =>
      rw [haction] at hnext
      cases hnext
  · exact List.mem_append_left _ (List.mem_append_right _ (List.mem_flatMap.2
      ⟨p, hp, Action.mem_partsOfList_of_subset Port.mem_of_mem_actions hq⟩))
  · exact hbody hb hsub

namespace Sound

theorem now (h : s.Sound forced) :
    s.context.Ready (outside s.lists s.ports : Multiset Nat) forced s.context.nextSerial :=
  ⟨h.ready.balanced, h.ready.isOpen, Nat.le_refl _⟩

theorem of_ready (h : s.context.Ready (outside s.lists s.ports : Multiset Nat) forced n)
    (hl : s.context.Lends s.parts (portParts s.ports)) : s.Sound forced :=
  ⟨⟨h.balanced, h.isOpen, Nat.zero_le _⟩, hl⟩

theorem below (h : s.Sound forced) : ∀ q ∈ s.parts, q.serial < s.context.nextSerial :=
  fun q hq => h.lends.below q (List.mem_append_left _ hq)

theorem good (h : s.Sound forced) : Good s forced (false, s) := ⟨h, fun _ => ⟨rfl, rfl, rfl⟩⟩

/-- A call that succeeds. -/
theorem done (h : s'.Sound forced) : Good s forced (true, s') := ⟨h, fun hfail => by cases hfail⟩

/-- It matters only which actions are held outside. -/
theorem outside_eq (h : s.Sound forced) {held : List Part} (hmem : ∀ q, q ∈ held ↔ q ∈ s.parts) :
    Context.heldRefs held = (outside s.lists s.ports : Multiset Nat) := by
  have hagree : Part.Agree s.parts := h.lends.agree.subset fun _ hq => List.mem_append_left _ hq
  exact Multiset.coe_eq_coe.2 (Part.perm_refsOf (Part.perm_distinct_of_mem hagree hmem))

/-- Trying something that leaves nothing behind if it fails. -/
theorem attempt {ε α : Type} {x : Attempt ε α} {next : α → Caller → Caller}
    {Q : α → Context → Prop} (h : s.Sound forced)
    (hx : Attempt.Triple (Context.Holding s.context.registry [] s.context.nextSerial) x Q
      (Context.Holding s.context.registry [] s.context.nextSerial))
    (hnext : ∀ a c, Q a c → (next a { s with context := c }).Sound forced) :
    Good s forced (s.attempt x next) := by
  unfold Caller.attempt
  split
  · rename_i a c hrun
    exact done (hnext a c (hx.of_ok h.now.holding hrun))
  · rename_i e c hrun
    have hheld := hx.of_error h.now.holding hrun
    have hregistry : c.registry = s.context.registry := hheld.registry
    refine ⟨of_ready (n := s.context.nextSerial) ⟨?_, hheld.isOpen, hheld.serial⟩
      (hheld.lends h.lends), fun _ => ⟨hregistry, rfl, rfl⟩⟩
    exact hregistry ▸ h.now.balanced

/-- Trying something that leaves what is held outside as it is. -/
theorem attempt_same {ε α : Type} {x : Attempt ε α} (h : s.Sound forced)
    (hx : Attempt.Triple (Context.Holding s.context.registry [] s.context.nextSerial) x
      (fun _ c => Context.Ready (outside s.lists s.ports : Multiset Nat) forced s.context.nextSerial c ∧
        c.Lends s.parts (portParts s.ports))
      (Context.Holding s.context.registry [] s.context.nextSerial)) :
    Good s forced (s.attempt x fun _ s => s) :=
  h.attempt hx fun _ _ hc => of_ready hc.1 hc.2

/-- Registering an object that owns what is no longer held outside then. -/
theorem registered {id : String} {body : Object} {next : Caller → Caller} (h : s.Sound forced)
    (hnext : ∀ c, (next { s with context := c }).context = c ∧
      (next { s with context := c }).lists = s.lists ∧ (next { s with context := c }).ports = ports)
    (hrefs : (outside s.lists s.ports).Perm (Composite.owned body ++ outside s.lists ports))
    (hlends : ∀ nid r, s.context.registry.insert id body = .ok (nid, r) →
      r.Lending (heldParts s.lists ports) (portParts ports) s.context.nextSerial) :
    Good s forced (s.registered (s.context.addObject id body) next) := by
  unfold Caller.registered
  split
  · rename_i nid c hadd
    obtain ⟨hcontext, hlists, hports⟩ := hnext c
    have hcoe := Multiset.coe_eq_coe.2 hrefs
    rw [← Multiset.coe_add] at hcoe
    have hready := Context.addObject_spec (hcoe ▸ h.now) hadd
    obtain ⟨hins, hserial⟩ := Context.insert_of_addObject hadd
    refine done (of_ready (n := s.context.nextSerial) ?_ ?_)
    · rw [hcontext, hlists, hports]
      exact hready
    · rw [parts, hcontext, hlists, hports, Context.Lends, hserial]
      exact hlends nid _ hins
  · exact h.good

/-- Registering an object that holds no actions. -/
theorem registered_plain {id : String} {body : Object} (h : s.Sound forced)
    (hparts : body.parts = []) (hlent : body.lent = []) :
    Good s forced (s.registered (s.context.addObject id body) fun s => s) := by
  have howned : Composite.owned body = [] := by
    change Part.refsOf (Part.beyond body.lent body.parts) = []
    rw [hparts]
    rfl
  refine h.registered (fun c => ⟨rfl, rfl, rfl⟩) (by rw [howned]; exact .refl _) fun nid r hins => ?_
  exact h.lends.insertNew hins (hparts ▸ Part.numbered_nil _ _) (Nat.le_refl _) hlent

/-- Registering a port, which lends those of its actions that are held outside. -/
theorem addPort {id : String} (h : s.Sound forced) (hp : s.ports[k]? = some p) :
    Good s forced (s.registered (s.context.addObject id
      (.port p ((heldParts s.lists (s.ports.eraseIdx k)).map (·.serial))))
      fun s' => { s' with ports := s.ports.eraseIdx k }) := by
  have hports := perm_portParts_erase hp
  have hheld (q : Part) : q ∈ s.parts ↔
      q ∈ (Object.port p []).parts ∨ q ∈ heldParts s.lists (s.ports.eraseIdx k) :=
    (perm_heldParts_erase s.lists hp).mem_iff.trans List.mem_append
  have hagree : Part.Agree (heldParts s.lists (s.ports.eraseIdx k) ++ (Object.port p []).parts) :=
    h.lends.agree.subset fun q hq => List.mem_append_left _
      ((hheld q).2 (List.mem_append.1 hq).symm)
  have hnodup : ((Object.port p []).parts.map (·.serial)).Nodup := by
    have hall := ((hports.append_right s.context.registry.placed).map _).nodup_iff.1 h.lends.nodup
    rw [List.append_assoc] at hall
    exact hall.sublist ((List.sublist_append_left _ _).map _)
  refine h.registered (fun c => ⟨rfl, rfl, rfl⟩) ?_ fun nid r hins => ?_
  · have hsplit := Part.perm_refsOf (Part.perm_distinct_append hagree hnodup)
    rw [Part.refsOf_append] at hsplit
    have hmem (q : Part) : q ∈ heldParts s.lists (s.ports.eraseIdx k) ++
        (Object.port p []).parts ↔ q ∈ s.parts := by
      rw [List.mem_append, hheld, or_comm]
    have hsame := Multiset.coe_eq_coe.1 (h.outside_eq hmem)
    exact hsame.symm.trans (hsplit.symm.trans List.perm_append_comm)
  · refine h.lends.insert hins hports hheld (fun q hq => List.mem_append_right _ hq)
      (fun q _ => Iff.rfl) fun serial hserial => ?_
    obtain ⟨q, hq, rfl⟩ := List.mem_map.1 hserial
    exact h.lends.below q (List.mem_append_left _ ((hheld q).2 (.inr hq)))

/-- Doing something with an object that was not cleaned up. -/
theorem onLive {serial : Nat} {kind : ObjectKind} {act : Bool × Caller} (h : s.Sound forced)
    (hact : ∀ o, s.context.registry.get? serial = some o → o.cleaned = false →
      Composite.kind o.body = kind → Good s forced act) :
    Good s forced (s.onLive serial kind act) := by
  unfold Caller.onLive Context.hasLive
  split_ifs with hlive
  · split at hlive
    · rename_i o ho
      rw [h.now.balanced.toIndexed.isLive_eq ho] at hlive
      exact hact o ho (by simp_all) (by simp_all)
    · cases hlive
  · exact h.good

/-- Letting go what is held outside no longer. -/
theorem letGo (h : s.context.Ready (Context.heldRefs (gone ++ s.parts)) forced n)
    (hl : s.context.Lends (gone ++ s.parts) (portParts s.ports)) : (s.letGo gone).Sound forced := by
  obtain ⟨hready, hlends⟩ := h.letGo hl fun q hq => List.mem_append_right _ hq
  exact of_ready (n := n) hready hlends

/-- Replacing actions of a port that is not registered. -/
theorem updateHeld (h : s.Sound forced) (hp : s.ports[k]? = some p) (config : PortConfig) :
    Good s forced (s.attempt (Build.actions config.actions) fun actions s =>
      { s with ports := s.ports.set k (p.setActions config.dir actions) }.letGo
        (Action.partsOfList (p.actions config.dir))) := by
  refine h.attempt (Build.actions_spec h.now.balanced config.actions) fun actions c hc => ?_
  obtain ⟨m, hn, hnew, hc⟩ := hc
  have hset := perm_portParts_set hp config.dir actions
  have hgain : c.Lends (Action.partsOfList actions ++ s.parts)
      (Action.partsOfList actions ++ portParts s.ports) := by
    rw [Context.Lends, hc.registry]
    exact ((h.lends.takeAll _).gain hnew hn).mono hc.serial
  have hmem (q : Part) : q ∈ Action.partsOfList (p.actions config.dir) ++
        heldParts s.lists (s.ports.set k (p.setActions config.dir actions)) ↔
      q ∈ Action.partsOfList actions ++ s.parts :=
    (perm_heldParts s.lists hset).mem_iff.symm
  have hready := (hc.mono hn).ready h.now.balanced
  have hrefs : Context.heldRefs (Action.partsOfList (p.actions config.dir) ++
      heldParts s.lists (s.ports.set k (p.setActions config.dir actions))) =
      (Action.refsOfList actions : Multiset Nat) + (outside s.lists s.ports : Multiset Nat) := by
    have hagree : Part.Agree (Action.partsOfList actions ++ s.parts) :=
      hgain.agree.subset fun q hq => List.mem_append_left _ hq
    exact (Multiset.coe_eq_coe.2 (Part.perm_refsOf (Part.perm_distinct_of_mem hagree hmem))).trans
      (Context.heldRefs_append hnew h.below)
  exact letGo (n := s.context.nextSerial) (hrefs ▸ hready) ((hgain.setFree hset).congr hmem)

/-- Dropping a port that is not registered. -/
theorem dropPort (h : s.Sound forced) (hp : s.ports[k]? = some p) :
    ({ s with ports := s.ports.eraseIdx k }.letGo (Object.port p []).parts).Sound forced := by
  have hmem (q : Part) : q ∈ (Object.port p []).parts ++
      heldParts s.lists (s.ports.eraseIdx k) ↔ q ∈ s.parts :=
    (perm_heldParts_erase s.lists hp).mem_iff.symm
  exact letGo (n := s.context.nextSerial) (h.outside_eq hmem ▸ h.now)
    ((h.lends.setFree (perm_portParts_erase hp)).congr hmem)

/-- Building a list. -/
theorem build (h : s.Sound forced) (configs : List ListedConfig) :
    Good s forced (s.attempt (Build.actions configs) fun l s => { s with lists := l :: s.lists }) := by
  refine h.attempt (Build.actions_spec h.now.balanced configs) fun l c hc => ?_
  obtain ⟨m, hn, hnew, hc⟩ := hc
  have hparts : heldParts (l :: s.lists) s.ports = Action.partsOfList l ++ s.parts :=
    List.append_assoc _ _ _
  refine of_ready (n := s.context.nextSerial) ?_ ?_
  · change c.Ready (Context.heldRefs (heldParts (l :: s.lists) s.ports)) forced _
    rw [hparts, Context.heldRefs_append hnew h.below]
    exact (hc.mono hn).ready h.now.balanced
  · rw [parts, hparts, Context.Lends, hc.registry]
    exact ((h.lends.takeAll _).hold hnew hn).mono hc.serial

/-- Getting a list whose actions are held already, outside or by an object. -/
theorem take (h : s.Sound forced)
    (hl : ∀ q ∈ Action.partsOfList l, q ∈ s.parts ++ s.context.registry.placed) :
    ({ s with
      context := s.context.lend ((heldParts (l :: s.lists) s.ports).map (·.serial))
      lists := l :: s.lists } : Caller).Sound forced := by
  have hparts : heldParts (l :: s.lists) s.ports = Action.partsOfList l ++ s.parts :=
    List.append_assoc _ _ _
  have hmem (q : Part) : q ∈ Action.partsOfList l ++ s.parts ++ s.context.registry.placed ↔
      q ∈ s.parts ++ s.context.registry.placed := by
    rw [List.append_assoc, List.mem_append]
    exact ⟨fun hq => hq.elim (hl q) fun hq => hq, .inr⟩
  obtain ⟨hready, hlends⟩ := h.now.lend h.lends (heldParts (l :: s.lists) s.ports) []
    (fun q hq => (hmem q).1 (List.mem_append_left _ (hparts ▸ hq)))
    (fun q hq => List.mem_append_right _ hq)
    (hparts ▸ Part.perm_refsOf (Part.perm_distinct_of_mem h.lends.agree hmem).symm)
  have hnow : Context.Ready (Context.heldRefs (heldParts (l :: s.lists) s.ports)) forced
      s.context.nextSerial (s.context.lend ((heldParts (l :: s.lists) s.ports).map (·.serial))) := by
    simpa using hready
  exact of_ready hnow hlends

/-- Making a list of actions that are held outside. -/
theorem share (h : s.Sound forced) (hl : ∀ q ∈ Action.partsOfList l, q ∈ s.parts) :
    ({ s with lists := l :: s.lists } : Caller).Sound forced := by
  have hmem (q : Part) : q ∈ heldParts (l :: s.lists) s.ports ↔ q ∈ s.parts := by
    rw [show heldParts (l :: s.lists) s.ports = Action.partsOfList l ++ s.parts from
      List.append_assoc _ _ _, List.mem_append]
    exact ⟨fun hq => hq.elim (hl q) fun hq => hq, .inr⟩
  have hnow : s.context.Ready (Context.heldRefs (heldParts (l :: s.lists) s.ports)) forced
      s.context.nextSerial := h.outside_eq hmem ▸ h.now
  exact of_ready hnow (h.lends.congr hmem)

/-- Dropping a list. -/
theorem drop (h : s.Sound forced) (hl : s.lists[k]? = some l) :
    ({ s with lists := s.lists.eraseIdx k }.letGo (Action.partsOfList l)).Sound forced := by
  have hmem (q : Part) : q ∈ Action.partsOfList l ++ heldParts (s.lists.eraseIdx k) s.ports ↔
      q ∈ s.parts := (perm_parts_erase hl s.ports).mem_iff.symm
  exact letGo (n := s.context.nextSerial) (h.outside_eq hmem ▸ h.now) (h.lends.congr hmem)

/-- Every call keeps the counts right, and changes none if it fails. -/
theorem perform (h : s.Sound forced) (call : Call) : Good s forced (s.perform call) := by
  have hbalanced := h.now.balanced
  cases call with
  | createTable id config =>
    exact h.attempt_same (Context.createTable_spec hbalanced h.lends id config)
  | createCounter id ids => exact h.registered_plain rfl rfl
  | createFlowCounter id => exact h.registered_plain rfl rfl
  | addPort id port =>
    rw [Caller.perform]
    split
    · rename_i p hp
      exact h.addPort hp
    · exact h.good
  | removeObject id =>
    rw [Caller.perform]
    split
    · rename_i c hrem
      obtain ⟨hready, hlends⟩ := Context.removeObject_spec h.now h.lends hrem
      exact done (of_ready hready hlends)
    · exact h.good
  | addEntry table entry config =>
    exact h.onLive fun o ho hc _ =>
      h.attempt_same (Context.addEntryTo_spec hbalanced h.lends ho hc entry config)
  | removeEntry table entry =>
    exact h.onLive fun o ho hc _ =>
      h.attempt_same (Context.removeEntryOf_spec hbalanced h.lends ho hc entry)
  | clearTable table =>
    refine h.onLive fun o ho hc _ => ?_
    obtain ⟨hready, hlends⟩ := Context.clearTable_spec h.now h.lends ho hc
    exact done (of_ready hready hlends)
  | updatePort port config =>
    refine h.onLive fun o ho hc hkind => ?_
    obtain ⟨p, lent, hp⟩ : ∃ p lent, o.body = .port p lent := by
      cases hbody : o.body with
      | port p lent => exact ⟨p, lent, rfl⟩
      | _ => rw [hbody] at hkind; cases hkind
    exact h.attempt_same (Context.updatePort_spec hbalanced h.lends ho hc hp config)
  | newPort => exact done (of_ready h.now h.lends)
  | updateHeld port config =>
    rw [Caller.perform]
    split
    · rename_i p hp
      exact h.updateHeld hp config
    · exact h.good
  | dropPort port =>
    rw [Caller.perform]
    split
    · rename_i p hp
      exact done (h.dropPort hp)
    · exact h.good
  | build configs => exact h.build configs
  | take source =>
    rw [Caller.perform]
    split
    · rename_i l hl
      exact done (h.take fun q hq => mem_of_list? hl hq)
    · exact h.good
  | share picks =>
    refine done (h.share fun q hq => ?_)
    rw [Action.partsOfList_eq] at hq
    obtain ⟨a, ha, hq⟩ := List.mem_flatMap.1 hq
    obtain ⟨⟨list, place⟩, -, hpick⟩ := List.mem_filterMap.1 ha
    obtain ⟨l, hl, hplace⟩ := Option.bind_eq_some_iff.1 hpick
    refine mem_parts_of_mem (List.mem_of_getElem? hl) ?_
    rw [Action.partsOfList_eq]
    exact List.mem_flatMap.2 ⟨a, List.mem_of_getElem? hplace, hq⟩
  | drop list =>
    rw [Caller.perform]
    split
    · rename_i l hl
      exact done (h.drop hl)
    · exact h.good

end Sound

theorem sound_start (c : Context) : (start c).Sound [] where
  ready := ⟨Registry.balanced_empty, rfl, Nat.zero_le _⟩
  lends := Registry.lending_empty _

/-- Whatever the calls are, the counts are right. -/
theorem sound_run (c : Context) (calls : List Call) : (run c calls).Sound [] := by
  induction calls using List.reverseRecOn with
  | nil => exact sound_start c
  | append_singleton calls call ih =>
    rw [run, List.foldl_append]
    exact (ih.perform call).sound

/-- The objects that were cleaned up hold nothing. -/
theorem Sound.parts_eq (h : s.Sound forced) : s.context.parts = s.context.registry.placed := by
  rw [Context.parts, Registry.placed]
  have hvacant := h.lends.vacant
  revert hvacant
  induction s.context.registry.objects with
  | nil => exact fun _ => rfl
  | cons o os ih =>
    intro hvacant
    have hrest := ih fun o' ho' => hvacant o' (List.mem_cons_of_mem _ ho')
    cases hc : o.cleaned with
    | true => simp [hc, hvacant o List.mem_cons_self hc, hrest]
    | false => simp [hc, hrest]

/-- The count of every object that was not cleaned up is the number of times that built actions
name it, and one more if it is registered under an identifier. The actions are those of tables and
ports and those held outside, at any depth, and an action that is held in several places counts once.
A call that fails changes no count. -/
theorem counts_run (c : Context) (calls : List Call) :
    (∀ i o, (run c calls).context.registry.get? i = some o →
      (run c calls).context.registry.isLive i o = true →
      o.refs = (if (run c calls).context.registry.serialOf? o.id = some i then 1 else 0) +
        (Part.refsOf (Part.distinct ((run c calls).context.parts ++ (run c calls).parts))).count i) ∧
    ∀ call, ((run c calls).perform call).1 = false →
      ((run c calls).perform call).2.context.registry = (run c calls).context.registry ∧
      ((run c calls).perform call).2.lists = (run c calls).lists ∧
      ((run c calls).perform call).2.ports = (run c calls).ports := by
  have hsound := sound_run c calls
  refine ⟨fun i o ho hlive => ?_, fun call hfail => (hsound.perform call).unchanged hfail⟩
  have hbalanced := hsound.ready.balanced
  have hc : o.cleaned = false := by
    rw [hbalanced.toIndexed.isLive_eq ho] at hlive
    simpa using hlive
  have hcount := (hbalanced.counted ho hc).2
  have hall := hsound.lends.perm_refs.count_eq i
  have hdistinct : (Part.distinct ((run c calls).context.parts ++ (run c calls).parts)).Perm
      (Part.distinct ((run c calls).parts ++ (run c calls).context.registry.placed)) :=
    Part.perm_distinct_of_mem hsound.lends.agree fun q => by
      rw [hsound.parts_eq, List.mem_append, List.mem_append, or_comm]
  have hsame := (Part.perm_refsOf hdistinct).count_eq i
  simp only [Registry.registrations, Registry.references, Multiset.coe_count, outside] at hcount
  rw [hcount, hsame, ← hall, List.count_append, parts]
  simp only [Registry.releases, List.filterMap_nil, List.count_nil]
  omega

/-- The second table looks the first one up. While its default actions are held outside as well they
count once, and they let the first table go only when neither of the two holds them. -/
example :
    let calls : List Call := [.createTable "a" ⟨[]⟩, .createTable "b" ⟨[⟨.lookup "a", false⟩]⟩,
      .take (.default 1), .removeObject "b", .drop 0]
    [2, 3, 4, 5].map (fun n => ((run (.fresh "fwd" 0) (calls.take n)).context.registry.get? 0).map
      (·.refs)) = [some 2, some 2, some 2, some 1] := by cbv

end Caller

end Dataplane

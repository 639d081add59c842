import Dataplane.Proofs.Context.Aiming

/-!
# What takers of notifications hear

A call registers an object and tells it, or takes one out and tells it, or it leaves what is
registered under identifiers as it is and tells nothing. A call that fails is of the last sort. So is
all that happens inside a call besides, from the cascades of the references it releases to the objects
that these clean up.

## The model

`Registry.Retains r r'` says that identifiers lead in `r'` to the NIDs they lead to in `r`, that no
NID leads to another object, and that objects keep their kinds. `Context.Quiet c c'` adds that nothing
was told in between, and `Context.Reports c c'` says which of the three sorts of change leads from `c`
to `c'`.
-/

namespace Dataplane

namespace Registry

variable {r r' r'' : Registry Object} {i : Nat}

/-- Identifiers lead to the NIDs they led to, no NID leads to another object, and objects keep their
kinds. -/
structure Retains (r r' : Registry Object) : Prop where
  ids : r'.ids = r.ids
  nids : ∀ {nid i}, r'.nids.get? nid = some i → r.nids.get? nid = some i
  kinds : r'.kindOf? = r.kindOf?

theorem Retains.refl (r : Registry Object) : Retains r r := ⟨rfl, fun hi => hi, rfl⟩

theorem Retains.trans (h : Retains r r') (h' : Retains r' r'') : Retains r r'' :=
  ⟨h'.ids.trans h.ids, fun hi => h.nids (h'.nids hi), h'.kinds.trans h.kinds⟩

theorem Retains.take (r : Registry Object) (i : Nat) : Retains r (r.take i) :=
  ⟨rfl, fun hi => hi, (Steady.take r i).kinds_eq⟩

/-- The body of an object is changed. -/
theorem Retains.modifyBody {f : Object → Object}
    (hkind : ∀ b, Composite.kind (f b) = Composite.kind b) : Retains r (r.modifyBody i f) := by
  refine ⟨rfl, fun hi => hi, funext fun j => ?_⟩
  rw [kindOf?, kindOf?, Registry.modifyBody, get?_modify, Option.map_map]
  refine Option.map_congr fun o _ => ?_
  by_cases hij : i = j
  · simp [hij, hkind]
  · simp [hij]

/-- Other actions are lent. -/
theorem Retains.lend (r : Registry Object) (serials : List Nat) :
    Retains r (r.mapBodies (Object.lend serials)) :=
  ⟨rfl, fun hi => hi, (Steady.lend r serials).kinds_eq⟩

theorem Retains.settle (r : Registry Object) (ts : List Task) : Retains r (r.settle ts) where
  ids := ids_settle r ts
  nids {nid i} hi := by
    revert hi
    exact settle_induction (P := fun s _ => s.nids.get? nid = some i → r.nids.get? nid = some i)
      (fun s t _ h hi => h (s.nids_of_step hi)) r ts fun hi => hi
  kinds := (Steady.settle r ts).kinds_eq

theorem Retains.releaseAll (r : Registry Object) (serials : List Nat) :
    Retains r (r.releaseAll serials) := by
  induction serials generalizing r with
  | nil => exact .refl r
  | cons i serials ih => exact (Retains.settle r _).trans (ih _)

end Registry

namespace Context

open Registry Attempt

variable {c c' c'' : Context} {r : Registry Object} {held : Multiset Nat} {forced : List Nat}
  {n i : Nat}

/-- What is registered under identifiers stays as it is, and nothing is told. -/
structure Quiet (c c' : Context) : Prop where
  retains : Retains c.registry c'.registry
  notifies : c'.notifies = c.notifies
  events : c'.events = c.events

theorem Quiet.refl (c : Context) : Quiet c c := ⟨.refl _, rfl, rfl⟩

theorem Quiet.trans (h : Quiet c c') (h' : Quiet c' c'') : Quiet c c'' :=
  ⟨h.retains.trans h'.retains, h'.notifies.trans h.notifies, h'.events.trans h.events⟩

theorem Quiet.of_alike (h : Alike c c') : Quiet c c' :=
  ⟨h.registry ▸ .refl _, h.notifies, h.events⟩

theorem Quiet.withRegistry (h : Retains c.registry r) : Quiet c (c.withRegistry r) := ⟨h, rfl, rfl⟩

theorem Quiet.release (h : Quiet c c') (serials : List Nat) : Quiet c (c'.release serials) := by
  rw [Context.release]
  split_ifs
  · exact h.trans (.withRegistry (.releaseAll _ _))
  · exact h

theorem Quiet.letGo (h : Quiet c c') (held gone : List Part) : Quiet c (c'.letGo held gone) :=
  letGo_induction (fun serials h => h.trans (.withRegistry (.lend _ serials)))
    (fun serials h => h.release serials) held gone h

theorem Quiet.modifyBody (h : Quiet c c') (i : Nat) {f : Object → Object}
    (hkind : ∀ b, Composite.kind (f b) = Composite.kind b) : Quiet c (c'.modifyBody i f) :=
  h.trans (.withRegistry (.modifyBody hkind))

/-- What becomes of a context when at most one thing is told: nothing that would have to be, or an
object is registered, or one is taken out. -/
inductive Reports (c c' : Context) : Prop
  | quiet (h : Quiet c c')
  | added {c₁ : Context} {id : String} {body : Object} {nid : Nat} (h : Quiet c c₁)
      (hindexed : c₁.registry.Indexed []) (hadd : c₁.addObject id body = .ok (nid, c'))
  | removed {c₁ : Context} {id : String} {force : Bool} {nid : Nat} {r : Registry Object}
      (h : Quiet c c₁) (hindexed : c₁.registry.Indexed [])
      (hrem : c₁.registry.remove id force = .ok (nid, r))
      (heq : c' = (c₁.withRegistry r).notify (.removed id nid))

/-! ### What is built -/

/-- While actions are built, nothing is told. -/
def hushed (c : Context) : Build.Ledger where
  holds _ n c' := Quiet c c' ∧ n ≤ c'.nextSerial
  serial h := h.2
  same h hsame hserial := ⟨h.1.trans (.of_alike hsame), hserial⟩
  acquire := by
    rintro ts n id kind ref r c' ⟨hquiet, hserial⟩ hacq
    obtain ⟨-, rfl⟩ := acquireKind_ok hacq
    exact ⟨hquiet.trans (.withRegistry (.take _ _)), hserial⟩
  release := by
    rintro ts us n c' ⟨hquiet, hserial⟩
    refine ⟨hquiet.release _, ?_⟩
    rw [Context.release]
    split_ifs <;> exact hserial

theorem actions_quiet (c : Context) (configs : List ListedConfig) :
    Triple (Quiet c) (Build.actions configs) (fun _ => Quiet c) (Quiet c) :=
  ((hushed c).actions_spec (n := 0) configs).mono (fun _ h => ⟨h, Nat.zero_le _⟩)
    (fun _ _ ⟨_, _, _, h⟩ => h.1) fun _ h => h.1

/-! ### Tables and ports -/

/-- A table is registered, or nothing is told. -/
theorem createTable_reports (hr : r.Balanced held forced []) (id : String) (config : TableConfig) :
    Triple (fun c' => Holding r [] n c' ∧ Quiet c c') (createTable id config) (fun _ => Reports c)
      (Quiet c) := by
  unfold createTable
  refine Triple.bind (((Build.actions_spec hr config.defaultActions).and
    (actions_quiet c config.defaultActions)).mono (fun _ h => h) (fun _ _ h => h) fun _ h => h.2)
    fun actions => ?_
  refine Triple.get_bind fun s hs => ?_
  obtain ⟨⟨m, -, -, hheld⟩, hquiet⟩ := hs
  split
  · rename_i nid c' hadd
    have hindexed : s.registry.Indexed [] := by
      rw [hheld.registry]
      exact (hr.takeAll hheld.anchored).toIndexed
    exact Triple.bind (R := fun _ => Reports c)
      (Triple.set fun _ _ => .added hquiet hindexed hadd) fun _ => Triple.pure fun _ h => h
  · refine Triple.bind (R := fun _ => Quiet c) (Triple.modify ?_) fun _ => Triple.throw fun _ h => h
    rintro c' rfl
    exact hquiet.release _

theorem addEntryTo_quiet (c : Context) (i : Nat) (entry : String) (config : EntryConfig) :
    Triple (Quiet c) (addEntryTo i entry config) (fun _ => Quiet c) (Quiet c) := by
  unfold addEntryTo
  refine Triple.bind (actions_quiet c config.actions).adapt fun actions => ?_
  refine Triple.get_bind fun s hs => ?_
  split
  · refine Triple.modify ?_
    rintro c' rfl
    exact hs.modifyBody i (Object.kind_modifyTable _)
  · refine Triple.bind (R := fun _ => Quiet c) (Triple.modify ?_) fun _ => Triple.throw fun _ h => h
    rintro c' rfl
    exact hs.release _

theorem removeEntryOf_quiet (c : Context) (i : Nat) (entry : String) :
    Triple (Quiet c) (removeEntryOf i entry) (fun _ => Quiet c) (Quiet c) := by
  unfold removeEntryOf
  refine Triple.get_bind fun s hs => ?_
  split
  · refine Triple.modify ?_
    rintro c' rfl
    exact (hs.modifyBody i (Object.kind_modifyTable _)).release _
  · exact Triple.throw fun c' hc' => hc' ▸ hs

theorem clearTable_quiet (c : Context) (i : Nat) : Quiet c (c.clearTable i) := by
  unfold clearTable
  split
  · exact ((Quiet.refl c).modifyBody i (Object.kind_modifyTable _)).release _
  · exact .refl c

theorem updatePort_quiet (c : Context) (i : Nat) (config : PortConfig) :
    Triple (Quiet c) (updatePort i config) (fun _ => Quiet c) (Quiet c) := by
  unfold updatePort
  refine Triple.bind (actions_quiet c config.actions) fun actions => ?_
  refine Triple.get_bind fun s hs => ?_
  refine Triple.modify ?_
  rintro c' rfl
  exact (hs.modifyBody i (Object.kind_modifyPort _)).release _

theorem removeObject_reports {id : String} (hindexed : c.registry.Indexed [])
    (hremoved : c.removeObject id = .ok c') : Reports c c' := by
  obtain ⟨⟨nid, r⟩, hrem, heq⟩ := bind_eq_ok_iff.1 hremoved
  cases heq
  exact .removed (.refl c) hindexed hrem rfl

/-! ### Forcing out -/

/-- Forcing out an object may log a line. Then it takes out what is registered under the identifier,
and nothing else happens if that is nothing. -/
theorem forceOut_cases (c : Context) (info : ObjectInfo) :
    ∃ c₁, Alike c c₁ ∧ c₁.nextSerial = c.nextSerial ∧ (c.forceOut info = c₁ ∨
      ∃ nid r, c₁.registry.remove info.id true = .ok (nid, r) ∧
        c.forceOut info = (c₁.withRegistry r).notify (.removed info.id nid)) := by
  unfold forceOut
  extract_lets refs c₁
  refine ⟨c₁, ?_, ?_, ?_⟩
  · simp only [c₁]
    split_ifs <;> exact ⟨rfl, rfl, rfl, rfl⟩
  · simp only [c₁]
    split_ifs <;> rfl
  · split
    · rename_i nid r hrem
      exact .inr ⟨nid, r, hrem, rfl⟩
    · exact .inl rfl

theorem forceOut_reports (hindexed : c.registry.Indexed []) (info : ObjectInfo) :
    Reports c (c.forceOut info) := by
  obtain ⟨c₁, hsame, -, hout | ⟨nid, r, hrem, hout⟩⟩ := forceOut_cases c info
  · rw [hout]
    exact .quiet (.of_alike hsame)
  · rw [hout]
    exact .removed (.of_alike hsame) (hsame.registry ▸ hindexed) hrem rfl

/-- Forcing out an object keeps the counts right, and what is lent. -/
theorem Ready.forceOut {outside aside : List Part} (h : Ready held forced n c)
    (hl : c.Lends outside aside) (info : ObjectInfo) :
    (∃ forced', Ready held forced' n (c.forceOut info)) ∧ (c.forceOut info).Lends outside aside := by
  obtain ⟨c₁, hsame, hserial, hout⟩ := forceOut_cases c info
  have h₁ : Ready held forced n c₁ :=
    ⟨hsame.registry ▸ h.balanced, hsame.isOpen.trans h.isOpen, hserial ▸ h.serial⟩
  have hl₁ : c₁.Lends outside aside := by
    rw [Lends, hsame.registry, hserial]
    exact hl
  rcases hout with hout | ⟨nid, r, hrem, hout⟩
  · rw [hout]
    exact ⟨⟨forced, h₁⟩, hl₁⟩
  · obtain ⟨i, hready⟩ := h₁.remove hrem
    rw [hout]
    exact ⟨⟨_, hready.notify _⟩, (hl₁.remove hrem).notify _⟩

end Context

namespace Caller

open Context Attempt

variable {s s' : Caller} {forced : List Nat}

/-- What is said of a call: at most one thing is told in it, and nothing if it fails. -/
structure Tells (s : Caller) (p : Bool × Caller) : Prop where
  reports : Reports s.context p.2.context
  quiet : p.1 = false → Quiet s.context p.2.context

namespace Tells

theorem of_quiet {p : Bool × Caller} (h : Quiet s.context p.2.context) : Tells s p :=
  ⟨.quiet h, fun _ => h⟩

/-- A call that succeeds. -/
theorem done (h : Reports s.context s'.context) : Tells s (true, s') :=
  ⟨h, fun hfail => by cases hfail⟩

/-- Trying something that tells nothing if it fails. -/
theorem attempt {ε α : Type} {x : Attempt ε α} {next : α → Caller → Caller} {P : Context → Prop}
    (hx : Triple P x (fun a c => Reports s.context (next a { s with context := c }).context)
      (Quiet s.context)) (hs : P s.context) : Tells s (s.attempt x next) := by
  unfold Caller.attempt
  split
  · rename_i a c hrun
    exact done (hx.of_ok hs hrun)
  · rename_i e c hrun
    exact of_quiet (hx.of_error hs hrun)

/-- Trying something that tells nothing. -/
theorem attempt_quiet {ε α : Type} {x : Attempt ε α} {next : α → Caller → Caller}
    (hx : Triple (Quiet s.context) x (fun _ => Quiet s.context) (Quiet s.context))
    (hnext : ∀ a c, Quiet s.context c →
      Quiet s.context (next a { s with context := c }).context) : Tells s (s.attempt x next) :=
  attempt (hx.mono (fun _ h => h) (fun a c h => .quiet (hnext a c h)) fun _ h => h) (.refl _)

/-- Registering an object. -/
theorem registered {id : String} {body : Object} {next : Caller → Caller}
    (hindexed : s.context.registry.Indexed [])
    (hnext : ∀ c, (next { s with context := c }).context = c) :
    Tells s (s.registered (s.context.addObject id body) next) := by
  unfold Caller.registered
  split
  · rename_i nid c hadd
    refine done ?_
    rw [hnext]
    exact .added (.refl _) hindexed hadd
  · exact of_quiet (.refl _)

theorem onLive {serial : Nat} {kind : ObjectKind} {act : Bool × Caller} (h : Tells s act) :
    Tells s (s.onLive serial kind act) := by
  unfold Caller.onLive
  split_ifs
  · exact h
  · exact of_quiet (.refl _)

end Tells

/-- Every call tells at most one thing, and nothing if it fails. -/
theorem Sound.perform_tells (h : s.Sound forced) (call : Call) : Tells s (s.perform call) := by
  have hindexed := h.now.balanced.toIndexed
  have hsame : Quiet s.context s.context := .refl _
  cases call with
  | createTable id config =>
    rw [Caller.perform]
    exact .attempt (createTable_reports h.now.balanced id config) ⟨h.now.holding, hsame⟩
  | createCounter id ids =>
    rw [Caller.perform, Context.createCounter]
    exact .registered hindexed fun _ => rfl
  | createFlowCounter id =>
    rw [Caller.perform, Context.createFlowCounter]
    exact .registered hindexed fun _ => rfl
  | addPort id port =>
    rw [Caller.perform]
    split
    · exact .registered hindexed fun _ => rfl
    · exact .of_quiet hsame
  | removeObject id =>
    rw [Caller.perform]
    split
    · rename_i c hrem
      exact .done (removeObject_reports hindexed hrem)
    · exact .of_quiet hsame
  | addEntry table entry config =>
    exact .onLive (.attempt_quiet (addEntryTo_quiet _ table entry config) fun _ _ hc => hc)
  | removeEntry table entry =>
    exact .onLive (.attempt_quiet (removeEntryOf_quiet _ table entry) fun _ _ hc => hc)
  | clearTable table => exact .onLive (.of_quiet (clearTable_quiet s.context table))
  | updatePort port config =>
    exact .onLive (.attempt_quiet (updatePort_quiet _ port config) fun _ _ hc => hc)
  | newPort => exact .of_quiet hsame
  | updateHeld port config =>
    rw [Caller.perform]
    split
    · exact .attempt_quiet (actions_quiet _ config.actions) fun _ _ hc => hc.letGo _ _
    · exact .of_quiet hsame
  | dropPort port =>
    rw [Caller.perform]
    split
    · exact .of_quiet (hsame.letGo _ _)
    · exact .of_quiet hsame
  | build configs =>
    rw [Caller.perform]
    exact .attempt_quiet (actions_quiet _ configs) fun _ _ hc => hc
  | take source =>
    rw [Caller.perform]
    split
    · exact .of_quiet (.withRegistry (.lend _ _))
    · exact .of_quiet hsame
  | share picks => exact .of_quiet hsame
  | drop list =>
    rw [Caller.perform]
    split
    · exact .of_quiet (hsame.letGo _ _)
    · exact .of_quiet hsame

end Caller

end Dataplane

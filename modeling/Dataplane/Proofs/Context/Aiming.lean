import Dataplane.Proofs.Context.Tables
import Dataplane.Proofs.Context.Teardown

/-!
# What actions are aimed at

An action uses each object it refers to as a port, a table or a flow counter. The kind is checked
once, when the action is built and takes the reference, and never again. That is enough: no object
changes its kind, so every action that was built is aimed at objects of the right kinds, wherever it
is kept and whether or not the objects were cleaned up since.

## The model

`ActionList.Aimed kindOf? l` says that the targets of the actions in `l` have the kinds that
`kindOf?` gives, and `Registry.WellAimed` that this is so of all actions that objects hold.
`Registry.Succeeds r r'` says that `r'` comes after `r`: objects keep their kinds, none is cleaned up
backwards, and the actions stay aimed. If no object was registered on the way, it is `Steady`.
-/

namespace Dataplane

/-- Have the targets of an action the kinds that it uses them as? -/
def Action.Aimed (kindOf? : Nat → Option ObjectKind) (a : Action) : Prop :=
  ∀ t ∈ a.targets, kindOf? t.1 = some t.2

/-- Are all actions of a list aimed? -/
def ActionList.Aimed (kindOf? : Nat → Option ObjectKind) (l : ActionList) : Prop :=
  ∀ a ∈ l, a.action.Aimed kindOf?

section Aimed

variable {kindOf? kindOf?' : Nat → Option ObjectKind} {l : ActionList}

theorem ActionList.aimed_nil : ActionList.Aimed kindOf? [] := by simp [ActionList.Aimed]

theorem ActionList.Aimed.mono (h : l.Aimed kindOf?)
    (hk : ∀ i k, kindOf? i = some k → kindOf?' i = some k) : l.Aimed kindOf?' :=
  fun a ha t ht => hk _ _ (h a ha t ht)

theorem ActionList.aimed_iff :
    l.Aimed kindOf? ↔ ∀ t ∈ Action.targetsOfList l, kindOf? t.1 = some t.2 := by
  rw [Action.targetsOfList_eq]
  constructor
  · intro h t ht
    obtain ⟨a, ha, ht⟩ := List.mem_flatMap.1 ht
    exact h a ha t ht
  · exact fun h a ha t ht => h t (List.mem_flatMap.2 ⟨a, ha, ht⟩)

theorem Action.aimed_transmit {port : Ref} {immediate : Bool} :
    (transmit port immediate).Aimed kindOf? ↔ kindOf? port.serial = some .port := by
  simp [Aimed, targets]

theorem Action.aimed_lookup {table : Ref} :
    (lookup table).Aimed kindOf? ↔ kindOf? table.serial = some .table := by
  simp [Aimed, targets]

theorem Action.aimed_mirror {port : Option Ref} {actions : ActionList} {fields : List FieldId} :
    (mirror port actions fields).Aimed kindOf? ↔
      (∀ p ∈ port, kindOf? p.serial = some .port) ∧ actions.Aimed kindOf? := by
  rw [ActionList.aimed_iff]
  cases port <;> simp [Aimed, targets]

theorem Action.aimed_select {fields : List FieldId} {algo : SelectAlgo} {lists : List ActionList} :
    (select fields algo lists).Aimed kindOf? ↔ ∀ l ∈ lists, l.Aimed kindOf? := by
  simp only [Aimed, targets, targetsOfLists_eq, ActionList.aimed_iff, List.mem_flatMap]
  constructor
  · exact fun h l hl t ht => h t ⟨l, hl, ht⟩
  · rintro h t ⟨l, hl, ht⟩
    exact h l hl t ht

theorem Action.aimed_jump {next : ActionList} {state : Disposition} :
    (jump next state).Aimed kindOf? ↔ next.Aimed kindOf? :=
  ActionList.aimed_iff.symm

end Aimed

theorem Object.kind_vacate (b : Object) : Composite.kind (Composite.vacate b) = Composite.kind b := by
  cases b <;> rfl

theorem Object.kind_countCleanup (b : Object) :
    Composite.kind (Composite.countCleanup b) = Composite.kind b := by
  cases b <;> rfl

theorem Object.kind_modifyPort (f : Port → Port) (b : Object) :
    Composite.kind (b.modifyPort f) = Composite.kind b := by
  cases b <;> rfl

theorem Object.kind_modifyTable (f : Table (Listed Action) → Table (Listed Action)) (b : Object) :
    Composite.kind (b.modifyTable f) = Composite.kind b := by
  cases b <;> rfl

theorem Object.kind_countFlow (len : Nat) (b : Object) :
    Composite.kind (b.countFlow len) = Composite.kind b := by
  cases b <;> rfl

theorem Object.actions_countFlow (len : Nat) (b : Object) : (b.countFlow len).actions = b.actions := by
  cases b <;> rfl

theorem Object.actions_modifyPort {f : Port → Port} (hf : ∀ p, (f p).rx = p.rx ∧ (f p).tx = p.tx)
    (b : Object) : (b.modifyPort f).actions = b.actions := by
  cases b with
  | port p lent =>
    obtain ⟨hrx, htx⟩ := hf p
    simp only [modifyPort, actions, hrx, htx]
  | _ => rfl

namespace Registry

/-- The kind of the object with a serial number. -/
def kindOf? {β : Type} [Composite β] (r : Registry β) (i : Nat) : Option ObjectKind :=
  (r.get? i).map fun o => Composite.kind o.body

/-- Was there an object with a serial number that has been cleaned up? -/
def WasCleaned {β : Type} (r : Registry β) (i : Nat) : Prop :=
  ∃ o, r.get? i = some o ∧ o.cleaned = true

/-- Are the actions that objects hold aimed? -/
def WellAimed (r : Registry Object) : Prop :=
  ∀ i o, r.get? i = some o → o.body.actions.Aimed r.kindOf?

variable {r r' r'' : Registry Object} {i : Nat} {o o' : Registered Object} {id : String}

theorem kindOf?_of_get? (h : r.get? i = some o) : r.kindOf? i = some (Composite.kind o.body) := by
  rw [kindOf?, h]
  rfl

theorem kindOf?_of_ref? {ref : Ref} (h : r.ref? i = some ref) : r.kindOf? i = some ref.kind := by
  obtain ⟨o, ho, rfl⟩ := ref?_eq_some_iff.1 h
  exact kindOf?_of_get? ho

/-- A registry that comes after another. -/
structure Succeeds (r r' : Registry Object) : Prop where
  kinds : ∀ i k, r.kindOf? i = some k → r'.kindOf? i = some k
  cleaned : ∀ i, r.WasCleaned i → r'.WasCleaned i
  aimed : r.WellAimed → r'.WellAimed

/-- A registry that comes after another, with no object registered on the way. -/
structure Steady (r r' : Registry Object) : Prop extends Succeeds r r' where
  kinds_eq : r'.kindOf? = r.kindOf?

theorem Succeeds.refl (r : Registry Object) : Succeeds r r := ⟨fun _ _ h => h, fun _ h => h, id⟩

theorem Succeeds.trans (h : Succeeds r r') (h' : Succeeds r' r'') : Succeeds r r'' :=
  ⟨fun i k hk => h'.kinds i k (h.kinds i k hk), fun i hi => h'.cleaned i (h.cleaned i hi),
    fun ha => h'.aimed (h.aimed ha)⟩

theorem Steady.refl (r : Registry Object) : Steady r r := ⟨.refl r, rfl⟩

theorem Steady.trans (h : Steady r r') (h' : Steady r' r'') : Steady r r'' :=
  ⟨h.toSucceeds.trans h'.toSucceeds, h'.kinds_eq.trans h.kinds_eq⟩

/-! ### Changes of objects -/

/-- An object after a change that keeps its kind, does not clean it up backwards and gives it only
aimed actions. -/
structure Keeps (kindOf? : Nat → Option ObjectKind) (o o' : Registered Object) : Prop where
  kind : Composite.kind o'.body = Composite.kind o.body
  cleaned : o.cleaned = true → o'.cleaned = true
  actions : ∀ a ∈ o'.body.actions, a ∈ o.body.actions ∨ a.action.Aimed kindOf?

theorem Keeps.of_change {kindOf? : Nat → Option ObjectKind} (h : Registered.Change o o') :
    Keeps kindOf? o o' where
  kind := by
    cases h with
    | counted => rfl
    | cleanedUp => exact (Object.kind_vacate _).trans (Object.kind_countCleanup _)
    | abandoned => exact Object.kind_vacate _
  cleaned := h.cleaned
  actions a ha := by
    cases h with
    | counted => exact .inl ha
    | cleanedUp =>
      rw [cleanedUp, Object.actions_vacate] at ha
      cases ha
    | abandoned =>
      rw [abandoned, Object.actions_vacate] at ha
      cases ha

theorem Steady.of_keeps (h : ∀ i, Option.Rel (Keeps r.kindOf?) (r.get? i) (r'.get? i)) :
    Steady r r' := by
  have hkinds : r'.kindOf? = r.kindOf? := by
    funext i
    have hi := h i
    rw [kindOf?, kindOf?]
    generalize r.get? i = x at hi ⊢
    generalize r'.get? i = y at hi ⊢
    cases hi with
    | none => rfl
    | some ho => exact congrArg some ho.kind
  refine ⟨⟨fun i k hk => hkinds ▸ hk, ?_, ?_⟩, hkinds⟩
  · rintro i ⟨o, ho, hc⟩
    have hi := h i
    rw [ho] at hi
    generalize hnew : r'.get? i = y at hi
    cases hi with
    | some hkeeps => exact ⟨_, hnew, hkeeps.cleaned hc⟩
  · intro haimed i o' ho' a ha
    have hi := h i
    rw [ho'] at hi
    generalize hold : r.get? i = x at hi
    cases hi with
    | some hkeeps =>
      rw [hkinds]
      rcases hkeeps.actions a ha with ha | ha
      · exact haimed i _ hold a ha
      · exact ha

theorem Keeps.refl (kindOf? : Nat → Option ObjectKind) (o : Registered Object) :
    Keeps kindOf? o o :=
  ⟨rfl, fun h => h, fun _ ha => .inl ha⟩

theorem Steady.modify {f : Registered Object → Registered Object}
    (hf : ∀ o, r.get? i = some o → Keeps r.kindOf? o (f o)) : Steady r (r.modify i f) :=
  .of_keeps fun j => rel_modify (Keeps.refl _) hf j

/-- The body of an object is changed. -/
theorem Steady.modifyBody {f : Object → Object}
    (hkind : ∀ b, Composite.kind (f b) = Composite.kind b)
    (hactions : ∀ o, r.get? i = some o → ∀ a ∈ (f o.body).actions,
      a ∈ o.body.actions ∨ a.action.Aimed r.kindOf?) : Steady r (r.modifyBody i f) :=
  .modify fun o ho => ⟨hkind o.body, fun hc => hc, hactions o ho⟩

/-- Other actions are lent. -/
theorem Steady.lend (r : Registry Object) (serials : List Nat) :
    Steady r (r.mapBodies (Object.lend serials)) :=
  .of_keeps (rel_mapBodies fun o => ⟨Object.kind_lend serials o.body, fun hc => hc, fun _ ha =>
    .inl (Object.actions_lend serials o.body ▸ ha)⟩)

theorem Steady.take (r : Registry Object) (i : Nat) : Steady r (r.take i) :=
  .modify fun _ _ => ⟨rfl, fun hc => hc, fun _ ha => .inl ha⟩

theorem Steady.hold (r : Registry Object) (i : Nat) : Steady r (r.hold i) :=
  .modify fun _ _ => ⟨rfl, fun hc => hc, fun _ ha => .inl ha⟩

/-! ### Operations -/

theorem Steady.step (r : Registry Object) (t : Task) : Steady r (r.step t).1 := by
  refine .of_keeps fun i => ?_
  have hi := step_change r t i
  generalize r.get? i = x at hi ⊢
  generalize (r.step t).1.get? i = y at hi ⊢
  cases hi with
  | none => exact .none
  | some h => exact .some (.of_change h)

theorem Steady.settle (r : Registry Object) (ts : List Task) : Steady r (r.settle ts) :=
  settle_induction (P := fun r' _ => Steady r r') (fun r' t _ h => h.trans (.step r' t)) r ts
    (.refl r)

theorem Steady.releaseAll (r : Registry Object) (serials : List Nat) :
    Steady r (r.releaseAll serials) := by
  induction serials generalizing r with
  | nil => exact .refl r
  | cons i serials ih => exact (Steady.settle r _).trans (ih _)

/-- A reference that is taken is to an object of its kind. -/
theorem acquire_ok {ref : Ref} (h : r.acquire id = .ok (ref, r')) :
    r.kindOf? ref.serial = some ref.kind ∧ r' = r.take ref.serial := by
  rw [acquire] at h
  cases hid : r.ids.get? id with
  | none =>
    rw [hid] at h
    cases h
  | some nid =>
    cases hi : r.nids.get? nid with
    | none =>
      simp only [hid, hi, pure_bind] at h
      cases h
    | some i =>
      simp only [hid, hi, pure_bind] at h
      split at h
      · rename_i o ref' ho href
        split_ifs at h
        cases h
        obtain ⟨o', -, rfl⟩ := ref?_eq_some_iff.1 href
        refine ⟨kindOf?_of_ref? href, ?_⟩
        simp only [take, Registry.hold, Registry.modify, List.modify_modify_eq]
        rfl
      · cases h

theorem acquireKind_ok {ref : Ref} {kind : ObjectKind}
    (h : r.acquireKind id kind = .ok (ref, r')) :
    r.kindOf? ref.serial = some kind ∧ r' = r.take ref.serial := by
  obtain ⟨hkind, hr'⟩ := acquire_ok (acquire_of_acquireKind h)
  obtain ⟨⟨ref', r''⟩, -, hif⟩ := bind_eq_ok_iff.1 h
  simp only at hif
  split_ifs at hif with hif'
  cases hif
  exact ⟨hif' ▸ hkind, hr'⟩

theorem Steady.remove {nid : Nat} {force : Bool} (h : r.remove id force = .ok (nid, r')) :
    Steady r r' := by
  unfold Registry.remove at h
  split at h
  · cases h
  · split at h
    · cases h
    · cases h
      have hunname : Steady r { r with ids := r.ids.erase id } :=
        .of_keeps fun i => by
          change Option.Rel _ (r.get? i) (r.get? i)
          cases r.get? i with
          | none => exact .none
          | some o => exact .some (.refl _ o)
      exact hunname.trans (.settle _ _)

/-- An object is registered whose actions are aimed. -/
theorem Succeeds.insert {body : Object} {nid : Nat} (h : r.insert id body = .ok (nid, r'))
    (hbody : body.actions.Aimed r.kindOf?) : Succeeds r r' := by
  have hobjects := objects_of_insert h
  have hkept : ∀ i o, r.get? i = some o → r'.get? i = some o := by
    intro i o ho
    rw [Registry.get?, hobjects, List.getElem?_append_left (lt_length_of_get? ho)]
    exact ho
  have hkinds : ∀ i k, r.kindOf? i = some k → r'.kindOf? i = some k := by
    intro i k hk
    obtain ⟨o, ho, rfl⟩ := Option.map_eq_some_iff.1 hk
    exact kindOf?_of_get? (hkept i o ho)
  refine ⟨hkinds, ?_, fun haimed i o ho => ?_⟩
  · rintro i ⟨o, ho, hc⟩
    exact ⟨o, hkept i o ho, hc⟩
  · rcases get?_concat hobjects ho with ho | ⟨rfl, rfl⟩
    · exact (haimed i o ho).mono hkinds
    · exact hbody.mono hkinds

end Registry

namespace Context

open Registry Attempt Build

variable {r : Registry Object} {c c' : Context} {id : String} {body : Object} {nid : Nat}

/-- Actions change no kind, clean nothing up and aim at nothing new. -/
theorem keptByActions_steady : KeptByActions fun c c' => Steady c.registry c'.registry where
  of_registry_eq h := h ▸ .refl _
  countFlow c serial len := .modifyBody (Object.kind_countFlow len) fun o _ a ha => by
    rw [Object.actions_countFlow] at ha
    exact .inl ha
  modifyPort c serial f hf := .modifyBody (Object.kind_modifyPort f) fun o _ a ha => by
    rw [Object.actions_modifyPort hf] at ha
    exact .inl ha

theorem steady_modifyBody {i : Nat} {f : Object → Object}
    (hkind : ∀ b, Composite.kind (f b) = Composite.kind b)
    (hactions : ∀ o, c.registry.get? i = some o → ∀ a ∈ (f o.body).actions,
      a ∈ o.body.actions ∨ a.action.Aimed c.registry.kindOf?) :
    Steady c.registry (c.modifyBody i f).registry :=
  .modifyBody hkind hactions

theorem steady_release (c : Context) (serials : List Nat) :
    Steady c.registry (c.release serials).registry := by
  rw [Context.release]
  split_ifs
  · exact .releaseAll _ _
  · exact .refl _

theorem steady_letGo (c : Context) (held gone : List Part) :
    Steady c.registry (c.letGo held gone).registry :=
  letGo_induction (P := fun c' => Steady c.registry c'.registry)
    (fun serials h => h.trans (.lend _ serials)) (fun serials h => h.trans (steady_release _ serials))
    held gone (.refl _)

theorem succeeds_addObject (hbody : body.actions.Aimed c.registry.kindOf?)
    (hadd : c.addObject id body = .ok (nid, c')) : Succeeds c.registry c'.registry := by
  obtain ⟨⟨nid', r'⟩, hins, heq⟩ := bind_eq_ok_iff.1 hadd
  cases heq
  rw [notify_registry]
  exact .insert hins hbody

theorem steady_removeObject (hrem : c.removeObject id = .ok c') :
    Steady c.registry c'.registry := by
  obtain ⟨⟨nid, r'⟩, hremove, heq⟩ := bind_eq_ok_iff.1 hrem
  cases heq
  rw [notify_registry]
  exact .remove hremove

theorem steady_teardown (c : Context) (infos : List ObjectInfo) :
    Steady c.registry (c.teardown infos).registry := by
  have hforce (c : Context) (info : ObjectInfo) :
      Steady c.registry (c.forceOut info).registry := by
    unfold forceOut
    extract_lets refs c'
    have hsame : c'.registry = c.registry := by
      simp only [c']
      split_ifs <;> rfl
    rw [← hsame]
    split
    · rename_i nid r hremove
      rw [notify_registry]
      exact .remove hremove
    · exact .refl _
  induction infos generalizing c with
  | nil => exact .refl _
  | cons info infos ih => exact (hforce c info).trans (ih _)

theorem steady_cleanup (c : Context) (select : Registered Object → Bool) :
    Steady c.registry (c.cleanup select).2.registry :=
  (steady_teardown c _).trans (steady_teardown _ _)

/-! ### What is built -/

/-- While actions are built, the registry stays steady and the targets have their kinds. -/
def aiming (r : Registry Object) : Ledger where
  holds ts n c := Steady r c.registry ∧ (∀ t ∈ ts, r.kindOf? t.1 = some t.2) ∧ n ≤ c.nextSerial
  serial h := h.2.2
  same h hsame hserial := ⟨hsame.registry ▸ h.1, h.2.1, hserial⟩
  acquire := by
    rintro ts n id kind ref r' c ⟨hsteady, hts, hserial⟩ hacq
    obtain ⟨hkind, rfl⟩ := acquireKind_ok hacq
    refine ⟨hsteady.trans (.take _ _), fun t ht => ?_, hserial⟩
    rcases List.mem_append.1 ht with ht | ht
    · exact hts t ht
    · obtain rfl : t = (ref.serial, kind) := by simpa using ht
      rw [← hsteady.kinds_eq]
      exact hkind
  release := by
    rintro ts us n c ⟨hsteady, hts, hserial⟩
    refine ⟨hsteady.trans (steady_release c _), fun t ht => hts t (List.mem_append_left _ ht), ?_⟩
    rw [Context.release]
    split_ifs <;> exact hserial

/-- Actions are built aimed. -/
theorem actions_aimed (r : Registry Object) (configs : List ListedConfig) :
    Triple (fun c => Steady r c.registry) (Build.actions configs)
      (fun l c => l.Aimed r.kindOf? ∧ Steady r c.registry) fun c => Steady r c.registry := by
  refine ((aiming r).actions_spec (n := 0) configs).mono (fun c hc => ⟨hc, by simp, Nat.zero_le _⟩)
    (fun l c hl => ?_) fun c hc => hc.1
  obtain ⟨m, -, -, hc⟩ := hl
  exact ⟨ActionList.aimed_iff.2 hc.2.1, hc.1⟩

theorem createTable_succeeds (r : Registry Object) (id : String) (config : TableConfig) :
    Triple (fun c => Steady r c.registry) (createTable id config)
      (fun _ c => Succeeds r c.registry) fun c => Succeeds r c.registry := by
  unfold createTable
  refine Triple.bind (R := fun l c => l.Aimed r.kindOf? ∧ Steady r c.registry) ?_ fun actions => ?_
  · exact (actions_aimed r _).mono (fun _ hc => hc) (fun _ _ hc => hc) fun _ hc => hc.toSucceeds
  refine Triple.get_bind fun s hs => ?_
  obtain ⟨hactions, hs⟩ := hs
  split
  · rename_i nid c hadd
    have hbody : (Object.table (.empty actions) []).actions.Aimed s.registry.kindOf? := by
      rw [hs.kinds_eq]
      exact hactions
    exact Triple.bind (R := fun _ c => Succeeds r c.registry)
      (Triple.set fun _ _ => hs.toSucceeds.trans (succeeds_addObject hbody hadd))
      fun _ => Triple.pure fun _ h => h
  · refine Triple.bind (R := fun _ c => Succeeds r c.registry) (Triple.modify ?_) fun _ =>
      Triple.throw fun _ h => h
    rintro c rfl
    exact (hs.trans (steady_release c _)).toSucceeds

theorem addEntryTo_steady (r : Registry Object) (i : Nat) (entry : String) (config : EntryConfig) :
    Triple (fun c => Steady r c.registry) (addEntryTo i entry config)
      (fun _ c => Steady r c.registry) fun c => Steady r c.registry := by
  unfold addEntryTo
  refine Triple.bind (actions_aimed r config.actions).adapt fun actions => ?_
  refine Triple.get_bind fun s hs => ?_
  obtain ⟨hactions, hs⟩ := hs
  split
  · rename_i t' hins
    refine Triple.modify ?_
    rintro c rfl
    obtain ⟨t, ht, hins⟩ := Option.bind_eq_some_iff.1 hins
    obtain ⟨o, lent, ho, hbody⟩ := get?_of_table ht
    refine hs.trans (.modifyBody (Object.kind_modifyTable _) fun o' ho' a ha => ?_)
    obtain rfl : o = o' := Option.some.inj (ho.symm.trans ho')
    rw [hbody] at ha ⊢
    rcases List.mem_append.1 ((Table.allActions_insert? hins).mem_iff.1 ha) with ha | ha
    · right
      rw [hs.kinds_eq]
      exact hactions a ha
    · exact .inl ha
  · refine Triple.bind (R := fun _ c => Steady r c.registry) (Triple.modify ?_) fun _ =>
      Triple.throw fun _ h => h
    rintro c rfl
    exact hs.trans (steady_release c _)

theorem removeEntryOf_steady (r : Registry Object) (i : Nat) (entry : String) :
    Triple (fun c => Steady r c.registry) (removeEntryOf i entry)
      (fun _ c => Steady r c.registry) fun c => Steady r c.registry := by
  unfold removeEntryOf
  refine Triple.get_bind fun s hs => ?_
  split
  · rename_i t' actions hrem
    refine Triple.modify ?_
    rintro c rfl
    obtain ⟨t, ht, hrem⟩ := Option.bind_eq_some_iff.1 hrem
    obtain ⟨o, lent, ho, hbody⟩ := get?_of_table ht
    refine hs.trans ((steady_modifyBody (Object.kind_modifyTable _) fun o' ho' a ha => ?_).trans
      (steady_release _ _))
    obtain rfl : o = o' := Option.some.inj (ho.symm.trans ho')
    rw [hbody] at ha ⊢
    exact .inl ((Table.allActions_remove? hrem).mem_iff.2 (List.mem_append_right _ ha))
  · exact Triple.throw fun c hc => hc ▸ hs

theorem steady_clearTable (c : Context) (i : Nat) :
    Steady c.registry (c.clearTable i).registry := by
  unfold clearTable
  split
  · rename_i t ht
    obtain ⟨o, lent, ho, hbody⟩ := get?_of_table ht
    refine (steady_modifyBody (Object.kind_modifyTable _) fun o' ho' a ha => ?_).trans
      (steady_release _ _)
    obtain rfl : o = o' := Option.some.inj (ho.symm.trans ho')
    rw [hbody] at ha ⊢
    exact .inl (List.mem_append_right _ ha)
  · exact .refl _

theorem mem_actions_setActions {p : Port} {dir : Direction} {actions : ActionList}
    {a : Listed Action} (h : a ∈ (p.setActions dir actions).rx ++ (p.setActions dir actions).tx) :
    a ∈ p.rx ++ p.tx ∨ a ∈ actions := by
  cases dir with
  | ingress =>
    rcases List.mem_append.1 h with h | h
    · exact .inr h
    · exact .inl (List.mem_append_right _ h)
  | egress =>
    rcases List.mem_append.1 h with h | h
    · exact .inl (List.mem_append_left _ h)
    · exact .inr h

theorem updatePort_steady (r : Registry Object) (i : Nat) (config : PortConfig) :
    Triple (fun c => Steady r c.registry) (updatePort i config)
      (fun _ c => Steady r c.registry) fun c => Steady r c.registry := by
  unfold updatePort
  refine Triple.bind (actions_aimed r config.actions) fun actions => ?_
  refine Triple.get_bind fun s hs => ?_
  obtain ⟨hactions, hs⟩ := hs
  refine Triple.modify ?_
  rintro c rfl
  refine hs.trans ((steady_modifyBody (Object.kind_modifyPort _) fun o _ a ha => ?_).trans
    (steady_release _ _))
  rw [hs.kinds_eq]
  cases hbody : o.body with
  | port p lent =>
    rw [hbody] at ha
    rcases mem_actions_setActions ha with ha | ha
    · exact .inl ha
    · exact .inr (hactions a ha)
  | _ =>
    rw [hbody] at ha
    exact .inl ha

end Context

end Dataplane

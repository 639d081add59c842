import Dataplane.Context.Run
import Dataplane.Proofs.Context.Comparing
import Dataplane.Proofs.Context.References
import Dataplane.Proofs.Context.Uses
import Dataplane.Proofs.Table.Entries

/-!
# What a lookup goes on with

A table has default actions for the time when it holds no entries. A lookup does not look at the
entries, though, but at their actions: it goes on with the default actions also while all entries
there are contribute none, because they were added without any, or with such as build to nothing.
Apart from that it goes on with the actions of the entries, in order.

## The model

The history of a table is what it was created with and the edits of it that succeeded, all in terms
of configurations (`TableHistory`); it is noted beside the calls of a caller, whatever else they do.
`Build.Makes` says that some actions are what some configurations build to in some context. Of the
live tables of a registry, `TablesFrom` says that a change left them alone; every call either does,
or creates a table, or edits one (`Caller.Traces`).
-/

namespace Dataplane

/-! ### Building to nothing -/

/-- Do some configurations build to some actions, in some context? -/
def Build.Makes (configs : List ListedConfig) (l : ActionList) : Prop :=
  ∃ c c', actions configs c = (.ok l, c')

/-- Only configurations that all let the packet go on build to nothing. -/
theorem Build.Makes.eq_nil_iff {configs : List ListedConfig} {l : ActionList}
    (h : Makes configs l) : l = [] ↔ active configs = [] := by
  obtain ⟨c, c', hrun⟩ := h
  have hhashes := (actions_hashes configs).of_ok trivial hrun
  rw [← List.map_eq_nil_iff (f := (·.hash)), hhashes, List.map_eq_nil_iff]

/-- What was built is what the configurations build to. -/
theorem Build.actions_makes (configs : List ListedConfig) :
    Attempt.Triple (fun _ => True) (actions configs) (fun l _ => Makes configs l)
      fun _ => True := by
  intro c _
  cases hrun : actions configs c with
  | mk result c' =>
    cases result with
    | ok l => exact ⟨c, c', hrun⟩
    | error e => trivial

/-! ### Live tables -/

namespace Object

theorem table?_lend (serials : List Nat) (b : Object) : (b.lend serials).table? = b.table? := by
  cases b <;> rfl

theorem table?_modifyPort (f : Port → Port) (b : Object) :
    (b.modifyPort f).table? = b.table? := by
  cases b <;> rfl

theorem table?_modifyTable (f : Table (Listed Action) → Table (Listed Action)) (b : Object) :
    (b.modifyTable f).table? = b.table?.map f := by
  cases b <;> rfl

end Object

/-- The table with a serial number, if it was not cleaned up. -/
def Registry.liveTable? (r : Registry Object) (i : Nat) : Option (Table (Listed Action)) :=
  r.liveBody? i >>= Object.table?

/-- Are the live tables of a registry among those of an earlier one? -/
def Registry.TablesFrom (r r' : Registry Object) : Prop :=
  ∀ i t, r'.liveTable? i = some t → r.liveTable? i = some t

namespace Registry

variable {r r' r'' : Registry Object} {i : Nat} {t : Table (Listed Action)}

theorem liveTable?_eq_some_iff :
    r.liveTable? i = some t ↔
      ∃ o, r.get? i = some o ∧ o.cleaned = false ∧ o.body.table? = some t := by
  constructor
  · intro h
    obtain ⟨b, hb, ht⟩ := Option.bind_eq_some_iff.1 h
    obtain ⟨o, ho, hc, rfl⟩ := get?_of_liveBody? hb
    exact ⟨o, ho, hc, ht⟩
  · rintro ⟨o, ho, hc, hbody⟩
    simp [liveTable?, liveBody?, ho, hc, hbody]

theorem TablesFrom.refl (r : Registry Object) : TablesFrom r r := fun _ _ h => h

theorem TablesFrom.trans (h : TablesFrom r r') (h' : TablesFrom r' r'') : TablesFrom r r'' :=
  fun i t ht => h i t (h' i t ht)

/-- Every live object was a live object, and the same table if it is one. -/
theorem TablesFrom.of_live (h : ∀ i o', r'.get? i = some o' → o'.cleaned = false →
    ∃ o, r.get? i = some o ∧ o.cleaned = false ∧ o'.body.table? = o.body.table?) :
    TablesFrom r r' := by
  intro i t ht
  obtain ⟨o', ho', hc', hbody'⟩ := liveTable?_eq_some_iff.1 ht
  obtain ⟨o, ho, hc, hbody⟩ := h i o' ho' hc'
  exact liveTable?_eq_some_iff.2 ⟨o, ho, hc, hbody ▸ hbody'⟩

theorem TablesFrom.take (r : Registry Object) (i : Nat) : TablesFrom r (r.take i) := by
  refine .of_live fun j o' ho' hc => ?_
  obtain ⟨o, ho, rfl⟩ := get?_modify_eq_some ho'
  refine ⟨o, ho, ?_⟩
  split at hc
  · rename_i hij
    exact ⟨hc, by rw [if_pos hij]⟩
  · rename_i hij
    exact ⟨hc, by rw [if_neg hij]⟩

theorem TablesFrom.takeAll (r : Registry Object) (serials : List Nat) :
    TablesFrom r (r.takeAll serials) := by
  induction serials generalizing r with
  | nil => exact .refl r
  | cons i serials ih => exact (TablesFrom.take r i).trans (ih _)

theorem length_takeAll (r : Registry Object) (serials : List Nat) :
    (r.takeAll serials).objects.length = r.objects.length := by
  induction serials generalizing r with
  | nil => rfl
  | cons i serials ih => exact (ih (r.take i)).trans (List.length_modify _ _ _)

theorem lt_length_of_liveTable? (h : r.liveTable? i = some t) : i < r.objects.length := by
  obtain ⟨o, ho, -⟩ := liveTable?_eq_some_iff.1 h
  exact lt_length_of_get? ho

theorem TablesFrom.settle (r : Registry Object) (ts : List Task) : TablesFrom r (r.settle ts) :=
  .of_live fun _ _ ho' hc =>
    let ⟨o, ho, hlive, _, hbody⟩ := get?_of_live_settle ho' hc
    ⟨o, ho, hlive, congrArg _ hbody⟩

theorem TablesFrom.releaseAll (r : Registry Object) (serials : List Nat) :
    TablesFrom r (r.releaseAll serials) := by
  induction serials generalizing r with
  | nil => exact .refl r
  | cons i serials ih => exact (TablesFrom.settle r _).trans (ih _)

theorem TablesFrom.remove {id : String} {nid : Nat} {force : Bool}
    (h : r.remove id force = .ok (nid, r')) : TablesFrom r r' := by
  unfold Registry.remove at h
  split at h
  · cases h
  · split at h
    · cases h
    · cases h
      exact TablesFrom.settle { r with ids := r.ids.erase id } _

/-- Bodies change, but the tables do not. -/
theorem TablesFrom.modifyBody (r : Registry Object) (i : Nat) {f : Object → Object}
    (hf : ∀ b, (f b).table? = b.table?) : TablesFrom r (r.modifyBody i f) := by
  refine .of_live fun j o' ho' hc => ?_
  obtain ⟨o, ho, rfl⟩ := get?_modify_eq_some ho'
  refine ⟨o, ho, ?_⟩
  split at hc
  · rename_i hij
    rw [if_pos hij]
    exact ⟨hc, hf o.body⟩
  · rename_i hij
    rw [if_neg hij]
    exact ⟨hc, rfl⟩

/-- Other actions are lent. -/
theorem TablesFrom.lend (r : Registry Object) (serials : List Nat) :
    TablesFrom r (r.mapBodies (Object.lend serials)) := by
  refine .of_live fun j o' ho' hc => ?_
  rw [get?_mapBodies] at ho'
  obtain ⟨o, ho, rfl⟩ := Option.map_eq_some_iff.1 ho'
  exact ⟨o, ho, hc, Object.table?_lend serials o.body⟩

/-- A live table after an object was registered was one before, or is the object. -/
theorem liveTable?_of_insert {id : String} {body : Object} {nid : Nat}
    (h : r.insert id body = .ok (nid, r')) (ht : r'.liveTable? i = some t) :
    r.liveTable? i = some t ∨ i = r.objects.length ∧ body.table? = some t := by
  obtain ⟨o, ho, hc, hbody⟩ := liveTable?_eq_some_iff.1 ht
  rcases get?_concat (objects_of_insert h) ho with ho | ⟨rfl, rfl⟩
  · exact .inl (liveTable?_eq_some_iff.2 ⟨o, ho, hc, hbody⟩)
  · exact .inr ⟨rfl, hbody⟩

/-- A live table after a table was replaced was one before, or is the new one. -/
theorem liveTable?_of_modifyTable {j : Nat}
    {f : Table (Listed Action) → Table (Listed Action)}
    (ht : (r.modifyBody j (.modifyTable f)).liveTable? i = some t) :
    i ≠ j ∧ r.liveTable? i = some t ∨ i = j ∧ ∃ t₀, r.liveTable? i = some t₀ ∧ t = f t₀ := by
  obtain ⟨o', ho', hc, hbody⟩ := liveTable?_eq_some_iff.1 ht
  obtain ⟨o, ho, rfl⟩ := get?_modify_eq_some ho'
  by_cases hij : j = i
  · rw [if_pos hij] at hc hbody
    rw [Object.table?_modifyTable] at hbody
    obtain ⟨t₀, ht₀, rfl⟩ := Option.map_eq_some_iff.1 hbody
    exact .inr ⟨hij.symm, t₀, liveTable?_eq_some_iff.2 ⟨o, ho, hc, ht₀⟩, rfl⟩
  · rw [if_neg hij] at hc hbody
    exact .inl ⟨Ne.symm hij, liveTable?_eq_some_iff.2 ⟨o, ho, hc, hbody⟩⟩

/-- Was the table with a serial number edited, and every other live table left alone? -/
def TableEdited (r r' : Registry Object) (i : Nat) (e : Table.Edit (Listed Action)) : Prop :=
  ∀ j t, r'.liveTable? j = some t →
    j ≠ i ∧ r.liveTable? j = some t ∨
      j = i ∧ ∃ t₀, r.liveTable? i = some t₀ ∧ e.result t₀ = .ok (t, ())

theorem TableEdited.of_modifyTable {e : Table.Edit (Listed Action)}
    {f : Table (Listed Action) → Table (Listed Action)}
    (hf : ∀ t₀, r.liveTable? i = some t₀ → e.result t₀ = .ok (f t₀, ())) :
    TableEdited r (r.modifyBody i (.modifyTable f)) i e := by
  intro j t ht
  rcases liveTable?_of_modifyTable ht with hother | ⟨rfl, t₀, ht₀, rfl⟩
  · exact .inl hother
  · exact .inr ⟨rfl, t₀, ht₀, hf t₀ ht₀⟩

theorem TableEdited.after {e : Table.Edit (Listed Action)} (hfrom : TablesFrom r r')
    (h : TableEdited r' r'' i e) : TableEdited r r'' i e := by
  intro j t ht
  rcases h j t ht with ⟨hne, hj⟩ | ⟨rfl, t₀, ht₀, hresult⟩
  · exact .inl ⟨hne, hfrom j t hj⟩
  · exact .inr ⟨rfl, t₀, hfrom j t₀ ht₀, hresult⟩

theorem TableEdited.before {e : Table.Edit (Listed Action)} (h : TableEdited r r' i e)
    (hfrom : TablesFrom r' r'') : TableEdited r r'' i e :=
  fun j t ht => h j t (hfrom j t ht)

end Registry

theorem Listing.run_concat {α : Type} {edits : List (Table.Edit α)} {e : Table.Edit α}
    {m : Listing α} (h : (Listing.run edits).edit e = .ok m) : Listing.run (edits ++ [e]) = m := by
  rw [run, List.foldl_append, ← run]
  simp only [List.foldl_cons, List.foldl_nil, h]

/-! ### Histories -/

/-- What a table was created with and how it was edited, in terms of configurations. -/
structure TableHistory where
  defaults : List ListedConfig
  edits : List (Table.Edit ListedConfig)

namespace TableHistory

/-- The entries of the table with their configurations. -/
def entries (h : TableHistory) : Listing ListedConfig := Listing.run h.edits

/-- The history with one more edit. -/
def extend (h : TableHistory) (e : Table.Edit ListedConfig) : TableHistory :=
  { h with edits := h.edits ++ [e] }

end TableHistory

/-- The edit that a call makes, and the serial number of the table. -/
def Call.edit? : Call → Option (Nat × Table.Edit ListedConfig)
  | .addEntry table entry config => some (table, .add entry config.actions config.position)
  | .removeEntry table entry => some (table, .remove entry)
  | .clearTable table => some (table, .clear)
  | _ => none

/-- The history that begins with a call. -/
def Call.creates? : Call → Option TableHistory
  | .createTable _ config => some ⟨config.defaultActions, []⟩
  | _ => none

namespace Caller

/-- The history of the table with a serial number after a call. -/
def noted (s : Caller) (call : Call) (i : Nat) (h : Option TableHistory) : Option TableHistory :=
  if (s.perform call).1 then
    match call.creates?, call.edit? with
    | some new, _ => if i = s.context.registry.objects.length then some new else h
    | none, some (j, e) => if i = j then h.map (·.extend e) else h
    | none, none => h
  else h

/-- The history of the table with a serial number after some calls. -/
def history (c : Context) (i : Nat) (calls : List Call) : Option TableHistory :=
  (calls.foldl (fun p call => ((p.1.perform call).2, p.1.noted call i p.2)) (start c, none)).2

theorem history_concat (c : Context) (i : Nat) (calls : List Call) (call : Call) :
    history c i (calls ++ [call]) = (run c calls).noted call i (history c i calls) := by
  have hrun : ∀ calls : List Call, (calls.foldl (fun p call => ((p.1.perform call).2,
      p.1.noted call i p.2)) (start c, (none : Option TableHistory))).1 = run c calls := by
    intro calls
    induction calls using List.reverseRecOn with
    | nil => rfl
    | append_singleton calls call ih =>
      rw [run, List.foldl_append, List.foldl_append, ← run, ← ih]
      rfl
  rw [history, List.foldl_append, ← hrun]
  rfl

/-! ### What a call does to tables -/

/-- Is the second edit the first one with its configurations built? -/
inductive Builds : Table.Edit ListedConfig → Table.Edit (Listed Action) → Prop where
  | add {entry : String} {configs : List ListedConfig} {actions : ActionList} {pos : Position} :
    Build.Makes configs actions → Builds (.add entry configs pos) (.add entry actions pos)
  | remove {entry : String} : Builds (.remove entry) (.remove entry)
  | clear : Builds .clear .clear

/-- Where a live table after a call comes from, and what is noted down. -/
inductive Traces (s : Caller) (call : Call) (i : Nat) (t : Table (Listed Action)) : Prop where
  | kept : s.context.registry.liveTable? i = some t → (∀ h, s.noted call i h = h) →
    Traces s call i t
  | created {configs : List ListedConfig} {actions : ActionList} : Build.Makes configs actions →
    t = .empty actions → (∀ h, s.noted call i h = some ⟨configs, []⟩) → Traces s call i t
  | edited {e : Table.Edit ListedConfig} {built : Table.Edit (Listed Action)}
    {t₀ : Table (Listed Action)} : s.context.registry.liveTable? i = some t₀ → Builds e built →
    built.result t₀ = .ok (t, ()) → (∀ h, s.noted call i h = h.map (·.extend e)) → Traces s call i t

end Caller

namespace Context

open Attempt Registry

variable {r : Registry Object} {c : Context} {n i : Nat} {t : Table (Listed Action)}
  {held : Multiset Nat} {forced : List Nat}

theorem table_of_liveTable? (h : c.registry.liveTable? i = some t) :
    (c.body? i >>= Object.table?) = some t := by
  obtain ⟨o, ho, -, hbody⟩ := liveTable?_eq_some_iff.1 h
  simp [body?, ho, hbody]

theorem tablesFrom_release (c : Context) (serials : List Nat) :
    TablesFrom c.registry (c.release serials).registry := by
  rw [Context.release]
  split_ifs
  · exact .releaseAll _ _
  · exact .refl _

/-- What is built for a table or an entry, with the registry after it. -/
theorem built_spec (hr : r.Balanced held forced []) (configs : List ListedConfig) :
    Triple (Holding r [] n) (Build.actions configs)
      (fun l c => Build.Makes configs l ∧ c.registry = r.takeAll (Action.refsOfList l))
      fun _ => True :=
  ((Build.actions_spec hr configs).and (Build.actions_makes configs)).mono
    (fun _ hc => ⟨hc, trivial⟩) (fun _ _ ⟨⟨_, _, _, hc⟩, hmakes⟩ => ⟨hmakes, hc.registry⟩)
    fun _ _ => trivial

theorem tablesFrom_letGo (c : Context) (held gone : List Part) :
    TablesFrom c.registry (c.letGo held gone).registry :=
  letGo_induction (P := fun c' => TablesFrom c.registry c'.registry)
    (fun serials h => h.trans (.lend _ serials))
    (fun serials h => h.trans (tablesFrom_release _ serials)) held gone (.refl _)

theorem addEntryTo_edits (hr : r.Balanced held forced []) (i : Nat) (entry : String)
    (config : EntryConfig) :
    Triple (Holding r [] n) (addEntryTo i entry config)
      (fun _ c => ∃ actions, Build.Makes config.actions actions ∧
        TableEdited r c.registry i (.add entry actions config.position)) fun _ => True := by
  unfold addEntryTo
  refine Triple.bind (built_spec hr config.actions).adapt fun actions => ?_
  refine Triple.get_bind fun s hs => ?_
  obtain ⟨hmakes, hregistry⟩ := hs
  split
  · rename_i t' hins
    refine Triple.modify ?_
    rintro c rfl
    obtain ⟨t₁, ht₁, hins⟩ := Option.bind_eq_some_iff.1 hins
    have hfrom : TablesFrom r c.registry := hregistry ▸ .takeAll r _
    refine ⟨actions, hmakes, .after hfrom (.of_modifyTable fun t₀ ht₀ => ?_)⟩
    obtain rfl := Option.some.inj ((table_of_liveTable? ht₀).symm.trans ht₁)
    simp only [Table.Edit.result, hins]
  · exact Build.triple_after fun _ => Triple.throw fun _ _ => trivial

theorem removeEntryOf_edits (i : Nat) (entry : String) :
    Triple (·.registry = r) (removeEntryOf i entry)
      (fun _ c => TableEdited r c.registry i (.remove entry)) fun _ => True := by
  unfold removeEntryOf
  refine Triple.get_bind fun s hs => ?_
  split
  · rename_i t' actions hrem
    refine Triple.modify ?_
    rintro c rfl
    obtain ⟨t₁, ht₁, hrem⟩ := Option.bind_eq_some_iff.1 hrem
    refine hs ▸ TableEdited.before (.of_modifyTable fun t₀ ht₀ => ?_) (tablesFrom_release _ _)
    obtain rfl := Option.some.inj ((table_of_liveTable? ht₀).symm.trans ht₁)
    simp only [Table.Edit.result, hrem]
  · exact Triple.throw fun _ _ => trivial

theorem clearTable_edits (c : Context) (i : Nat) :
    TableEdited c.registry (c.clearTable i).registry i .clear := by
  unfold clearTable
  split
  · exact TableEdited.before (.of_modifyTable fun _ _ => rfl) (tablesFrom_release _ _)
  · rename_i hnone
    intro j t ht
    by_cases hij : j = i
    · subst hij
      cases (table_of_liveTable? ht).symm.trans hnone
    · exact .inl ⟨hij, ht⟩

theorem updatePort_tablesFrom (hr : r.Balanced held forced []) (i : Nat) (config : PortConfig) :
    Triple (Holding r [] n) (updatePort i config) (fun _ c => TablesFrom r c.registry)
      fun _ => True := by
  unfold updatePort
  refine Triple.bind (built_spec hr config.actions) fun actions => ?_
  refine Triple.get_bind fun s hs => Triple.modify ?_
  rintro c rfl
  have hfrom : TablesFrom r c.registry := hs.2 ▸ .takeAll r _
  exact (hfrom.trans (.modifyBody c.registry i (Object.table?_modifyPort _))).trans
    (tablesFrom_release (c.modifyBody i _) _)

/-- A table that is created is the new object and has no entries. -/
theorem createTable_creates (hr : r.Balanced held forced []) (id : String) (config : TableConfig) :
    Triple (Holding r [] n) (createTable id config)
      (fun _ c => ∃ actions, Build.Makes config.defaultActions actions ∧
        ∀ i t, c.registry.liveTable? i = some t → i ≠ r.objects.length ∧ r.liveTable? i = some t ∨
          i = r.objects.length ∧ t = .empty actions) fun _ => True := by
  unfold createTable
  refine Triple.bind (built_spec hr config.defaultActions) fun actions => ?_
  refine Triple.get_bind fun s hs => ?_
  obtain ⟨hmakes, hregistry⟩ := hs
  split
  · rename_i nid c hadd
    refine Triple.bind (R := fun _ s => s = c) (Triple.set fun _ _ => rfl) fun _ =>
      Triple.pure ?_
    rintro _ rfl
    obtain ⟨⟨nid', r'⟩, hins, heq⟩ := bind_eq_ok_iff.1 hadd
    cases heq
    refine ⟨actions, hmakes, fun i t ht => ?_⟩
    rw [notify_registry] at ht
    rw [hregistry] at hins
    rcases liveTable?_of_insert hins ht with hold | ⟨rfl, hbody⟩
    · have hr := TablesFrom.takeAll r _ i t hold
      exact .inl ⟨Nat.ne_of_lt (lt_length_of_liveTable? hr), hr⟩
    · cases hbody
      exact .inr ⟨length_takeAll r _, rfl⟩
  · exact Build.triple_after fun _ => Triple.throw fun _ _ => trivial

end Context

namespace Caller

open Attempt Registry Context

variable {s : Caller} {call : Call} {i : Nat} {t : Table (Listed Action)} {forced : List Nat}

theorem noted_of_failed (hfail : (s.perform call).1 = false) (i : Nat) (h : Option TableHistory) :
    s.noted call i h = h :=
  if_neg (by rw [hfail]; exact Bool.false_ne_true)

theorem noted_of_other (hcreates : call.creates? = none) (hedit : call.edit? = none) (i : Nat)
    (h : Option TableHistory) : s.noted call i h = h := by
  rw [noted, hcreates, hedit]
  exact ite_self _

/-- A call that succeeds and edits a table is noted down for that table. -/
theorem Traces.of_edited {j : Nat} {e : Table.Edit ListedConfig}
    {built : Table.Edit (Listed Action)} (hok : (s.perform call).1 = true)
    (hcreates : call.creates? = none) (hedit : call.edit? = some (j, e)) (hbuilds : Builds e built)
    (h : TableEdited s.context.registry (s.perform call).2.context.registry j built)
    (ht : (s.perform call).2.context.registry.liveTable? i = some t) : s.Traces call i t := by
  have hnoted (h : Option TableHistory) :
      s.noted call i h = if i = j then h.map (·.extend e) else h := by
    rw [noted, if_pos hok, hcreates, hedit]
  rcases h i t ht with ⟨hne, hkept⟩ | ⟨rfl, t₀, ht₀, hresult⟩
  · exact .kept hkept fun h => (hnoted h).trans (if_neg hne)
  · exact .edited ht₀ hbuilds hresult fun h => (hnoted h).trans (if_pos rfl)

theorem attempt_of_ok {ε α : Type} {x : Attempt ε α} {next : α → Caller → Caller}
    (h : (s.attempt x next).1 = true) :
    ∃ a c, x s.context = (.ok a, c) ∧ (s.attempt x next).2 = next a { s with context := c } := by
  unfold attempt at h ⊢
  split at h
  · rename_i a c hx
    exact ⟨a, c, hx, rfl⟩
  · cases h

theorem onLive_of_ok {serial : Nat} {kind : ObjectKind} {act : Bool × Caller}
    (h : (s.onLive serial kind act).1 = true) : s.onLive serial kind act = act := by
  unfold onLive at h ⊢
  split_ifs at h ⊢
  rfl

/-- Registering an object that is no table leaves the tables alone. -/
theorem tablesFrom_registered {id : String} {body : Object} {next : Caller → Caller}
    (hbody : body.table? = none)
    (hnext : ∀ c, (next { s with context := c }).context = c)
    (h : (s.registered (s.context.addObject id body) next).1 = true) :
    TablesFrom s.context.registry
      (s.registered (s.context.addObject id body) next).2.context.registry := by
  unfold registered at h ⊢
  split at h
  · rename_i nid c hadd
    obtain ⟨⟨nid', r'⟩, hins, heq⟩ := bind_eq_ok_iff.1 hadd
    cases heq
    intro i t ht
    rw [hnext, notify_registry] at ht
    rcases liveTable?_of_insert hins ht with hold | ⟨-, hnew⟩
    · exact hold
    · cases hbody.symm.trans hnew
  · cases h

/-- A call that neither creates nor edits a table leaves the tables alone. -/
theorem tablesFrom_perform (hs : s.Sound forced) (hcreates : call.creates? = none)
    (hedit : call.edit? = none) (hok : (s.perform call).1 = true) :
    TablesFrom s.context.registry (s.perform call).2.context.registry := by
  have hbalanced := hs.now.balanced
  cases call with
  | createTable | addEntry | removeEntry | clearTable => simp [Call.creates?, Call.edit?] at *
  | createCounter id ids => exact tablesFrom_registered rfl (fun _ => rfl) hok
  | createFlowCounter id => exact tablesFrom_registered rfl (fun _ => rfl) hok
  | addPort id port =>
    rw [Caller.perform] at hok ⊢
    split at hok
    · exact tablesFrom_registered rfl (fun _ => rfl) hok
    · cases hok
  | removeObject id =>
    rw [Caller.perform] at hok ⊢
    split at hok
    · rename_i c hrem
      obtain ⟨⟨nid, r'⟩, hremove, heq⟩ := bind_eq_ok_iff.1 hrem
      cases heq
      simp only [notify_registry]
      exact .remove hremove
    · cases hok
  | updatePort port config =>
    have hact := onLive_of_ok hok
    obtain ⟨_, c, hrun, hnext⟩ := attempt_of_ok ((congrArg Prod.fst hact).symm.trans hok)
    rw [Caller.perform, hact, hnext]
    exact (updatePort_tablesFrom hbalanced port config).of_ok hs.now.holding hrun
  | newPort => exact .refl _
  | updateHeld port config =>
    rw [Caller.perform] at hok ⊢
    split at hok
    · obtain ⟨l, c, hrun, hnext⟩ := attempt_of_ok hok
      have hbuilt := ((built_spec hbalanced config.actions).of_ok hs.now.holding hrun).2
      rw [hnext]
      exact (TablesFrom.takeAll _ _).trans (hbuilt ▸ tablesFrom_letGo c _ _)
    · cases hok
  | dropPort port =>
    rw [Caller.perform] at hok ⊢
    split at hok
    · exact tablesFrom_letGo _ _ _
    · cases hok
  | build configs =>
    obtain ⟨l, c, hrun, hnext⟩ := attempt_of_ok hok
    have hbuilt := ((built_spec hbalanced configs).of_ok hs.now.holding hrun).2
    rw [Caller.perform, hnext]
    exact hbuilt ▸ TablesFrom.takeAll _ _
  | take source =>
    rw [Caller.perform] at hok ⊢
    split at hok
    · exact .lend _ _
    · cases hok
  | share picks => exact .refl _
  | drop list =>
    rw [Caller.perform] at hok ⊢
    split at hok
    · exact tablesFrom_letGo _ _ _
    · cases hok

/-- Every live table after a call was left alone, created or edited by it. -/
theorem traces_perform (hs : s.Sound forced)
    (ht : (s.perform call).2.context.registry.liveTable? i = some t) : s.Traces call i t := by
  have hbalanced := hs.now.balanced
  cases hok : (s.perform call).1 with
  | false =>
    rw [((hs.perform call).unchanged hok).1] at ht
    exact .kept ht fun h => noted_of_failed hok i h
  | true =>
    cases call with
    | createTable id config =>
      obtain ⟨nid, c, hrun, hnext⟩ := attempt_of_ok hok
      obtain ⟨actions, hmakes, hlive⟩ :=
        (createTable_creates hbalanced id config).of_ok hs.now.holding hrun
      rw [Caller.perform, hnext] at ht
      have hnoted (h : Option TableHistory) : s.noted (.createTable id config) i h =
          if i = s.context.registry.objects.length then some ⟨config.defaultActions, []⟩ else h :=
        if_pos hok
      rcases hlive i t ht with ⟨hne, hkept⟩ | ⟨rfl, rfl⟩
      · exact .kept hkept fun h => (hnoted h).trans (if_neg hne)
      · exact .created hmakes rfl fun h => (hnoted h).trans (if_pos rfl)
    | addEntry table entry config =>
      have hact := onLive_of_ok hok
      obtain ⟨_, c, hrun, hnext⟩ := attempt_of_ok ((congrArg Prod.fst hact).symm.trans hok)
      obtain ⟨actions, hmakes, hedited⟩ :=
        (addEntryTo_edits hbalanced table entry config).of_ok hs.now.holding hrun
      refine .of_edited hok rfl rfl (.add hmakes) ?_ ht
      rw [Caller.perform, hact, hnext]
      exact hedited
    | removeEntry table entry =>
      have hact := onLive_of_ok hok
      obtain ⟨_, c, hrun, hnext⟩ := attempt_of_ok ((congrArg Prod.fst hact).symm.trans hok)
      refine .of_edited hok rfl rfl .remove ?_ ht
      rw [Caller.perform, hact, hnext]
      exact (removeEntryOf_edits table entry).of_ok rfl hrun
    | clearTable table =>
      refine .of_edited hok rfl rfl .clear ?_ ht
      rw [Caller.perform, onLive_of_ok hok]
      exact clearTable_edits _ _
    | _ =>
      exact .kept (tablesFrom_perform hs rfl rfl hok i t ht) fun h => noted_of_other rfl rfl i h

/-! ### Tables and their histories -/

/-- Is a listing of actions that of configurations, entry by entry? -/
def Realizes (m : Listing ListedConfig) (built : Listing (Listed Action)) : Prop :=
  List.Forall₂ (fun e b => e.1 = b.1 ∧ Build.Makes e.2 b.2) m built

section Realizes

variable {m : Listing ListedConfig} {built built' : Listing (Listed Action)}

theorem Realizes.names (h : Realizes m built) : m.map (·.1) = built.map (·.1) := by
  induction h with
  | nil => rfl
  | cons he _ ih => rw [List.map_cons, List.map_cons, he.1, ih]

theorem Realizes.filter (h : Realizes m built) (id : String) :
    Realizes (m.filter (·.1 ≠ id)) (built.filter (·.1 ≠ id)) := by
  induction h with
  | nil => exact .nil
  | @cons e b _ _ he _ ih =>
    by_cases hid : b.1 = id
    · rwa [List.filter_cons_of_neg (by simp [he.1, hid]), List.filter_cons_of_neg (by simp [hid])]
    · rw [List.filter_cons_of_pos (by simp [he.1, hid]), List.filter_cons_of_pos (by simp [hid])]
      exact .cons he ih

/-- Edits lead from a listing and what it builds to to such listings. -/
theorem Realizes.edit {e : Table.Edit ListedConfig} {be : Table.Edit (Listed Action)}
    (h : Realizes m built) (he : Builds e be) (hedit : built.edit be = .ok built') :
    ∃ m', m.edit e = .ok m' ∧ Realizes m' built' := by
  cases he with
  | @add entry configs actions pos hmakes =>
    simp only [Listing.edit, ← h.names] at hedit ⊢
    split_ifs at hedit ⊢
    cases pos with
    | head =>
      cases hedit
      exact ⟨_, rfl, .cons ⟨rfl, hmakes⟩ h⟩
    | tail =>
      cases hedit
      exact ⟨_, rfl, List.rel_append h (.cons ⟨rfl, hmakes⟩ .nil)⟩
  | @remove entry =>
    simp only [Listing.edit, ← h.names] at hedit ⊢
    split_ifs at hedit ⊢
    cases hedit
    exact ⟨_, rfl, h.filter entry⟩
  | clear =>
    cases hedit
    exact ⟨[], rfl, .nil⟩

/-- What is listed is nothing to run exactly if no entry has an active configuration. -/
theorem Realizes.flat_eq_nil_iff (h : Realizes m built) :
    built.flat = [] ↔ ∀ e ∈ m, Build.active e.2 = [] := by
  induction h with
  | nil => simp [Listing.flat]
  | cons he _ ih =>
    rw [Listing.flat, List.flatMap_cons, List.append_eq_nil_iff, ← Listing.flat, ih,
      he.2.eq_nil_iff, List.forall_mem_cons]

end Realizes

/-- A table with its history, and the actions that its entries were built to. -/
structure Records (t : Table (Listed Action)) (h : TableHistory)
    (built : Listing (Listed Action)) : Prop where
  shows : t.Shows built
  entries : Realizes h.entries built
  defaults : Build.Makes h.defaults t.default

theorem Records.lookup_eq {t : Table (Listed Action)} {h : TableHistory}
    {built : Listing (Listed Action)} (hrecords : Records t h built) :
    t.lookup = if ∀ e ∈ h.entries, Build.active e.2 = [] then t.default else built.flat := by
  rw [Table.lookup, hrecords.shows.list]
  simp only [List.isEmpty_iff, hrecords.entries.flat_eq_nil_iff]

/-- Where a lookup follows the rule that the default actions stand in for a table without
entries. -/
theorem Records.follows_iff {t : Table (Listed Action)} {h : TableHistory}
    {built : Listing (Listed Action)} (hrecords : Records t h built) :
    (t.lookup = if h.entries = [] then t.default else built.flat) ↔
      h.entries = [] ∨ (∃ e ∈ h.entries, Build.active e.2 ≠ []) ∨ Build.active h.defaults = [] := by
  rw [hrecords.lookup_eq]
  by_cases hidle : ∀ e ∈ h.entries, Build.active e.2 = []
  · have hflat := hrecords.entries.flat_eq_nil_iff.2 hidle
    have hactive : ¬ ∃ e ∈ h.entries, Build.active e.2 ≠ [] :=
      fun ⟨e, he, hne⟩ => hne (hidle e he)
    rw [if_pos hidle, hflat]
    by_cases hnone : h.entries = []
    · rw [if_pos hnone]
      exact iff_of_true rfl (.inl hnone)
    · rw [if_neg hnone, hrecords.defaults.eq_nil_iff, or_iff_right hnone, or_iff_right hactive]
  · have hactive : ∃ e ∈ h.entries, Build.active e.2 ≠ [] := by
      simpa only [not_forall, exists_prop] using hidle
    have hsome : h.entries ≠ [] := fun hnone => hidle (hnone ▸ List.forall_mem_nil _)
    rw [if_neg hidle, if_neg hsome]
    exact iff_of_true rfl (.inr (.inl hactive))

theorem default_of_result {t t' : Table (Listed Action)} {e : Table.Edit (Listed Action)}
    (h : e.result t = .ok (t', ())) : t'.default = t.default := by
  cases e with
  | add id actions pos =>
    by_cases hid : t.spans.has id = true
    · simp [Table.Edit.result, Table.insert?, hid] at h
    · cases pos <;> simp [Table.Edit.result, Table.insert?, hid] at h <;> cases h <;> rfl
  | remove id =>
    rw [Table.Edit.result, Table.remove?] at h
    cases hspan : t.spans.get? id with
    | none => rw [hspan] at h; cases h
    | some span => rw [hspan] at h; cases h; rfl
  | clear => cases h; rfl

/-- The table is in line with its history after each call. -/
theorem records_run (c : Context) (calls : List Call) (i : Nat) {t : Table (Listed Action)}
    (ht : (run c calls).context.registry.liveTable? i = some t) :
    ∃ h built, history c i calls = some h ∧ Records t h built := by
  induction calls using List.reverseRecOn generalizing t with
  | nil => cases ht
  | append_singleton calls call ih =>
    rw [run, List.foldl_append, ← run] at ht
    rw [history_concat]
    cases traces_perform (sound_run c calls) ht with
    | kept hkept hnoted =>
      rw [hnoted]
      exact ih hkept
    | created hmakes heq hnoted =>
      subst heq
      exact ⟨_, [], hnoted _, .empty _, .nil, hmakes⟩
    | @edited e be t₀ ht₀ hbuilds hresult hnoted =>
      obtain ⟨h, built, hh, hrecords⟩ := ih ht₀
      have hshows := hrecords.shows.edit be
      cases hedit : built.edit be with
      | error err =>
        rw [hedit] at hshows
        cases hshows.symm.trans hresult
      | ok built' =>
        rw [hedit] at hshows
        obtain ⟨t', ht', hshows'⟩ := hshows
        cases ht'.symm.trans hresult
        obtain ⟨m', hm', hrealizes⟩ := hrecords.entries.edit hbuilds hedit
        refine ⟨h.extend e, built', by rw [hnoted, hh]; rfl, hshows', ?_, ?_⟩
        · rw [TableHistory.entries, TableHistory.extend, Listing.run_concat hm']
          exact hrealizes
        · rw [default_of_result hresult]
          exact hrecords.defaults

theorem perform_lookup (r : Run) (table : Ref) {t : Table (Listed Action)}
    (h : r.context.registry.liveTable? table.serial = some t) :
    r.perform (.lookup table) = (.andThen t.lookup, r) := by
  obtain ⟨o, ho, hc, -⟩ := liveTable?_eq_some_iff.1 h
  have husable : r.isUsable table = true := by simp [Run.isUsable, Registry.isCleaned, ho, hc]
  simp only [Run.perform, Run.lookup, husable, table_of_liveTable? h]

/-- A lookup goes on with the actions that the entries of the table were built to, one entry after
the other, or with the default actions if no entry has a configuration that builds an action. That
is the rule that the default actions stand in for a table without entries, except where entries are
there and build to nothing, and the default actions do not. -/
theorem lookups_run (c : Context) (calls : List Call) {i : Nat} {t : Table (Listed Action)}
    (ht : (run c calls).context.registry.liveTable? i = some t) :
    ∃ h built, history c i calls = some h ∧ Realizes h.entries built ∧
      Build.Makes h.defaults t.default ∧ (t.entries = [] ↔ h.entries = []) ∧
      (∀ (r : Run) (table : Ref), r.context = (run c calls).context → table.serial = i →
        r.perform (.lookup table) =
          (.andThen (if ∀ e ∈ h.entries, Build.active e.2 = [] then t.default else built.flat), r) ∧
        (r.perform (.lookup table) =
            (.andThen (if h.entries = [] then t.default else built.flat), r) ↔
          h.entries = [] ∨ (∃ e ∈ h.entries, Build.active e.2 ≠ []) ∨
            Build.active h.defaults = [])) := by
  obtain ⟨h, built, hh, hshows, hrealizes, hdefaults⟩ := records_run c calls i ht
  refine ⟨h, built, hh, hrealizes, hdefaults, ?_, fun r table hcontext hserial => ?_⟩
  · have hnames : t.entries.Perm (h.entries.map (·.1)) :=
      hrealizes.names ▸ hshows.perm_entryActions.map _
    constructor
    · intro hnone
      rw [hnone] at hnames
      simpa using hnames.symm.eq_nil
    · intro hnone
      rw [hnone] at hnames
      exact hnames.eq_nil
  · have hrecords : Records t h built := ⟨hshows, hrealizes, hdefaults⟩
    have hlookup := perform_lookup r table (hcontext ▸ hserial ▸ ht)
    rw [hlookup, ← hrecords.lookup_eq]
    exact ⟨rfl, by rw [← hrecords.follows_iff]; simp [Outcome.andThen]⟩

/-- Of two entries the first one builds to nothing, so a lookup goes on with the second one. -/
theorem lookups_of_two_entries : ∃ t built,
    (run (.fresh "main" 0) [.createTable "t" ⟨[⟨.drop, false⟩]⟩,
      .addEntry 0 "idle" ⟨[⟨.proceed, false⟩], .tail⟩,
      .addEntry 0 "count" ⟨[⟨.debug, false⟩], .tail⟩]).context.registry.liveTable? 0 = some t ∧
    Realizes [("idle", [⟨.proceed, false⟩]), ("count", [⟨.debug, false⟩])] built ∧
    ∀ (r : Run) (table : Ref), r.context = (run (.fresh "main" 0)
        [.createTable "t" ⟨[⟨.drop, false⟩]⟩, .addEntry 0 "idle" ⟨[⟨.proceed, false⟩], .tail⟩,
          .addEntry 0 "count" ⟨[⟨.debug, false⟩], .tail⟩]).context → table.serial = 0 →
      r.perform (.lookup table) = (.andThen built.flat, r) := by
  have ht : (run (.fresh "main" 0) [.createTable "t" ⟨[⟨.drop, false⟩]⟩,
      .addEntry 0 "idle" ⟨[⟨.proceed, false⟩], .tail⟩,
      .addEntry 0 "count" ⟨[⟨.debug, false⟩], .tail⟩]).context.registry.liveTable? 0 = some _ := rfl
  obtain ⟨h, built, hh, hrealizes, -, -, hlookup⟩ := lookups_run _ _ ht
  cases hh
  refine ⟨_, built, ht, hrealizes, fun r table hcontext hserial => ?_⟩
  have hactive : ∃ e ∈ [("idle", [⟨.proceed, false⟩]), ("count", [⟨.debug, false⟩])],
      Build.active e.2 ≠ [] :=
    ⟨_, List.mem_cons_of_mem _ List.mem_cons_self, by decide⟩
  exact (hlookup r table hcontext hserial).2.2 (.inr (.inl hactive))

/-- An entry that only lets the packet go on leaves the packet to the default actions, and those
drop it. -/
theorem lookup_of_idle_entry : ∃ t a,
    (run (.fresh "main" 0) [.createTable "t" ⟨[⟨.drop, false⟩]⟩,
      .addEntry 0 "idle" ⟨[⟨.proceed, false⟩], .tail⟩]).context.registry.liveTable? 0 = some t ∧
    t.entries.length = 1 ∧ t.default = [a] ∧ a.action = .drop ∧
    ∀ (r : Run) (table : Ref), r.context = (run (.fresh "main" 0)
        [.createTable "t" ⟨[⟨.drop, false⟩]⟩,
          .addEntry 0 "idle" ⟨[⟨.proceed, false⟩], .tail⟩]).context → table.serial = 0 →
      r.perform (.lookup table) = (.andThen [a], r) := by
  have ht : (run (.fresh "main" 0) [.createTable "t" ⟨[⟨.drop, false⟩]⟩,
      .addEntry 0 "idle" ⟨[⟨.proceed, false⟩], .tail⟩]).context.registry.liveTable? 0 = some _ :=
    rfl
  refine ⟨_, _, ht, ?_, rfl, rfl, fun r table hcontext hserial => ?_⟩
  · rw [Table.entries, Table.entryActions, List.length_map, List.length_map, List.length_mergeSort]
    rfl
  · exact perform_lookup r table (by rw [hcontext, hserial]; exact ht)

end Caller

end Dataplane

import Dataplane.Proofs.Context.Attempts
import Dataplane.Proofs.Context.Sharing
import Dataplane.Proofs.Registry.Taking
import Mathlib.Tactic.Cases

/-!
# What building takes

Building actions takes a reference for every time that the actions name an object, at any depth. If
it fails, it has taken none.

## The model

`Action.targets` lists the objects that an action names, each with the kind it is used as. A `Ledger`
is anything that holds of a context while actions are built, given the targets that were taken so
far, and that taking and releasing references keep up. Each part of building has a lemma for every
ledger: it starts with some targets taken already and ends with those of the result besides, or it
fails with what was taken before.

The ledger at hand is `Context.Holding r taken n c`. It says that the registry of the context `c` is
`r` but for the references in `taken`, and that no serial number below `n` is given to an action that
is still to be built.
-/

namespace Dataplane

namespace Action

mutual

/-- The objects that an action refers to, each with the kind it is used as. -/
def targets : Action → List (Nat × ObjectKind)
  | transmit port _ => [(port.serial, .port)]
  | lookup table => [(table.serial, .table)]
  | mirror port actions _ =>
    (port.map fun port => (port.serial, ObjectKind.port)).toList ++ targetsOfList actions
  | select _ _ lists => targetsOfLists lists
  | flowCount counter => [(counter.serial, .flowCounter)]
  | jump next _ => targetsOfList next
  | _ => []

/-- The targets of an action of a list. -/
def targetsOfListed : Listed Action → List (Nat × ObjectKind)
  | ⟨action, _, _, _⟩ => targets action

/-- The targets of the actions of a list. -/
def targetsOfList : List (Listed Action) → List (Nat × ObjectKind)
  | [] => []
  | a :: as => targetsOfListed a ++ targetsOfList as

/-- The targets of the actions of some lists. -/
def targetsOfLists : List (List (Listed Action)) → List (Nat × ObjectKind)
  | [] => []
  | l :: ls => targetsOfList l ++ targetsOfLists ls

end

mutual

/-- The references of an action are to its targets. -/
theorem map_targets : (a : Action) → a.targets.map Prod.fst = a.refs
  | transmit .. | lookup _ | flowCount _ => rfl
  | mirror port actions _ => by
    rw [targets, List.map_append, map_targetsOfList actions]
    cases port <;> rfl
  | select _ _ lists => map_targetsOfLists lists
  | jump next _ => map_targetsOfList next
  | drop | debug | evaluate | decap _ | encap _ | reparse .. | output | swapOutput | ratelimit ..
  | update _ | stamp .. | record .. => rfl

theorem map_targetsOfListed : (a : Listed Action) →
    (targetsOfListed a).map Prod.fst = Part.refsOf (partsOfListed a)
  | ⟨action, _, _, _⟩ => map_targets action

theorem map_targetsOfList : (l : List (Listed Action)) →
    (targetsOfList l).map Prod.fst = refsOfList l
  | [] => rfl
  | a :: as => by
    rw [targetsOfList, List.map_append, map_targetsOfListed a, map_targetsOfList as, refsOfList,
      refsOfList, partsOfList, Part.refsOf_append]

theorem map_targetsOfLists : (ls : List (List (Listed Action))) →
    (targetsOfLists ls).map Prod.fst = refsOfLists ls
  | [] => rfl
  | l :: ls => by
    rw [targetsOfLists, List.map_append, map_targetsOfList l, map_targetsOfLists ls, refsOfList,
      refsOfLists, refsOfLists, partsOfLists, Part.refsOf_append]

end

theorem targetsOfList_eq (l : ActionList) : targetsOfList l = l.flatMap (·.action.targets) := by
  induction l with
  | nil => rfl
  | cons a as ih =>
    obtain ⟨action, _, _, _⟩ := a
    simp [targetsOfList, targetsOfListed, ih]

theorem targetsOfLists_eq (ls : List ActionList) :
    targetsOfLists ls = ls.flatMap targetsOfList := by
  induction ls with
  | nil => rfl
  | cons l ls ih => simp [targetsOfLists, ih]

end Action

namespace Context

variable {r : Registry Object} {taken serials : List Nat} {n m : Nat} {c : Context}

/-- Have two contexts the same objects, are both open or closed, and have the takers of notifications
heard the same? -/
structure Alike (c c' : Context) : Prop where
  registry : c'.registry = c.registry
  isOpen : c'.isOpen = c.isOpen
  notifies : c'.notifies = c.notifies
  events : c'.events = c.events

/-- The registry of an open context is the given one but for some references that were taken, and
serial numbers are given to actions from the given one on. -/
structure Holding (r : Registry Object) (taken : List Nat) (n : Nat) (c : Context) : Prop where
  registry : c.registry = r.takeAll taken
  anchored : ∀ i ∈ taken, r.Anchored i
  isOpen : c.isOpen = true
  serial : n ≤ c.nextSerial

theorem Holding.mono (h : Holding r taken m c) (hn : n ≤ m) : Holding r taken n c :=
  ⟨h.registry, h.anchored, h.isOpen, Nat.le_trans hn h.serial⟩

/-- What was taken last is given back. -/
theorem Holding.release (h : Holding r (taken ++ serials) n c) :
    Holding r taken n (c.release serials) := by
  have hanchored : ∀ i ∈ serials, (r.takeAll taken).Anchored i := fun i hi =>
    (h.anchored i (List.mem_append_right _ hi)).takeAll taken
  have hrelease : c.release serials = c.withRegistry (r.takeAll taken) := by
    rw [Context.release, if_pos h.isOpen, h.registry, Registry.takeAll_append,
      Registry.releaseAll_takeAll hanchored]
  rw [hrelease]
  exact ⟨rfl, fun i hi => h.anchored i (List.mem_append_left _ hi), h.isOpen, h.serial⟩

end Context

namespace Build

open Attempt

/-- Something that holds of a context while actions are built. It depends on the targets that were
taken so far and on a number below which no serial number is given to an action any more. -/
structure Ledger where
  holds : List (Nat × ObjectKind) → Nat → Context → Prop
  serial : ∀ {ts n c}, holds ts n c → n ≤ c.nextSerial
  /-- It is about what building leaves alone or takes from. -/
  same : ∀ {ts n m} {c c' : Context}, holds ts n c → Context.Alike c c' →
    m ≤ c'.nextSerial → holds ts m c'
  acquire : ∀ {ts n id kind ref r} {c : Context}, holds ts n c →
    c.registry.acquireKind id kind = .ok (ref, r) →
    holds (ts ++ [(ref.serial, kind)]) n (c.withRegistry r)
  release : ∀ {ts us n} {c : Context}, holds (ts ++ us) n c →
    holds ts n (c.release (us.map Prod.fst))

namespace Ledger

variable {L : Ledger} {ts us : List (Nat × ObjectKind)} {n m : Nat} {c : Context} {α : Type}

theorem mono (h : L.holds ts m c) (hn : n ≤ m) : L.holds ts n c :=
  L.same h ⟨rfl, rfl, rfl, rfl⟩ (Nat.le_trans hn (L.serial h))

theorem aside {c' : Context} (h : L.holds ts n c) (hsame : Context.Alike c c')
    (hserial : c'.nextSerial = c.nextSerial) : L.holds ts n c' :=
  L.same h hsame (hserial ▸ L.serial h)

/-- Trying something that takes more references, and giving back what is at hand if it fails. -/
theorem orRelease_spec {P : Context → Prop} {x : Builder α} {Q : α → Context → Prop}
    (hx : Triple P x Q (L.holds (ts ++ us) n)) :
    Triple P (orRelease (us.map Prod.fst) x) Q (L.holds ts n) :=
  hx.tryCatch fun _ => Triple.bind (R := fun _ => L.holds ts n)
    (Triple.modify fun _ hc => L.release hc) fun _ => Triple.throw fun _ hc => hc

/-- Checking takes nothing. -/
theorem check_spec (kind : String) (fault : Option ConfigFault) :
    Triple (L.holds ts n) (check kind fault) (fun _ => L.holds ts n) (L.holds ts n) := by
  unfold check
  split
  · exact Triple.throw fun _ hc => hc
  · exact Triple.pure fun _ hc => hc

/-- A reference is taken, or nothing. -/
theorem acquire_spec (id : String) (kind : ObjectKind) :
    Triple (L.holds ts n) (Build.acquire id kind)
      (fun ref => L.holds (ts ++ [(ref.serial, kind)]) n) (L.holds ts n) := by
  rw [Build.acquire]
  refine Triple.get_bind fun s hs => ?_
  cases hacq : s.registry.acquireKind id kind with
  | error e => exact Triple.throw fun c hc => hc ▸ hs
  | ok p =>
    refine Triple.bind (R := fun _ => L.holds (ts ++ [(p.1.serial, kind)]) n) (Triple.modify ?_)
      fun _ => Triple.pure fun _ hc => hc
    rintro c rfl
    exact L.acquire hs hacq

/-- The reference to a port is taken, if there is to be one. -/
theorem acquirePort_spec (port : Option String) :
    Triple (L.holds ts n) (port.mapM (Build.acquire · .port) : Builder (Option Ref))
      (fun port =>
        L.holds (ts ++ (port.map fun port => (port.serial, ObjectKind.port)).toList) n)
      (L.holds ts n) := by
  cases port with
  | none => exact Triple.pure fun c hc => by simpa using hc
  | some id => exact Triple.bind (acquire_spec id .port) fun ref => Triple.pure fun c hc => hc

/-- The targets of an action that may have been built. -/
def targets? (a : Option Action) : List (Nat × ObjectKind) := a.elim [] Action.targets

/-- The actions inside an action that may have been built. -/
def parts? (a : Option Action) : List Part := a.elim [] Action.parts

/-- Building takes the targets of the action that is built and gives the actions inside it new serial
numbers, or it fails and takes nothing. -/
def Takes (L : Ledger) (build : ActionConfig → Builder (Option Action)) : Prop :=
  ∀ config ts n, Triple (L.holds ts n) (build config)
    (fun a c => ∃ m, n ≤ m ∧ Part.Numbered n m (parts? a) ∧ L.holds (ts ++ targets? a) m c)
    (L.holds ts n)

variable {build : ActionConfig → Builder (Option Action)}

/-- An action that is put into a list gets the next serial number. -/
theorem enlist_spec {E : Context → Prop} (config : ListedConfig) {action : Action}
    (hparts : Part.Numbered n m action.parts) (hn : n ≤ m) :
    Triple (L.holds ts m) (enlist config action)
      (fun a c => a.action = action ∧
        ∃ m', n ≤ m' ∧ Part.Numbered n m' (Action.partsOfListed a) ∧ L.holds ts m' c) E := by
  rw [enlist]
  refine Triple.get_bind fun s hs => ?_
  have hserial := L.serial hs
  refine Triple.bind (R := fun _ => L.holds ts (s.nextSerial + 1)) (Triple.modify ?_)
    fun _ => Triple.pure fun c hc => ⟨rfl, s.nextSerial + 1, ?_, ?_, hc⟩
  · rintro c rfl
    exact L.same hs ⟨rfl, rfl, rfl, rfl⟩ (Nat.le_refl _)
  · exact Nat.le_succ_of_le (Nat.le_trans hn hserial)
  · exact hparts.cons (p := ⟨s.nextSerial, action.ownRefs⟩) hn hserial

/-- A list is built after some actions that are done: its targets are taken, or all are given
back. -/
theorem list_spec (hbuild : L.Takes build) (configs : List ListedConfig) {done : ActionList}
    (hdone : Part.Numbered n m (Action.partsOfList done)) (hn : n ≤ m) :
    Triple (L.holds (ts ++ Action.targetsOfList done) m) (list build done configs)
      (fun l c => ∃ m', n ≤ m' ∧ Part.Numbered n m' (Action.partsOfList l) ∧
        L.holds (ts ++ Action.targetsOfList l) m' c)
      (L.holds ts n) := by
  induction configs generalizing done m with
  | nil => exact Triple.pure fun c hc => ⟨m, hn, hdone, hc⟩
  | cons config rest ih =>
    rw [list, ← Action.map_targetsOfList]
    refine Triple.bind (R := fun built c => ∃ m', m ≤ m' ∧ Part.Numbered m m' (parts? built) ∧
      L.holds (ts ++ Action.targetsOfList done ++ targets? built) m' c) ?_ fun built => ?_
    · refine (orRelease_spec ?_).mono (fun _ hc => hc) (fun _ _ hc => hc) fun _ hc => mono hc hn
      refine (hbuild config.action _ m).tryCatch fun e => ?_
      exact Triple.bind (R := fun _ => L.holds (ts ++ Action.targetsOfList done) m)
        (Triple.modify fun _ hc => aside hc ⟨rfl, rfl, rfl, rfl⟩ rfl)
        fun _ => Triple.throw fun _ hc => hc
    · rintro c ⟨m₁, hm₁, hinner, hc⟩
      cases built with
      | none =>
        simp only [targets?, Option.elim, List.append_nil] at hc
        exact ih hdone hn c (mono hc hm₁)
      | some action =>
        refine Triple.bind (enlist_spec config hinner hm₁) (fun a => ?_) c hc
        rintro c ⟨rfl, m₂, hm₂, hlisted, hc⟩
        have hparts : Part.Numbered n m₂ (Action.partsOfList (done ++ [a])) := by
          rw [Action.partsOfList_append, Action.partsOfList, Action.partsOfList, List.append_nil]
          exact hdone.append hlisted hn hm₂
        refine ih hparts (Nat.le_trans hn hm₂) c ?_
        simpa [Action.targetsOfList_eq, targets?] using hc

/-- A list inside an action is built. -/
theorem nested_spec (hbuild : L.Takes build) (configs : List ListedConfig) :
    Triple (L.holds ts n) (list build [] configs)
      (fun l c => ∃ m, n ≤ m ∧ Part.Numbered n m (Action.partsOfList l) ∧
        L.holds (ts ++ Action.targetsOfList l) m c)
      (L.holds ts n) := by
  refine (list_spec hbuild configs (Part.numbered_nil n n) (Nat.le_refl n)).mono
    (fun c hc => ?_) (fun _ _ hl => hl) fun c hc => hc
  simpa [Action.targetsOfList] using hc

/-- Some lists are built after some that are done. -/
theorem lists_spec (hbuild : L.Takes build) (configs : List (List ListedConfig))
    {done : List ActionList} (hdone : Part.Numbered n m (Action.partsOfLists done)) (hn : n ≤ m) :
    Triple (L.holds (ts ++ Action.targetsOfLists done) m) (lists build done configs)
      (fun ls c => ∃ m', n ≤ m' ∧ Part.Numbered n m' (Action.partsOfLists ls) ∧
        L.holds (ts ++ Action.targetsOfLists ls) m' c)
      (L.holds ts n) := by
  induction configs generalizing done m with
  | nil => exact Triple.pure fun c hc => ⟨m, hn, hdone, hc⟩
  | cons config rest ih =>
    rw [lists, ← Action.map_targetsOfLists]
    refine Triple.bind ((orRelease_spec (nested_spec hbuild config)).mono (fun _ hc => hc)
      (fun _ _ hc => hc) fun _ hc => mono hc hn) fun l => ?_
    rintro c ⟨m', hm', hl, hc⟩
    have hparts : Part.Numbered n m' (Action.partsOfLists (done ++ [l])) := by
      rw [Action.partsOfLists_concat]
      exact hdone.append hl hn hm'
    refine ih hparts (Nat.le_trans hn hm') c ?_
    simpa [Action.targetsOfLists_eq] using hc

/-- A plan for a custom action is carried out. -/
theorem carryOut_spec (hbuild : L.Takes build) (plan : CustomPlan) :
    Triple (L.holds ts n) (carryOut build plan)
      (fun a c => ∃ m, n ≤ m ∧ Part.Numbered n m a.parts ∧ L.holds (ts ++ a.targets) m c)
      (L.holds ts n) := by
  have hplain {a : Action} (hparts : a.parts = []) (ha : a.targets = []) :
      Triple (L.holds ts n) (pure a : Builder Action)
        (fun a c => ∃ m, n ≤ m ∧ Part.Numbered n m a.parts ∧ L.holds (ts ++ a.targets) m c)
        (L.holds ts n) :=
    Triple.pure fun c hc => ⟨n, Nat.le_refl n, hparts ▸ Part.numbered_nil n n, by simpa [ha] using hc⟩
  cases plan with
  | stamp key tag => exact hplain rfl rfl
  | record tag state => exact hplain rfl rfl
  | jump configs state =>
    refine Triple.bind (nested_spec hbuild configs) fun next => ?_
    cases state with
    | ok state => exact Triple.pure fun c hc => hc
    | error e =>
      rw [← Action.map_targetsOfList]
      exact orRelease_spec (Triple.throw fun c ⟨m, hm, _, hc⟩ => mono hc hm)

/-- A custom action is built, whatever the builders are. -/
theorem custom_spec (hbuild : L.Takes build) (builders : CustomBuilders) (kind : String)
    (args : SortedMap String String) :
    Triple (L.holds ts n) (custom builders build kind args)
      (fun a c => ∃ m, n ≤ m ∧ Part.Numbered n m a.parts ∧ L.holds (ts ++ a.targets) m c)
      (L.holds ts n) := by
  unfold custom
  split
  · split
    · exact carryOut_spec hbuild _
    · exact Triple.throw fun c hc => hc
  · exact Triple.throw fun c hc => hc

/-- An action is built. -/
theorem action_spec (L : Ledger) (builders : CustomBuilders) (fuel : Nat) :
    L.Takes (action builders fuel) := by
  induction fuel with
  | zero => exact fun config ts n => Triple.throw fun c hc => hc
  | succ fuel ih =>
    intro config ts n
    have hplain {ts : List (Nat × ObjectKind)} {P : Context → Prop} {a : Option Action}
        (hparts : parts? a = []) (ha : ∀ c, P c → L.holds (ts ++ targets? a) n c) :
        Triple P (pure a : Builder (Option Action))
          (fun a c => ∃ m, n ≤ m ∧ Part.Numbered n m (parts? a) ∧ L.holds (ts ++ targets? a) m c)
          (L.holds ts n) :=
      Triple.pure fun c hc => ⟨n, Nat.le_refl n, hparts ▸ Part.numbered_nil n n, ha c hc⟩
    have hleaf {a : Option Action} (hparts : parts? a = []) (ha : targets? a = []) :=
      have hsame : ∀ c, L.holds ts n c → L.holds (ts ++ targets? a) n c :=
        fun c hc => by simpa [ha] using hc
      hplain hparts hsame
    unfold action
    cases config with
    | transmit port immediate =>
      exact Triple.bind (acquire_spec port .port) fun ref => hplain rfl fun _ hc => hc
    | lookup table =>
      exact Triple.bind (acquire_spec table .table) fun ref => hplain rfl fun _ hc => hc
    | flowCounter counter =>
      exact Triple.bind (acquire_spec counter .flowCounter) fun ref => hplain rfl fun _ hc => hc
    | mirror port actions fields =>
      refine Triple.bind (acquirePort_spec port) fun port => ?_
      have hserials : (port.map (·.serial)).toList =
          (port.map fun port => (port.serial, ObjectKind.port)).toList.map Prod.fst := by
        cases port <;> rfl
      rw [hserials]
      refine Triple.bind (orRelease_spec (nested_spec ih actions)) fun actions => ?_
      refine Triple.pure fun c ⟨m, hm, hparts, hc⟩ => ⟨m, hm, hparts, ?_⟩
      simpa [targets?, Action.targets] using hc
    | ratelimit rate burst =>
      refine Triple.bind (check_spec _ _) fun _ => Triple.get_bind fun s hs => ?_
      refine Triple.bind (R := fun _ => L.holds ts n) (Triple.modify ?_) fun _ => hleaf rfl rfl
      rintro c rfl
      exact aside hs ⟨rfl, rfl, rfl, rfl⟩ rfl
    | select fields algo configs =>
      refine Triple.bind (check_spec _ _) fun _ => ?_
      refine Triple.bind ((lists_spec ih configs (Part.numbered_nil n n) (Nat.le_refl n)).mono
        (fun c hc => ?_) (fun _ _ hc => hc) fun _ hc => hc) fun lists => Triple.pure fun c hc => hc
      simpa [Action.targetsOfLists] using hc
    | update u => exact Triple.bind (check_spec _ _) fun _ => hleaf rfl rfl
    | custom kind args =>
      exact Triple.bind (custom_spec ih builders kind args) fun a => Triple.pure fun c hc => hc
    | _ => exact hleaf rfl rfl

/-- A list is built where nothing was taken before. -/
theorem actions_spec (L : Ledger) (configs : List ListedConfig) :
    Triple (L.holds [] n) (actions configs)
      (fun l c => ∃ m, n ≤ m ∧ Part.Numbered n m (Action.partsOfList l) ∧
        L.holds (Action.targetsOfList l) m c)
      (L.holds [] n) := by
  refine Triple.get_bind fun s hs => ?_
  exact (nested_spec (action_spec L s.builders _) configs).mono (fun c hc => hc ▸ hs)
    (fun _ _ hl => hl) fun _ hc => hc

end Ledger

open Context

variable {r : Registry Object} {n : Nat} {held : Multiset Nat} {forced : List Nat}

/-- The references to the targets are held. -/
def holding (hr : r.Balanced held forced []) : Ledger where
  holds ts n := Holding r (ts.map Prod.fst) n
  serial h := h.serial
  same h hsame hserial :=
    ⟨hsame.registry.trans h.registry, h.anchored, hsame.isOpen.trans h.isOpen, hserial⟩
  acquire {ts n id kind ref r' c} h hacq := by
    have hacq' := Registry.acquire_of_acquireKind hacq
    rw [h.registry, (hr.takeAll h.anchored).acquire_eq] at hacq'
    obtain ⟨ref', hfind, heq⟩ := map_eq_ok_iff.1 hacq'
    cases heq
    obtain ⟨i, o, hi, -, rfl⟩ := Registry.findId_eq_ok_iff.1 hfind
    rw [Registry.serialOf?_takeAll] at hi
    rw [List.map_append]
    refine ⟨(Registry.takeAll_concat r _ i), fun j hj => ?_, h.isOpen, h.serial⟩
    rcases List.mem_append.1 hj with hj | hj
    · exact h.anchored j hj
    · obtain rfl : j = i := by simpa using hj
      exact hr.anchored hi
  release h := Holding.release (by simpa using h)

/-- Building a list takes its references, and nothing if it fails. -/
theorem actions_spec (hr : r.Balanced held forced []) (configs : List ListedConfig) :
    Triple (Holding r [] n) (actions configs)
      (fun l c => ∃ m, n ≤ m ∧ Part.Numbered n m (Action.partsOfList l) ∧
        Holding r (Action.refsOfList l) m c)
      (Holding r [] n) := by
  simpa only [holding, Action.map_targetsOfList, List.map_nil] using
    (holding hr).actions_spec configs

end Build

end Dataplane

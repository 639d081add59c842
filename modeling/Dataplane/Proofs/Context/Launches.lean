import Dataplane.Context.Objects
import Dataplane.Proofs.Context.Invocations

/-!
# Replicas that launch replicas

Each pipeline has a budget, but the pipelines of replicas have their own, and nothing bounds how
deep mirror actions nest.

## The model

A pipeline *launches* those of the replicas that its mirror actions make. How deep mirror actions
nest is the length of the longest chain of launches from it, so a depth is enough for it to return
just if no chain is longer, and no depth is just if an endless nest starts with it, in which each
pipeline launches the next (`returns_iff`).
-/

namespace Dataplane

namespace Run

section Bounded

variable {β γ : Type} {x : Bounded β} {f : β → Bounded γ} {r r' : Run}

theorem bounded_bind_eq_some {v : γ × Run} :
    (x >>= f) r = some v ↔ ∃ s, x r = some s ∧ f s.1 s.2 = some v :=
  Option.bind_eq_some_iff

theorem bounded_bind_some {b : β} (h : x r = some (b, r')) : (x >>= f) r = f b r' := by
  change (x r).bind _ = _
  rw [h]
  rfl

theorem bounded_bind_none (h : x r = none) : (x >>= f) r = none := by
  change (x r).bind _ = _
  rw [h]
  rfl

end Bounded

/-! ### Launches -/

/-- The actions of a pipeline and the run that it starts with. -/
abbrev Launch := ActionList × Run

/-- A computation on runs that notes down launches of replicas. It is told how deep the replicas
may nest. -/
abbrev Launching := ReaderT Nat (StateT Run (OptionT (StateM (List Launch))))

/-- Launches a replica. -/
def launch (actions : ActionList) : Launching Verdict := fun depth r launches =>
  (replica depth actions r, launches ++ [(actions, r)])

/-- Is no depth enough for a pipeline to have a result? -/
def Stuck (p : Launch) : Prop := ∀ depth, replica depth p.1 p.2 = none

/-- The launches of replicas by a pipeline itself, up to the first replica that nests deeper. -/
def launches (depth : Nat) (p : Launch) : List Launch :=
  (pipelineWith (m := Launching) (actWith launch) p.1 depth p.2 []).2

/-- Does a pipeline launch another one for a replica, if the replicas before that nest no deeper
than some depth? -/
def Launches (p q : Launch) : Prop := ∃ depth, q ∈ launches depth p

section Launching

variable {β γ : Type} {x : Launching β} {f : β → Launching γ} {depth : Nat} {r r' : Run}
  {log log' : List Launch} {b : β}

theorem launching_bind_some (h : x depth r log = (some (b, r'), log')) :
    (x >>= f) depth r log = f b depth r' log' := by
  simp only [bind, ReaderT.bind, StateT.bind, OptionT.bind, OptionT.mk, h]

theorem launching_bind_none (h : x depth r log = (none, log')) :
    (x >>= f) depth r log = (none, log') := by
  simp only [bind, ReaderT.bind, StateT.bind, OptionT.bind, OptionT.mk, h]
  rfl

end Launching

/-- What the first computation gives, with replicas at most `depth` deep, is what the second
gives. -/
def yields (depth : Nat) : RunRel Launching Bounded where
  rel x y := ∀ r log v, (x depth r log).1 = some v → y r = some v
  rel_pure _ _ _ _ h := h
  rel_bind {_ _ x y f g} hx hf r log v h := by
    rw [bounded_bind_eq_some]
    rcases hstep : x depth r log with ⟨_ | s, log'⟩
    · rw [launching_bind_none hstep] at h
      cases h
    · rw [launching_bind_some hstep] at h
      exact ⟨s, hx r log s (by rw [hstep]), hf s.1 s.2 log' v h⟩
  rel_get _ _ _ h := h
  rel_set _ _ _ _ h := h
  rel_modifyGet _ _ _ _ h := h

/-- Where the second computation has a result, the first has no other one, and launches only
replicas that nest at most `depth` deep. -/
def LaunchesWithin {β : Type} (depth : Nat) (x : Launching β) (y : Bounded β) : Prop :=
  ∀ depth' r log v, y r = some v → (∀ w, (x depth' r log).1 = some w → w = v) ∧
    ∀ q ∈ (x depth' r log).2, q ∈ log ∨ ∃ w, replica depth q.1 q.2 = some w

theorem LaunchesWithin.of_eq {β : Type} {depth : Nat} {x : Launching β} {y : Bounded β}
    (h : ∀ depth' r log, x depth' r log = (y r, log)) : LaunchesWithin depth x y := by
  intro depth' r log v hv
  rw [h]
  exact ⟨fun w hw => Option.some.inj (hw.symm.trans hv), fun q hq => .inl hq⟩

theorem LaunchesWithin.bind {β γ : Type} {depth : Nat} {x : Launching β} {y : Bounded β}
    {f : β → Launching γ} {g : β → Bounded γ} (hx : LaunchesWithin depth x y)
    (hf : ∀ b, LaunchesWithin depth (f b) (g b)) : LaunchesWithin depth (x >>= f) (y >>= g) := by
  intro depth' r log v hv
  obtain ⟨s, hs, hv⟩ := bounded_bind_eq_some.mp hv
  obtain ⟨hval, hlog⟩ := hx depth' r log s hs
  rcases hstep : x depth' r log with ⟨_ | s', log'⟩
  · rw [launching_bind_none hstep]
    rw [hstep] at hlog
    refine ⟨fun w hw => ?_, hlog⟩
    cases hw
  · rw [launching_bind_some hstep]
    rw [hstep] at hval hlog
    obtain rfl := hval s' rfl
    obtain ⟨hval', hlog'⟩ := hf s'.1 depth' s'.2 log' v hv
    refine ⟨hval', fun q hq => ?_⟩
    obtain hq | hq := hlog' q hq
    · exact hlog q hq
    · exact .inr hq

/-- What is launched by a pipeline that has a result nests less deep. -/
def launched (depth : Nat) : RunRel Launching Bounded where
  rel := LaunchesWithin depth
  rel_pure _ := .of_eq fun _ _ _ => rfl
  rel_bind := .bind
  rel_get := .of_eq fun _ _ _ => rfl
  rel_set _ := .of_eq fun _ _ _ => rfl
  rel_modifyGet _ := .of_eq fun _ _ _ => rfl

/-- From some depth on, a computation has one result, or it launches a replica that has none at
any depth. Nothing is said of the second computation. -/
def settles : RunRel Launching Launching where
  rel x _ := ∀ r,
    (∃ depth v, ∀ k ≥ depth, ∀ log, (x k r log).1 = some v) ∨
      ∃ q, Stuck q ∧ ∃ depth, ∀ k ≥ depth, ∀ log, (x k r log).1 = none ∧ q ∈ (x k r log).2
  rel_pure b r := .inl ⟨0, (b, r), fun _ _ _ => rfl⟩
  rel_bind {_ _ x y f g} hx hf r := by
    obtain ⟨depth, s, hs⟩ | ⟨q, hq, depth, hlaunch⟩ := hx r
    · have hstep (k : Nat) (hk : depth ≤ k) (log : List Launch) :
          (x >>= f) k r log = f s.1 k s.2 (x k r log).2 :=
        launching_bind_some (Prod.ext (hs k hk log) rfl)
      obtain ⟨depth', v, hv⟩ | ⟨q, hq, depth', hlaunch⟩ := hf s.1 s.2
      · refine .inl ⟨max depth depth', v, fun k hk log => ?_⟩
        rw [hstep k (by omega)]
        exact hv k (by omega) _
      · refine .inr ⟨q, hq, max depth depth', fun k hk log => ?_⟩
        rw [hstep k (by omega)]
        exact hlaunch k (by omega) _
    · refine .inr ⟨q, hq, depth, fun k hk log => ?_⟩
      obtain ⟨hnone, hmem⟩ := hlaunch k hk log
      rw [launching_bind_none (Prod.ext hnone rfl)]
      exact ⟨rfl, hmem⟩
  rel_get r := .inl ⟨0, (r, r), fun _ _ _ => rfl⟩
  rel_set r' r := .inl ⟨0, (.unit, r'), fun _ _ _ => rfl⟩
  rel_modifyGet f r := .inl ⟨0, f r, fun _ _ _ => rfl⟩

theorem launch_yields (depth : Nat) (actions : ActionList) :
    (yields depth).rel (launch actions) (replica depth actions) :=
  fun _ _ _ h => h

theorem launch_launched (depth : Nat) (actions : ActionList) :
    (launched depth).rel (launch actions) (replica depth actions) := by
  intro depth' r log v h
  refine ⟨fun w hw => ?_, fun q hq => ?_⟩
  · have hv := replica_eq_some (Nat.le_max_left depth depth') h
    have hw := replica_eq_some (Nat.le_max_right depth depth') hw
    exact Option.some.inj (hw.symm.trans hv)
  · obtain hq | hq := List.mem_append.mp hq
    · exact .inl hq
    · obtain rfl := List.mem_singleton.mp hq
      exact .inr ⟨v, h⟩

theorem launch_settles (actions : ActionList) :
    settles.rel (launch actions) (launch actions) := by
  intro r
  by_cases h : ∃ k v, replica k actions r = some v
  · obtain ⟨depth, v, hv⟩ := h
    exact .inl ⟨depth, v, fun k hk log => replica_eq_some hk hv⟩
  · have hnone (k : Nat) : replica k actions r = none :=
      Option.eq_none_iff_forall_ne_some.mpr fun v hv => h ⟨k, v, hv⟩
    exact .inr ⟨(actions, r), hnone, 0, fun k _ log =>
      ⟨hnone k, List.mem_append_right _ List.mem_cons_self⟩⟩

/-! ### Endless nests -/

/-- A pipeline is stuck only because it launches one that is. -/
theorem Stuck.exists_launch {p : Launch} (hp : Stuck p) : ∃ q, Launches p q ∧ Stuck q := by
  obtain ⟨depth, v, hv⟩ | ⟨q, hq, depth, hlaunch⟩ :=
    nested_rel settles launch_settles p.1 p.2
  · have h : pipelineWith (actWith (replica depth)) p.1 p.2 = some v :=
      nested_rel (yields depth) (launch_yields depth) p.1 p.2 [] v (hv depth (Nat.le_refl _) [])
    rw [← pipeline_eq] at h
    have hnone : pipeline depth p.1 p.2 = none := hp (depth + 1)
    cases hnone.symm.trans h
  · exact ⟨q, ⟨depth, (hlaunch depth (Nat.le_refl _) []).2⟩, hq⟩

theorem Stuck.exists_nest {p : Launch} (hp : Stuck p) :
    ∃ nest : Nat → Launch, nest 0 = p ∧ ∀ i, Launches (nest i) (nest (i + 1)) := by
  have hnext (q : Subtype Stuck) : ∃ q' : Subtype Stuck, Launches q.1 q'.1 := by
    obtain ⟨q', hlaunch, hq'⟩ := q.2.exists_launch
    exact ⟨⟨q', hq'⟩, hlaunch⟩
  obtain ⟨next, hlaunch⟩ := Classical.skolem.mp hnext
  let nest (i : Nat) : Subtype Stuck := Nat.rec ⟨p, hp⟩ (fun _ q => next q) i
  exact ⟨fun i => (nest i).1, rfl, fun i => hlaunch (nest i)⟩

/-! ### Chains -/

/-- Does a pipeline start a chain of that many launches? -/
def StartsChain : (length : Nat) → Launch → Prop
  | 0, _ => True
  | length + 1, p => ∃ q, Launches p q ∧ StartsChain length q

/-- Where the first computation has no result with replicas at most `depth` deep, the last replica
that it launched nests deeper. Nothing is said of the second computation. -/
def overruns (depth : Nat) : RunRel Launching Launching where
  rel x _ := ∀ r log, (x depth r log).1 = none →
    ∃ q ∈ (x depth r log).2, replica depth q.1 q.2 = none
  rel_pure _ _ _ h := nomatch h
  rel_bind {_ _ x y f g} hx hf r log := by
    rcases hstep : x depth r log with ⟨_ | s, log'⟩
    · rw [launching_bind_none hstep]
      intro _
      simpa [hstep] using hx r log
    · rw [launching_bind_some hstep]
      exact hf s.1 s.2 log'
  rel_get _ _ h := nomatch h
  rel_set _ _ _ h := nomatch h
  rel_modifyGet _ _ _ h := nomatch h

theorem launch_overruns (depth : Nat) (actions : ActionList) :
    (overruns depth).rel (launch actions) (launch actions) :=
  fun r _ h => ⟨(actions, r), List.mem_append_right _ List.mem_cons_self, h⟩

/-- A pipeline has a result with some depth just if its replicas start no chain of that length. -/
theorem replica_eq_none_iff {depth : Nat} {p : Launch} :
    replica depth p.1 p.2 = none ↔ StartsChain depth p := by
  induction depth generalizing p with
  | zero => exact iff_of_true rfl trivial
  | succ depth ih =>
    change pipeline depth p.1 p.2 = none ↔ ∃ q, Launches p q ∧ StartsChain depth q
    rw [pipeline_eq]
    constructor
    · intro hnone
      have hlast : (pipelineWith (m := Launching) (actWith launch) p.1 depth p.2 []).1 = none := by
        refine Option.eq_none_iff_forall_ne_some.mpr fun v hv => ?_
        cases hnone.symm.trans (nested_rel (yields depth) (launch_yields depth) p.1 p.2 [] v hv)
      obtain ⟨q, hq, hdeep⟩ :=
        nested_rel (overruns depth) (launch_overruns depth) p.1 p.2 [] hlast
      exact ⟨q, ⟨depth, hq⟩, ih.mp hdeep⟩
    · rintro ⟨q, ⟨depth', hq⟩, hchain⟩
      refine Option.eq_none_iff_forall_ne_some.mpr fun v hv => ?_
      obtain hlogged | ⟨w, hw⟩ := (nested_rel (launched depth) (launch_launched depth) p.1 depth'
        p.2 [] v hv).2 q hq
      · cases hlogged
      · cases (ih.mpr hchain).symm.trans hw

/-- An endless nest has chains of every length. -/
theorem StartsChain.of_endless {nest : Nat → Launch}
    (hnest : ∀ i, Launches (nest i) (nest (i + 1))) (length : Nat) :
    StartsChain length (nest 0) := by
  induction length generalizing nest with
  | zero => trivial
  | succ length ih =>
    have hlater : ∀ i, Launches (nest (i + 1)) (nest (i + 1 + 1)) := fun i => hnest (i + 1)
    exact ⟨nest 1, hnest 0, ih hlater⟩

/-! ### Returning -/

/-- Does a pipeline return, with mirror actions nesting at most `depth` deep, after no more
invocations than that depth allows, those for replicas included? -/
def ReturnsWithin (depth : Nat) (actions : ActionList) (r : Run) : Prop :=
  ∃ v r' n, n ≤ maxInvocations (depth + 1) ∧
    ∀ k ≥ depth, pipeline k actions r = some (v, r') ∧
      countedPipeline k actions (r, 0) = some (v, r', n)

theorem returnsWithin_iff {depth : Nat} {actions : ActionList} {r : Run} :
    ReturnsWithin depth actions r ↔ replica (depth + 1) actions r ≠ none := by
  constructor
  · rintro ⟨v, r', n, -, h⟩ hnone
    cases hnone.symm.trans (h depth (Nat.le_refl _)).1
  · intro h
    obtain ⟨⟨v, r'⟩, hv⟩ := Option.ne_none_iff_exists'.mp h
    obtain ⟨n, hn⟩ := (replica_eq_some_iff 0).mp hv
    have hlater (k : Nat) (hk : depth ≤ k) : countedPipeline k actions (r, 0) = some (v, r', n) :=
      countedReplica_refines (Nat.succ_le_succ hk) actions _ _ hn
    refine ⟨v, r', n, ?_, fun k hk => ⟨?_, hlater k hk⟩⟩
    · simpa using invocations_le (hlater depth (Nat.le_refl _))
    · exact replica_eq_some (Nat.succ_le_succ hk) hv

/-- A pipeline returns within some depth, after the invocations that this depth allows, just if it
starts no chain of more launches; it does if mirror actions nest no deeper by what the lists and
tables say. So it returns at all just if it does not start an endless nest. -/
theorem returns_iff (actions : ActionList) (r : Run) :
    (∀ depth, ReturnsWithin depth actions r ↔ ¬ StartsChain (depth + 1) (actions, r)) ∧
    (∀ depth, r.context.NestsWithin (depth + 1) actions → ReturnsWithin depth actions r) ∧
    ((∃ depth, ReturnsWithin depth actions r) ↔
      ¬ ∃ nest : Nat → Launch, nest 0 = (actions, r) ∧
        ∀ i, Launches (nest i) (nest (i + 1))) := by
  refine ⟨fun depth => ?_, fun depth hwithin => ?_, ?_, fun hnest => ?_⟩
  · rw [returnsWithin_iff, Ne, ← replica_eq_none_iff]
  · obtain ⟨v, r', n, hrun, -⟩ := returns_of_nestsWithin hwithin
    refine returnsWithin_iff.mpr fun hnone => ?_
    cases hnone.symm.trans hrun
  · rintro ⟨depth, h⟩ ⟨nest, hzero, hnest⟩
    have hchain := StartsChain.of_endless hnest (depth + 1)
    rw [hzero] at hchain
    exact returnsWithin_iff.mp h (replica_eq_none_iff.mpr hchain)
  · have hnot : ¬ Stuck (actions, r) := fun hstuck => hnest hstuck.exists_nest
    obtain ⟨depth, h⟩ := Classical.not_forall.mp hnot
    refine ⟨depth, returnsWithin_iff.mpr fun hnone => ?_⟩
    obtain ⟨v, hv⟩ := Option.ne_none_iff_exists'.mp h
    cases hnone.symm.trans (replica_eq_some (Nat.le_succ depth) hv)

/-! ### A table that mirrors packets back -/

open Context Pipeline

/-- Is an action a lookup in a table, not deferred? -/
structure LooksUp (a : Listed Action) (t : Ref) : Prop where
  action : a.action = .lookup t
  onEvaluate : a.onEvaluate = false

/-- Do lookups in a table start with mirroring packets back into the table? -/
def MirrorsBack (c : Context) (t : Ref) (fields : List FieldId) : Prop :=
  !c.registry.isCleaned t.serial ∧ ∃ table mirror rest port a,
    c.table? t.serial = some table ∧ table.lookup = mirror :: rest ∧
    mirror.action = .mirror port [a] fields ∧ mirror.onEvaluate = false ∧ LooksUp a t

theorem stuck_of_mirrorsBack {r : Run} {t : Ref} {fields : List FieldId} {p : Packet}
    (h : MirrorsBack r.context t fields) (hp : r.packet.replica fields = .ok p)
    (hagain : p.replica fields = .ok p) {l : Listed Action} (hl : LooksUp l t) :
    Stuck ([l], r) := by
  intro depth
  induction depth generalizing r l with
  | zero => rfl
  | succ depth ih =>
    have hback := h
    obtain ⟨husable, table, mirror, rest, port, a, htable, hlist, hmirror, hflag, ha⟩ := hback
    have hmirrored : actWith (replica depth) mirror r = none := by
      simp only [actWith, hmirror]
      unfold mirrorWith
      rw [bounded_bind_some (b := r) rfl]
      simp only [hp]
      rw [bounded_bind_some rfl]
      exact bounded_bind_none (ih (r := { r with packet := p }) h hagain ha)
    have hlooked : actWith (replica depth) l r = some (.andThen (mirror :: rest), r) := by
      have hbody : (r.context.body? t.serial >>= Object.table?) = some table := htable
      simp only [actWith, hl.action]
      change some (r.lookup t) = _
      rw [lookup, isUsable, husable, hbody, ← hlist]
    have hrest : Flat.outer (·.onEvaluate) (actWith (replica depth)) 1 [] (mirror :: rest) r =
        none := by
      rw [Flat.outer, if_neg (by simp [hflag])]
      exact bounded_bind_none hmirrored
    have houter : Flat.outer (·.onEvaluate) (actWith (replica depth)) 0 [] [l] r = none := by
      rw [Flat.outer, if_neg (by simp [hl.onEvaluate]), bounded_bind_some hlooked,
        if_neg (by decide)]
      simp only [Outcome.andThen, List.append_nil]
      exact bounded_bind_none hrest
    change pipeline depth [l] r = none
    rw [pipeline_eq]
    unfold pipelineWith
    rw [evaluate_eq]
    exact bounded_bind_none (bounded_bind_none houter)

/-- Builds a table whose entry mirrors packets back into the table, and a lookup in it. -/
def mirrorLoop : Attempt TableError ActionList := do
  let _ ← (createTable "t" ⟨[]⟩).adapt .build
  addEntry "t" "e" ⟨[⟨.mirror none [⟨.lookup "t", false⟩] [], false⟩], .tail⟩
  (Build.actions [⟨.lookup "t", false⟩]).adapt .build

theorem mirrorLoop_never_returns : ∃ actions c p,
    mirrorLoop (.fresh "fwd" 0) = (.ok actions, c) ∧ Packet.parse .payload [0] = .ok p ∧
      ∀ depth, pipeline depth actions ⟨c, p, .none⟩ = none := by
  refine ⟨_, _, _, rfl, rfl, fun depth => ?_⟩
  have hback : MirrorsBack (mirrorLoop (.fresh "fwd" 0)).2 ⟨0, "t", 1, .table⟩ Packet.portFields :=
    ⟨rfl, _, _, _, _, _, rfl, rfl, rfl, rfl, rfl, rfl⟩
  exact stuck_of_mirrorsBack hback rfl rfl ⟨rfl, rfl⟩ (depth + 1)

end Run

end Dataplane

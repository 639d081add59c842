import Dataplane.Context.Run
import Dataplane.Proofs.Pipeline.Relation

/-!
# How deep mirror actions nest

A mirror action runs a pipeline of its own inside an invocation. The pipeline of a packet is
therefore run with a bound on how deep mirror actions nest, and without a result if that is not
enough.

## The model

`RunRel` is a relation between computations on runs that pipelines respect: pipelines are related
if those of their replicas are (`nested_rel`). Two facts on pipelines are relations of this kind.
Counting the invocations, those made for replicas included, changes nothing else (`forgets`); and a
result that is reached with some depth is reached with every greater one, by the same number of
invocations (`refines`).
-/

namespace Dataplane

/-- A relation between the computations of two monads on runs that their operations respect. -/
structure RunRel (m n : Type → Type) [Monad m] [MonadStateOf Run m] [Monad n]
    [MonadStateOf Run n] extends MonadRel m n where
  rel_get : rel (get : m Run) (get : n Run)
  rel_set : ∀ r : Run, rel (set r : m PUnit) (set r : n PUnit)
  rel_modifyGet : ∀ {β : Type} (f : Run → β × Run),
    rel (modifyGet f : m β) (modifyGet f : n β)

namespace Run

/-! ### Related pipelines -/

section Related

variable {m n : Type → Type} [Monad m] [MonadStateOf Run m] [Monad n] [MonadStateOf Run n]
  (R : RunRel m n)

theorem pipelineWith_rel {act : Listed Action → m (Outcome (Listed Action))}
    {act' : Listed Action → n (Outcome (Listed Action))} (hact : ∀ a, R.rel (act a) (act' a))
    (actions : ActionList) : R.rel (pipelineWith act actions) (pipelineWith act' actions) := by
  refine R.rel_bind (Pipeline.evaluate_rel R.toMonadRel hact actions) fun verdict => ?_
  split_ifs
  · exact R.rel_bind (R.rel_modifyGet _) fun _ => R.rel_pure _
  · exact R.rel_pure _

variable {p : ActionList → m Verdict} {p' : ActionList → n Verdict}

theorem actWith_rel (hp : ∀ actions, R.rel (p actions) (p' actions)) (a : Listed Action) :
    R.rel (actWith p a) (actWith p' a) := by
  unfold actWith
  cases a.action with
  | mirror port actions fields =>
    refine R.rel_bind R.rel_get fun before => ?_
    cases before.packet.replica fields with
    | error e => exact R.rel_bind (R.rel_set _) fun _ => R.rel_pure _
    | ok replica =>
      refine R.rel_bind (R.rel_set _) fun _ => ?_
      refine R.rel_bind (hp actions) fun verdict => ?_
      refine R.rel_bind R.rel_get fun after => ?_
      exact R.rel_bind (R.rel_set _) fun _ => R.rel_pure _
  | _ => exact R.rel_modifyGet _

/-- Pipelines are related if those of replicas are. -/
theorem nested_rel (hp : ∀ actions, R.rel (p actions) (p' actions)) (actions : ActionList) :
    R.rel (pipelineWith (actWith p) actions) (pipelineWith (actWith p') actions) :=
  pipelineWith_rel R (actWith_rel R hp) actions

end Related

/-- Runs the pipeline of a replica, where mirror actions nest at most `depth` deep, the one that
made the replica included. -/
def replica : (depth : Nat) → ActionList → Bounded Verdict
  | 0, _ => failure
  | depth + 1, actions => pipeline depth actions

theorem pipeline_eq (depth : Nat) (actions : ActionList) :
    pipeline depth actions = pipelineWith (actWith (replica depth)) actions := by
  cases depth <;> rfl

/-! ### Counting invocations -/

/-- A computation on runs that counts invocations. -/
def Counted (β : Type) := StateT (Run × Nat) Option β

instance : Monad Counted := inferInstanceAs (Monad (StateT (Run × Nat) Option))

instance : MonadStateOf Run Counted where
  get s := some (s.1, s)
  set r s := some (.unit, (r, s.2))
  modifyGet f s := some ((f s.1).1, ((f s.1).2, s.2))

/-- What an action of a list does, where `replica` runs the pipelines of replicas, counted as one
more invocation. -/
def invoke (replica : ActionList → Counted Verdict) (a : Listed Action) :
    Counted (Outcome (Listed Action)) :=
  fun s => actWith replica a (s.1, s.2 + 1)

/-- Runs the pipeline of a replica as `replica` does and counts the invocations. -/
def countedReplica : (depth : Nat) → ActionList → Counted Verdict
  | 0, _ => fun _ => none
  | depth + 1, actions => pipelineWith (invoke (countedReplica depth)) actions

/-- Runs a pipeline of actions, where mirror actions nest at most `depth` deep, and counts the
invocations. -/
def countedPipeline (depth : Nat) (actions : ActionList) : Counted Verdict :=
  pipelineWith (invoke (countedReplica depth)) actions

theorem counted_bind {β γ : Type} (x : Counted β) (f : β → Counted γ) (s : Run × Nat) :
    (x >>= f) s = (x s).bind fun v => f v.1 v.2 := rfl

/-- The first computation, the count apart, does what the second does. -/
def forgets : RunRel Counted Bounded where
  rel x y := ∀ s, (x s).map (fun v => (v.1, v.2.1)) = y s.1
  rel_pure _ _ := rfl
  rel_bind {_ _ x y f g} hx hf s := by
    have hbind : (y >>= g) s.1 = (y s.1).bind fun v => g v.1 v.2 := rfl
    rw [counted_bind, hbind, ← hx s]
    cases x s with
    | none => rfl
    | some v => exact hf v.1 v.2
  rel_get _ := rfl
  rel_set _ _ := rfl
  rel_modifyGet _ _ := rfl

theorem countedReplica_forgets (depth : Nat) (actions : ActionList) :
    forgets.rel (countedReplica depth actions) (replica depth actions) := by
  induction depth generalizing actions with
  | zero => exact fun _ => rfl
  | succ depth ih =>
    change forgets.rel _ (pipeline depth actions)
    rw [pipeline_eq]
    exact pipelineWith_rel forgets (fun a s => actWith_rel forgets ih a (s.1, s.2 + 1)) actions

theorem replica_eq_some_iff {depth : Nat} {actions : ActionList} {r r' : Run} {v : Verdict}
    (n : Nat) : replica depth actions r = some (v, r') ↔
      ∃ n', countedReplica depth actions (r, n) = some (v, r', n') := by
  rw [← countedReplica_forgets depth actions (r, n), Option.map_eq_some_iff]
  constructor
  · rintro ⟨⟨v, r', n'⟩, h, heq⟩
    cases heq
    exact ⟨n', h⟩
  · rintro ⟨n', h⟩
    exact ⟨(v, r', n'), h, rfl⟩

/-! ### Greater depths -/

/-- Every result of the first computation is one of the second. -/
def refines : RunRel Counted Counted where
  rel x y := ∀ s v, x s = some v → y s = some v
  rel_pure _ _ _ h := h
  rel_bind hx hf s v h := by
    rw [counted_bind, Option.bind_eq_some_iff] at h ⊢
    obtain ⟨w, hw, h⟩ := h
    exact ⟨w, hx s w hw, hf w.1 w.2 v h⟩
  rel_get _ _ h := h
  rel_set _ _ _ h := h
  rel_modifyGet _ _ _ h := h

theorem countedReplica_succ (depth : Nat) (actions : ActionList) :
    refines.rel (countedReplica depth actions) (countedReplica (depth + 1) actions) := by
  induction depth generalizing actions with
  | zero => exact fun _ _ h => nomatch h
  | succ depth ih =>
    exact pipelineWith_rel refines (fun a s => actWith_rel refines ih a (s.1, s.2 + 1)) actions

theorem countedReplica_refines {depth depth' : Nat} (h : depth ≤ depth') (actions : ActionList) :
    refines.rel (countedReplica depth actions) (countedReplica depth' actions) := by
  induction h with
  | refl => exact fun _ _ h => h
  | step _ ih => exact fun s v h => countedReplica_succ _ actions s v (ih s v h)

/-- A greater depth gives the same result. -/
theorem replica_eq_some {depth depth' : Nat} (h : depth ≤ depth') {actions : ActionList} {r : Run}
    {v : Verdict × Run} (hv : replica depth actions r = some v) :
    replica depth' actions r = some v := by
  obtain ⟨v, r'⟩ := v
  rw [replica_eq_some_iff 0] at hv ⊢
  obtain ⟨n, hn⟩ := hv
  exact ⟨n, countedReplica_refines h actions _ _ hn⟩

end Run

end Dataplane

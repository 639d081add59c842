import Dataplane.Proofs.Context.Nesting
import Dataplane.Proofs.Context.Tables

/-!
# What a pipeline costs

A pipeline makes at most `maxActions` invocations itself. Those made for replicas come on top, so
the bound on all of them grows with the depth to which mirror actions nest.

## The model

What a pipeline may run is known from its list and the tables: `MayRun` follows the continuations of
actions. If following them from the lists of mirror actions to further mirror actions comes to an
end, `NestsWithin` some depth, the pipeline returns for every packet (`returns_of_nestsWithin`).
-/

namespace Dataplane

/-- The most invocations that a pipeline of a replica can make, if mirror actions nest at most that
deep. -/
def maxInvocations : (depth : Nat) → Nat
  | 0 => 0
  | depth + 1 => Pipeline.maxActions * (maxInvocations depth + 1)

namespace Context

/-- The actions that a pipeline may run itself. -/
inductive MayRun (c : Context) (actions : ActionList) : Listed Action → Prop
  | listed {a : Listed Action} : a ∈ actions → MayRun c actions a
  | next {a b : Listed Action} {next : ActionList} : MayRun c actions a →
      next ∈ c.continuations a.action → b ∈ next → MayRun c actions b

/-- Do mirror actions nest at most `depth` deep, the one that made the replica with these actions
included? -/
def NestsWithin (c : Context) : (depth : Nat) → ActionList → Prop
  | 0, _ => False
  | depth + 1, actions => ∀ a port inner fields, c.MayRun actions a →
      a.action = .mirror port inner fields → c.NestsWithin depth inner

end Context

namespace Run

open Context Pipeline

variable {total : Prop} {c : Context} {actions : ActionList}

theorem mirrorWith_counted (replica : ActionList → Counted Verdict) (port : Option Ref)
    (inner : ActionList) (fields : List FieldId) (r : Run) (n : Nat) :
    mirrorWith replica port inner fields (r, n) =
      match r.packet.replica fields with
      | .error e => some (.of .proceed, r.afterDelivery r.packet.length (.failed e.message), n)
      | .ok pkt => (replica inner ({ r with packet := pkt }, n)).map fun (verdict, after, n) =>
        let (delivery, context) := deliver after.context port after.packet verdict.state
        (.of .proceed, Run.afterDelivery ⟨context, r.packet, after.counters⟩ r.packet.length
          delivery, n) := by
  unfold mirrorWith
  change (match r.packet.replica fields with
    | .error e => _
    | .ok pkt => _ : Counted (Outcome (Listed Action))) (r, n) = _
  cases r.packet.replica fields with
  | error e => rfl
  | ok pkt =>
    change (replica inner ({ r with packet := pkt }, n)).bind _ =
      (replica inner ({ r with packet := pkt }, n)).map _
    cases replica inner ({ r with packet := pkt }, n) <;> rfl

/-- An invocation costs one more than the pipeline of a replica may cost. -/
theorem invoke_yields {k : Nat} {replica : ActionList → Counted Verdict} {a : Listed Action}
    (hreplica : ∀ port inner fields, a.action = .mirror port inner fields →
      ∀ s : Run × Nat, (total → SameTables c s.1.context) → Yields total
        (fun _ s' => (total → SameTables c s'.1.context) ∧ s'.2 ≤ s.2 + k) (replica inner s))
    (ha : total → c.MayRun actions a) (s : Run × Nat) (hs : total → SameTables c s.1.context) :
    Yields total (fun out s' => (total → SameTables c s'.1.context) ∧
        (∀ b ∈ out.next, total → c.MayRun actions b) ∧ s'.2 ≤ s.2 + (k + 1))
      (invoke replica a s) := by
  obtain ⟨r, n⟩ := s
  unfold invoke actWith
  cases haction : a.action with
  | mirror port inner fields =>
    simp only [mirrorWith_counted]
    cases r.packet.replica fields with
    | error e =>
      refine ⟨?_, by simp [Outcome.of], by omega⟩
      simpa using hs
    | ok pkt =>
      refine Yields.map (hreplica port inner fields haction ({ r with packet := pkt }, n + 1) hs) ?_
      rintro verdict ⟨after, n'⟩ ⟨htables, hcost⟩
      refine ⟨fun ht => ?_, by simp [Outcome.of], ?_⟩
      · simpa using (htables ht).trans (keptByActions_sameTables.deliver after.context port _ _)
      · simp only at hcost ⊢
        omega
  | _ =>
    refine ⟨fun ht => (hs ht).trans (keptByActions_sameTables.perform r _), fun b hb ht => ?_,
      by simp only; omega⟩
    obtain ⟨next, hnext, hb⟩ := mem_next_perform hb
    rw [(hs ht).continuations_eq, ← haction] at hnext
    exact .next (ha ht) hnext hb

/-- A pipeline whose replicas make at most `k` invocations each. -/
theorem pipelineWith_yields {k : Nat} {act : Listed Action → Counted (Outcome (Listed Action))}
    (hact : ∀ a s, (total → c.MayRun actions a) → (total → SameTables c s.1.context) →
      Yields total (fun out s' => (total → SameTables c s'.1.context) ∧
        (∀ b ∈ out.next, total → c.MayRun actions b) ∧ s'.2 ≤ s.2 + (k + 1)) (act a s))
    (s : Run × Nat) (hs : total → SameTables c s.1.context) :
    Yields total (fun _ s' => (total → SameTables c s'.1.context) ∧
      s'.2 ≤ s.2 + maxActions * (k + 1)) (pipelineWith act actions s) := by
  have heval : Yields total (fun _ s' => (total → SameTables c s'.1.context) ∧
      s'.2 ≤ s.2 + maxActions * (k + 1)) (evaluate (·.onEvaluate) act actions s) :=
    evaluate_bounded hact (fun a ha _ => .listed ha) hs
  refine Yields.bind heval fun verdict s' hs' => ?_
  split_ifs <;> exact hs'

theorem countedReplica_yields (depth : Nat) {actions : ActionList}
    (hwithin : total → c.NestsWithin depth actions) (s : Run × Nat)
    (hs : total → SameTables c s.1.context) :
    Yields total (fun _ s' => (total → SameTables c s'.1.context) ∧
      s'.2 ≤ s.2 + maxInvocations depth) (countedReplica depth actions s) := by
  induction depth generalizing actions s with
  | zero => exact hwithin
  | succ depth ih =>
    refine pipelineWith_yields (fun a s ha hs => ?_) s hs
    refine invoke_yields (fun port inner fields haction s hs => ?_) ha s hs
    exact ih (fun ht => hwithin ht a port inner fields (ha ht) haction) s hs

/-- A pipeline makes at most `maxInvocations` invocations, those for replicas included. -/
theorem invocations_le {depth : Nat} {actions : ActionList} {r : Run} {n : Nat}
    {v : Verdict} {r' : Run} {n' : Nat}
    (h : countedPipeline depth actions (r, n) = some (v, r', n')) :
    n' ≤ n + maxInvocations (depth + 1) := by
  have hyields : Yields False (fun _ s' => (False → SameTables r.context s'.1.context) ∧
      s'.2 ≤ n + maxInvocations (depth + 1)) (countedPipeline depth actions (r, n)) :=
    countedReplica_yields (depth + 1) nofun (r, n) nofun
  rw [h] at hyields
  exact hyields.2

/-- A pipeline whose mirror actions nest only so deep returns for every packet. -/
theorem returns_of_nestsWithin {depth : Nat} {actions : ActionList} {r : Run}
    (h : r.context.NestsWithin (depth + 1) actions) :
    ∃ v r' n, pipeline depth actions r = some (v, r') ∧
      countedPipeline depth actions (r, 0) = some (v, r', n) ∧
      n ≤ maxInvocations (depth + 1) := by
  have hyields : Yields True (fun _ s' => (True → SameTables r.context s'.1.context) ∧
      s'.2 ≤ 0 + maxInvocations (depth + 1)) (countedPipeline depth actions (r, 0)) :=
    countedReplica_yields (depth + 1) (fun _ => h) (r, 0) fun _ => .refl r.context
  cases hrun : countedPipeline depth actions (r, 0) with
  | none =>
    rw [hrun] at hyields
    exact absurd trivial hyields
  | some s =>
    obtain ⟨v, r', n⟩ := s
    have hreplica : replica (depth + 1) actions r = some (v, r') :=
      (replica_eq_some_iff 0).mpr ⟨n, hrun⟩
    exact ⟨v, r', n, hreplica, rfl, by simpa using invocations_le hrun⟩

end Run

end Dataplane

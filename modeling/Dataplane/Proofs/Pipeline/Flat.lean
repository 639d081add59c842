import Dataplane.Pipeline
import Mathlib.Tactic.SplitIfs

/-!
# Pipelines on a flat list

A pipeline keeps its unfinished lists on a stack and counts its budget down. What it does is simpler
to say on one flat list, with the invocations counted up: the continuation of an action is put in
front of the actions that follow it.

## The model

`Flat.nested` runs the actions that were set aside, `Flat.outer` a list in which actions may be set
aside; both stop with the invocation that is number `maxActions`. `Pipeline.evaluate` agrees with
`Flat.evaluate` in every monad (`evaluate_eq`), whatever the actions do. Nothing is assumed on
continuations: an action may be part of its own. For actions that work on a state, and note down
each invocation with the state it found (`invoked`), the two therefore make the same invocations.

That a pass that proceeds has budget left is a fact about a computation in any monad. `Ensures`
says such a thing by what may follow the computation.
-/

namespace Dataplane

namespace Pipeline

variable {m : Type → Type} [Monad m] {α : Type}

/-! ### The interpreter -/

namespace Flat

/-- Runs a list in which flags are not looked at, after `executed` invocations. An action that asks
for an evaluation goes on. -/
def nested (act : α → m (Outcome α)) (executed : Nat) : List α → m Pass
  | [] => pure (some .proceed, 0)
  | a :: rest => do
    let out ← act a
    if maxActions ≤ executed + 1 then return (none, 1)
    else match out.state with
      | .proceed | .evaluate =>
        return (← nested act (executed + 1) (out.next ++ rest)).after 1
      | state => return (some state, 1)
termination_by maxActions - executed

/-- Runs a list, after `executed` invocations and with some actions set aside. -/
def outer (onEvaluate : α → Bool) (act : α → m (Outcome α)) (executed : Nat) (deferred : List α) :
    List α → m Pass
  | [] => pure (some .proceed, 0)
  | a :: rest =>
    if onEvaluate a then outer onEvaluate act executed (deferred ++ [a]) rest
    else do
      let out ← act a
      if maxActions ≤ executed + 1 then return (none, 1)
      else match out.state with
        | .proceed =>
          return (← outer onEvaluate act (executed + 1) deferred (out.next ++ rest)).after 1
        | .evaluate =>
          match ← nested act (executed + 1) deferred with
          | (some .proceed, n) =>
            return (← outer onEvaluate act (executed + 1 + n) [] (out.next ++ rest)).after (n + 1)
          | pass => return pass.after 1
        | state => return (some state, 1)
termination_by list => (maxActions - executed, list.length)

/-- Runs a list of actions. -/
def evaluate (onEvaluate : α → Bool) (act : α → m (Outcome α)) (actions : List α) : m Verdict := do
  match ← outer onEvaluate act 0 [] actions with
  | (some state, n) => return ⟨state, n, false⟩
  | (none, n) => return ⟨.drop, n, true⟩

end Flat

/-! ### The stack and the list -/

/-- What comes off a stack is the first action of the flat list that is not set aside. -/
theorem advance_spec (aside : α → Bool) (stack : List (List α)) (deferred : List α) :
    ∃ skipped, (∀ a ∈ skipped, aside a) ∧ (advance aside stack deferred).2 = deferred ++ skipped ∧
      match (advance aside stack deferred).1 with
      | none => stack.flatten = skipped
      | some (a, rest) => ¬ aside a ∧ stack.flatten = skipped ++ a :: rest.flatten := by
  induction stack, deferred using advance.induct aside with
  | case1 deferred => exact ⟨[], by simp [advance]⟩
  | case2 deferred rest ih => simpa only [advance, List.flatten_cons, List.nil_append] using ih
  | case3 deferred a as rest h ih =>
    obtain ⟨skipped, haside, hdeferred, hrest⟩ := ih
    simp only [advance, h, if_true]
    refine ⟨a :: skipped, ?_, ?_, ?_⟩
    · simpa [h] using haside
    · simpa using hdeferred
    · split at hrest <;> simp_all
  | case4 deferred a as rest h => exact ⟨[], by simp [advance, h]⟩

/-! ### The nested pass -/

section Lawful

variable [LawfulMonad m]

/-- Nothing after `x` can tell it from a computation whose result always has the property. -/
structure Ensures {β : Type} (P : β → Prop) (x : m β) : Prop where
  bind_eq : ∀ {γ : Type} {f g : β → m γ}, (∀ b, P b → f b = g b) → x >>= f = x >>= g

theorem Ensures.pure {β : Type} {P : β → Prop} {b : β} (h : P b) :
    Ensures P (pure b : m β) where
  bind_eq := fun hfg => by rw [pure_bind, pure_bind, hfg b h]

theorem Ensures.bind {β γ : Type} {P : γ → Prop} {x : m β} {f : β → m γ}
    (h : ∀ b, Ensures P (f b)) : Ensures P (x >>= f) where
  bind_eq := fun hfg => by
    rw [bind_assoc, bind_assoc]
    exact bind_congr fun b => (h b).bind_eq hfg

theorem Ensures.map {β γ : Type} {P : β → Prop} {Q : γ → Prop} {x : m β} (h : Ensures P x)
    {f : β → γ} (hf : ∀ b, P b → Q (f b)) : Ensures Q (x >>= fun b => Pure.pure (f b)) where
  bind_eq := fun hfg => by
    rw [bind_assoc, bind_assoc]
    refine h.bind_eq fun b hb => ?_
    rw [pure_bind, pure_bind, hfg _ (hf b hb)]

variable {onEvaluate : α → Bool} {act : α → m (Outcome α)}

/-- A nested pass that ends within the budget leaves some of it. -/
theorem Flat.nested_ensures {executed : Nat} (h : executed < maxActions) (list : List α) :
    Ensures (fun pass : Pass => pass.1 ≠ none → executed + pass.2 < maxActions)
      (Flat.nested act executed list) := by
  induction hk : maxActions - executed using Nat.strongRecOn generalizing executed list with
  | ind k ih =>
    cases list with
    | nil =>
      rw [Flat.nested]
      exact Ensures.pure fun _ => h
    | cons a rest =>
      rw [Flat.nested]
      refine Ensures.bind fun out => ?_
      split_ifs with hlimit
      · exact Ensures.pure fun hne => absurd rfl hne
      · have hlater := ih (maxActions - (executed + 1)) (by omega) (by omega) (out.next ++ rest) rfl
        cases out.state with
        | proceed | evaluate =>
          exact hlater.map fun pass hpass hne => by
            have := hpass hne
            simp only [Pass.after]
            omega
        | drop | consume | output => exact Ensures.pure fun _ => by omega

theorem run_nested {budget executed : Nat} (hb : executed + budget = maxActions) (h : 0 < budget)
    (stack : List (List α)) (deferred : List α) :
    run onEvaluate act false budget stack deferred = Flat.nested act executed stack.flatten := by
  induction budget generalizing executed stack deferred with
  | zero => cases h
  | succ budget ih =>
    obtain ⟨skipped, haside, -, hnext⟩ :=
      advance_spec (fun a => false && onEvaluate a) stack deferred
    have hnil : skipped = [] := List.eq_nil_iff_forall_not_mem.mpr fun a ha => by
      simpa using haside a ha
    subst hnil
    rw [run]
    generalize advance (fun a => false && onEvaluate a) stack deferred = r at hnext ⊢
    obtain ⟨_ | ⟨a, rest⟩, deferred'⟩ := r
    · rw [hnext, Flat.nested]
    · rw [hnext.2, List.nil_append, Flat.nested]
      refine bind_congr fun out => ?_
      by_cases hlast : budget = 0
      · rw [if_pos hlast, if_pos (by omega)]
      · rw [if_neg hlast, if_neg (by omega)]
        have hrest := ih (show executed + 1 + budget = maxActions by omega) (by omega)
          (out.next :: rest) deferred'
        cases out.state <;> simp [hrest]

/-! ### The outer pass -/

omit [LawfulMonad m] in
theorem outer_skip {skipped : List α} (h : ∀ a ∈ skipped, onEvaluate a) (executed : Nat)
    (deferred list : List α) : Flat.outer onEvaluate act executed deferred (skipped ++ list) =
      Flat.outer onEvaluate act executed (deferred ++ skipped) list := by
  induction skipped generalizing deferred with
  | nil => simp
  | cons a skipped ih =>
    rw [List.cons_append, Flat.outer, if_pos (h a List.mem_cons_self),
      ih fun b hb => h b (List.mem_cons_of_mem _ hb)]
    simp

theorem run_outer {budget executed : Nat} (hb : executed + budget = maxActions) (h : 0 < budget)
    (stack : List (List α)) (deferred : List α) :
    run onEvaluate act true budget stack deferred =
      Flat.outer onEvaluate act executed deferred stack.flatten := by
  induction budget using Nat.strongRecOn generalizing executed stack deferred with
  | ind budget ih =>
    obtain ⟨budget, rfl⟩ := Nat.exists_eq_add_one.mpr h
    obtain ⟨skipped, haside, hdeferred, hnext⟩ :=
      advance_spec (fun a => true && onEvaluate a) stack deferred
    simp only [Bool.true_and] at haside hnext
    rw [run]
    simp only [Bool.true_and] at hdeferred ⊢
    generalize advance onEvaluate stack deferred = r at hnext hdeferred ⊢
    obtain ⟨_ | ⟨a, rest⟩, deferred'⟩ := r
    · rw [hnext, ← List.append_nil skipped, outer_skip haside, Flat.outer]
    · obtain ⟨hnot, hflat⟩ := hnext
      obtain rfl : deferred' = deferred ++ skipped := hdeferred
      rw [hflat, outer_skip haside, Flat.outer, if_neg hnot]
      refine bind_congr fun out => ?_
      by_cases hlast : budget = 0
      · rw [if_pos hlast, if_pos (by omega)]
      · rw [if_neg hlast, if_neg (by omega)]
        cases hstate : out.state with
        | proceed =>
          have hrest := ih budget (by omega) (show executed + 1 + budget = maxActions by omega)
            (by omega) (out.next :: rest) (deferred ++ skipped)
          simp only [hrest, List.flatten_cons]
        | evaluate =>
          have hnested : run onEvaluate act false budget [deferred ++ skipped] [] =
              Flat.nested act (executed + 1) [deferred ++ skipped].flatten :=
            run_nested (by omega) (by omega) _ _
          simp only [hnested, List.flatten_cons, List.flatten_nil, List.append_nil]
          have hwithin : executed + 1 < maxActions := by omega
          refine (Flat.nested_ensures hwithin _).bind_eq fun pass hpass => ?_
          obtain ⟨state, n⟩ := pass
          cases state with
          | none => rfl
          | some state =>
            have hleft := hpass (by simp)
            cases state with
            | proceed =>
              have hrest := ih (budget - n) (by omega)
                (show executed + 1 + n + (budget - n) = maxActions by omega) (by omega)
                (out.next :: rest) []
              simp only [hrest, List.flatten_cons]
            | drop | consume | output | evaluate => rfl
        | drop | consume | output => rfl

/-- A pipeline decides what the flat list does. -/
theorem evaluate_eq (onEvaluate : α → Bool) (act : α → m (Outcome α)) (actions : List α) :
    evaluate onEvaluate act actions = Flat.evaluate onEvaluate act actions := by
  have h : run onEvaluate act true maxActions [actions] [] =
      Flat.outer onEvaluate act 0 [] [actions].flatten :=
    run_outer (Nat.zero_add maxActions) (by decide) _ _
  rw [List.flatten_cons, List.flatten_nil, List.append_nil] at h
  exact congrArg (fun pass => pass >>= _) h

end Lawful

/-! ### Invocations -/

variable {σ : Type}

/-- An action run on a state, the invocation noted down with the state it found. -/
def invoked (process : α → σ → Outcome α × σ) (a : α) : StateM (σ × List (α × σ)) (Outcome α) :=
  fun (s, calls) => ((process a s).1, (process a s).2, calls ++ [(a, s)])

theorem invoked_bind {β : Type} (process : α → σ → Outcome α × σ) (a : α)
    (f : Outcome α → StateM (σ × List (α × σ)) β) (s : σ × List (α × σ)) :
    (invoked process a >>= f) s =
      f (process a s.1).1 ((process a s.1).2, s.2 ++ [(a, s.1)]) := rfl

/-- The result of a pass from `s` on, after `executed` invocations: it says how many invocations
were made, and it is without a decision just if they used the budget up. -/
def Counted (executed : Nat) (s : σ × List (α × σ)) (r : Pass × (σ × List (α × σ))) : Prop :=
  r.2.2.length = s.2.length + r.1.2 ∧ executed + r.1.2 ≤ maxActions ∧
    (r.1.1 = none ↔ executed + r.1.2 = maxActions)

section Counted

variable {executed n : Nat} {s s' : σ × List (α × σ)} (process : α → σ → Outcome α × σ)

theorem counted_decided (hs : s'.2.length = s.2.length + n) (h : executed + n < maxActions)
    (state : Disposition) : Counted executed s ((some state, n), s') :=
  ⟨hs, Nat.le_of_lt h, iff_of_false nofun (Nat.ne_of_lt h)⟩

theorem counted_limited (hs : s'.2.length = s.2.length + n) (h : executed + n = maxActions) :
    Counted executed s ((none, n), s') :=
  ⟨hs, Nat.le_of_eq h, iff_of_true rfl h⟩

theorem Counted.after {pass : StateM (σ × List (α × σ)) Pass}
    (h : Counted (executed + n) s' (pass s')) (hs : s'.2.length = s.2.length + n) :
    Counted executed s ((pass >>= fun p => pure (p.after n)) s') := by
  obtain ⟨hlen, hle, hnone⟩ := h
  have hresult : (pass >>= fun p => pure (p.after n)) s' = ((pass s').1.after n, (pass s').2) := rfl
  rw [hresult]
  refine ⟨?_, ?_, ?_⟩
  · simp only [Pass.after]
    omega
  · simp only [Pass.after]
    omega
  · simp only [Pass.after]
    rw [hnone]
    omega

theorem nested_counted (h : executed < maxActions) (list : List α) (s : σ × List (α × σ)) :
    Counted executed s (Flat.nested (invoked process) executed list s) := by
  induction hk : maxActions - executed using Nat.strongRecOn generalizing executed list s with
  | ind k ih =>
    cases list with
    | nil =>
      rw [Flat.nested]
      exact counted_decided rfl h _
    | cons a rest =>
      rw [Flat.nested, invoked_bind]
      have hcall : (s.2 ++ [(a, s.1)]).length = s.2.length + 1 := by simp
      split_ifs with hlimit
      · exact counted_limited hcall (by omega)
      · have hwithin : executed + 1 < maxActions := by omega
        cases (process a s.1).1.state with
        | proceed | evaluate =>
          exact (ih _ (by omega) hwithin _ ((process a s.1).2, s.2 ++ [(a, s.1)]) rfl).after hcall
        | drop | consume | output => exact counted_decided hcall hwithin _

theorem outer_counted (onEvaluate : α → Bool) (h : executed < maxActions) (deferred list : List α)
    (s : σ × List (α × σ)) : Counted executed s
      (Flat.outer onEvaluate (invoked process) executed deferred list s) := by
  induction hk : maxActions - executed using Nat.strongRecOn
      generalizing executed deferred list s with
  | ind k ih =>
    induction list generalizing deferred with
    | nil =>
      rw [Flat.outer]
      exact counted_decided rfl h _
    | cons a rest ihrest =>
      rw [Flat.outer]
      by_cases haside : onEvaluate a
      · rw [if_pos haside]
        exact ihrest _
      rw [if_neg haside, invoked_bind]
      have hcall : (s.2 ++ [(a, s.1)]).length = s.2.length + 1 := by simp
      split_ifs with hlimit
      · exact counted_limited hcall (by omega)
      · have hwithin : executed + 1 < maxActions := by omega
        cases (process a s.1).1.state with
        | proceed =>
          exact (ih _ (by omega) hwithin deferred _ ((process a s.1).2, s.2 ++ [(a, s.1)])
            rfl).after hcall
        | evaluate =>
          have hpass := nested_counted process hwithin deferred
            ((process a s.1).2, s.2 ++ [(a, s.1)])
          simp only [bind, StateT.bind]
          generalize Flat.nested (invoked process) (executed + 1) deferred
            ((process a s.1).2, s.2 ++ [(a, s.1)]) = r at hpass ⊢
          obtain ⟨⟨state, n⟩, s'⟩ := r
          obtain ⟨hlen, hle, hnone⟩ := hpass
          simp only [hcall] at hlen hle hnone
          cases state with
          | none => exact counted_limited (by omega) (by have := hnone.mp rfl; omega)
          | some state =>
            have hleft : executed + 1 + n < maxActions := by
              have := mt hnone.mpr nofun
              omega
            cases state with
            | proceed =>
              have hrest := ih _ (by omega) hleft [] ((process a s.1).1.next ++ rest) s' rfl
              have hmade : s'.2.length = s.2.length + (n + 1) := by omega
              have hsum : executed + 1 + n = executed + (n + 1) := by omega
              simp only [hsum] at hrest ⊢
              exact hrest.after hmade
            | drop | consume | output | evaluate => exact counted_decided (by omega) (by omega) _
        | drop | consume | output => exact counted_decided hcall hwithin _

end Counted

/-- Whatever its actions do, a pipeline makes the invocations that the flat list makes, one after
the other, and decides the same. It makes at most `maxActions` of them, and gives an error just if
it makes that many. -/
theorem evaluate_refines_flat (onEvaluate : α → Bool) (process : α → σ → Outcome α × σ)
    (actions : List α) (s : σ) :
    let (verdict, s', calls) := evaluate onEvaluate (invoked process) actions (s, [])
    Flat.evaluate onEvaluate (invoked process) actions (s, []) = (verdict, s', calls) ∧
      calls.length = verdict.executed ∧ verdict.executed ≤ maxActions ∧
      (verdict.limited ↔ verdict.executed = maxActions) ∧
      (verdict.limited → verdict.state = .drop) := by
  rw [evaluate_eq]
  refine ⟨rfl, ?_⟩
  have hbudget : 0 < maxActions := by decide
  have h := outer_counted process onEvaluate hbudget [] actions (s, [])
  generalize Flat.outer onEvaluate (invoked process) 0 [] actions (s, []) = r at h ⊢
  obtain ⟨⟨state, n⟩, s'⟩ := r
  obtain ⟨hlen, hle, hnone⟩ := h
  simp only [Nat.zero_add, List.length_nil] at hlen hle hnone
  cases state with
  | none => exact ⟨hlen, hle, iff_of_true rfl (hnone.mp rfl), fun _ => rfl⟩
  | some state =>
    have hless : n ≠ maxActions := mt hnone.mpr nofun
    change s'.2.length = n ∧ n ≤ maxActions ∧ (false = true ↔ n = maxActions) ∧
      (false = true → state = .drop)
    exact ⟨hlen, hle, iff_of_false nofun hless, nofun⟩

end Pipeline

end Dataplane

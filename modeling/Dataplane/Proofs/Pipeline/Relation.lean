import Dataplane.Proofs.Pipeline.Flat

/-!
# Pipelines in two monads

What a pipeline does is put together from what its actions do. So a relation between computations
that the putting together respects holds between two pipelines when it holds between their actions
(`evaluate_rel`), and a bound on what one action may cost gives one on what the pipeline costs
(`run_bounded`). In the same way, what is said of every good action is said of a pipeline of good
actions, if good actions go on with good ones (`evaluate_holds`).
-/

namespace Dataplane

/-- A relation between the computations of two monads that their operations respect. -/
structure MonadRel (m n : Type → Type) [Monad m] [Monad n] where
  rel : ∀ {β : Type}, m β → n β → Prop
  rel_pure : ∀ {β : Type} (b : β), rel (pure b) (pure b)
  rel_bind : ∀ {β γ : Type} {x : m β} {y : n β} {f : β → m γ} {g : β → n γ},
    rel x y → (∀ b, rel (f b) (g b)) → rel (x >>= f) (y >>= g)

/-- Something that is said of the computations of a monad and of their results, and that the
operations of the monad respect. -/
structure MonadPred (m : Type → Type) [Monad m] where
  holds : ∀ {β : Type}, (β → Prop) → m β → Prop
  holds_pure : ∀ {β : Type} {P : β → Prop} {b : β}, P b → holds P (pure b)
  holds_bind : ∀ {β γ : Type} {P : β → Prop} {Q : γ → Prop} {x : m β} {f : β → m γ},
    holds P x → (∀ b, P b → holds Q (f b)) → holds Q (x >>= f)

namespace Pipeline

variable {α : Type} {onEvaluate : α → Bool}

/-! ### Related actions -/

section Related

variable {m n : Type → Type} [Monad m] [Monad n] (R : MonadRel m n)
  {act : α → m (Outcome α)} {act' : α → n (Outcome α)}

theorem run_rel (hact : ∀ a, R.rel (act a) (act' a)) (outermost : Bool) (budget : Nat)
    (stack : List (List α)) (deferred : List α) :
    R.rel (run onEvaluate act outermost budget stack deferred)
      (run onEvaluate act' outermost budget stack deferred) := by
  induction budget using Nat.strongRecOn generalizing outermost stack deferred with
  | ind budget ih =>
    cases budget with
    | zero =>
      rw [run, run]
      exact R.rel_pure _
    | succ budget =>
      rw [run, run]
      generalize advance (fun a => outermost && onEvaluate a) stack deferred = next
      obtain ⟨_ | ⟨a, rest⟩, deferred⟩ := next
      · exact R.rel_pure _
      · refine R.rel_bind (hact a) fun out => ?_
        split_ifs with hlast
        · exact R.rel_pure _
        · have later (top : Bool) {k : Nat} (hk : k ≤ budget) (n : Nat) (d : List α) :
              R.rel ((run onEvaluate act top k (out.next :: rest) d) >>= fun p =>
                  pure (p.after n))
                ((run onEvaluate act' top k (out.next :: rest) d) >>= fun p =>
                  pure (p.after n)) :=
            R.rel_bind (ih k (by omega) top _ d) fun p => R.rel_pure _
          cases out.state with
          | proceed => exact later outermost (Nat.le_refl _) 1 deferred
          | evaluate =>
            cases outermost with
            | false => exact later false (Nat.le_refl _) 1 deferred
            | true =>
              refine R.rel_bind (ih budget (by omega) false _ _) fun pass => ?_
              obtain ⟨_ | state, n⟩ := pass
              · exact R.rel_pure _
              · cases state with
                | proceed => exact later true (Nat.sub_le _ _) (n + 1) []
                | _ => exact R.rel_pure _
          | _ => exact R.rel_pure _

theorem evaluate_rel (hact : ∀ a, R.rel (act a) (act' a)) (actions : List α) :
    R.rel (evaluate onEvaluate act actions) (evaluate onEvaluate act' actions) := by
  refine R.rel_bind (run_rel R hact true maxActions [actions] []) fun pass => ?_
  obtain ⟨_ | state, n⟩ := pass <;> exact R.rel_pure _

end Related

/-! ### Good actions -/

/-- What comes off a stack of good actions, stays on it or is set aside, is good. -/
theorem advance_good {Q : α → Prop} {aside : α → Bool} {stack : List (List α)}
    {deferred deferred' : List α} {next : Option (α × List (List α))}
    (hstack : ∀ a ∈ stack.flatten, Q a) (hdeferred : ∀ a ∈ deferred, Q a)
    (h : advance aside stack deferred = (next, deferred')) :
    (∀ a ∈ deferred', Q a) ∧
      ∀ a rest, next = some (a, rest) → Q a ∧ ∀ b ∈ rest.flatten, Q b := by
  obtain ⟨skipped, -, haside, hnext⟩ := advance_spec aside stack deferred
  rw [h] at haside hnext
  have hskipped : ∀ b ∈ skipped, b ∈ stack.flatten := by
    intro b hb
    cases next with
    | none =>
      rw [hnext]
      exact hb
    | some p =>
      rw [hnext.2]
      exact List.mem_append_left _ hb
  refine ⟨fun b hb => ?_, ?_⟩
  · rcases List.mem_append.mp (show b ∈ deferred ++ skipped from haside ▸ hb) with hb | hb
    · exact hdeferred b hb
    · exact hstack b (hskipped b hb)
  · rintro a rest rfl
    have hflat : stack.flatten = skipped ++ a :: rest.flatten := hnext.2
    rw [hflat] at hstack
    exact ⟨hstack a (by simp),
      fun b hb => hstack b (List.mem_append_right _ (List.mem_cons_of_mem _ hb))⟩

/-- What a good action goes on with lies on a stack of good actions. -/
theorem flatten_cons_good {Q : α → Prop} {next : List α} {rest : List (List α)}
    (hnext : ∀ b ∈ next, Q b) (hrest : ∀ b ∈ rest.flatten, Q b) :
    ∀ b ∈ (next :: rest).flatten, Q b := by
  intro b hb
  rw [List.flatten_cons] at hb
  rcases List.mem_append.mp hb with hb | hb
  · exact hnext b hb
  · exact hrest b hb

section Holding

variable {m : Type → Type} [Monad m] (S : MonadPred m) {Q : α → Prop} {act : α → m (Outcome α)}

theorem run_holds (hact : ∀ a, Q a → S.holds (fun out => ∀ b ∈ out.next, Q b) (act a))
    (outermost : Bool) (budget : Nat) {stack : List (List α)} {deferred : List α}
    (hstack : ∀ a ∈ stack.flatten, Q a) (hdeferred : ∀ a ∈ deferred, Q a) :
    S.holds (fun _ => True) (run onEvaluate act outermost budget stack deferred) := by
  induction budget using Nat.strongRecOn generalizing outermost stack deferred with
  | ind budget ih =>
    cases budget with
    | zero =>
      rw [run]
      exact S.holds_pure trivial
    | succ budget =>
      rw [run]
      rcases hadvance : advance (fun a => outermost && onEvaluate a) stack deferred with
        ⟨_ | ⟨a, rest⟩, deferred'⟩
      · exact S.holds_pure trivial
      obtain ⟨hdeferred', hnext⟩ := advance_good hstack hdeferred hadvance
      obtain ⟨ha, hrest⟩ := hnext a rest rfl
      refine S.holds_bind (hact a ha) fun out hout => ?_
      split_ifs with hlast
      · exact S.holds_pure trivial
      have later (top : Bool) {k : Nat} (hk : k ≤ budget) (n : Nat) {d : List α}
          (hd : ∀ b ∈ d, Q b) : S.holds (fun _ => True)
            ((run onEvaluate act top k (out.next :: rest) d) >>= fun p => pure (p.after n)) :=
        S.holds_bind (ih k (by omega) top (flatten_cons_good hout hrest) hd)
          fun p _ => S.holds_pure trivial
      cases out.state with
      | proceed => exact later outermost (Nat.le_refl _) 1 hdeferred'
      | evaluate =>
        cases outermost with
        | false => exact later false (Nat.le_refl _) 1 hdeferred'
        | true =>
          have hflat : ∀ b ∈ [deferred'].flatten, Q b := by simpa using hdeferred'
          refine S.holds_bind (ih budget (by omega) false hflat (by simp)) fun pass _ => ?_
          obtain ⟨_ | state, n⟩ := pass
          · exact S.holds_pure trivial
          · cases state with
            | proceed => exact later true (Nat.sub_le _ _) (n + 1) (by simp)
            | _ => exact S.holds_pure trivial
      | _ => exact S.holds_pure trivial

theorem evaluate_holds (hact : ∀ a, Q a → S.holds (fun out => ∀ b ∈ out.next, Q b) (act a))
    {actions : List α} (hactions : ∀ a ∈ actions, Q a) :
    S.holds (fun _ => True) (evaluate onEvaluate act actions) := by
  have hstack : ∀ a ∈ [actions].flatten, Q a := by simpa using hactions
  refine S.holds_bind (run_holds S hact true maxActions hstack (by simp)) fun pass _ => ?_
  obtain ⟨_ | state, n⟩ := pass <;> exact S.holds_pure trivial

end Holding

/-! ### What a pipeline costs -/

section Bounded

variable {σ β γ : Type} {total : Prop}

/-- What holds of a result with the state after it. Only what is not `total` may have no result. -/
def Yields (total : Prop) (P : β → σ → Prop) : Option (β × σ) → Prop
  | some (b, s) => P b s
  | none => ¬ total

theorem Yields.map {P : β → σ → Prop} {P' : γ → σ → Prop} {r : Option (β × σ)}
    {f : β × σ → γ × σ} (h : Yields total P r) (hf : ∀ b s, P b s → P' (f (b, s)).1 (f (b, s)).2) :
    Yields total P' (r.map f) := by
  cases r with
  | none => exact h
  | some v => exact hf v.1 v.2 h

theorem Yields.bind {P : β → σ → Prop} {P' : γ → σ → Prop} {x : StateT σ Option β}
    {f : β → StateT σ Option γ} {s : σ} (h : Yields total P (x s))
    (hf : ∀ b s', P b s' → Yields total P' (f b s')) : Yields total P' ((x >>= f) s) := by
  have hrun : (x >>= f) s = (x s).bind fun r => f r.1 r.2 := rfl
  rw [hrun]
  cases hx : x s with
  | none =>
    rw [hx] at h
    exact h
  | some r =>
    rw [hx] at h
    exact hf r.1 r.2 h

variable {I : σ → Prop} {Q : α → Prop} {cost : σ → Nat} {k : Nat}
  {act : α → StateT σ Option (Outcome α)}

/-- From `s` on a pass makes at most `budget` invocations, each of which costs at most `k`. -/
structure Within (I : σ → Prop) (cost : σ → Nat) (k budget : Nat) (s : σ) (pass : Pass) (s' : σ) :
    Prop where
  inv : I s'
  invocations : pass.2 ≤ budget
  cost_le : cost s' ≤ cost s + pass.2 * k

theorem Within.after {m n budget : Nat} {s s₁ s' : σ} {pass : Pass}
    (h : Within I cost k m s₁ pass s') (hcost : cost s₁ ≤ cost s + n * k) (hle : n + m ≤ budget) :
    Within I cost k budget s (pass.after n) s' := by
  obtain ⟨hs', hinv, hcost'⟩ := h
  refine ⟨hs', ?_, ?_⟩
  · simp only [Pass.after]
    omega
  · simp only [Pass.after, Nat.add_mul]
    omega

/-- If every action costs at most `k` and goes on with good ones, a pass costs at most `k` for each
invocation that it makes. -/
theorem run_bounded (hact : ∀ a s, Q a → I s → Yields total
      (fun out s' => I s' ∧ (∀ b ∈ out.next, Q b) ∧ cost s' ≤ cost s + k) (act a s))
    (outermost : Bool) (budget : Nat) {stack : List (List α)} {deferred : List α}
    (hstack : ∀ a ∈ stack.flatten, Q a) (hdeferred : ∀ a ∈ deferred, Q a) {s : σ} (hs : I s) :
    Yields total (Within I cost k budget s)
      (run onEvaluate act outermost budget stack deferred s) := by
  induction budget using Nat.strongRecOn generalizing outermost stack deferred s with
  | ind budget ih =>
    cases budget with
    | zero =>
      rw [run]
      exact ⟨hs, Nat.le_refl 0, Nat.le_add_right _ _⟩
    | succ budget =>
      rw [run]
      rcases hadvance : advance (fun a => outermost && onEvaluate a) stack deferred with
        ⟨_ | ⟨a, rest⟩, deferred'⟩
      · exact ⟨hs, Nat.zero_le _, Nat.le_add_right _ _⟩
      obtain ⟨hdeferred', hnext⟩ := advance_good hstack hdeferred hadvance
      obtain ⟨ha, hrest⟩ := hnext a rest rfl
      have hnone : ∀ b ∈ ([] : List α), Q b := by simp
      refine Yields.bind (hact a s ha hs) ?_
      rintro out s₁ ⟨hs₁, hout, hcost⟩
      have hone (state : Option Disposition) : Within I cost k (budget + 1) s (state, 1) s₁ :=
        ⟨hs₁, by omega, by simpa using hcost⟩
      split_ifs with hlast
      · exact hone _
      have hlist := flatten_cons_good hout hrest
      -- The pass goes on after `n` more invocations, those of the nested pass.
      have later (top : Bool) {n : Nat} (hn : n ≤ budget) {d : List α} (hd : ∀ b ∈ d, Q b) {s₂ : σ}
          (hs₂ : I s₂) (hcost₂ : cost s₂ ≤ cost s + (n + 1) * k) :
          Yields total (Within I cost k (budget + 1) s)
            ((run onEvaluate act top (budget - n) (out.next :: rest) d >>= fun p =>
              pure (p.after (n + 1))) s₂) :=
        Yields.bind (ih (budget - n) (by omega) top hlist hd hs₂) fun pass s₃ h =>
          h.after hcost₂ (by omega)
      cases out.state with
      | proceed => exact later outermost (Nat.zero_le _) hdeferred' hs₁ (by omega)
      | evaluate =>
        cases outermost with
        | false => exact later false (Nat.zero_le _) hdeferred' hs₁ (by omega)
        | true =>
          have hflat' : ∀ b ∈ [deferred'].flatten, Q b := by simpa using hdeferred'
          refine Yields.bind (ih budget (by omega) false hflat' hnone hs₁) ?_
          intro pass s₂ hpass
          have hafter : Within I cost k (budget + 1) s (pass.after 1) s₂ :=
            hpass.after (by omega) (by omega)
          obtain ⟨_ | state, n⟩ := pass
          · exact hafter
          · cases state with
            | proceed =>
              have hcost₂ := hafter.cost_le
              rw [Pass.after, Nat.add_comm 1 n] at hcost₂
              exact later true hpass.invocations hnone hpass.inv hcost₂
            | _ => exact hafter
      | _ => exact hone _

theorem evaluate_bounded (hact : ∀ a s, Q a → I s → Yields total
      (fun out s' => I s' ∧ (∀ b ∈ out.next, Q b) ∧ cost s' ≤ cost s + k) (act a s))
    {actions : List α} (hactions : ∀ a ∈ actions, Q a) {s : σ} (hs : I s) :
    Yields total (fun _ s' => I s' ∧ cost s' ≤ cost s + maxActions * k)
      (evaluate onEvaluate act actions s) := by
  have hstack : ∀ a ∈ [actions].flatten, Q a := by simpa using hactions
  have hnone : ∀ a ∈ ([] : List α), Q a := by simp
  refine Yields.bind (run_bounded hact true maxActions hstack hnone hs) ?_
  rintro ⟨state, n⟩ s' ⟨hs', hle, hcost⟩
  have hmul : cost s + n * k ≤ cost s + maxActions * k :=
    Nat.add_le_add_left (Nat.mul_le_mul_right k hle) _
  cases state with
  | none => exact ⟨hs', Nat.le_trans hcost hmul⟩
  | some state => exact ⟨hs', Nat.le_trans hcost hmul⟩

end Bounded

end Pipeline

end Dataplane

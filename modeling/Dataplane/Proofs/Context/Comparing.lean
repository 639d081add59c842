import Dataplane.Proofs.Config.Decodable
import Dataplane.Proofs.Context.Attempts

/-!
# What comparing two lists tells

Built lists are compared by the hashes of their actions. Since the byte form of an action can be
read back, lists that compare as equal were built from the same configurations, unless the hash
collides.

## The model

A configuration that only lets the packet go on builds no action and leaves no trace in a list. The
others are `active`. `list_hashes` says that the hashes of a built list are those of the active ones
of its configurations, in order. It asks nothing of the context, so every property in its rules is
that of all contexts.
-/

namespace Dataplane

/-- Does the configuration build an action? -/
def ActionConfig.isActive : ActionConfig → Bool
  | .proceed => false
  | _ => true

/-- The configurations of a list that build an action. -/
def Build.active (configs : List ListedConfig) : List ListedConfig :=
  configs.filter (·.action.isActive)

namespace Build

open Attempt

/-- Nothing needs to be known of a computation where nothing is claimed. -/
theorem triple_any {ε α : Type} {P : Context → Prop} (x : Attempt ε α) :
    Triple P x (fun _ _ => True) (fun _ => True) := by
  intro c _
  generalize x c = y
  obtain ⟨a | a, c'⟩ := y <;> trivial

/-- Anything may go before a last step. -/
theorem triple_after {ε α β : Type} {P : Context → Prop} {x : Attempt ε α} {f : α → Attempt ε β}
    {Q : β → Context → Prop} (hf : ∀ a, Triple (fun _ => True) (f a) Q fun _ => True) :
    Triple P (x >>= f) Q fun _ => True :=
  Triple.bind (triple_any x) hf

/-- The configurations that build an action are the active ones. -/
theorem action_isSome (builders : CustomBuilders) (fuel : Nat) (config : ActionConfig) :
    Triple (fun _ => True) (action builders fuel config)
      (fun a _ => a.isSome = config.isActive) fun _ => True := by
  cases fuel with
  | zero => exact Triple.throw fun c hc => hc
  | succ fuel =>
    unfold action
    cases config with
    | transmit | lookup | flowCounter | update | custom =>
      exact triple_after fun _ => Triple.pure fun _ _ => rfl
    | mirror | select => exact triple_after fun _ => triple_after fun _ => Triple.pure fun _ _ => rfl
    | ratelimit =>
      refine triple_after fun _ => triple_after fun _ => ?_
      exact triple_after fun _ => Triple.pure fun _ _ => rfl
    | _ => exact Triple.pure fun _ _ => rfl

/-- An action is put into a list under the hash of its configuration. -/
theorem enlist_hash (config : ListedConfig) (a : Action) :
    Triple (fun _ => True) (enlist config a) (fun listed _ => listed.hash = config.hash)
      fun _ => True :=
  triple_after fun _ => triple_after fun _ => Triple.pure fun _ _ => rfl

/-- The list in front of the actions that are still to be built keeps its hashes. -/
theorem list_hashes {build : ActionConfig → Builder (Option Action)}
    (hbuild : ∀ config, Triple (fun _ => True) (build config)
      (fun a _ => a.isSome = config.isActive) fun _ => True)
    (configs : List ListedConfig) (done : ActionList) :
    Triple (fun _ => True) (list build done configs)
      (fun l _ => l.map (·.hash) = done.map (·.hash) ++ (active configs).map Flagged.hash)
      fun _ => True := by
  induction configs generalizing done with
  | nil => exact Triple.pure fun c hc => by simp [active]
  | cons config rest ih =>
    rw [list]
    refine Triple.bind (R := fun a _ => a.isSome = config.action.isActive) ?_ fun built => ?_
    · refine ((hbuild config.action).tryCatch fun e => triple_after fun _ => ?_).tryCatch
        fun e => triple_after fun _ => ?_
      · exact Triple.throw fun _ _ => trivial
      · exact Triple.throw fun _ _ => trivial
    · rintro c hbuilt
      cases built with
      | none =>
        have hactive : active (config :: rest) = active rest := by
          simp [active, ← hbuilt]
        rw [hactive]
        exact ih done c trivial
      | some a =>
        have hactive : active (config :: rest) = config :: active rest := by
          simp [active, ← hbuilt]
        rw [hactive]
        refine Triple.bind (enlist_hash config a) (fun listed => ?_) c trivial
        rintro c' hlisted
        simpa [hlisted] using ih (done ++ [listed]) c' trivial

/-- The hashes of a built list are those of its active configurations. -/
theorem actions_hashes (configs : List ListedConfig) :
    Triple (fun _ => True) (actions configs)
      (fun l _ => l.map (·.hash) = (active configs).map Flagged.hash) fun _ => True := by
  refine Triple.get_bind fun s _ => ?_
  refine (list_hashes (action_isSome s.builders _) configs []).mono (fun _ _ => trivial)
    (fun l _ hl => ?_) fun _ _ => trivial
  simpa using hl

/-! ### Collisions -/

/-- At some place the lists have two actions with different byte forms of the same CRC-32. -/
def Collide (ks ls : List ListedConfig) : Prop :=
  ∃ (i : Nat) (a b : ListedConfig), ks[i]? = some a ∧ ls[i]? = some b ∧
    a.compact ≠ b.compact ∧ crc32 a.compact = crc32 b.compact

/-- Lists with the same hashes are equal or collide at the first place where they differ. -/
theorem eq_or_collide {ks ls : List ListedConfig} (h : ks.map Flagged.hash = ls.map Flagged.hash) :
    ks = ls ∨ Collide ks ls := by
  induction ks generalizing ls with
  | nil => exact .inl (by simpa [eq_comm] using h)
  | cons a ks ih =>
    cases ls with
    | nil => simp at h
    | cons b ls =>
      obtain ⟨hhead, htail⟩ := List.cons.inj h
      by_cases hab : a = b
      · obtain rfl | ⟨i, x, y, hx, hy, hcollision⟩ := ih htail
        · exact .inl (by rw [hab])
        · exact .inr ⟨i + 1, x, y, hx, hy, hcollision⟩
      · exact .inr ⟨0, a, b, rfl, rfl, Flagged.prefixFree_compact.injective.ne hab, hhead⟩

/-- The byte forms of two actions are equal only if the actions are, flags included. Lists that were
built and compare as equal come from the same active configurations, or at some place two different
byte forms have the same CRC-32. Lists from the same active configurations do compare as equal. -/
theorem compact_tells_apart :
    (∀ a b : ListedConfig, a.compact = b.compact ↔ a = b) ∧
    ∀ {ks ls : List ListedConfig} {k l : ActionList} {c c' d d' : Context},
      actions ks c = (.ok k, c') → actions ls d = (.ok l, d') →
        (active ks = active ls → k.isEqual l = true) ∧
        (k.isEqual l = true → active ks = active ls ∨ Collide (active ks) (active ls)) := by
  refine ⟨fun a b => Flagged.prefixFree_compact.injective.eq_iff, ?_⟩
  intro ks ls k l c c' d d' hk hl
  have hks := (actions_hashes ks).of_ok trivial hk
  have hls := (actions_hashes ls).of_ok trivial hl
  constructor
  · intro hactive
    simp [ActionList.isEqual, hks, hls, hactive]
  · intro hequal
    have hhashes : (active ks).map Flagged.hash = (active ls).map Flagged.hash := by
      simpa [ActionList.isEqual, hks, hls] using hequal
    exact eq_or_collide hhashes

/-- A list compares as equal with the same list behind a configuration that builds nothing, and what
comparing tells of the two is that their active configurations are the same or collide. -/
theorem compact_tells_apart_proceed :
    ∃ (k l : ActionList) (c' d' : Context),
      actions [⟨.drop, false⟩] (.fresh "main" 0) = (.ok k, c') ∧
      actions [⟨.proceed, true⟩, ⟨.drop, false⟩] (.fresh "main" 0) = (.ok l, d') ∧
      k.isEqual l = true ∧
      (active [⟨.drop, false⟩] = active [⟨.proceed, true⟩, ⟨.drop, false⟩] ∨
        Collide (active [⟨.drop, false⟩]) (active [⟨.proceed, true⟩, ⟨.drop, false⟩])) := by
  have hk : actions [⟨.drop, false⟩] (.fresh "main" 0) = (.ok _, _) := rfl
  have hl : actions [⟨.proceed, true⟩, ⟨.drop, false⟩] (.fresh "main" 0) = (.ok _, _) := rfl
  obtain ⟨hsame, hequal⟩ := compact_tells_apart.2 hk hl
  exact ⟨_, _, _, _, hk, hl, hsame rfl, hequal (hsame rfl)⟩

end Build

end Dataplane

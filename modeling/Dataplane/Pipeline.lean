import Dataplane.Disposition

/-!
# Pipelines

A pipeline runs the actions of a list, one after the other, until one of them decides what becomes
of the packet.

## The model

What an action does is a computation in any monad; it gives a disposition and a list of actions,
its *continuation*. When an action proceeds, its continuation runs before the actions that follow
it. The pipeline keeps the unfinished lists on a stack.

Actions may be flagged to be deferred. The outermost pass sets them aside as it meets them. When an
action asks for an evaluation, those set aside so far are run by a nested pass, which takes no
notice of flags and for which another evaluation is nothing special; if the nested pass proceeds,
so does the outer one.

Both passes share a budget. The invocation that uses it up ends the pipeline, whatever it decided.
-/

namespace Dataplane

/-- What an action decides. -/
structure Outcome (α : Type) where
  /-- The actions to run before those that follow. -/
  next : List α
  /-- What becomes of the packet. -/
  state : Disposition

namespace Outcome

variable {α : Type}

/-- A decision without continuation. -/
def of (state : Disposition) : Outcome α := ⟨[], state⟩

/-- Going on with some actions. -/
def andThen (next : List α) : Outcome α := ⟨next, .proceed⟩

end Outcome

/-- What a pipeline decides. -/
structure Verdict where
  /-- What becomes of the packet. -/
  state : Disposition
  /-- The number of invocations of actions. -/
  executed : Nat
  /-- Was the budget used up? -/
  limited : Bool
  deriving DecidableEq

namespace Pipeline

/-- The largest number of invocations. -/
def maxActions : Nat := 100

/-- The wording of the error that the budget was used up. -/
def limitMessage : String := s!"action limit of {maxActions} reached"

variable {m : Type → Type} [Monad m] {α : Type}

/-- The next action of a stack of lists that is not set aside, with the stack after it; the actions
set aside are added to `deferred`. -/
def advance (aside : α → Bool) (stack : List (List α)) (deferred : List α) :
    Option (α × List (List α)) × List α :=
  match stack with
  | [] => (none, deferred)
  | [] :: rest => advance aside rest deferred
  | (a :: as) :: rest =>
    if aside a then advance aside (as :: rest) (deferred ++ [a])
    else (some (a, as :: rest), deferred)
termination_by stack.foldr (·.length + 1 + ·) 0

/-- What a pass decides, nothing if the budget was used up, and its number of invocations. -/
abbrev Pass := Option Disposition × Nat

/-- A pass before which there were `n` invocations. -/
def Pass.after (n : Nat) (p : Pass) : Pass := (p.1, n + p.2)

/-- Runs a stack of lists, with some actions set aside already. -/
def run (onEvaluate : α → Bool) (act : α → m (Outcome α)) (outermost : Bool) (budget : Nat)
    (stack : List (List α)) (deferred : List α) : m Pass :=
  match budget with
  | 0 => pure (none, 0)
  | budget + 1 =>
    match advance (fun a => outermost && onEvaluate a) stack deferred with
    | (none, _) => pure (some .proceed, 0)
    | (some (a, rest), deferred) => do
      let out ← act a
      if budget = 0 then return (none, 1)
      match out.state, outermost with
      | .evaluate, true =>
        match ← run onEvaluate act false budget [deferred] [] with
        | (some .proceed, n) =>
          return (← run onEvaluate act true (budget - n) (out.next :: rest) []).after (n + 1)
        | pass => return pass.after 1
      | .proceed, _ | .evaluate, false =>
        return (← run onEvaluate act outermost budget (out.next :: rest) deferred).after 1
      | state, _ => return (some state, 1)
termination_by budget

/-- Runs a list of actions. -/
def evaluate (onEvaluate : α → Bool) (act : α → m (Outcome α)) (actions : List α) : m Verdict := do
  match ← run onEvaluate act true maxActions [actions] [] with
  | (some state, n) => return ⟨state, n, false⟩
  | (none, n) => return ⟨.drop, n, true⟩

end Pipeline

end Dataplane

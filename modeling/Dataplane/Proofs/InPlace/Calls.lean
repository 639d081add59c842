/-!
# Calls that change a value in place

The operations of the library give a changed copy or the cause of a refusal. A forwarding engine
changes values where they are, step by step, and a step in the middle may find that the call has to
be refused. What was changed before that step stays changed.

## The model

A call that changes a value in place is a computation with that value as its state, whose state
*outlives* an error. `atOnce` turns an operation that gives a changed copy into such a call: it
changes the value if the operation succeeds and leaves it alone otherwise.
-/

namespace Dataplane

/-- A call that changes a value of type `σ` in place. The changes made before an error stay. -/
abbrev InPlace (ε σ α : Type) := EStateM ε σ α

namespace InPlace

variable {ε σ τ α β : Type}

/-- The call that does what an operation says if it succeeds, and nothing if it is refused. -/
def atOnce (f : σ → Except ε (σ × α)) : InPlace ε σ α := fun s =>
  match f s with
  | .ok (t, a) => .ok a t
  | .error e => .error e s

/-- The value as it is now. -/
def current : InPlace ε σ σ := get

/-- Refuses the call if a condition holds. -/
def refuseIf (c : Prop) [Decidable c] (e : ε) : InPlace ε σ Unit :=
  if c then throw e else pure ()

/-- The result of a computation that does not look at the value. -/
def fromExcept (x : Except ε α) : InPlace ε σ α := MonadExcept.ofExcept x

/-- What a call leaves of a larger value, when it has run on a part of it. -/
def into (whole : τ → σ) : EStateM.Result ε τ α → EStateM.Result ε σ α
  | .ok a t => .ok a (whole t)
  | .error e t => .error e (whole t)

/-- A call that gives another error in place of its own. -/
def mapError {ε' : Type} (f : ε → ε') (m : InPlace ε σ α) : InPlace ε' σ α := fun s =>
  match m s with
  | .ok a t => .ok a t
  | .error e t => .error (f e) t

/-! ### Steps -/

theorem bind_apply (m : InPlace ε σ α) (f : α → InPlace ε σ β) (s : σ) :
    (m >>= f) s = match m s with
      | .ok a t => f a t
      | .error e t => .error e t := rfl

theorem pure_apply (a : α) (s : σ) : (pure a : InPlace ε σ α) s = .ok a s := rfl

theorem current_apply (s : σ) : (current : InPlace ε σ σ) s = .ok s s := rfl

theorem modify_apply (f : σ → σ) (s : σ) :
    (modify f : InPlace ε σ Unit) s = .ok () (f s) := rfl

theorem refuseIf_of {c : Prop} [Decidable c] (h : c) (e : ε) (s : σ) :
    (refuseIf c e : InPlace ε σ Unit) s = .error e s := by
  rw [refuseIf, if_pos h]
  rfl

theorem refuseIf_of_not {c : Prop} [Decidable c] (h : ¬c) (e : ε) (s : σ) :
    (refuseIf c e : InPlace ε σ Unit) s = .ok () s := by
  rw [refuseIf, if_neg h]
  rfl

theorem fromExcept_ok (a : α) (s : σ) :
    (fromExcept (.ok a) : InPlace ε σ α) s = .ok a s := rfl

theorem atOnce_apply (f : σ → Except ε (σ × α)) (s : σ) :
    atOnce f s = match f s with
      | .ok (t, a) => .ok a t
      | .error e => .error e s := rfl

/-- The error of a call done at once is the operation's. -/
theorem mapError_atOnce {ε' : Type} (f : ε → ε') (g : σ → Except ε (σ × α)) :
    mapError f (atOnce g) = atOnce fun s => (g s).mapError f := by
  funext s
  rw [mapError, atOnce_apply, atOnce_apply]
  cases g s <;> rfl

/-- A part that is changed at once is a value that is changed at once. -/
theorem into_atOnce (whole : τ → σ) (f : τ → Except ε (τ × α)) (g : σ → Except ε (σ × α)) (t : τ)
    (h : g (whole t) = (f t).map fun r => (whole r.1, r.2)) :
    into whole (atOnce f t) = atOnce g (whole t) := by
  rw [atOnce_apply, atOnce_apply, h]
  cases f t <;> rfl

end InPlace

end Dataplane

import Dataplane.Context.Build

/-!
# Attempts on a context

What it takes to say of a computation on a context that may fail: what holds of the context and the
result when it succeeds, and what holds of the context when it fails.

## The model

`Attempt.Triple P x Q E` says that, begun in a context with `P`, the computation `x` ends either
with a result and a context with `Q` or with a failure and a context with `E`. There is one rule for
each way in which computations are put together.
-/

namespace Dataplane

namespace Attempt

variable {ε ε' α β : Type} {P P' R : Context → Prop} {E E' : Context → Prop}
  {Q Q' : α → Context → Prop} {x : Attempt ε α}

/-- In a context with the first property, a computation ends with a result and a context with the
second, or fails in a context with the third. -/
def Triple (P : Context → Prop) (x : Attempt ε α) (Q : α → Context → Prop) (E : Context → Prop) :
    Prop :=
  ∀ c, P c → match x c with
    | (.ok a, c') => Q a c'
    | (.error _, c') => E c'

theorem Triple.of_ok (h : Triple P x Q E) {c c' : Context} {a : α} (hc : P c)
    (hx : x c = (.ok a, c')) : Q a c' := by
  have := h c hc
  rwa [hx] at this

theorem Triple.of_error (h : Triple P x Q E) {c c' : Context} {e : ε} (hc : P c)
    (hx : x c = (.error e, c')) : E c' := by
  have := h c hc
  rwa [hx] at this

theorem Triple.pure {a : α} (h : ∀ c, P c → Q a c) : Triple P (pure a : Attempt ε α) Q E := h

theorem Triple.throw {e : ε} (h : ∀ c, P c → E c) : Triple P (throw e : Attempt ε α) Q E := h

theorem Triple.modify {f : Context → Context} {Q : Unit → Context → Prop}
    (h : ∀ c, P c → Q () (f c)) : Triple P (modify f : Attempt ε Unit) Q E := h

theorem Triple.set {c₀ : Context} {Q : Unit → Context → Prop} (h : ∀ c, P c → Q () c₀) :
    Triple P (set c₀ : Attempt ε Unit) Q E := h

theorem Triple.bind {f : α → Attempt ε β} {Q : β → Context → Prop} {R : α → Context → Prop}
    (hx : Triple P x R E) (hf : ∀ a, Triple (R a) (f a) Q E) : Triple P (x >>= f) Q E := by
  intro c hc
  have hmid := hx c hc
  have hrun : (x >>= f) c = match x c with
      | (.ok a, c') => f a c'
      | (.error e, c') => (.error e, c') := by
    change ExceptT.bindCont f (x c).1 (x c).2 = _
    generalize x c = y
    obtain ⟨a | a, c'⟩ := y <;> rfl
  rw [hrun]
  generalize x c = y at hmid
  obtain ⟨a | a, c'⟩ := y
  · exact hmid
  · exact hf a c' hmid

/-- A computation that begins by looking at the context. -/
theorem Triple.get_bind {f : Context → Attempt ε β} {Q : β → Context → Prop}
    (hf : ∀ s, P s → Triple (· = s) (f s) Q E) : Triple P (get >>= f) Q E :=
  fun c hc => hf c hc c rfl

theorem Triple.tryCatch {handle : ε → Attempt ε α} (hx : Triple P x Q E')
    (hh : ∀ e, Triple E' (handle e) Q E) : Triple P (tryCatch x handle) Q E := by
  intro c hc
  have hmid := hx c hc
  have hrun : (MonadExcept.tryCatch x handle) c = match x c with
      | (.ok a, c') => (.ok a, c')
      | (.error e, c') => handle e c' := by
    change (match (x c).1 with
      | .ok a => (Pure.pure (.ok a) : StateM Context (Except ε α))
      | .error e => handle e) (x c).2 = _
    generalize x c = y
    obtain ⟨a | a, c'⟩ := y <;> rfl
  rw [hrun]
  generalize x c = y at hmid
  obtain ⟨a | a, c'⟩ := y
  · exact hh a c' hmid
  · exact hmid

theorem Triple.adapt {f : ε → ε'} (hx : Triple P x Q E) : Triple P (x.adapt f) Q E := by
  intro c hc
  have hmid := hx c hc
  have hrun : (x.adapt f) c = ((x c).1.mapError f, (x c).2) := rfl
  rw [hrun]
  generalize x c = y at hmid
  obtain ⟨a | a, c'⟩ := y <;> exact hmid

theorem Triple.mono (hx : Triple P x Q E) (hP : ∀ c, P' c → P c) (hQ : ∀ a c, Q a c → Q' a c)
    (hE : ∀ c, E c → E' c) : Triple P' x Q' E' := by
  intro c hc
  have := hx c (hP c hc)
  generalize x c = y at this
  obtain ⟨a | a, c'⟩ := y
  · exact hE _ this
  · exact hQ _ _ this

/-- What is said of a computation in two ways. -/
theorem Triple.and (hx : Triple P x Q E) (hx' : Triple P' x Q' E') :
    Triple (fun c => P c ∧ P' c) x (fun a c => Q a c ∧ Q' a c) fun c => E c ∧ E' c := by
  rintro c ⟨hc, hc'⟩
  have h := hx c hc
  have h' := hx' c hc'
  generalize x c = y at h h'
  obtain ⟨a | a, c'⟩ := y
  · exact ⟨h, h'⟩
  · exact ⟨h, h'⟩

end Attempt

end Dataplane

import Dataplane.Proofs.Context.Courses
import Dataplane.Proofs.Context.Teardown

/-!
# What tearing a context down leaves behind

Tearing a context down forces out what is registered. An object without an identifier is cleaned up
by the cascades of that, or not at all: it stays exactly if a cycle of objects without identifiers
leads to it. So everything is cleaned up, each object once, unless the objects of such a cycle were
taken out before while they referred to each other.

## The model

The contexts are those that calls lead to while nothing outside holds a reference in the end, neither
a list of actions nor a port that is not registered.
-/

namespace Dataplane

namespace Context

open Registry

variable {c : Context} {i : Nat} {o : Registered Object} {held : Multiset Nat}

/-- What is left after tearing down had no identifier, and is what it was. -/
theorem adrift_of_live_cleanup (h : Reached c held) (select : Registered Object → Bool)
    (ho : (c.cleanup select).2.registry.get? i = some o) (hc : o.cleaned = false) :
    c.registry.Adrift i ∧ ∃ o', c.registry.get? i = some o' ∧ o'.body = o.body := by
  obtain ⟨hfirst, hrest⟩ := tornDown_cleanup h select
  obtain ⟨o₁, ho₁, hc₁, hid₁, hbody₁⟩ := hrest.live i o ho hc
  obtain ⟨o₀, ho₀, hc₀, hid₀, hbody₀⟩ := hfirst.live i o₁ ho₁ hc₁
  refine ⟨⟨o₀, ho₀, hc₀, fun hi => ?_⟩, o₀, ho₀, (hbody₁.trans hbody₀).symm⟩
  have hcleaned := (cleanedCount_cleanup h select ho₀ hi).2
  rw [cleanedCount_of_get? ho, hc] at hcleaned
  cases hcleaned

/-- When nothing is held outside, what is left after tearing down is what cycles of objects without
identifiers lead to. -/
theorem live_cleanup_iff (h : Reached c 0) (hvacated : c.registry.Vacated)
    (select : Registered Object → Bool) :
    (∃ o, (c.cleanup select).2.registry.get? i = some o ∧ o.cleaned = false) ↔
      c.registry.Entangled i := by
  obtain ⟨forced, hconsistent⟩ := h.consistent
  obtain ⟨hfirst, hrest⟩ := tornDown_cleanup h select
  constructor
  · rintro ⟨o, ho, hc⟩
    obtain ⟨forced', hend⟩ := hrest.consistent
    have hbalanced : (c.cleanup select).2.registry.Balanced 0 forced' [] :=
      ⟨hend, fun j => hrest.vacated j (hfirst.vacated j (hvacated (i := j)))⟩
    refine exists_cycle (P := fun j => ∃ o, (c.cleanup select).2.registry.get? j = some o ∧
      o.cleaned = false) ?_ (fun j ⟨p, hp, hlive⟩ => ?_) ⟨o, ho, hc⟩
    · exact (Set.finite_lt_nat _).subset fun j ⟨p, hp, _⟩ => lt_length_of_get? hp
    · obtain ⟨k, q, hq, hlive', hmem⟩ := hbalanced.exists_owner (ids_cleanup h select) hp hlive
      obtain ⟨hk, q', hq', hbody⟩ := adrift_of_live_cleanup h select hq hlive'
      exact ⟨k, ⟨q, hq, hlive'⟩, hk, (adrift_of_live_cleanup h select hp hlive).1, q', hq',
        hbody ▸ hmem⟩
  · intro hi
    exact (hrest.upheld _ (hfirst.upheld _ (upheld_entangled hconsistent.toIndexed))).live i hi

/-- Without identifiers tearing down does nothing. -/
theorem cleanup_of_ids_eq_empty (h : c.registry.ids = .empty)
    (select : Registered Object → Bool) : (c.cleanup select).2 = c := by
  rw [cleanup_eq, snapshot, h]
  rfl

end Context

namespace Caller

open Registry Context

theorem perform_removeObject {s : Caller} {id : String} {nid : Nat} {r : Registry Object}
    (h : s.context.registry.remove id false = .ok (nid, r)) : s.perform (.removeObject id) =
      (true, { s with context := (s.context.withRegistry r).notify (.removed id nid) }) := by
  rw [perform, Context.removeObject, h]
  rfl

/-- In a context that calls led to and of which nothing is held outside, tearing down cleans up
everything, each object that was ever registered once, exactly if no objects without identifiers
refer to each other in a cycle. An object to which such a cycle leads is never cleaned up, and every
other one is cleaned up once. -/
theorem remnants_run (c : Context) (calls : List Call) (select : Registered Object → Bool)
    (hnone : outside (run c calls).lists (run c calls).ports = []) :
    let s := (run c calls).context
    let e := (s.cleanup select).2
    ((e.registry.live = 0 ∧ ∀ i o, s.registry.get? i = some o → Cleanups .empty e.registry i 1) ↔
      ∀ i, ¬ Relation.TransGen s.registry.Ties i i) ∧
    ∀ i o, s.registry.get? i = some o →
      (s.registry.Entangled i → Cleanups .empty e.registry i 0) ∧
      (¬ s.registry.Entangled i → Cleanups .empty e.registry i 1) := by
  intro s e
  have hreached : Reached s 0 := by
    have hcalls := Reached.calls c calls
    rwa [hnone] at hcalls
  have hbalanced := (sound_run c calls).ready.balanced
  have hlive {i : Nat} : (∃ o, e.registry.get? i = some o ∧ o.cleaned = false) ↔
      s.registry.Entangled i := live_cleanup_iff hreached hbalanced.vacated select
  obtain ⟨hfirst, hrest⟩ := tornDown_cleanup hreached select
  have hcourse : ∃ log, Course .empty log e.registry := by
    obtain ⟨log, hlog⟩ := along_run c calls
    obtain ⟨log₁, hlog₁⟩ := hfirst.course
    obtain ⟨log₂, hlog₂⟩ := hrest.course
    exact ⟨_, (hlog.trans hlog₁).trans hlog₂⟩
  -- an object is cleaned up as often as its flag says in the end
  have hcleanups {i : Nat} {o : Registered Object} (ho : s.registry.get? i = some o) :
      (s.registry.Entangled i → Cleanups .empty e.registry i 0) ∧
        (¬ s.registry.Entangled i → Cleanups .empty e.registry i 1) := by
    have hi := rel_since_trans (hfirst.objects i) (hrest.objects i)
    rw [ho] at hi
    generalize hnext : (s.cleanup select).2.registry.get? i = next at hi
    cases hi with
    | @some _ o' _ =>
      constructor
      · rintro hentangled
        obtain ⟨o'', ho'', hc⟩ := hlive.2 hentangled
        exact cleanups_of_course hcourse (cleanedCount_of_get? ho'' ▸ hc ▸ rfl)
      · rintro hfree
        have hc : o'.cleaned = true := by
          by_contra hc
          exact hfree (hlive.1 ⟨o', hnext, by simpa using hc⟩)
        exact cleanups_of_course hcourse (cleanedCount_of_get? hnext ▸ hc ▸ rfl)
  refine ⟨⟨?_, fun hnocycle => ?_⟩, fun i o ho => hcleanups ho⟩
  · rintro ⟨hnolive, -⟩ i hcycle
    obtain ⟨forced, hend⟩ := hrest.consistent
    obtain ⟨o, ho, hc⟩ := hlive.2 ⟨i, hcycle, .refl⟩
    rw [hend.toIndexed.live_eq_zero_iff.1 hnolive i o ho] at hc
    cases hc
  · have hfree (i : Nat) : ¬ s.registry.Entangled i := fun ⟨j, hcycle, _⟩ => hnocycle j hcycle
    obtain ⟨forced, hend⟩ := hrest.consistent
    refine ⟨hend.toIndexed.live_eq_zero_iff.2 fun i o ho => ?_, fun i o ho =>
      (hcleanups ho).2 (hfree i)⟩
    by_contra hc
    exact hfree i (hlive.1 ⟨o, ho, by simpa using hc⟩)

/-- A port and a table refer to each other, and the port is taken out. -/
def strayPortCalls : List Call := mutualCalls ++ [.removeObject "vif0"]

/-- A cycle in which something is registered keeps nothing. -/
theorem remnants_of_stray_port :
    let s := run (fresh "fwd" 0) strayPortCalls
    let e := (s.context.cleanup fun o => o.body.port?.isSome).2
    outside s.lists s.ports = [] ∧ s.context.registry.Adrift 1 ∧ e.registry.live = 0 ∧
      Cleanups .empty e.registry 0 1 ∧ Cleanups .empty e.registry 1 1 := by
  intro s e
  have hremoved : (run (fresh "fwd" 0) mutualCalls).context.registry.remove "vif0" false = .ok _ :=
    remove_of_shared (i := 1) rfl rfl ⟨_, rfl, rfl, by decide⟩
  have hs : s = _ := congrArg Prod.snd (perform_removeObject hremoved)
  have hnone : outside s.lists s.ports = [] := by
    rw [hs]
    rfl
  have hport : s.context.registry.Adrift 1 := by
    rw [hs]
    exact ⟨_, rfl, rfl, by decide⟩
  -- the table is registered, so the port is the only object without an identifier
  have honly {i : Nat} (hi : s.context.registry.Adrift i) : i = 1 := by
    obtain ⟨o, ho, -, hunnamed⟩ := hi
    have hlt := lt_length_of_get? ho
    rw [hs] at ho hunnamed hlt
    change i < 2 at hlt
    match i with
    | 0 =>
      cases ho
      exact absurd rfl hunnamed
    | 1 => rfl
  have hnocycle (i : Nat) : ¬ Relation.TransGen s.context.registry.Ties i i := by
    intro hcycle
    obtain ⟨j, ⟨hi, hj, o, ho, hmem⟩, -⟩ := Relation.TransGen.head'_iff.1 hcycle
    obtain rfl := honly hi
    obtain rfl := honly hj
    rw [hs] at ho
    cases ho
    revert hmem
    decide
  obtain ⟨hlive, hcleanups⟩ :=
    (remnants_run (fresh "fwd" 0) strayPortCalls (fun o => o.body.port?.isSome) hnone).1.2 hnocycle
  obtain ⟨p, hp, -⟩ := id hport
  obtain ⟨t, ht⟩ : ∃ t, s.context.registry.get? 0 = some t := by
    rw [hs]
    exact ⟨_, rfl⟩
  exact ⟨hnone, hport, hlive, hcleanups 0 t ht, hcleanups 1 p hp⟩

/-- Two tables refer to each other, and both are taken out. -/
def strayTableCalls : List Call :=
  [.createTable "a" ⟨[]⟩, .createTable "b" ⟨[]⟩,
    .addEntry 0 "to-b" ⟨[⟨.lookup "b", false⟩], .tail⟩,
    .addEntry 1 "to-a" ⟨[⟨.lookup "a", false⟩], .tail⟩,
    .removeObject "a", .removeObject "b"]

/-- Two tables that refer to each other and have no identifiers are not cleaned up. -/
theorem remnants_of_stray_tables :
    let s := run (fresh "fwd" 0) strayTableCalls
    let e := (s.context.cleanup fun o => o.body.port?.isSome).2
    outside s.lists s.ports = [] ∧ e.registry.live = 2 ∧
      Cleanups .empty e.registry 0 0 ∧ Cleanups .empty e.registry 1 0 := by
  intro s e
  have hfirst : (run (fresh "fwd" 0) (strayTableCalls.take 4)).context.registry.remove "a" false =
      .ok _ := remove_of_shared (i := 0) rfl rfl ⟨_, rfl, rfl, by decide⟩
  obtain ⟨s', hs'⟩ : ∃ s', s' = run (fresh "fwd" 0) (strayTableCalls.take 5) := ⟨_, rfl⟩
  have hmiddle := hs'.trans (congrArg Prod.snd (perform_removeObject hfirst))
  have hsecond : s'.context.registry.remove "b" false = .ok (2, _) := remove_of_shared (i := 1)
    (by rw [hmiddle]; rfl) (by rw [hmiddle]; rfl) (by rw [hmiddle]; exact ⟨_, rfl, rfl, by decide⟩)
  have hs : s = (s'.perform (.removeObject "b")).2 := by
    rw [hs']
    rfl
  rw [perform_removeObject hsecond, hmiddle] at hs
  have he : e = s.context := cleanup_of_ids_eq_empty (by rw [hs]; rfl) _
  have hcourse := along_run (fresh "fwd" 0) strayTableCalls
  refine ⟨?_, ?_, he ▸ cleanups_of_course hcourse ?_, he ▸ cleanups_of_course hcourse ?_⟩
  · rw [hs]
    rfl
  · rw [he, hs]
    rfl
  · rw [hs]
    rfl
  · rw [hs]
    rfl

end Caller

end Dataplane

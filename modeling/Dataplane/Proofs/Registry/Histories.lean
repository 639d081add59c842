import Dataplane.Proofs.Registry.Operations
import Mathlib.Algebra.Order.Sub.Basic
import Mathlib.Data.List.Induction
import Mathlib.Data.Multiset.AddSub
import Mathlib.Data.Multiset.OrderedMonoid

/-!
# Histories of a registry

Whatever is registered, acquired, taken out and released, in any order and with objects that refer
to each other in any way: the count of every object is right between the operations, each object is
cleaned up once at most, when it is due, and a reference that is left to an object that was cleaned
up does nothing.

## The model

An `Account` is a registry together with the references held outside. An operation that cannot be
done, be it that the registry refuses it or that a reference is used that nobody holds, leaves the
account as it is; so every list of operations is a history. References come to be owned by an object
when it is registered with them, or later while it was not cleaned up. A body counts its cleanups.
-/

namespace Dataplane

/-! ### Counting cleanups -/

/-- A body on which its cleanups are counted. -/
structure Tallied (β : Type) where
  body : β
  cleanups : Nat

instance {β : Type} [Composite β] : Composite (Tallied β) where
  kind t := Composite.kind t.body
  owned t := Composite.owned t.body
  vacate t := { t with body := Composite.vacate t.body }
  countCleanup t := ⟨Composite.countCleanup t.body, t.cleanups + 1⟩
  owned_vacate t := Composite.owned_vacate t.body

/-- Was an object cleaned up once if it counts as cleaned up, and never otherwise? -/
def Registered.CleanedOnce {β : Type} (o : Registered (Tallied β)) : Prop :=
  o.body.cleanups = if o.cleaned then 1 else 0

theorem Registered.CleanedOnce.change {β : Type} [Composite β] {o o' : Registered (Tallied β)}
    (h : Change o o') (ho : o.CleanedOnce) : o'.CleanedOnce := by
  cases h with
  | counted => exact ho
  | cleanedUp hc =>
    have hnone : o.body.cleanups = 0 := by simpa [CleanedOnce, hc] using ho
    simp [CleanedOnce, Registry.cleanedUp, Composite.vacate, Composite.countCleanup, hnone]
  | abandoned => exact ho

namespace Registry

variable {β : Type} [Composite β] {r r' : Registry (Tallied β)} {i : Nat}

/-- Objects of the first registry that were cleaned up are so in the second one, and if each was
cleaned up at most once, they all are in the second one. -/
structure Follows (r r' : Registry (Tallied β)) : Prop where
  cleaned : ∀ {i}, (∃ o, r.get? i = some o ∧ o.cleaned = true) →
    ∃ o, r'.get? i = some o ∧ o.cleaned = true
  once : (∀ {i o}, r.get? i = some o → o.CleanedOnce) →
    ∀ {i o}, r'.get? i = some o → o.CleanedOnce

omit [Composite β] in
theorem Follows.refl (r : Registry (Tallied β)) : Follows r r := ⟨id, id⟩

omit [Composite β] in
theorem Follows.trans {r'' : Registry (Tallied β)} (h : Follows r r') (h' : Follows r' r'') :
    Follows r r'' :=
  ⟨fun hc => h'.cleaned (h.cleaned hc), fun ho => h'.once (h.once ho)⟩

omit [Composite β] in
theorem Follows.modify {f : Registered (Tallied β) → Registered (Tallied β)}
    (hc : ∀ o, (f o).cleaned = o.cleaned) (hb : ∀ o, (f o).body.cleanups = o.body.cleanups) :
    Follows r (r.modify i f) where
  cleaned := by
    rintro j ⟨o, ho, hco⟩
    refine ⟨if i = j then f o else o, by simp [get?_modify, ho], ?_⟩
    split_ifs
    · exact (hc o).trans hco
    · exact hco
  once hr j o' ho' := by
    obtain ⟨o, ho, rfl⟩ := get?_modify_eq_some ho'
    split_ifs
    · rw [Registered.CleanedOnce, hc, hb]
      exact hr ho
    · exact hr ho

theorem Follows.step (r : Registry (Tallied β)) (t : Task) : Follows r (r.step t).1 where
  cleaned := by
    rintro i ⟨o, ho, hc⟩
    have hchange := r.step_change t i
    rw [ho] at hchange
    generalize (r.step t).1.get? i = next at hchange
    cases hchange with
    | some hoo => exact ⟨_, rfl, hoo.cleaned hc⟩
  once hr i o' ho' := by
    have hchange := r.step_change t i
    rw [ho'] at hchange
    generalize hold : r.get? i = old at hchange
    cases hchange with
    | some hoo => exact (hr hold).change hoo

theorem Follows.settle (r : Registry (Tallied β)) (tasks : List Task) :
    Follows r (r.settle tasks) :=
  settle_induction (P := fun r' _ => Follows r r') (fun r' t _ h => h.trans (.step r' t)) r tasks
    (.refl r)

omit [Composite β] in
theorem Follows.concat {id : String} {nid : Nat} {body : β}
    (h : r'.objects = r.objects ++ [⟨id, nid, 1, 0, false, ⟨body, 0⟩⟩]) : Follows r r' where
  cleaned := by
    rintro i ⟨o, ho, hc⟩
    refine ⟨o, ?_, hc⟩
    rw [get?, h, List.getElem?_append_left (lt_length_of_get? ho)]
    exact ho
  once hr i o ho := by
    rcases get?_concat h ho with ho | ⟨-, rfl⟩
    · exact hr ho
    · rfl

end Registry

/-! ### Histories -/

/-- An operation on a registry and the references held outside. -/
inductive Operation (β : Type) where
  /-- Registers an object, whose body takes over the references it owns. -/
  | insert (id : String) (body : β)
  /-- Takes a reference. -/
  | acquire (id : String)
  /-- Takes a reference to an object of a kind. -/
  | acquireKind (id : String) (kind : ObjectKind)
  /-- Takes an object out. -/
  | remove (id : String) (force : Bool)
  /-- Releases a reference. -/
  | release (serial : Nat)
  /-- Changes the body of an object that was not cleaned up, which takes over the references that
  it owns newly and hands out those that it owns no longer. -/
  | replace (serial : Nat) (body : β)

/-- A registry and the references held outside. -/
structure Account (β : Type) where
  registry : Registry (Tallied β)
  /-- The references held outside. -/
  held : Multiset Nat
  /-- The objects that were forced out. -/
  forced : List Nat

namespace Account

variable {β : Type} [Composite β]

/-- Before the first operation. -/
def start : Account β := ⟨.empty, 0, []⟩

/-- The account after an operation. -/
def apply (a : Account β) : Operation β → Account β
  | .insert id body =>
    match a.registry.insert id ⟨body, 0⟩ with
    | .ok (_, registry) =>
      if (Composite.owned body : Multiset Nat) ≤ a.held then
        { a with registry, held := a.held - (Composite.owned body : Multiset Nat) }
      else a
    | .error _ => a
  | .acquire id =>
    match a.registry.acquire id with
    | .ok (ref, registry) => { a with registry, held := ref.serial ::ₘ a.held }
    | .error _ => a
  | .acquireKind id kind =>
    match a.registry.acquireKind id kind with
    | .ok (ref, registry) => { a with registry, held := ref.serial ::ₘ a.held }
    | .error _ => a
  | .remove id force =>
    match a.registry.findId id, a.registry.remove id force with
    | .ok ref, .ok (_, registry) =>
      { a with registry, forced := if force then ref.serial :: a.forced else a.forced }
    | _, _ => a
  | .release serial =>
    if serial ∈ a.held then
      { a with registry := a.registry.release serial, held := a.held.erase serial }
    else a
  | .replace serial body =>
    match a.registry.get? serial with
    | some o =>
      if o.cleaned = false ∧ (Composite.owned body : Multiset Nat) ≤
          a.held + (Composite.owned o.body : Multiset Nat) then
        { a with
          registry := a.registry.modifyBody serial fun t => { t with body }
          held := a.held + (Composite.owned o.body : Multiset Nat) -
            (Composite.owned body : Multiset Nat) }
      else a
    | none => a

/-- The account after some operations, the first one first. -/
def run (operations : List (Operation β)) : Account β := operations.foldl apply start

/-- The number of references to an object that were not released, and one more if it is registered
under an identifier. -/
def tally (a : Account β) (serial : Nat) (o : Registered (Tallied β)) : Nat :=
  a.registry.registrations serial o.id + a.registry.references a.held [] serial

/-- Did the count of an object come to zero during some operations? -/
def RanOut (operations : List (Operation β)) (serial : Nat) : Prop :=
  ∃ before o, before <+: operations ∧ (run before).registry.get? serial = some o ∧
    (run before).tally serial o = 0

/-- What is kept by every operation. -/
structure Sound (a : Account β) : Prop where
  balanced : a.registry.Balanced a.held a.forced []
  once : ∀ {i o}, a.registry.get? i = some o → o.CleanedOnce

theorem sound_start : (start : Account β).Sound :=
  ⟨Registry.balanced_empty, fun ho => by simp [start, Registry.empty, Registry.get?] at ho⟩

/-- A reference that was acquired. -/
theorem acquire_spec {a : Account β} (h : a.Sound) {id : String} {ref : Ref}
    {r : Registry (Tallied β)} (hacq : a.registry.acquire id = .ok (ref, r)) :
    r.Balanced (ref.serial ::ₘ a.held) a.forced [] ∧ a.registry.Follows r := by
  refine ⟨h.balanced.acquire hacq, ?_⟩
  rw [h.balanced.acquire_eq] at hacq
  obtain ⟨ref', -, heq⟩ := map_eq_ok_iff.1 hacq
  cases heq
  exact .modify (fun o => rfl) fun o => rfl

/-- What an operation does to an account. -/
theorem apply_spec {a : Account β} (h : a.Sound) (op : Operation β) :
    (a.apply op).registry.Balanced (a.apply op).held (a.apply op).forced [] ∧
      a.registry.Follows (a.apply op).registry := by
  have hsame : a.registry.Balanced a.held a.forced [] ∧ a.registry.Follows a.registry :=
    ⟨h.balanced, .refl _⟩
  cases op with
  | insert id body =>
    rw [Account.apply]
    split
    · rename_i nid r hins
      split_ifs with howned
      · have hheld : (Composite.owned body : Multiset Nat) +
            (a.held - (Composite.owned body : Multiset Nat)) = a.held :=
          add_tsub_cancel_of_le howned
        obtain ⟨-, hobjects, -⟩ := h.balanced.toIndexed.insert hins
        exact ⟨Registry.Balanced.insert (hheld.symm ▸ h.balanced) hins, .concat hobjects⟩
      · exact hsame
    · exact hsame
  | acquire id =>
    rw [Account.apply]
    split
    · rename_i hacq
      exact acquire_spec h hacq
    · exact hsame
  | acquireKind id kind =>
    rw [Account.apply]
    split
    · rename_i hacq
      exact acquire_spec h (Registry.acquire_of_acquireKind hacq)
    · exact hsame
  | remove id force =>
    rw [Account.apply]
    split
    · rename_i ref nid r hfind hrem
      rw [h.balanced.toIndexed.remove_eq, hfind] at hrem
      cases hrem
      obtain ⟨i, o, hi, ho, rfl⟩ := Registry.findId_eq_ok_iff.1 hfind
      have herase : a.registry.Follows { a.registry with ids := a.registry.ids.erase id } :=
        ⟨fun h => h, fun h => h⟩
      exact ⟨h.balanced.remove force hi, herase.trans (.settle _ _)⟩
    · exact hsame
  | release serial =>
    rw [Account.apply]
    split_ifs with hheld
    · exact ⟨Registry.Balanced.drop ((Multiset.cons_erase hheld).symm ▸ h.balanced), .settle _ _⟩
    · exact hsame
  | replace serial body =>
    rw [Account.apply]
    split
    · rename_i o ho
      split_ifs with hok
      · have hkeep : o.cleaned = true → Composite.owned body = [] := fun hc => by
          simp [hok.1] at hc
        exact ⟨Registry.Balanced.modifyBody (f := fun t => { t with body }) h.balanced ho hkeep
          (tsub_add_cancel_of_le hok.2), .modify (fun o => rfl) fun o => rfl⟩
      · exact hsame
    · exact hsame

theorem run_concat (operations : List (Operation β)) (op : Operation β) :
    run (operations ++ [op]) = (run operations).apply op := by
  simp [run, List.foldl_append]

/-- Every history is sound. -/
theorem sound_run (operations : List (Operation β)) : (run operations).Sound := by
  induction operations using List.reverseRecOn with
  | nil => exact sound_start
  | append_singleton operations op ih =>
    rw [run_concat]
    obtain ⟨hbalanced, hfollows⟩ := apply_spec ih op
    exact ⟨hbalanced, hfollows.once ih.once⟩

/-- What comes later follows what was before. -/
theorem follows_run {before operations : List (Operation β)} (h : before <+: operations) :
    (run before).registry.Follows (run operations).registry := by
  obtain ⟨after, rfl⟩ := h
  induction after using List.reverseRecOn with
  | nil =>
    rw [List.append_nil]
    exact .refl _
  | append_singleton after op ih =>
    rw [← List.append_assoc, run_concat]
    exact ih.trans (apply_spec (sound_run _) op).2

/-- An object was cleaned up exactly if it was forced out or its count came to zero. -/
theorem cleaned_iff {operations : List (Operation β)} {i : Nat} {o : Registered (Tallied β)}
    (ho : (run operations).registry.get? i = some o) :
    o.cleaned = true ↔ i ∈ (run operations).forced ∨ RanOut operations i := by
  have hsound := sound_run operations
  constructor
  · intro hc
    refine (hsound.balanced.cause ho hc).imp_right fun hrefs => ⟨operations, o, List.prefix_rfl, ho,
      ?_⟩
    have hunreg : (run operations).registry.registrations i o.id = 0 := by
      rw [Registry.registrations, if_neg]
      intro hi
      obtain ⟨o', ho', -, hc'⟩ := hsound.balanced.toIndexed.get?_of_serialOf? hi
      obtain rfl : o = o' := Option.some.inj (ho.symm.trans ho')
      simp [hc] at hc'
    rw [tally, hunreg, hrefs]
  · rintro (hforced | ⟨before, o', hbefore, ho', htally⟩)
    · exact (hsound.balanced.driven ho hforced).resolve_right (by simp [Registry.forcings])
    · have hc' : o'.cleaned = true := by
        by_contra hlive
        have hrefs := (sound_run before).balanced.counted ho' (by simpa using hlive)
        simp only [tally] at htally
        omega
      obtain ⟨o'', ho'', hc''⟩ := (follows_run hbefore).cleaned ⟨o', ho', hc'⟩
      obtain rfl : o = o'' := Option.some.inj (ho.symm.trans ho'')
      exact hc''

/-- What a registry does after some operations. -/
structure Kept (operations : List (Operation β)) (a : Account β) : Prop where
  /-- The count of a live object is right. -/
  counts : ∀ {i o}, a.registry.get? i = some o → a.registry.isLive i o = true →
    o.refs = (if a.registry.serialOf? o.id = some i then 1 else 0) +
      (a.held.count i + (Registry.ownedRefs a.registry.objects).count i)
  /-- An object was cleaned up once if it was forced out or its count came to zero, and otherwise
  never. -/
  cleanups : ∀ {i o}, a.registry.get? i = some o →
    (i ∈ a.forced ∨ RanOut operations i → o.body.cleanups = 1) ∧
    (¬ (i ∈ a.forced ∨ RanOut operations i) → o.body.cleanups = 0)
  /-- Releasing a reference to an object that was cleaned up changes neither the indices and the
  pool, nor another object, nor what this one is and owns. -/
  inert : ∀ {i o}, a.registry.get? i = some o → o.cleaned = true →
    (a.registry.release i).ids = a.registry.ids ∧ (a.registry.release i).nids = a.registry.nids ∧
    (a.registry.release i).pool = a.registry.pool ∧
    (∀ j, j ≠ i → (a.registry.release i).get? j = a.registry.get? j) ∧
    ∃ o', (a.registry.release i).get? i = some o' ∧ o'.id = o.id ∧ o'.nid = o.nid ∧
      o'.refs = o.refs ∧ o'.cleaned = true ∧ Composite.owned o'.body = Composite.owned o.body ∧
      o'.body.cleanups = o.body.cleanups
  /-- Every cascade comes to an end. -/
  ends : ∀ tasks, ∃ n ≤ tasks.length + Registry.totalLoad a.registry.objects,
    Registry.advance^[n] (a.registry, tasks) = (a.registry.settle tasks, [])
  /-- Acquiring a reference fails only if nothing has the identifier, or for the kind. -/
  acquires : ∀ id, (∀ e, a.registry.acquire id = .error e → e = .notFound id) ∧
    ∀ kind e, a.registry.acquireKind id kind = .error e →
      e = .notFound id ∨ ∃ found, found ≠ kind ∧ e = .wrongKind id kind found

/-- Whatever the operations are, the registry keeps its counts and cleans up what is due. -/
theorem kept_run (operations : List (Operation β)) : Kept operations (run operations) where
  counts ho hlive := by
    have hsound := sound_run operations
    have hc := hsound.balanced.toIndexed.isLive_eq ho
    rw [hlive, eq_comm, Bool.not_eq_true'] at hc
    exact (hsound.balanced.counted ho hc).2
  cleanups ho := by
    rw [← cleaned_iff ho, (sound_run operations).once ho]
    exact ⟨fun hc => by rw [if_pos hc], fun hc => by rw [if_neg hc]⟩
  inert ho hc := by
    have hown := (sound_run operations).balanced.vacated ho hc
    rw [Registry.release_of_cleaned ho hc hown]
    refine ⟨rfl, rfl, rfl, fun j hj => Registry.get?_modify_of_ne _ hj, _,
      Registry.get?_modify_self _ ho, ?_⟩
    split_ifs
    · exact ⟨rfl, rfl, rfl, hc, (Composite.owned_vacate _).trans hown.symm, rfl⟩
    · exact ⟨rfl, rfl, rfl, hc, rfl, rfl⟩
  ends tasks := Registry.settle_ends _ tasks
  acquires id := by
    have hbalanced := (sound_run operations).balanced
    exact ⟨fun e he => hbalanced.acquire_eq_error he,
      fun kind e he => hbalanced.acquireKind_eq_error he⟩

end Account

end Dataplane

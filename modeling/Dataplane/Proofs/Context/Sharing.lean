import Dataplane.Action.Basic
import Mathlib.Data.List.Nodup
import Mathlib.Data.List.Perm.Subperm

/-!
# Actions that are shared

An action may be held in several places, and lets its references go with the last of them. So what
some lists refer to is what their actions refer to when each action is taken once, those inside other
actions included.

## The model

A list is taken apart into its parts, which are told apart by their serial numbers. `Part.distinct`
keeps the last of the parts with the same serial number. As long as a serial number belongs to one
part (`Part.Agree`), neither the order of the parts nor how often they occur matters.
-/

namespace Dataplane

namespace Action

theorem partsOfList_eq (l : ActionList) : partsOfList l = l.flatMap partsOfListed := by
  induction l with
  | nil => rfl
  | cons a as ih => simp [partsOfList, ih]

theorem partsOfLists_eq (ls : List ActionList) : partsOfLists ls = ls.flatMap partsOfList := by
  induction ls with
  | nil => rfl
  | cons l ls ih => simp [partsOfLists, ih]

theorem partsOfList_append (l l' : ActionList) :
    partsOfList (l ++ l') = partsOfList l ++ partsOfList l' := by
  simp [partsOfList_eq]

theorem perm_partsOfList {l l' : ActionList} (h : l.Perm l') :
    (partsOfList l).Perm (partsOfList l') := by
  rw [partsOfList_eq, partsOfList_eq]
  exact h.flatMap_right _

theorem mem_partsOfList_of_subset {l l' : ActionList} (h : ∀ a ∈ l, a ∈ l') {p : Part}
    (hp : p ∈ partsOfList l) : p ∈ partsOfList l' := by
  rw [partsOfList_eq] at hp ⊢
  obtain ⟨a, ha, hp⟩ := List.mem_flatMap.1 hp
  exact List.mem_flatMap.2 ⟨a, h a ha, hp⟩

theorem mem_partsOfListed {a : Listed Action} {p : Part} (hp : p ∈ a.action.parts) :
    p ∈ partsOfListed a := by
  obtain ⟨action, onEvaluate, hash, serial⟩ := a
  exact List.mem_cons_of_mem _ hp

theorem partsOfLists_concat (ls : List ActionList) (l : ActionList) :
    partsOfLists (ls ++ [l]) = partsOfLists ls ++ partsOfList l := by
  simp [partsOfLists_eq]

end Action

namespace Part

variable {ps qs held : List Part} {serials : List Nat} {n m k : Nat} {p : Part}

theorem refsOf_append (ps qs : List Part) : refsOf (ps ++ qs) = refsOf ps ++ refsOf qs :=
  List.flatMap_append

theorem perm_refsOf (h : ps.Perm qs) : (refsOf ps).Perm (refsOf qs) := h.flatMap_right _

theorem beyond_append (serials : List Nat) (ps qs : List Part) :
    beyond serials (ps ++ qs) = beyond serials ps ++ beyond serials qs :=
  List.filter_append ..

theorem perm_beyond (serials : List Nat) (h : ps.Perm qs) :
    (beyond serials ps).Perm (beyond serials qs) := h.filter _

theorem mem_beyond : p ∈ beyond serials ps ↔ p ∈ ps ∧ p.serial ∉ serials := by simp [beyond]

/-- Where none of the parts is among those set apart, all are left. -/
theorem beyond_of_disjoint (h : ∀ p ∈ ps, p.serial ∉ serials) : beyond serials ps = ps :=
  List.filter_eq_self.2 fun p hp => by simpa using h p hp

/-! ### New parts -/

/-- Have parts different serial numbers, from the first bound on and below the second? -/
structure Numbered (n m : Nat) (ps : List Part) : Prop where
  nodup : (ps.map (·.serial)).Nodup
  bounded : ∀ p ∈ ps, n ≤ p.serial ∧ p.serial < m

theorem numbered_nil (n m : Nat) : Numbered n m [] := ⟨.nil, by simp⟩

theorem Numbered.append (h : Numbered n m ps) (h' : Numbered m k qs) (hn : n ≤ m) (hm : m ≤ k) :
    Numbered n k (ps ++ qs) where
  nodup := by
    rw [List.map_append]
    refine List.Nodup.append h.nodup h'.nodup fun s hs hs' => ?_
    obtain ⟨p, hp, rfl⟩ := List.mem_map.1 hs
    obtain ⟨q, hq, heq⟩ := List.mem_map.1 hs'
    have := (h.bounded p hp).2
    have := (h'.bounded q hq).1
    omega
  bounded p hp := by
    rcases List.mem_append.1 hp with hp | hp
    · have := h.bounded p hp
      omega
    · have := h'.bounded p hp
      omega

/-- An action gets its serial number after those inside it. -/
theorem Numbered.cons (h : Numbered n m ps) (hn : n ≤ m) (hp : m ≤ p.serial) :
    Numbered n (p.serial + 1) (p :: ps) where
  nodup := by
    refine List.nodup_cons.2 ⟨fun hmem => ?_, h.nodup⟩
    obtain ⟨q, hq, heq⟩ := List.mem_map.1 hmem
    exact Nat.ne_of_lt (Nat.lt_of_lt_of_le (h.bounded q hq).2 hp) heq
  bounded q hq := by
    rcases List.mem_cons.1 hq with rfl | hq
    · exact ⟨Nat.le_trans hn hp, Nat.lt_succ_self _⟩
    · have := h.bounded q hq
      omega

/-! ### Each part once -/

/-- The parts, each of them once. -/
def distinct : List Part → List Part
  | [] => []
  | p :: rest => if p.serial ∈ rest.map (·.serial) then distinct rest else p :: distinct rest

/-- Does a serial number belong to one part? -/
def Agree (ps : List Part) : Prop := ∀ p ∈ ps, ∀ q ∈ ps, p.serial = q.serial → p = q

theorem Agree.subset (h : Agree qs) (hsub : ∀ p ∈ ps, p ∈ qs) : Agree ps :=
  fun p hp q hq => h p (hsub p hp) q (hsub q hq)

/-- A part that is set apart by its serial number is one of those set apart. -/
theorem Agree.mem (h : Agree ps) (hsub : ∀ q ∈ qs, q ∈ ps) (hp : p ∈ ps)
    (hs : p.serial ∈ qs.map (·.serial)) : p ∈ qs := by
  obtain ⟨q, hq, heq⟩ := List.mem_map.1 hs
  exact h q (hsub q hq) p hp heq ▸ hq

theorem agree_of_nodup (h : (ps.map (·.serial)).Nodup) : Agree ps :=
  fun _ hp _ hq heq => List.inj_on_of_nodup_map h hp hq heq

theorem mem_of_mem_distinct (h : p ∈ distinct ps) : p ∈ ps := by
  induction ps with
  | nil => exact h
  | cons q rest ih =>
    rw [distinct] at h
    split_ifs at h with hq
    · exact List.mem_cons_of_mem _ (ih h)
    · rcases List.mem_cons.1 h with rfl | h
      · exact List.mem_cons_self
      · exact List.mem_cons_of_mem _ (ih h)

theorem mem_distinct (hps : Agree ps) : p ∈ distinct ps ↔ p ∈ ps := by
  refine ⟨mem_of_mem_distinct, fun h => ?_⟩
  induction ps with
  | nil => exact h
  | cons q rest ih =>
    have hrest : Agree rest := hps.subset fun _ hp => List.mem_cons_of_mem _ hp
    rw [distinct]
    split_ifs with hq
    · refine ih hrest ?_
      rcases List.mem_cons.1 h with rfl | h
      · exact hps.mem (fun _ hp => List.mem_cons_of_mem _ hp) List.mem_cons_self hq
      · exact h
    · rcases List.mem_cons.1 h with rfl | h
      · exact List.mem_cons_self
      · exact List.mem_cons_of_mem _ (ih hrest h)

theorem nodup_distinct (ps : List Part) : ((distinct ps).map (·.serial)).Nodup := by
  induction ps with
  | nil => exact .nil
  | cons q rest ih =>
    rw [distinct]
    split_ifs with hq
    · exact ih
    · refine List.nodup_cons.2 ⟨fun hmem => hq ?_, ih⟩
      obtain ⟨p, hp, heq⟩ := List.mem_map.1 hmem
      exact List.mem_map.2 ⟨p, mem_of_mem_distinct hp, heq⟩

/-- Parts with different serial numbers that are the parts of a list are its distinct ones. -/
theorem perm_distinct (hqs : Agree qs) (hnodup : (ps.map (·.serial)).Nodup)
    (hmem : ∀ p, p ∈ ps ↔ p ∈ qs) : ps.Perm (distinct qs) :=
  (List.perm_ext_iff_of_nodup hnodup.of_map (nodup_distinct qs).of_map).2 fun p =>
    (hmem p).trans (mem_distinct hqs).symm

/-- It does not matter in which order the parts come, and how often each. -/
theorem perm_distinct_of_mem (hqs : Agree qs) (hmem : ∀ p, p ∈ ps ↔ p ∈ qs) :
    (distinct ps).Perm (distinct qs) :=
  perm_distinct hqs (nodup_distinct ps) fun p =>
    (mem_distinct (hqs.subset fun q hq => (hmem q).1 hq)).trans (hmem p)

/-- A part that is not among the others comes besides them. -/
theorem distinct_cons (h : p.serial ∉ ps.map (·.serial)) : distinct (p :: ps) = p :: distinct ps :=
  if_neg h

/-- New parts come besides those that are there. -/
theorem Numbered.distinct_append (h : Numbered n m ps) (hqs : ∀ q ∈ qs, q.serial < n) :
    distinct (ps ++ qs) = ps ++ distinct qs := by
  induction ps with
  | nil => rfl
  | cons p rest ih =>
    obtain ⟨hp, hrest⟩ := List.nodup_cons.1 (List.map_cons ▸ h.nodup)
    have hnew : p.serial ∉ (rest ++ qs).map (·.serial) := by
      rw [List.map_append, List.mem_append, not_or]
      refine ⟨hp, fun hs => ?_⟩
      obtain ⟨q, hq, heq⟩ := List.mem_map.1 hs
      have := hqs q hq
      have := (h.bounded p List.mem_cons_self).1
      omega
    rw [List.cons_append, distinct_cons hnew,
      ih ⟨hrest, fun q hq => h.bounded q (List.mem_cons_of_mem _ hq)⟩, List.cons_append]

/-- Parts that occur once come besides those that are held. -/
theorem perm_distinct_append (h : Agree (held ++ ps)) (hps : (ps.map (·.serial)).Nodup) :
    (distinct held ++ beyond (held.map (·.serial)) ps).Perm (distinct (held ++ ps)) := by
  have hheld : Agree held := h.subset fun _ hp => List.mem_append_left _ hp
  refine perm_distinct h ?_ fun p => ?_
  · rw [List.map_append]
    refine (nodup_distinct held).append (hps.sublist (List.filter_sublist.map _)) fun s hs hs' => ?_
    obtain ⟨p, hp, rfl⟩ := List.mem_map.1 hs
    obtain ⟨q, hq, heq⟩ := List.mem_map.1 hs'
    exact (mem_beyond.1 hq).2 (List.mem_map.2 ⟨p, mem_of_mem_distinct hp, heq.symm⟩)
  · rw [List.mem_append, List.mem_append, mem_distinct hheld, mem_beyond]
    constructor
    · rintro (hp | ⟨hp, -⟩)
      · exact .inl hp
      · exact .inr hp
    · rintro (hp | hp)
      · exact .inl hp
      · by_cases hs : p.serial ∈ held.map (·.serial)
        · exact .inl (h.mem (fun _ hq => List.mem_append_left _ hq) (List.mem_append_right _ hp) hs)
        · exact .inr ⟨hp, hs⟩

/-- New parts do not disagree with those that are there. -/
theorem Numbered.agree (h : Numbered n m ps) (hqs : ∀ p ∈ qs, p.serial < n) (hagree : Agree qs) :
    Agree (ps ++ qs) := by
  have hnew {p q : Part} (hp : p ∈ ps) (hq : q ∈ qs) : p.serial ≠ q.serial := by
    have := (h.bounded p hp).1
    have := hqs q hq
    omega
  intro p hp q hq heq
  rcases List.mem_append.1 hp with hp | hp <;> rcases List.mem_append.1 hq with hq | hq
  · exact agree_of_nodup h.nodup p hp q hq heq
  · exact absurd heq (hnew hp hq)
  · exact absurd heq.symm (hnew hq hp)
  · exact hagree p hp q hq heq

end Part

end Dataplane

/-!
# Sorted maps

A finite map is a list of pairs in strictly ascending order of keys. Two maps with the same pairs
are therefore equal, and listing a map gives its keys in order.

## The model

The order of a key type is given by `KeyOrder`. Insertion walks the list once and replaces the
value of a key that is there. The order of the pairs is part of the type, so what is proved here is
that insertion and erasure keep it, and what a lookup finds after each of them.
-/

namespace Dataplane

/-- A strict total order on keys. -/
class KeyOrder (κ : Type) where
  /-- Does the first key come before the second? -/
  before : κ → κ → Bool
  irrefl : ∀ a, before a a = false
  trans : ∀ a b c, before a b = true → before b c = true → before a c = true
  total : ∀ a b, before a b = false → a ≠ b → before b a = true

instance : KeyOrder Nat where
  before a b := a < b
  irrefl := by simp
  trans := by simp; omega
  total := by simp; omega

instance : KeyOrder String where
  before a b := a < b
  irrefl a := decide_eq_false (String.lt_irrefl a)
  trans a b c h h' := by simp only [decide_eq_true_eq] at *; exact String.lt_trans h h'
  total a b h h' := by
    simp only [decide_eq_true_eq, decide_eq_false_iff_not] at *
    exact Decidable.not_not.1 fun h'' => h' (String.le_antisymm (String.not_lt.1 h'')
      (String.not_lt.1 h))

/-- A finite map, its pairs in ascending order of keys. -/
structure SortedMap (κ ν : Type) [KeyOrder κ] where
  /-- The pairs. -/
  pairs : List (κ × ν)
  /-- Keys ascend. -/
  sorted : pairs.Pairwise fun p q => KeyOrder.before p.1 q.1 = true

namespace SortedMap

variable {κ ν : Type} [KeyOrder κ]

/-- Two maps with the same pairs are the same. -/
theorem eq_of_pairs_eq {m m' : SortedMap κ ν} (h : m.pairs = m'.pairs) : m = m' := by
  cases m; cases m'; cases h; rfl

variable [DecidableEq κ]

instance [DecidableEq ν] : DecidableEq (SortedMap κ ν) := fun m m' =>
  decidable_of_iff (m.pairs = m'.pairs) ⟨eq_of_pairs_eq, congrArg pairs⟩

/-- The pairs after a value has been put in for a key. -/
def insertPair (k : κ) (v : ν) : List (κ × ν) → List (κ × ν)
  | [] => [(k, v)]
  | p :: rest =>
    if KeyOrder.before k p.1 then (k, v) :: p :: rest
    else if k = p.1 then (k, v) :: rest
    else p :: insertPair k v rest

theorem mem_insertPair {k : κ} {v : ν} {q : κ × ν} {l : List (κ × ν)}
    (h : q ∈ insertPair k v l) : q = (k, v) ∨ q ∈ l := by
  induction l with
  | nil => simpa [insertPair] using h
  | cons p rest ih =>
    rw [insertPair] at h
    split at h
    · simpa using h
    · split at h <;> rw [List.mem_cons] at h <;> rcases h with h | h
      · exact .inl h
      · exact .inr (List.mem_cons_of_mem _ h)
      · exact .inr (h ▸ List.mem_cons_self)
      · exact (ih h).imp id (List.mem_cons_of_mem _)

theorem sorted_insertPair (k : κ) (v : ν) {l : List (κ × ν)}
    (h : l.Pairwise fun p q => KeyOrder.before p.1 q.1 = true) :
    (insertPair k v l).Pairwise fun p q => KeyOrder.before p.1 q.1 = true := by
  induction l with
  | nil => simp [insertPair]
  | cons p rest ih =>
    have hp : ∀ q ∈ rest, KeyOrder.before p.1 q.1 = true := (List.pairwise_cons.1 h).1
    rw [insertPair]
    split
    · rename_i hk
      refine List.Pairwise.cons (fun q hq => ?_) h
      rcases List.mem_cons.1 hq with rfl | hq
      · exact hk
      · exact KeyOrder.trans _ _ _ hk (hp q hq)
    · rename_i hk
      split
      · rename_i heq
        exact List.Pairwise.cons (fun q hq => by simpa [heq] using hp q hq) h.of_cons
      · rename_i hne
        refine List.Pairwise.cons (fun q hq => ?_) (ih h.of_cons)
        rcases mem_insertPair hq with rfl | hq
        · exact KeyOrder.total _ _ (by simpa using hk) hne
        · exact hp q hq

/-- The map without pairs. -/
def empty : SortedMap κ ν := ⟨[], .nil⟩

/-- The map with a value for a key. -/
def insert (m : SortedMap κ ν) (k : κ) (v : ν) : SortedMap κ ν :=
  ⟨insertPair k v m.pairs, sorted_insertPair k v m.sorted⟩

/-- The map without a key. -/
def erase (m : SortedMap κ ν) (k : κ) : SortedMap κ ν :=
  ⟨m.pairs.filter (·.1 ≠ k), m.sorted.filter _⟩

/-- The value of a key. -/
def get? (m : SortedMap κ ν) (k : κ) : Option ν := (m.pairs.find? (·.1 = k)).map (·.2)

/-- Does the map have the key? -/
def has (m : SortedMap κ ν) (k : κ) : Bool := m.pairs.any (·.1 = k)

/-- The map of a list of pairs; the last value of a key counts. -/
def ofList (l : List (κ × ν)) : SortedMap κ ν := l.foldl (fun m p => m.insert p.1 p.2) empty

/-- The map with the value of a key changed, if it has the key. -/
def modify (m : SortedMap κ ν) (k : κ) (f : ν → ν) : SortedMap κ ν :=
  match m.get? k with
  | some v => m.insert k (f v)
  | none => m

/-! ### What a lookup finds -/

theorem find?_insertPair_self (k : κ) (v : ν) (l : List (κ × ν)) :
    (insertPair k v l).find? (·.1 = k) = some (k, v) := by
  induction l with
  | nil => simp [insertPair]
  | cons p rest ih =>
    rw [insertPair]
    split
    · simp
    · split
      · simp
      · rename_i hne
        simp [Ne.symm hne, ih]

theorem find?_insertPair_of_ne {k k' : κ} (v : ν) (l : List (κ × ν)) (h : k' ≠ k) :
    (insertPair k v l).find? (·.1 = k') = l.find? (·.1 = k') := by
  induction l with
  | nil => simp [insertPair, Ne.symm h]
  | cons p rest ih =>
    rw [insertPair]
    split
    · simp [Ne.symm h]
    · split
      · rename_i heq
        simp [Ne.symm h, ← heq]
      · by_cases hp : p.1 = k' <;> simp [hp, ih]

@[simp] theorem get?_insert_self (m : SortedMap κ ν) (k : κ) (v : ν) :
    (m.insert k v).get? k = some v := by
  simp [get?, insert, find?_insertPair_self]

theorem get?_insert_of_ne (m : SortedMap κ ν) {k k' : κ} (v : ν) (h : k' ≠ k) :
    (m.insert k v).get? k' = m.get? k' := by
  simp [get?, insert, find?_insertPair_of_ne v m.pairs h]

@[simp] theorem get?_empty (k : κ) : (empty : SortedMap κ ν).get? k = none := rfl

@[simp] theorem get?_erase_self (m : SortedMap κ ν) (k : κ) : (m.erase k).get? k = none := by
  simp [get?, erase, List.find?_filter]

theorem get?_erase_of_ne (m : SortedMap κ ν) {k k' : κ} (h : k' ≠ k) :
    (m.erase k).get? k' = m.get? k' := by
  have hand : (fun p : κ × ν => decide (decide (p.1 ≠ k) = true ∧ decide (p.1 = k') = true)) =
      fun p => decide (p.1 = k') := by
    funext p
    by_cases hp : p.1 = k' <;> simp [hp, h]
  rw [get?, erase, List.find?_filter, hand, get?]

theorem get?_modify (m : SortedMap κ ν) (k k' : κ) (f : ν → ν) :
    (m.modify k f).get? k' = (m.get? k').map fun v => if k' = k then f v else v := by
  unfold modify
  by_cases hk : k' = k
  · subst hk
    cases hv : m.get? k' with
    | none => simp [hv]
    | some v => simp
  · cases hv : m.get? k with
    | none => simp [hk]
    | some v => simp [get?_insert_of_ne m _ hk, hk]

theorem has_eq_isSome (m : SortedMap κ ν) (k : κ) : m.has k = (m.get? k).isSome := by
  rw [Bool.eq_iff_iff]
  simp [has, get?, List.find?_isSome, List.any_eq_true]

/-! ### Keys -/

/-- A pair is the only one with its key. -/
theorem get?_eq_some_iff {m : SortedMap κ ν} {k : κ} {v : ν} :
    m.get? k = some v ↔ (k, v) ∈ m.pairs := by
  obtain ⟨l, hl⟩ := m
  simp only [get?, Option.map_eq_some_iff]
  induction l with
  | nil => simp
  | cons p rest ih =>
    obtain ⟨hp, hrest⟩ := List.pairwise_cons.1 hl
    by_cases hk : p.1 = k
    · subst hk
      have hnot : (p.1, v) ∉ rest := fun hmem => by
        simpa [KeyOrder.irrefl] using hp (p.1, v) hmem
      simp [hnot, Prod.ext_iff, eq_comm]
    · have hne : (k, v) ≠ p := fun heq => hk (by rw [← heq])
      simp [hk, hne, ih hrest]

theorem mem_keys_iff {m : SortedMap κ ν} {k : κ} :
    k ∈ m.pairs.map (·.1) ↔ (m.get? k).isSome := by
  simp [Option.isSome_iff_exists, get?_eq_some_iff]

omit [DecidableEq κ] in
theorem nodup_keys (m : SortedMap κ ν) : (m.pairs.map (·.1)).Nodup := by
  refine List.pairwise_map.2 (m.sorted.imp fun {p q} hpq heq => ?_)
  rw [heq, KeyOrder.irrefl] at hpq
  cases hpq

end SortedMap

end Dataplane

import Dataplane.Table
import Mathlib.Data.List.Nodup
import Mathlib.Data.List.Pairwise
import Mathlib.Data.List.Perm.Basic

/-!
# Spans of a table

The entries of a table have their actions one after the other in the flat list, without a gap. So a
span starts where the actions of the entries before it end; an entry without actions starts where
the next one does.

## The model

A `Listing` is what a table stands for: its entries with their actions, in order. `Listing.layout`
gives the span of each entry when the first one starts in a given place, and `Table.Shows t m` says
that the table `t` is laid out so for the listing `m`. The spans of a table are sorted by name, those
of a layout by place, so they agree up to order.
-/

namespace Dataplane

namespace SortedMap

variable {κ ν : Type} [KeyOrder κ] [DecidableEq κ] {m : SortedMap κ ν} {k : κ}

/-- A new key comes besides those that are there. -/
theorem perm_insert (v : ν) (h : m.get? k = none) : (m.insert k v).pairs.Perm ((k, v) :: m.pairs) := by
  have hnew : ∀ p ∈ m.pairs, k ≠ p.1 := by
    rintro ⟨k', v'⟩ hp rfl
    rw [get?_eq_some_iff.2 hp] at h
    cases h
  change (insertPair k v m.pairs).Perm _
  generalize m.pairs = l at hnew
  induction l with
  | nil => exact .refl _
  | cons p rest ih =>
    have hp := hnew p List.mem_cons_self
    rw [insertPair, if_neg hp]
    split_ifs
    · exact .refl _
    · exact ((ih fun q hq => hnew q (List.mem_cons_of_mem _ hq)).cons p).trans (.swap _ _ _)

end SortedMap

/-- The entries of a table with their actions, in the order in which they run. -/
abbrev Listing (α : Type) := List (String × List α)

namespace Listing

variable {α : Type} {m m' : Listing α} {id : String} {actions : List α} {n : Nat} {s : Span}

/-- The actions of all entries. -/
def flat (m : Listing α) : List α := m.flatMap (·.2)

/-- The span of each entry, where the first one starts in a given place. -/
def layout (n : Nat) : Listing α → List (String × Span)
  | [] => []
  | (id, actions) :: rest => (id, ⟨n, actions.length⟩) :: layout (n + actions.length) rest

theorem flat_append (m m' : Listing α) : flat (m ++ m') = flat m ++ flat m' := List.flatMap_append

theorem keys_layout (n : Nat) (m : Listing α) : (layout n m).map (·.1) = m.map (·.1) := by
  induction m generalizing n with
  | nil => rfl
  | cons e rest ih => exact congrArg (e.1 :: ·) (ih _)

theorem layout_append (n : Nat) (m m' : Listing α) :
    layout n (m ++ m') = layout n m ++ layout (n + (flat m).length) m' := by
  induction m generalizing n with
  | nil => rfl
  | cons e rest ih =>
    simp only [List.cons_append, layout, ih, flat, List.flatMap_cons, List.length_append,
      Nat.add_assoc]

/-- Moving the first entry moves all of them. -/
theorem layout_shift (n d : Nat) (m : Listing α) :
    (layout n m).map (fun p => (p.1, { p.2 with start := p.2.start + d })) = layout (n + d) m := by
  induction m generalizing n with
  | nil => rfl
  | cons e rest ih =>
    simp only [layout, List.map_cons, ih]
    rw [Nat.add_right_comm]

/-- A span of a layout is that of an entry, and starts behind the entries before. -/
theorem mem_layout (h : (id, s) ∈ layout n m) :
    ∃ before actions after, m = before ++ (id, actions) :: after ∧
      s = ⟨n + (flat before).length, actions.length⟩ := by
  induction m generalizing n with
  | nil => cases h
  | cons e rest ih =>
    rcases List.mem_cons.1 h with heq | hmem
    · cases heq
      exact ⟨[], e.2, rest, rfl, rfl⟩
    · obtain ⟨before, actions, after, rfl, rfl⟩ := ih hmem
      refine ⟨e :: before, actions, after, rfl, ?_⟩
      simp only [flat, List.flatMap_cons, List.length_append, Nat.add_assoc]

/-- The spans lie between the start of the first one and the end of the last one. -/
theorem bounds_of_mem_layout {p : String × Span} (h : p ∈ layout n m) :
    n ≤ p.2.start ∧ p.2.start + p.2.len ≤ n + (flat m).length := by
  obtain ⟨id, s⟩ := p
  obtain ⟨before, actions, after, rfl, rfl⟩ := mem_layout h
  simp only [flat, List.flatMap_append, List.flatMap_cons, List.length_append]
  omega

/-- No span starts before the one in front of it ends. -/
theorem pairwise_layout (n : Nat) (m : Listing α) :
    (layout n m).Pairwise fun p q => p.2.start + p.2.len ≤ q.2.start := by
  induction m generalizing n with
  | nil => exact .nil
  | cons e rest ih => exact .cons (fun q hq => (bounds_of_mem_layout hq).1) (ih _)

/-- Moving up the spans that start behind a gap closes it. A span in front of the gap does not start
behind the place where that begins. -/
theorem layout_close (before : Listing α) (gap : Nat) (after : Listing α) :
    (layout 0 before ++ layout ((flat before).length + gap) after).map (fun p =>
      (p.1, if (flat before).length < p.2.start then { p.2 with start := p.2.start - gap }
        else p.2)) = layout 0 (before ++ after) := by
  rw [List.map_append, layout_append, Nat.zero_add]
  congr 1
  · refine (List.map_congr_left fun p hp => ?_).trans (List.map_id _)
    have hbounds := (bounds_of_mem_layout hp).2
    rw [if_neg (by omega)]
    rfl
  · rw [← layout_shift, List.map_map]
    refine (List.map_congr_left fun p hp => ?_).trans (List.map_id _)
    have hbounds := (bounds_of_mem_layout hp).1
    -- without a gap there is nothing to move, and otherwise the span starts behind it
    rcases Nat.eq_zero_or_pos gap with rfl | hgap
    · simp
    · rw [Function.comp_apply, if_pos (by simp only; omega)]
      simp

/-- What lies in the spans of a layout are the entries. -/
theorem map_slice_layout (front : List α) (m : Listing α) :
    (layout front.length m).map
      (fun p => (p.1, ((front ++ flat m).drop p.2.start).take p.2.len)) = m := by
  induction m generalizing front with
  | nil => rfl
  | cons e rest ih =>
    have hrest := ih (front ++ e.2)
    rw [List.length_append, List.append_assoc] at hrest
    have hflat : flat (e :: rest) = e.2 ++ flat rest := rfl
    simp only [layout, List.map_cons, hflat, List.drop_left, List.take_left]
    rw [hrest]

end Listing

namespace Table

open Listing

variable {α : Type} {t : Table α} {m : Listing α} {id : String} {s : Span}

/-- Is a table laid out for a listing? -/
structure Shows (t : Table α) (m : Listing α) : Prop where
  list : t.list = flat m
  spans : t.spans.pairs.Perm (layout 0 m)

namespace Shows

theorem nodup (h : t.Shows m) : (m.map (·.1)).Nodup := by
  rw [← keys_layout 0 m]
  exact (h.spans.map (·.1)).nodup_iff.1 t.spans.nodup_keys

/-- A table has the entries that are listed. -/
theorem has_iff (h : t.Shows m) : t.spans.has id = true ↔ id ∈ m.map (·.1) := by
  rw [SortedMap.has_eq_isSome, ← SortedMap.mem_keys_iff, (h.spans.map (·.1)).mem_iff, keys_layout]

theorem get?_eq_none (h : t.Shows m) (hid : id ∉ m.map (·.1)) : t.spans.get? id = none := by
  rw [← h.has_iff, SortedMap.has_eq_isSome] at hid
  simpa using hid

/-- The span of an entry is its place in the layout. -/
theorem get?_eq_some (h : t.Shows m) (hs : t.spans.get? id = some s) :
    ∃ before actions after, m = before ++ (id, actions) :: after ∧
      s = ⟨(flat before).length, actions.length⟩ := by
  obtain ⟨before, actions, after, hm, hspan⟩ :=
    mem_layout (h.spans.mem_iff.1 (SortedMap.get?_eq_some_iff.1 hs))
  exact ⟨before, actions, after, hm, by rw [hspan, Nat.zero_add]⟩

/-- Spans lie in the flat list. -/
theorem span_le (h : t.Shows m) (hs : t.spans.get? id = some s) :
    s.start + s.len ≤ t.list.length := by
  have hbounds := (bounds_of_mem_layout (h.spans.mem_iff.1 (SortedMap.get?_eq_some_iff.1 hs))).2
  rwa [Nat.zero_add, ← h.list] at hbounds

/-- Of two entries one ends before the other one starts. -/
theorem apart {id' : String} {s' : Span} (h : t.Shows m) (hs : t.spans.get? id = some s)
    (hs' : t.spans.get? id' = some s') (hne : id ≠ id') :
    s.start + s.len ≤ s'.start ∨ s'.start + s'.len ≤ s.start := by
  have hmem := h.spans.mem_iff.1 (SortedMap.get?_eq_some_iff.1 hs)
  have hmem' := h.spans.mem_iff.1 (SortedMap.get?_eq_some_iff.1 hs')
  have hpairs : (layout 0 m).Pairwise fun p q =>
      p.2.start + p.2.len ≤ q.2.start ∨ q.2.start + q.2.len ≤ p.2.start :=
    (pairwise_layout 0 m).imp .inl
  have : Std.Symm fun p q : String × Span =>
      p.2.start + p.2.len ≤ q.2.start ∨ q.2.start + q.2.len ≤ p.2.start := ⟨fun _ _ => Or.symm⟩
  exact hpairs.forall hmem hmem' fun heq => hne (congrArg Prod.fst heq)

/-! ### What is listed of a table -/

theorem map_slice (h : t.Shows m) : (layout 0 m).map (fun p => (p.1, t.slice p.2)) = m := by
  simpa only [slice, h.list, List.nil_append, List.length_nil] using map_slice_layout [] m

/-- An entry holds actions exactly if its span is not empty. -/
theorem slice_isEmpty (h : t.Shows m) {p : String × Span} (hp : p ∈ layout 0 m) :
    (!(t.slice p.2).isEmpty) = decide (0 < p.2.len) := by
  have hbounds := (bounds_of_mem_layout hp).2
  rw [Nat.zero_add, ← h.list] at hbounds
  have hlength : (t.slice p.2).length = p.2.len := by
    rw [slice, List.length_take, List.length_drop]
    omega
  rw [Bool.eq_iff_iff, ← hlength]
  cases t.slice p.2 <;> simp

/-- The entries are those of the listing, each with its actions. -/
theorem perm_entryActions (h : t.Shows m) : t.entryActions.Perm m := by
  have hperm := ((List.mergeSort_perm t.spans.pairs fun p q => p.2.start ≤ q.2.start).trans
    h.spans).map fun p => (p.1, t.slice p.2)
  rwa [h.map_slice] at hperm

/-- Sorting by the start brings the spans that are not empty into the order of the layout. -/
theorem filter_sorted (h : t.Shows m) :
    (t.spans.pairs.mergeSort fun p q => p.2.start ≤ q.2.start).filter (fun p => 0 < p.2.len) =
      (layout 0 m).filter fun p => 0 < p.2.len := by
  have hperm := ((List.mergeSort_perm t.spans.pairs fun p q => p.2.start ≤ q.2.start).trans
    h.spans).filter fun p => 0 < p.2.len
  have hstarts : ((layout 0 m).filter fun p => 0 < p.2.len).Pairwise fun p q =>
      p.2.start < q.2.start := by
    refine ((pairwise_layout 0 m).filter _).imp_of_mem fun {p q} hp _ hpq => ?_
    have hlen : 0 < p.2.len := of_decide_eq_true (List.mem_filter.1 hp).2
    omega
  have hsorted : (t.spans.pairs.mergeSort fun p q => p.2.start ≤ q.2.start).Pairwise fun p q =>
      p.2.start ≤ q.2.start :=
    (List.pairwise_mergeSort (by simp; omega) (by simp; omega) _).imp of_decide_eq_true
  refine List.Perm.eq_of_pairwise ?_ (hsorted.filter _) (hstarts.imp Nat.le_of_lt) hperm
  intro p q hp hq hpq hqp
  have hnodup : (((layout 0 m).filter fun p => 0 < p.2.len).map fun p => p.2.start).Nodup :=
    List.pairwise_map.2 (hstarts.imp Nat.ne_of_lt)
  exact List.inj_on_of_nodup_map hnodup (hperm.mem_iff.1 hp) hq (Nat.le_antisymm hpq hqp)

/-- The entries that hold actions come in the order of the listing. -/
theorem filter_entryActions (h : t.Shows m) :
    t.entryActions.filter (fun e => !e.2.isEmpty) = m.filter fun e => !e.2.isEmpty := by
  have hfilter {l : List (String × Span)} (hl : ∀ p ∈ l, p ∈ layout 0 m) :
      (l.map fun p => (p.1, t.slice p.2)).filter (fun e => !e.2.isEmpty) =
        (l.filter fun p => 0 < p.2.len).map fun p => (p.1, t.slice p.2) := by
    rw [List.filter_map]
    exact congrArg _ (List.filter_congr fun p hp => h.slice_isEmpty (hl p hp))
  conv_rhs => rw [← h.map_slice]
  rw [entryActions, hfilter fun p hp => ?_, h.filter_sorted, hfilter fun p hp => hp]
  exact h.spans.mem_iff.1 ((List.mergeSort_perm t.spans.pairs _).mem_iff.1 hp)

end Shows

end Table

end Dataplane

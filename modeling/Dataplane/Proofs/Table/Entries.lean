import Dataplane.Action.Error
import Dataplane.Proofs.InPlace.Calls
import Dataplane.Proofs.Table.Layout
import Mathlib.Data.List.Induction

/-!
# Entries of a table

A table is a list of entries with their actions: entries come in at its head or at its tail and go
out by name, and nothing that happens to one entry touches the actions of another one. The flat list
and the spans are kept so by every edit, whatever the order of the edits is and however many entries
without actions share a place.

## The model

Each edit is a call that goes through its steps in place: adding an entry shifts the spans before
the actions are put in, and removing one takes its span out first. What was changed before an error
would stay changed; `Table.Edit.run_eq` says that a call does at once what `insert?`, `remove?` and
`clear` give. `Listing.edit` is what an edit does to the list of entries.
-/

namespace Dataplane

open InPlace

variable {α : Type}

/-- An edit of a table. -/
inductive Table.Edit (α : Type) where
  /-- Adds an entry. -/
  | add (id : String) (actions : List α) (pos : Position)
  /-- Removes an entry. -/
  | remove (id : String)
  /-- Removes all entries. -/
  | clear

/-! ### Edits of a listing -/

namespace Listing

/-- The listing after an edit. -/
def edit (m : Listing α) : Table.Edit α → Except TableError (Listing α)
  | .add id actions pos =>
    if id ∈ m.map (·.1) then .error (.duplicateEntry id)
    else match pos with
      | .head => .ok ((id, actions) :: m)
      | .tail => .ok (m ++ [(id, actions)])
  | .remove id => if id ∈ m.map (·.1) then .ok (m.filter (·.1 ≠ id)) else .error (.noEntry id)
  | .clear => .ok []

/-- The listing after some edits, the first one first. An edit that fails changes nothing. -/
def run (edits : List (Table.Edit α)) : Listing α :=
  edits.foldl (fun m e => match m.edit e with | .ok m' => m' | .error _ => m) []

end Listing

/-! ### Edits in place -/

namespace Table

open Listing

variable {t : Table α} {m : Listing α} {id : String} {actions : List α}

/-- Adds an entry. -/
def addInPlace (id : String) (actions : List α) (pos : Position) :
    InPlace TableError (Table α) Unit := do
  refuseIf ((← current).spans.has id) (.duplicateEntry id)
  let start ← match pos with
    | .head => do
      modify fun t => { t with
        spans := mapSpans t.spans fun s => { s with start := s.start + actions.length } }
      pure 0
    | .tail => do pure (← current).list.length
  modify fun t => { t with list := match pos with
    | .head => actions ++ t.list
    | .tail => t.list ++ actions }
  modify fun t => { t with spans := t.spans.insert id ⟨start, actions.length⟩ }

/-- Removes an entry. -/
def removeInPlace (id : String) : InPlace TableError (Table α) Unit := do
  match (← current).spans.get? id with
  | none => throw (.noEntry id)
  | some span =>
    modify fun t => { t with spans := t.spans.erase id }
    let t ← current
    let list := t.list.take span.start ++ t.list.drop (span.start + span.len)
    modify fun t => { t with spans := mapSpans t.spans fun s =>
      if span.start < s.start then { s with start := s.start - span.len } else s }
    modify fun t => { t with list }

namespace Edit

/-- The call of an edit, step by step. -/
def run : Edit α → InPlace TableError (Table α) Unit
  | add id actions pos => addInPlace id actions pos
  | remove id => removeInPlace id
  | clear => modify Table.clear

/-- What an edit is to make of a table. -/
def result : Edit α → Table α → Except TableError (Table α × Unit)
  | add id actions pos, t => match t.insert? id actions pos with
    | some t' => .ok (t', ())
    | none => .error (.duplicateEntry id)
  | remove id, t => match t.remove? id with
    | some (t', _) => .ok (t', ())
    | none => .error (.noEntry id)
  | clear, t => .ok (t.clear, ())

/-- An edit is done at once. -/
theorem run_eq (e : Edit α) : e.run = atOnce e.result := by
  funext t
  rw [atOnce_apply]
  cases e with
  | add id actions pos =>
    simp only [run, result, addInPlace, insert?, bind_apply, current_apply]
    by_cases hhas : t.spans.has id = true
    · rw [refuseIf_of hhas, if_pos hhas]
    · rw [refuseIf_of_not hhas, if_neg hhas]
      cases pos <;> rfl
  | remove id =>
    simp only [run, result, removeInPlace, remove?, bind_apply, current_apply]
    cases t.spans.get? id <;> rfl
  | clear => rfl

/-- The table after an edit. An edit that fails changes nothing. -/
def after (t : Table α) (e : Edit α) : Table α :=
  match e.result t with
  | .ok (t', _) => t'
  | .error _ => t

end Edit

/-- The table after some edits, the first one first. -/
def edited (default : List α) (edits : List (Edit α)) : Table α :=
  edits.foldl Edit.after (.empty default)

/-! ### What edits keep -/

namespace Shows

theorem empty (default : List α) : (Table.empty default).Shows [] := ⟨rfl, .refl _⟩

theorem insert_head (h : t.Shows m) (hid : id ∉ m.map (·.1)) (actions : List α) :
    ∃ t', t.insert? id actions .head = some t' ∧ t'.Shows ((id, actions) :: m) := by
  refine ⟨_, by rw [insert?, if_neg (mt h.has_iff.1 hid)], congrArg (actions ++ ·) h.list, ?_⟩
  have hshift : (mapSpans t.spans fun s => { s with start := s.start + actions.length }).pairs.Perm
      (layout (0 + actions.length) m) :=
    layout_shift 0 actions.length m ▸ h.spans.map _
  have hnew : (mapSpans t.spans fun s => { s with start := s.start + actions.length }).get? id =
      none := by
    rw [← Option.not_isSome_iff_eq_none, ← SortedMap.mem_keys_iff]
    rwa [(hshift.map (·.1)).mem_iff, keys_layout]
  exact (SortedMap.perm_insert _ hnew).trans (hshift.cons _)

theorem insert_tail (h : t.Shows m) (hid : id ∉ m.map (·.1)) (actions : List α) :
    ∃ t', t.insert? id actions .tail = some t' ∧ t'.Shows (m ++ [(id, actions)]) := by
  refine ⟨_, by rw [insert?, if_neg (mt h.has_iff.1 hid)], ?_, ?_⟩
  · simp [h.list, flat]
  · rw [layout_append, Nat.zero_add, ← h.list]
    exact (SortedMap.perm_insert _ (h.get?_eq_none hid)).trans
      ((h.spans.cons _).trans (List.perm_append_singleton _ _).symm)

/-- Removing an entry moves up the spans behind it, and those alone: a span that starts in the same
place is in front of it or one of the two is empty. -/
theorem remove (h : t.Shows m) (hid : id ∈ m.map (·.1)) :
    ∃ t' gone, t.remove? id = some (t', gone) ∧ t'.Shows (m.filter (·.1 ≠ id)) := by
  obtain ⟨span, hspan⟩ : ∃ span, t.spans.get? id = some span :=
    Option.isSome_iff_exists.1 (SortedMap.has_eq_isSome t.spans id ▸ h.has_iff.2 hid)
  obtain ⟨before, actions, after, rfl, rfl⟩ := h.get?_eq_some hspan
  -- the other entries have other names
  have hnodup := h.nodup
  rw [List.map_append, List.map_cons, List.nodup_middle, List.nodup_cons] at hnodup
  have hother : ∀ e ∈ before ++ after, e.1 ≠ id := fun e he heq =>
    hnodup.1 (List.map_append ▸ heq ▸ List.mem_map_of_mem (f := (·.1)) he)
  have hrest : (before ++ (id, actions) :: after).filter (·.1 ≠ id) = before ++ after := by
    rw [List.filter_append, List.filter_cons_of_neg (by simp), ← List.filter_append,
      List.filter_eq_self]
    simpa using hother
  refine ⟨_, _, by rw [remove?, hspan]; rfl, ?_⟩
  rw [hrest]
  constructor
  case list =>
    have hlist : t.list = flat before ++ (actions ++ flat after) := by
      rw [h.list, flat_append]
      rfl
    simp only [hlist, List.take_left, ← List.drop_drop, List.drop_left, flat_append]
  case spans =>
    have herase : (t.spans.erase id).pairs.Perm
        (layout 0 before ++ layout ((flat before).length + actions.length) after) := by
      have hspans := h.spans.filter (·.1 ≠ id)
      rw [layout_append, Nat.zero_add, layout, List.filter_append,
        List.filter_cons_of_neg (by simp), ← List.filter_append] at hspans
      refine hspans.trans (.of_eq (List.filter_eq_self.2 fun p hp => ?_))
      have hkeys := List.mem_map_of_mem (f := (·.1)) hp
      rw [List.map_append, keys_layout, keys_layout, ← List.map_append] at hkeys
      obtain ⟨e, he, heq⟩ := List.mem_map.1 hkeys
      exact decide_eq_true (heq ▸ hother e he)
    exact layout_close before actions.length after ▸ herase.map _

/-- An edit does to a table what it does to the listing, and fails for the same cause. -/
theorem edit (h : t.Shows m) (e : Edit α) : match m.edit e with
    | .ok m' => ∃ t', e.result t = .ok (t', ()) ∧ t'.Shows m'
    | .error err => e.result t = .error err := by
  cases e with
  | add id actions pos =>
    by_cases hid : id ∈ m.map (·.1)
    · simp only [Listing.edit, if_pos hid, Edit.result, insert?, if_pos (h.has_iff.2 hid)]
    · simp only [Listing.edit, if_neg hid]
      cases pos with
      | head =>
        obtain ⟨t', ht', hshows⟩ := h.insert_head hid actions
        exact ⟨t', by simp only [Edit.result, ht'], hshows⟩
      | tail =>
        obtain ⟨t', ht', hshows⟩ := h.insert_tail hid actions
        exact ⟨t', by simp only [Edit.result, ht'], hshows⟩
  | remove id =>
    by_cases hid : id ∈ m.map (·.1)
    · simp only [Listing.edit, if_pos hid]
      obtain ⟨t', gone, ht', hshows⟩ := h.remove hid
      exact ⟨t', by simp only [Edit.result, ht'], hshows⟩
    · simp only [Listing.edit, if_neg hid, Edit.result, remove?, h.get?_eq_none hid, Option.map_none]
  | clear => exact ⟨t.clear, rfl, empty t.default⟩

/-- The table after some edits is laid out for the listing after them. -/
theorem edited (default : List α) (edits : List (Edit α)) :
    (Table.edited default edits).Shows (Listing.run edits) := by
  induction edits using List.reverseRecOn with
  | nil => exact empty default
  | append_singleton edits e ih =>
    have hstep := ih.edit e
    rw [Table.edited, Listing.run, List.foldl_append, List.foldl_append]
    change (Edit.after (Table.edited default edits) e).Shows
      (match (Listing.run edits).edit e with | .ok m' => m' | .error _ => Listing.run edits)
    rw [Edit.after]
    cases hedit : (Listing.run edits).edit e with
    | error err =>
      rw [hedit] at hstep
      rw [hstep]
      exact ih
    | ok m' =>
      rw [hedit] at hstep
      obtain ⟨t', ht', hshows⟩ := hstep
      rw [ht']
      exact hshows

end Shows

/-- Whatever the edits of a table are, it is at each time the list of its entries: the flat list holds
the actions of the entries one after the other; the entries that are listed are those that were added
and not removed, each with the actions it was added with; and those that hold actions are listed in
the order in which they run. Every span lies in the flat list and no two overlap. An edit that is run
step by step changes nothing when it fails, which it does if an entry of the name is there already, or
if there is none to remove. -/
theorem edited_follows_listing (default : List α) (edits : List (Edit α)) :
    let t := edited default edits
    let m := Listing.run edits
    t.list = m.flatMap (·.2) ∧
    (m.map (·.1)).Nodup ∧ t.entryActions.Perm m ∧ t.entries.Perm (m.map (·.1)) ∧
    t.entryActions.filter (fun e => !e.2.isEmpty) = m.filter (fun e => !e.2.isEmpty) ∧
    t.entries.filter (fun id => m.any fun e => e.1 = id && !e.2.isEmpty) =
      (m.filter fun e => !e.2.isEmpty).map (·.1) ∧
    (∀ id s, t.spans.get? id = some s → s.start + s.len ≤ t.list.length ∧
      ∀ id' s', t.spans.get? id' = some s' → id ≠ id' →
        s.start + s.len ≤ s'.start ∨ s'.start + s'.len ≤ s.start) ∧
    ∀ e, match m.edit e with
      | .ok m' => m' = Listing.run (edits ++ [e]) ∧ e.run t = .ok () (edited default (edits ++ [e]))
      | .error err => e.run t = .error err t ∧ edited default (edits ++ [e]) = t := by
  intro t m
  have hshows : t.Shows m := .edited default edits
  have hentries : t.entries.Perm (m.map (·.1)) := hshows.perm_entryActions.map _
  refine ⟨hshows.list, hshows.nodup, hshows.perm_entryActions, hentries,
    hshows.filter_entryActions, ?_, ?_, ?_⟩
  · -- an entry that is listed is the one of its name
    rw [entries, List.filter_map, ← hshows.filter_entryActions]
    congr 1
    refine List.filter_congr fun e he => ?_
    have hmem : e ∈ m := hshows.perm_entryActions.mem_iff.1 he
    rw [Function.comp_apply, Bool.eq_iff_iff, List.any_eq_true]
    constructor
    · rintro ⟨e', hmem', heq⟩
      rw [Bool.and_eq_true, decide_eq_true_eq] at heq
      obtain rfl := List.inj_on_of_nodup_map hshows.nodup hmem' hmem heq.1
      exact heq.2
    · intro hholds
      exact ⟨e, hmem, by simpa using hholds⟩
  · intro id s hs
    exact ⟨hshows.span_le hs, fun id' s' hs' hne => hshows.apart hs hs' hne⟩
  · intro e
    have hstep := hshows.edit e
    have hedited : edited default (edits ++ [e]) = e.after t := by
      rw [edited, List.foldl_append]
      rfl
    have hrun : Listing.run (edits ++ [e]) =
        match m.edit e with | .ok m' => m' | .error _ => m := by
      rw [Listing.run, List.foldl_append]
      rfl
    rw [hedited, hrun, Edit.run_eq, atOnce_apply, Edit.after]
    cases hedit : m.edit e with
    | ok m' =>
      rw [hedit] at hstep
      obtain ⟨t', ht', -⟩ := hstep
      simp only [ht', and_self]
    | error err =>
      rw [hedit] at hstep
      simp only [hstep, and_self]

end Table

end Dataplane

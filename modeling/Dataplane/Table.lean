import Dataplane.Config.Basic

/-!
# Tables

A table holds entries, each with its actions. A lookup goes on with the actions of all entries in
order, or with the default actions if there are none.

## The model

The actions of all entries lie in one flat list, and each entry has its span in it. An entry is put
at the head or at the tail; adding and removing shift the spans behind. The table does not look into
the actions, so they are of any type.
-/

namespace Dataplane

/-- Where the actions of an entry lie in the flat list. -/
structure Span where
  start : Nat
  len : Nat
  deriving DecidableEq

/-- A table. -/
structure Table (α : Type) where
  /-- What a lookup gives while the flat list is empty. -/
  default : List α
  /-- The actions of all entries. -/
  list : List α
  /-- The span of each entry. -/
  spans : SortedMap String Span

namespace Table

variable {α : Type}

/-- A table without entries. -/
def empty (default : List α) : Table α := ⟨default, [], .empty⟩

/-- What a lookup gives. -/
def lookup (t : Table α) : List α := if t.list.isEmpty then t.default else t.list

/-- The actions in a span. -/
def slice (t : Table α) (s : Span) : List α := (t.list.drop s.start).take s.len

/-- Each entry with its actions, in the order in which they run. -/
def entryActions (t : Table α) : List (String × List α) :=
  (t.spans.pairs.mergeSort fun p q => p.2.start ≤ q.2.start).map fun p => (p.1, t.slice p.2)

/-- The entries in the order in which their actions run. -/
def entries (t : Table α) : List String := t.entryActions.map (·.1)

/-- All actions, those of the entries first. -/
def allActions (t : Table α) : List α := t.list ++ t.default

/-- Changes every span. -/
def mapSpans (m : SortedMap String Span) (f : Span → Span) : SortedMap String Span :=
  ⟨m.pairs.map fun p => (p.1, f p.2), List.pairwise_map.2 m.sorted⟩

/-- The table with an entry, if it has none of that name. -/
def insert? (t : Table α) (id : String) (actions : List α) (pos : Position) : Option (Table α) :=
  if t.spans.has id then none
  else match pos with
    | .head =>
      let shifted := mapSpans t.spans fun s => { s with start := s.start + actions.length }
      some { t with
        list := actions ++ t.list
        spans := shifted.insert id ⟨0, actions.length⟩ }
    | .tail =>
      some { t with
        list := t.list ++ actions
        spans := t.spans.insert id ⟨t.list.length, actions.length⟩ }

/-- The table without an entry, and the actions of that entry. -/
def remove? (t : Table α) (id : String) : Option (Table α × List α) :=
  (t.spans.get? id).map fun span =>
    let shifted := mapSpans (t.spans.erase id) fun s =>
      if span.start < s.start then { s with start := s.start - span.len } else s
    ({ t with list := t.list.take span.start ++ t.list.drop (span.start + span.len),
              spans := shifted },
     t.slice span)

/-- The table without entries. -/
def clear (t : Table α) : Table α := empty t.default

end Table

end Dataplane

import Dataplane.Header.Basic

/-!
# The headers of a packet

A packet holds at most one entry per group: a header, and a *dirty* bit that says whether derived
fields (lengths, checksums) may be stale because of it.

## The model

The table has one place per group, so it is in wire order by construction. A header is rebuilt
against its surroundings, which are read off the rest of the table. Rebuilding several groups works
from the inside out, and every one of them sees the dirty bits as they stood before the first; only
then are the bits cleared.
-/

namespace Dataplane

/-- A header in the table of a packet. -/
structure Entry where
  /-- The header. -/
  header : Header
  /-- May derived fields be stale because of it? -/
  dirty : Bool
  deriving DecidableEq

namespace Entry

/-- A header whose derived fields are taken as they are. -/
def clean (h : Header) : Entry := ⟨h, false⟩

/-- The number of bytes on the wire, trailer included. -/
def wireLen (e : Entry) : Nat := e.header.wireLen + e.header.trailer.length

/-- The wire bytes of a list of entries: headers outermost first, then trailers innermost first. -/
def emitAll (es : List Entry) : Bytes :=
  es.flatMap (·.header.emit) ++ es.reverse.flatMap (·.header.trailer)

end Entry

/-- The headers of a packet, at most one per group. -/
structure Headers where
  packet : Option Entry
  l2 : Option Entry
  l3 : Option Entry
  l4 : Option Entry
  payload : Option Entry
  deriving DecidableEq

namespace Headers

/-- The table without entries. -/
def empty : Headers := ⟨none, none, none, none, none⟩

/-- The entry of a group. -/
def get (t : Headers) : HeaderGroup → Option Entry
  | .packet => t.packet
  | .l2 => t.l2
  | .l3 => t.l3
  | .l4 => t.l4
  | .payload => t.payload

/-- The table with the entry of a group replaced. -/
def set (t : Headers) (g : HeaderGroup) (e : Option Entry) : Headers :=
  match g with
  | .packet => { t with packet := e }
  | .l2 => { t with l2 := e }
  | .l3 => { t with l3 := e }
  | .l4 => { t with l4 := e }
  | .payload => { t with payload := e }

@[simp] theorem get_set_self (t : Headers) (g : HeaderGroup) (e : Option Entry) :
    (t.set g e).get g = e := by cases g <;> rfl

theorem get_set_of_ne (t : Headers) {g g' : HeaderGroup} (h : g' ≠ g) (e : Option Entry) :
    (t.set g e).get g' = t.get g' := by
  cases g <;> cases g' <;> first | rfl | exact absurd rfl h

/-- Is there an entry for the group? -/
def isPresent (t : Headers) (g : HeaderGroup) : Bool := (t.get g).isSome

/-- The table with the entry of a group changed. -/
def modify (t : Headers) (g : HeaderGroup) (f : Entry → Entry) : Headers :=
  t.set g ((t.get g).map f)

/-- The entries of some groups, in the order of the groups. -/
def entriesOf (t : Headers) (gs : List HeaderGroup) : List Entry := gs.filterMap t.get

/-- All entries, in wire order. -/
def entries (t : Headers) : List Entry := t.entriesOf HeaderGroup.all

/-! ### Neighbours -/

/-- The nearest occupied group outside. -/
def prev? (t : Headers) (g : HeaderGroup) : Option HeaderGroup := g.outside.find? t.isPresent

/-- The nearest occupied group inside. -/
def next? (t : Headers) (g : HeaderGroup) : Option HeaderGroup := g.inside.find? t.isPresent

/-- The innermost occupied group. -/
def last? (t : Headers) : Option HeaderGroup := HeaderGroup.all.reverse.find? t.isPresent

/-! ### The wire form -/

/-- The number of bytes on the wire. -/
def wireLen (t : Headers) : Nat := t.entries.foldr (·.wireLen + ·) 0

/-- The bytes on the wire. -/
def emit (t : Headers) : Bytes := Entry.emitAll t.entries

/-- The kinds of all headers, outermost first. -/
def kinds (t : Headers) : List HeaderKind := t.entries.flatMap (·.header.kinds)

/-- The kinds of all headers but the metadata, joined by slashes. -/
def describe (t : Headers) : String :=
  let entries := t.entriesOf HeaderGroup.packet.inside
  "/".intercalate ((entries.flatMap (·.header.kinds)).map (·.text))

/-! ### Surroundings -/

/-- What the header of a group sees of the rest of the table. -/
def around (t : Headers) (g : HeaderGroup) : Surroundings where
  innerKind := (t.entriesOf g.inside).head? >>= (·.header.kind? .first)
  inner := Entry.emitAll (t.entriesOf g.inside)
  outerDirty := match (t.entriesOf g.outside).head? with
    | some e => e.dirty
    | none => false
  innerDirty := (t.entriesOf g.inside).any (·.dirty)
  addrs := if g = .l3 then none else t.l3 >>= (·.header.addrs?)

/-- Lets the header of a group have its first look at the packet. -/
def attachAt (t : Headers) (g : HeaderGroup) : Headers :=
  t.modify g fun e => { e with header := e.header.attach (t.around g) }

/-- Lets every header have its first look at the packet, outermost first. -/
def attachAll (t : Headers) : Headers := HeaderGroup.all.foldl attachAt t

/-- Rebuilds the header of a group, its dirty bit untouched. -/
def rebuildAt (t : Headers) (g : HeaderGroup) : Headers :=
  t.modify g fun e => { e with header := e.header.rebuild (t.around g) e.dirty }

/-- Clears the dirty bit of a group. -/
def cleanAt (t : Headers) (g : HeaderGroup) : Headers :=
  t.modify g fun e => { e with dirty := false }

/-- Rebuilds some groups in the given order, and then clears their dirty bits. -/
def rebuildGroups (t : Headers) (gs : List HeaderGroup) : Headers :=
  gs.foldl cleanAt (gs.foldl rebuildAt t)

/-- Rebuilds every group, innermost first. -/
def rebuildAll (t : Headers) : Headers := t.rebuildGroups HeaderGroup.all.reverse

/-- Rebuilds a group and every group outside it, innermost first. -/
def rebuildOutward (t : Headers) (g : HeaderGroup) : Headers := t.rebuildGroups (g :: g.outside)

end Headers

end Dataplane

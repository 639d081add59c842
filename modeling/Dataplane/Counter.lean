import Dataplane.Enumerated
import Dataplane.SortedMap

/-!
# Counters

Packets are counted by what happened to them. Each such event has two counters, one of packets and
one of octets.

## The model

A set of counters holds a value for some of the identifiers; counting an event that it does not
hold does nothing, so the empty set counts nothing. Values wrap at 64 bits.
-/

namespace Dataplane

/-- What happened to a packet. -/
inductive CounterEvent where
  | rx
  | tx
  | drop
  | error
  | rxDebug
  | encapError
  | txError
  | mirror
  | mirrorError
  | ratelimit
  | flow
  deriving DecidableEq

namespace CounterEvent

/-- The events in order. -/
def all : List CounterEvent :=
  [rx, tx, drop, error, rxDebug, encapError, txError, mirror, mirrorError, ratelimit, flow]

/-- The place of an event in the order. -/
def index : CounterEvent → Nat
  | rx => 0
  | tx => 1
  | drop => 2
  | error => 3
  | rxDebug => 4
  | encapError => 5
  | txError => 6
  | mirror => 7
  | mirrorError => 8
  | ratelimit => 9
  | flow => 10

theorem index_injective {a b : CounterEvent} (h : a.index = b.index) : a = b := by
  cases a <;> cases b <;> simp_all [index]

/-- The name of an event. -/
def name : CounterEvent → String
  | rx => "Rx"
  | tx => "Tx"
  | drop => "Drop"
  | error => "Error"
  | rxDebug => "RxDebug"
  | encapError => "EncapError"
  | txError => "TxError"
  | mirror => "Mirror"
  | mirrorError => "MirrorError"
  | ratelimit => "Ratelimit"
  | flow => "Flow"

/-- The display text of an event. -/
def text : CounterEvent → String
  | rx => "RX"
  | tx => "TX"
  | drop => "DROP"
  | error => "ERROR"
  | rxDebug => "RX_DEBUG"
  | encapError => "ENCAP_ERROR"
  | txError => "TX_ERROR"
  | mirror => "MIRROR"
  | mirrorError => "MIRROR_ERROR"
  | ratelimit => "RATELIMIT"
  | flow => "FLOW"

/-- Is the event counted by every port? -/
def isOfPort : CounterEvent → Bool
  | ratelimit | flow => false
  | _ => true

end CounterEvent

/-- What a counter counts. -/
inductive CounterUnit where
  | packets
  | octets
  deriving DecidableEq

/-- Identifies a counter. -/
structure CounterId where
  event : CounterEvent
  unit : CounterUnit
  deriving DecidableEq

namespace CounterId

/-- The place of a counter in the order of events, packets before octets. -/
def index (id : CounterId) : Nat :=
  2 * id.event.index + match id.unit with
    | .packets => 0
    | .octets => 1

theorem index_injective {a b : CounterId} (h : a.index = b.index) : a = b := by
  obtain ⟨e, u⟩ := a
  obtain ⟨e', u'⟩ := b
  match u, u' with
  | .packets, .packets | .octets, .octets =>
    rw [CounterEvent.index_injective (a := e) (b := e') (by simp [index] at h; omega)]
  | .packets, .octets | .octets, .packets =>
    simp [index] at h
    omega

/-- The two counters of an event. -/
def ofEvent (e : CounterEvent) : List CounterId := [⟨e, .packets⟩, ⟨e, .octets⟩]

instance : Enumerated CounterId where
  all := CounterEvent.all.flatMap ofEvent
  name id := id.event.name ++ match id.unit with
    | .packets => "Packets"
    | .octets => "Octets"

/-- All counters, in order. -/
def all : List CounterId := Enumerated.all

/-- The counters every port has. -/
def ofPort : List CounterId := (CounterEvent.all.filter (·.isOfPort)).flatMap ofEvent

/-- The counters of a flow. -/
def ofFlow : List CounterId := ofEvent .flow

/-- The display text of a counter. -/
def text (id : CounterId) : String :=
  id.event.text ++ match id.unit with
    | .packets => "_PACKETS"
    | .octets => "_OCTETS"

instance : KeyOrder CounterId where
  before a b := a.index < b.index
  irrefl := by simp
  trans := by simp; omega
  total a b h hne := by
    have : a.index ≠ b.index := fun h => hne (index_injective h)
    simp at h ⊢
    omega

end CounterId

/-- A set of counters with their values. -/
abbrev Counters := SortedMap CounterId UInt64

namespace Counters

/-- Counters at zero. -/
def ofIds (ids : List CounterId) : Counters := .ofList (ids.map (·, 0))

/-- Counters that count nothing. -/
def none : Counters := .empty

/-- The counters of a port, at zero. -/
def port : Counters := ofIds CounterId.ofPort

/-- The counters of a flow, at zero. -/
def flow : Counters := ofIds CounterId.ofFlow

/-- Adds to a counter, if it is there. -/
def add (c : Counters) (id : CounterId) (delta : UInt64) : Counters :=
  c.modify id (· + delta)

/-- Counts an event of a packet of `len` bytes. -/
def count (c : Counters) (e : CounterEvent) (len : Nat) : Counters :=
  (c.add ⟨e, .packets⟩ 1).add ⟨e, .octets⟩ (UInt64.ofNat len)

/-- Counting an event adds one to its packets and the length to its octets. -/
theorem get?_count (c : Counters) (e : CounterEvent) (len : Nat) (id : CounterId) :
    (c.count e len).get? id = (c.get? id).map fun n =>
      if id = ⟨e, .packets⟩ then n + 1 else if id = ⟨e, .octets⟩ then n + UInt64.ofNat len
      else n := by
  rw [count, add, add, SortedMap.get?_modify, SortedMap.get?_modify, Option.map_map]
  congr 1
  funext n
  by_cases hpackets : id = ⟨e, .packets⟩
  · have hoctets : id ≠ ⟨e, .octets⟩ := by
      rintro rfl
      cases hpackets
    simp [hpackets]
  · simp [hpackets]

end Counters

end Dataplane

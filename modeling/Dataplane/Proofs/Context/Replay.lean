import Dataplane.Proofs.Context.Notices

/-!
# Replaying notifications

Who listens to a context from the start on knows what is registered in it: notifications that are
replayed in order give the identifier, the NID and the kind of every object that is listed. They never
bind an identifier that is bound or take out one that is not, and what is taken out has the NID that
was told of it. That is so after every call, whether it succeeded or failed, and when objects are
forced out while the calls go on.

## The model

`Notification.replay?` gives what is known after some notifications, or nothing if one of them does
not fit. `Context.Abreast` says that it fits what is registered, which is compared identifier by
identifier (`Registry.listed?`). A `Turn` is a call, or it forces out objects: all of them, or those
that were listed at some time, whether or not they are still registered. What happens at the barrier
between the phases of a cleanup can be anything, so a cleanup with a barrier is such a turn, some
others, and such a turn again.
-/

namespace Dataplane

/-- Keys in ascending order with the values that a map has for them are all of the map. -/
theorem SortedMap.pairs_eq {κ ν : Type} [KeyOrder κ] [DecidableEq κ] {m : SortedMap κ ν}
    {l : List (κ × ν)} (hl : l.Pairwise fun p q => KeyOrder.before p.1 q.1 = true)
    (h : ∀ k v, m.get? k = some v ↔ (k, v) ∈ l) : m.pairs = l := by
  have hnodup {l : List (κ × ν)} (hl : l.Pairwise fun p q => KeyOrder.before p.1 q.1 = true) :
      l.Nodup := by
    refine hl.imp fun {p q} hpq heq => ?_
    rw [heq, KeyOrder.irrefl] at hpq
    cases hpq
  have hperm : m.pairs.Perm l :=
    (List.perm_ext_iff_of_nodup (hnodup m.sorted) (hnodup hl)).2 fun p =>
      get?_eq_some_iff.symm.trans (h p.1 p.2)
  refine hperm.eq_of_pairwise (fun p q _ _ hpq hqp => ?_) m.sorted hl
  have hself := KeyOrder.trans _ _ _ hpq hqp
  rw [KeyOrder.irrefl] at hself
  cases hself

namespace Notification

/-- What is known after a notification: it has to be about an identifier that is not bound, or to take
out one that is bound to the NID. -/
def learn? (known : SortedMap String (Nat × ObjectKind)) :
    Notification → Option (SortedMap String (Nat × ObjectKind))
  | added id nid kind =>
    match known.get? id with
    | some _ => none
    | none => some (known.insert id (nid, kind))
  | removed id nid =>
    match known.get? id with
    | some (nid', _) => if nid' = nid then some (known.erase id) else none
    | none => none

/-- What is known after some notifications, the first one first. -/
def replay? (ns : List Notification) : Option (SortedMap String (Nat × ObjectKind)) :=
  ns.foldlM learn? .empty

theorem replay?_concat (ns : List Notification) (n : Notification) :
    replay? (ns ++ [n]) = replay? ns >>= (learn? · n) := by
  simp [replay?, List.foldlM_append]

end Notification

namespace Registry

variable {r r' : Registry Object} {id : String} {nid : Nat} {retiring : List Nat} {body : Object}
  {force : Bool}

/-- The NID and the kind of what is registered under an identifier. -/
def listed? (r : Registry Object) (id : String) : Option (Nat × ObjectKind) := do
  let nid ← r.ids.get? id
  let kind ← r.serialOf? id >>= r.kindOf?
  return (nid, kind)

theorem listed?_eq_some_iff {kind : ObjectKind} : r.listed? id = some (nid, kind) ↔
    r.ids.get? id = some nid ∧ ∃ i, r.nids.get? nid = some i ∧ r.kindOf? i = some kind := by
  cases hid : r.ids.get? id with
  | none => simp [listed?, hid]
  | some nid' =>
    simp only [listed?, serialOf?, hid, Option.bind_eq_bind, Option.bind_some, Option.pure_def,
      Option.bind_eq_some_iff, Option.some.injEq, Prod.mk.injEq]
    constructor
    · rintro ⟨kind', ⟨i, hi, hkind⟩, rfl, rfl⟩
      exact ⟨rfl, i, hi, hkind⟩
    · rintro ⟨rfl, i, hi, hkind⟩
      exact ⟨kind, ⟨i, hi, hkind⟩, rfl, rfl⟩

/-- An identifier that leads to a NID leads to an object of some kind. -/
theorem Indexed.listed?_eq (h : r.Indexed retiring) (hid : r.ids.get? id = some nid) :
    ∃ i kind, r.nids.get? nid = some i ∧ r.kindOf? i = some kind ∧
      r.listed? id = some (nid, kind) := by
  obtain ⟨i, o, hi, ho, -⟩ := h.named hid
  have hkind := kindOf?_of_get? ho
  exact ⟨i, _, hi, hkind, listed?_eq_some_iff.2 ⟨hid, i, hi, hkind⟩⟩

theorem listed?_of_ids_eq_none (hid : r.ids.get? id = none) : r.listed? id = none := by
  simp [listed?, hid]

/-- What is retained is registered as before. -/
theorem Retains.listed?_eq (h : Retains r r') (h' : r'.Indexed retiring) (id : String) :
    r'.listed? id = r.listed? id := by
  cases hid : r'.ids.get? id with
  | none => rw [listed?_of_ids_eq_none hid, listed?_of_ids_eq_none (h.ids ▸ hid)]
  | some nid =>
    obtain ⟨i, kind, hi, hkind, hlisted⟩ := h'.listed?_eq hid
    rw [hlisted]
    exact (listed?_eq_some_iff.2 ⟨h.ids ▸ hid, i, h.nids hi, h.kinds ▸ hkind⟩).symm

/-- An object is registered under an identifier that was free. -/
theorem Indexed.listed?_insert (h : r.Indexed retiring) (hins : r.insert id body = .ok (nid, r')) :
    r.listed? id = none ∧ r'.listed? id = some (nid, Composite.kind body) ∧
      ∀ id', id' ≠ id → r'.listed? id' = r.listed? id' := by
  obtain ⟨-, hobjects, -, hserial, hother⟩ := h.insert hins
  obtain ⟨hfree, hids⟩ : r.ids.get? id = none ∧ r'.ids = r.ids.insert id nid := by
    rw [Registry.insert] at hins
    split_ifs at hins with hhas
    split at hins <;> cases hins
    exact ⟨by simpa [SortedMap.has_eq_isSome] using hhas, rfl⟩
  refine ⟨listed?_of_ids_eq_none hfree, ?_, fun id' hne => ?_⟩
  · have hnew : r'.get? r.objects.length = some ⟨id, nid, 1, 0, false, body⟩ := by
      simp [get?, hobjects]
    simp [listed?, hids, hserial, kindOf?_of_get? hnew]
  · have hkind : (r.serialOf? id' >>= r'.kindOf?) = r.serialOf? id' >>= r.kindOf? := by
      cases hi : r.serialOf? id' with
      | none => rfl
      | some i =>
        obtain ⟨o, ho, -⟩ := h.get?_of_serialOf? hi
        have ho' : r'.get? i = some o := by
          rw [get?, hobjects, List.getElem?_append_left (lt_length_of_get? ho)]
          exact ho
        exact (kindOf?_of_get? ho').trans (kindOf?_of_get? ho).symm
    rw [listed?, listed?, hids, SortedMap.get?_insert_of_ne _ _ hne, hother id' hne, hkind]

/-- What is taken out has the NID that it was registered with, and nothing else is taken out. -/
theorem Indexed.listed?_remove (h : r.Indexed retiring) (hrem : r.remove id force = .ok (nid, r'))
    (h' : r'.Indexed retiring) : (∃ kind, r.listed? id = some (nid, kind)) ∧ r'.listed? id = none ∧
      ∀ id', id' ≠ id → r'.listed? id' = r.listed? id' := by
  rw [Registry.remove] at hrem
  split at hrem
  · cases hrem
  rename_i nid' hid
  split at hrem <;> cases hrem
  obtain ⟨-, kind, -, -, hlisted⟩ := h.listed?_eq hid
  have hretains := Retains.settle { r with ids := r.ids.erase id }
  refine ⟨⟨kind, hlisted⟩, ?_, fun id' hne => ?_⟩
  · rw [(hretains _).listed?_eq h']
    exact listed?_of_ids_eq_none (SortedMap.get?_erase_self _ id)
  · rw [(hretains _).listed?_eq h']
    simp only [listed?, serialOf?, SortedMap.get?_erase_of_ne _ hne]
    rfl

/-- Who knows what is registered under every identifier knows what is listed. -/
theorem pairs_eq_snapshot {known : SortedMap String (Nat × ObjectKind)}
    (h : ∀ id, known.get? id = r.listed? id) :
    known.pairs = r.snapshot.map fun info => (info.id, info.nid, info.kind) := by
  refine SortedMap.pairs_eq ?_ fun id (nid, kind) => ?_
  · -- what is listed comes in the order of the identifiers
    rw [List.pairwise_map, snapshot, List.pairwise_filterMap]
    refine r.ids.sorted.imp fun {p q} hpq info hinfo info' hinfo' => ?_
    obtain ⟨o, -, hinfo⟩ := Option.bind_eq_some_iff.1 hinfo
    obtain ⟨o', -, hinfo'⟩ := Option.bind_eq_some_iff.1 hinfo'
    cases hinfo
    cases hinfo'
    exact hpq
  · rw [h, listed?_eq_some_iff, SortedMap.get?_eq_some_iff]
    simp only [snapshot, List.mem_map, List.mem_filterMap, kindOf?]
    constructor
    · rintro ⟨hid, i, hi, hkind⟩
      obtain ⟨o, ho, rfl⟩ := Option.map_eq_some_iff.1 hkind
      exact ⟨⟨id, nid, Composite.kind o.body, o.refs⟩, ⟨(id, nid), hid, by simp [hi, ho]⟩, rfl⟩
    · rintro ⟨info, ⟨⟨id', nid'⟩, hid, hinfo⟩, heq⟩
      obtain ⟨o, ho, hinfo⟩ := Option.bind_eq_some_iff.1 hinfo
      obtain ⟨i, hi, ho⟩ := Option.bind_eq_some_iff.1 ho
      cases hinfo
      cases heq
      exact ⟨hid, i, hi, by simp [ho]⟩

end Registry

namespace Context

open Registry

variable {c c' : Context} {held : Multiset Nat} {forced : List Nat} {n : Nat}

/-- There are takers of notifications, and they know what is registered. -/
structure Abreast (c : Context) : Prop where
  notifies : c.notifies = true
  known : ∃ known, Notification.replay? c.events = some known ∧
    ∀ id, known.get? id = c.registry.listed? id

theorem Quiet.abreast (h : Quiet c c') (hc : c.Abreast) (hindexed : c'.registry.Indexed []) :
    c'.Abreast := by
  obtain ⟨known, hreplay, hknown⟩ := hc.known
  refine ⟨h.notifies.trans hc.notifies, known, h.events ▸ hreplay, fun id => ?_⟩
  rw [hknown, h.retains.listed?_eq hindexed]

/-- Of an object that is registered, everything is told that has to be known. -/
theorem Abreast.added {id : String} {body : Object} {nid : Nat} (h : c.Abreast)
    (hindexed : c.registry.Indexed []) (hadd : c.addObject id body = .ok (nid, c')) :
    c'.Abreast := by
  obtain ⟨⟨nid', r⟩, hins, heq⟩ := bind_eq_ok_iff.1 hadd
  cases heq
  obtain ⟨known, hreplay, hknown⟩ := h.known
  obtain ⟨hfree, hself, hother⟩ := hindexed.listed?_insert hins
  have hnotifies : (c.withRegistry r).notifies = true := h.notifies
  refine ⟨(notify_notifies _ _).trans hnotifies, known.insert id (nid, Composite.kind body), ?_,
    fun id' => ?_⟩
  · rw [notify_events, if_pos hnotifies]
    change Notification.replay? (c.events ++ _) = _
    rw [Notification.replay?_concat, hreplay]
    simp [Notification.learn?, hknown, hfree]
  · rw [notify_registry]
    change _ = r.listed? id'
    by_cases hid : id' = id
    · rw [hid, hself, SortedMap.get?_insert_self]
    · rw [hother id' hid, SortedMap.get?_insert_of_ne _ _ hid, hknown]

/-- What is taken out is known, with the NID that is told. -/
theorem Abreast.removed {id : String} {force : Bool} {nid : Nat} {r : Registry Object}
    (h : c.Abreast) (hindexed : c.registry.Indexed [])
    (hrem : c.registry.remove id force = .ok (nid, r)) (hindexed' : r.Indexed []) :
    ((c.withRegistry r).notify (.removed id nid)).Abreast := by
  obtain ⟨known, hreplay, hknown⟩ := h.known
  obtain ⟨⟨kind, hlisted⟩, hself, hother⟩ := hindexed.listed?_remove hrem hindexed'
  have hnotifies : (c.withRegistry r).notifies = true := h.notifies
  refine ⟨(notify_notifies _ _).trans hnotifies, known.erase id, ?_, fun id' => ?_⟩
  · rw [notify_events, if_pos hnotifies]
    change Notification.replay? (c.events ++ _) = _
    rw [Notification.replay?_concat, hreplay]
    simp [Notification.learn?, hknown, hlisted]
  · rw [notify_registry]
    change _ = r.listed? id'
    by_cases hid : id' = id
    · rw [hid, hself, SortedMap.get?_erase_self]
    · rw [hother id' hid, SortedMap.get?_erase_of_ne _ hid, hknown]

/-- Takers of notifications stay abreast of what becomes of a context. -/
theorem Reports.abreast (h : Reports c c') (hc : c.Abreast) (hindexed' : c'.registry.Indexed []) :
    c'.Abreast := by
  cases h with
  | quiet h => exact h.abreast hc hindexed'
  | added h hindexed hadd => exact (h.abreast hc hindexed).added hindexed hadd
  | removed h hindexed hrem heq =>
    subst heq
    rw [notify_registry] at hindexed'
    exact (h.abreast hc hindexed).removed hindexed hrem hindexed'

/-- Forcing out objects keeps the counts right, what is lent, and takers of notifications abreast,
whether or not the objects are registered. -/
theorem Ready.teardown {outside aside : List Part} (h : Ready held forced n c)
    (hl : c.Lends outside aside) (hc : c.Abreast) (infos : List ObjectInfo) :
    (∃ forced', Ready held forced' n (c.teardown infos)) ∧
      (c.teardown infos).Lends outside aside ∧ (c.teardown infos).Abreast := by
  induction infos generalizing c forced with
  | nil => exact ⟨⟨forced, h⟩, hl, hc⟩
  | cons info infos ih =>
    obtain ⟨⟨forced', h'⟩, hl'⟩ := h.forceOut hl info
    have hreports := forceOut_reports h.balanced.toIndexed info
    exact ih h' hl' (hreports.abreast hc h'.balanced.toIndexed)

end Context

/-- A call, or objects that are forced out. -/
inductive Turn where
  | call (call : Call)
  /-- Forces out objects that were listed at some time. -/
  | teardown (infos : List ObjectInfo)
  /-- Forces out every object, those selected first. -/
  | cleanup (select : Registered Object → Bool)

namespace Caller

variable {s : Caller}

/-- The caller after a turn. -/
def act (s : Caller) : Turn → Caller
  | .call call => (s.perform call).2
  | .teardown infos => { s with context := s.context.teardown infos }
  | .cleanup select => { s with context := (s.context.cleanup select).2 }

/-- The caller after some turns, the first one first, in a context without objects that has takers of
notifications. -/
def heard (c : Context) (turns : List Turn) : Caller :=
  turns.foldl act (start { c with notifies := true, events := [] })

/-- The counts are right, and takers of notifications know what is registered. -/
structure Followed (s : Caller) : Prop where
  sound : ∃ forced, s.Sound forced
  abreast : s.context.Abreast

theorem Followed.teardown (h : s.Followed) (infos : List ObjectInfo) :
    ({ s with context := s.context.teardown infos } : Caller).Followed := by
  obtain ⟨forced, hsound⟩ := h.sound
  obtain ⟨⟨forced', hready⟩, hlends, habreast⟩ := hsound.now.teardown hsound.lends h.abreast infos
  exact ⟨⟨forced', .of_ready hready hlends⟩, habreast⟩

/-- Every turn keeps takers of notifications abreast. -/
theorem Followed.act (h : s.Followed) (turn : Turn) : (s.act turn).Followed := by
  cases turn with
  | call call =>
    obtain ⟨forced, hsound⟩ := h.sound
    have hsound' := (hsound.perform call).sound
    exact ⟨⟨forced, hsound'⟩,
      (hsound.perform_tells call).reports.abreast h.abreast hsound'.now.balanced.toIndexed⟩
  | teardown infos => exact h.teardown infos
  | cleanup select =>
    rw [Caller.act, Context.cleanup_eq]
    exact (h.teardown _).teardown _

theorem followed_heard (c : Context) (turns : List Turn) : (heard c turns).Followed := by
  induction turns using List.reverseRecOn with
  | nil => exact ⟨⟨[], sound_start _⟩, rfl, .empty, rfl, fun _ => rfl⟩
  | append_singleton turns turn ih =>
    rw [heard, List.foldl_append]
    exact ih.act turn

/-- A call that fails tells nothing. -/
theorem events_of_failed (c : Context) (turns : List Turn) (call : Call)
    (hfail : ((heard c turns).perform call).1 = false) :
    ((heard c turns).perform call).2.context.events = (heard c turns).context.events := by
  obtain ⟨forced, hsound⟩ := (followed_heard c turns).sound
  exact ((hsound.perform_tells call).quiet hfail).events

/-- Notifications that are replayed give what is listed, whatever was done until then. -/
theorem replay_heard (c : Context) (turns : List Turn) :
    ∃ known, Notification.replay? (heard c turns).context.events = some known ∧
      known.pairs = (heard c turns).context.registry.snapshot.map fun info =>
        (info.id, info.nid, info.kind) := by
  obtain ⟨known, hreplay, hknown⟩ := (followed_heard c turns).abreast.known
  exact ⟨known, hreplay, Registry.pairs_eq_snapshot hknown⟩

/-- An identifier is bound to another object while the first one is still referred to. -/
example : (heard (.fresh "fwd" 0) [.call (.createTable "t0" ⟨[]⟩),
    .call (.build [⟨.lookup "t0", false⟩]), .call (.removeObject "t0"),
    .call (.createCounter "t0" [])]).context.events =
    [.added "t0" 1 .table, .removed "t0" 1, .added "t0" 2 .counter] := by
  decide +kernel

end Caller

end Dataplane

import Dataplane.Registry.Basic
import Mathlib.Data.List.Nodup
import Mathlib.Tactic.SplitIfs

/-!
# The indices of a registry

An identifier leads to a NID and a NID to an object, which has that identifier and that NID. The
NIDs that lead to an object are those that the pool has handed out and did not get back.

## The model

A NID is given back only when the cascade that the cleaning of its object started is over, so in the
middle of a cascade some NIDs still lead to objects that were cleaned up. `Registry.Indexed r l`
says how the two indices, the objects and the pool of `r` fit together while the NIDs in `l` are
still to be given back. Each change that a task or an operation makes has a lemma that it keeps
this.
-/

namespace Dataplane

namespace NidPool

variable {p p' : NidPool} {nid : Nat}

/-- Is a number handed out? -/
def Used (p : NidPool) (nid : Nat) : Prop := nid ≠ 0 ∧ nid < p.next ∧ nid ∉ p.free

/-- The numbers given back are different ones that were handed out before. -/
structure Sound (p : NidPool) : Prop where
  positive : 0 < p.next
  nodup : p.free.Nodup
  bounded : ∀ nid ∈ p.free, nid ≠ 0 ∧ nid < p.next

theorem sound_fresh : fresh.Sound := ⟨Nat.one_pos, .nil, by simp [fresh]⟩

theorem not_used_fresh (nid : Nat) : ¬ fresh.Used nid := by
  simp only [Used, fresh]
  omega

/-- A number that is taken from the pool was not handed out, and it is the only one that is handed
out newly. -/
theorem Sound.take (h : p.Sound) (ht : p.take? = some (nid, p')) :
    ¬ p.Used nid ∧ p'.Sound ∧ ∀ m, p'.Used m ↔ p.Used m ∨ m = nid := by
  obtain ⟨next, free⟩ := p
  cases free with
  | cons n rest =>
    obtain ⟨rfl, rfl⟩ : n = nid ∧ (⟨next, rest⟩ : NidPool) = p' := by simpa [take?] using ht
    have hn : n ∉ rest ∧ rest.Nodup := List.nodup_cons.1 h.nodup
    have hlt := h.bounded n List.mem_cons_self
    refine ⟨fun hu => hu.2.2 List.mem_cons_self,
      ⟨h.positive, hn.2, fun m hm => h.bounded m (List.mem_cons_of_mem _ hm)⟩, fun m => ?_⟩
    by_cases hm : m = n
    · subst hm
      simp [Used, hn.1, hlt.1, hlt.2]
    · simp [Used, hm]
  | nil =>
    rw [take?] at ht
    split_ifs at ht
    obtain ⟨rfl, rfl⟩ : next = nid ∧ (⟨next + 1, []⟩ : NidPool) = p' := by simpa using ht
    have hpos : 0 < next := h.positive
    refine ⟨fun hu => absurd hu.2.1 (Nat.lt_irrefl _), ⟨Nat.succ_pos _, .nil, by simp⟩, fun m => ?_⟩
    simp only [Used, List.not_mem_nil, not_false_eq_true, and_true]
    omega

/-- A number that is given back is the only one that is no longer handed out. -/
theorem Sound.give (h : p.Sound) (hu : p.Used nid) :
    (p.give nid).Sound ∧ ∀ m, (p.give nid).Used m ↔ p.Used m ∧ m ≠ nid := by
  obtain ⟨hne, hlt, hfree⟩ := hu
  rw [NidPool.give, if_neg hne]
  refine ⟨⟨h.positive, List.nodup_cons.2 ⟨hfree, h.nodup⟩, ?_⟩, fun m => ?_⟩
  · rintro m hm
    rcases List.mem_cons.1 hm with rfl | hm
    · exact ⟨hne, hlt⟩
    · exact h.bounded m hm
  · simp only [Used, List.mem_cons, not_or]
    tauto

end NidPool

/-- Have two objects the same identity, and was neither cleaned up or were both? -/
structure Registered.Alike {β : Type} (o o' : Registered β) : Prop where
  id : o'.id = o.id
  nid : o'.nid = o.nid
  cleaned : o'.cleaned = o.cleaned

theorem Registered.Alike.refl {β : Type} (o : Registered β) : o.Alike o := ⟨rfl, rfl, rfl⟩

namespace Registry

variable {β : Type} {r : Registry β} {i j : Nat} {o : Registered β}

theorem get?_modify (r : Registry β) (i j : Nat) (f : Registered β → Registered β) :
    (r.modify i f).get? j = (r.get? j).map fun o => if i = j then f o else o := by
  simp only [get?, modify, List.getElem?_modify]
  cases r.objects[j]? with
  | none => rfl
  | some o => by_cases h : i = j <;> simp [h]

theorem get?_modify_self (f : Registered β → Registered β) (h : r.get? i = some o) :
    (r.modify i f).get? i = some (f o) := by
  simp [get?_modify, h]

theorem get?_modify_of_ne (f : Registered β → Registered β) (h : j ≠ i) :
    (r.modify i f).get? j = r.get? j := by
  rw [get?_modify]
  cases r.get? j <;> simp [h.symm]

/-- An object of a registry in which one was changed comes from one before. -/
theorem get?_modify_eq_some {f : Registered β → Registered β}
    (h : (r.modify i f).get? j = some o) :
    ∃ o', r.get? j = some o' ∧ o = if i = j then f o' else o' := by
  rw [get?_modify, Option.map_eq_some_iff] at h
  obtain ⟨o', ho', rfl⟩ := h
  exact ⟨o', ho', rfl⟩

/-- It is the changed object, or another one that is as it was. -/
theorem get?_modify_cases {f : Registered β → Registered β} {o' : Registered β}
    (ho : r.get? i = some o) (h : (r.modify i f).get? j = some o') :
    j = i ∧ o' = f o ∨ j ≠ i ∧ r.get? j = some o' := by
  by_cases hj : j = i
  · subst hj
    rw [get?_modify_self f ho] at h
    exact .inl ⟨rfl, (Option.some.inj h).symm⟩
  · exact .inr ⟨hj, get?_modify_of_ne f hj ▸ h⟩

/-- What is so of an object and itself, and of one and what it is changed to, is so all over. -/
theorem rel_modify {R : Registered β → Registered β → Prop} (hrefl : ∀ o, R o o)
    {f : Registered β → Registered β} (hf : ∀ o, r.get? i = some o → R o (f o)) (j : Nat) :
    Option.Rel R (r.get? j) ((r.modify i f).get? j) := by
  rw [get?_modify]
  cases ho : r.get? j with
  | none => exact .none
  | some o =>
    refine .some ?_
    split_ifs with hij
    · exact hf o (hij ▸ ho)
    · exact hrefl o

theorem get?_mapBodies (r : Registry β) (f : β → β) (j : Nat) :
    (r.mapBodies f).get? j = (r.get? j).map fun o => { o with body := f o.body } :=
  List.getElem?_map

/-- What is so of an object and of it with its body changed is so all over. -/
theorem rel_mapBodies {R : Registered β → Registered β → Prop} {f : β → β}
    (hf : ∀ o, R o { o with body := f o.body }) (j : Nat) :
    Option.Rel R (r.get? j) ((r.mapBodies f).get? j) := by
  rw [get?_mapBodies]
  cases r.get? j with
  | none => exact .none
  | some o => exact .some (hf o)

theorem lt_length_of_get? (h : r.get? i = some o) : i < r.objects.length :=
  (List.getElem?_eq_some_iff.1 h).1

/-- An object of a registry with one more is the new one or was there before. -/
theorem get?_concat {r' : Registry β} {new : Registered β} (h : r'.objects = r.objects ++ [new])
    (ho : r'.get? j = some o) : r.get? j = some o ∨ j = r.objects.length ∧ o = new := by
  rw [get?, h] at ho
  rcases Nat.lt_trichotomy j r.objects.length with hj | rfl | hj
  · rw [List.getElem?_append_left hj] at ho
    exact .inl ho
  · exact .inr ⟨rfl, by simpa using ho.symm⟩
  · rw [List.getElem?_eq_none (by simp; omega)] at ho
    cases ho

theorem serialOf?_eq_some_iff {id : String} :
    r.serialOf? id = some i ↔ ∃ nid, r.ids.get? id = some nid ∧ r.nids.get? nid = some i := by
  simp [serialOf?, Option.bind_eq_some_iff]

/-- The indices, the objects and the pool fit together while some NIDs are to be given back. -/
structure Indexed (r : Registry β) (retiring : List Nat) : Prop where
  /-- A NID leads to an object that has it. -/
  owner : ∀ {nid i}, r.nids.get? nid = some i → ∃ o, r.get? i = some o ∧ o.nid = nid
  /-- An object that was not cleaned up is found by its NID. -/
  live : ∀ {i o}, r.get? i = some o → o.cleaned = false → r.nids.get? o.nid = some i
  /-- An identifier leads to an object that has it and was not cleaned up. -/
  named : ∀ {id nid}, r.ids.get? id = some nid →
    ∃ i o, r.nids.get? nid = some i ∧ r.get? i = some o ∧ o.id = id ∧ o.cleaned = false
  /-- A NID that is to be given back leads to an object that was cleaned up. -/
  leaving : ∀ {nid}, nid ∈ retiring →
    ∃ i o, r.nids.get? nid = some i ∧ r.get? i = some o ∧ o.cleaned = true
  /-- The NID of an object that was cleaned up and is still found by it is to be given back. -/
  retired : ∀ {i o}, r.get? i = some o → o.cleaned = true → r.nids.get? o.nid = some i →
    o.nid ∈ retiring
  /-- No NID is given back twice. -/
  once : retiring.Nodup
  /-- The NIDs that lead somewhere are those that were handed out. -/
  used : ∀ nid, (r.nids.get? nid).isSome ↔ r.pool.Used nid
  /-- The pool is sound. -/
  pool : r.pool.Sound

theorem indexed_empty : (empty : Registry β).Indexed [] where
  owner h := by simp [empty] at h
  live h := by simp [empty, get?] at h
  named h := by simp [empty] at h
  leaving h := by simp at h
  retired h := by simp [empty, get?] at h
  once := .nil
  used nid := by simp [empty, NidPool.not_used_fresh]
  pool := NidPool.sound_fresh

namespace Indexed

variable {retiring : List Nat}

/-- An identifier leads to the object that has it. -/
theorem get?_of_serialOf? (h : r.Indexed retiring) {id : String} (hid : r.serialOf? id = some i) :
    ∃ o, r.get? i = some o ∧ o.id = id ∧ o.cleaned = false := by
  obtain ⟨nid, hnid, hi⟩ := serialOf?_eq_some_iff.1 hid
  obtain ⟨i', o, hi', ho, hoid, hc⟩ := h.named hnid
  obtain rfl : i' = i := by simpa [hi'] using hi
  exact ⟨o, ho, hoid, hc⟩

/-- The NIDs that identifiers lead to are not among those to be given back. -/
theorem ne_of_named (h : r.Indexed retiring) {id : String} {nid nid' : Nat}
    (hid : r.ids.get? id = some nid) (hret : nid' ∈ retiring) : nid ≠ nid' := by
  rintro rfl
  obtain ⟨i, o, hi, ho, -, hc⟩ := h.named hid
  obtain ⟨i', o', hi', ho', hc'⟩ := h.leaving hret
  obtain rfl : i' = i := by simpa [hi'] using hi
  obtain rfl : o' = o := by simpa [ho'] using ho
  simp [hc] at hc'

/-- Whether an object is live says only whether it was cleaned up. -/
theorem isLive_eq (h : r.Indexed retiring) (ho : r.get? i = some o) :
    r.isLive i o = !o.cleaned := by
  cases hc : o.cleaned with
  | true => simp [isLive, hc]
  | false => simp [isLive, hc, h.live ho hc]

/-- Changes that leave the objects their identities and clean none of them up. -/
theorem of_alike {r' : Registry β} (h : r.Indexed retiring)
    (hobjects : ∀ j, Option.Rel Registered.Alike (r.get? j) (r'.get? j)) (hids : r'.ids = r.ids)
    (hnids : r'.nids = r.nids) (hpool : r'.pool = r.pool) : r'.Indexed retiring := by
  have hget {j : Nat} {o : Registered β} (ho : r.get? j = some o) :
      ∃ o', r'.get? j = some o' ∧ o.Alike o' := by
    have hj := hobjects j
    rw [ho] at hj
    generalize r'.get? j = y at hj
    cases hj with
    | some halike => exact ⟨_, rfl, halike⟩
  have hback {j : Nat} {o' : Registered β} (ho' : r'.get? j = some o') :
      ∃ o, r.get? j = some o ∧ o.Alike o' := by
    have hj := hobjects j
    rw [ho'] at hj
    generalize r.get? j = y at hj
    cases hj with
    | some halike => exact ⟨_, rfl, halike⟩
  constructor
  case owner =>
    intro nid j hj
    obtain ⟨o, ho, hnid⟩ := h.owner (hnids ▸ hj)
    obtain ⟨o', ho', halike⟩ := hget ho
    exact ⟨o', ho', halike.nid.trans hnid⟩
  case live =>
    intro j o' ho' hc
    obtain ⟨o, ho, halike⟩ := hback ho'
    rw [hnids, halike.nid]
    exact h.live ho (halike.cleaned ▸ hc)
  case named =>
    intro id nid hid
    obtain ⟨j, o, hj, ho, hoid, hc⟩ := h.named (hids ▸ hid)
    obtain ⟨o', ho', halike⟩ := hget ho
    exact ⟨j, o', hnids ▸ hj, ho', halike.id.trans hoid, halike.cleaned.trans hc⟩
  case leaving =>
    intro nid hnid
    obtain ⟨j, o, hj, ho, hc⟩ := h.leaving hnid
    obtain ⟨o', ho', halike⟩ := hget ho
    exact ⟨j, o', hnids ▸ hj, ho', halike.cleaned.trans hc⟩
  case retired =>
    intro j o' ho' hc hj
    obtain ⟨o, ho, halike⟩ := hback ho'
    rw [hnids, halike.nid] at hj
    rw [halike.nid]
    exact h.retired ho (halike.cleaned ▸ hc) hj
  case once => exact h.once
  case used =>
    intro nid
    rw [hnids, hpool]
    exact h.used nid
  case pool => exact hpool ▸ h.pool

/-- A change that leaves an object its identity and does not clean it up. -/
theorem modify (h : r.Indexed retiring) {f : Registered β → Registered β}
    (hf : ∀ o, r.get? i = some o → o.Alike (f o)) : (r.modify i f).Indexed retiring :=
  h.of_alike (rel_modify .refl hf) rfl rfl rfl

/-- Cleaning up an object that no identifier leads to. Its NID is to be given back. -/
theorem cleanUp [Composite β] (h : r.Indexed retiring) (ho : r.get? i = some o) (hc : o.cleaned = false)
    (hid : r.serialOf? o.id ≠ some i) : (r.modify i cleanedUp).Indexed (o.nid :: retiring) := by
  have hi := get?_modify_self cleanedUp ho
  have hlive := h.live ho hc
  constructor
  case owner =>
    intro nid j hj
    obtain ⟨o', ho', hnid⟩ := h.owner hj
    by_cases hji : j = i
    · subst hji
      obtain rfl : o' = o := by simpa [ho'] using ho
      exact ⟨_, hi, hnid⟩
    · exact ⟨o', by rw [get?_modify_of_ne _ hji, ho'], hnid⟩
  case live =>
    intro j o' ho' hc'
    rcases get?_modify_cases ho ho' with ⟨-, rfl⟩ | ⟨-, ho'⟩
    · cases hc'
    · exact h.live ho' hc'
  case named =>
    intro id nid hnid
    obtain ⟨j, o', hj, ho', hoid, hc'⟩ := h.named hnid
    have hji : j ≠ i := by
      rintro rfl
      obtain rfl : o' = o := by simpa [ho'] using ho
      exact hid (serialOf?_eq_some_iff.2 ⟨nid, hoid ▸ hnid, hj⟩)
    exact ⟨j, o', hj, by rw [get?_modify_of_ne _ hji, ho'], hoid, hc'⟩
  case leaving =>
    intro nid hnid
    rcases List.mem_cons.1 hnid with rfl | hnid
    · exact ⟨i, _, hlive, hi, rfl⟩
    · obtain ⟨j, o', hj, ho', hc'⟩ := h.leaving hnid
      by_cases hji : j = i
      · subst hji
        exact ⟨j, _, hj, hi, rfl⟩
      · exact ⟨j, o', hj, by rw [get?_modify_of_ne _ hji, ho'], hc'⟩
  case retired =>
    intro j o' ho' hc' hj
    rcases get?_modify_cases ho ho' with ⟨-, rfl⟩ | ⟨-, ho'⟩
    · exact List.mem_cons_self
    · exact List.mem_cons_of_mem _ (h.retired ho' hc' hj)
  case once =>
    refine List.nodup_cons.2 ⟨fun hmem => ?_, h.once⟩
    obtain ⟨j, o', hj, ho', hc'⟩ := h.leaving hmem
    obtain rfl : j = i := by simpa [hj] using hlive
    obtain rfl : o' = o := by simpa [ho'] using ho
    simp [hc] at hc'
  case used => exact h.used
  case pool => exact h.pool

/-- Giving a NID back. -/
theorem retire {nid : Nat} (h : r.Indexed (nid :: retiring)) :
    ({ r with nids := r.nids.erase nid, pool := r.pool.give nid } : Registry β).Indexed retiring ∧
      ∀ id, ({ r with nids := r.nids.erase nid, pool := r.pool.give nid } : Registry β).serialOf? id
        = r.serialOf? id := by
  obtain ⟨hnot, honce⟩ := List.nodup_cons.1 h.once
  obtain ⟨i, o, hi, ho, hc⟩ := h.leaving List.mem_cons_self
  obtain ⟨hpool, hused⟩ := h.pool.give ((h.used nid).1 (by simp [hi]))
  have hkeep {m : Nat} (hm : m ≠ nid) : (r.nids.erase nid).get? m = r.nids.get? m :=
    r.nids.get?_erase_of_ne hm
  have hback {m j : Nat} (hj : (r.nids.erase nid).get? m = some j) :
      m ≠ nid ∧ r.nids.get? m = some j := by
    have hm : m ≠ nid := by
      rintro rfl
      simp at hj
    exact ⟨hm, hkeep hm ▸ hj⟩
  have hnamed {id : String} {m : Nat} (hid : r.ids.get? id = some m) : m ≠ nid :=
    h.ne_of_named hid List.mem_cons_self
  refine ⟨⟨fun hj => h.owner (hback hj).2, fun {j o'} ho' hc' => ?_, fun {id m} hid => ?_,
    fun {m} hm => ?_, fun {j o'} ho' hc' hj => ?_, honce, fun m => ?_, hpool⟩, fun id => ?_⟩
  · have hj := h.live ho' hc'
    have hne : o'.nid ≠ nid := by
      intro heq
      obtain rfl : i = j := by simpa [heq, hi] using hj
      obtain rfl : o' = o := by simpa using ho'.symm.trans ho
      simp [hc] at hc'
    exact (hkeep hne).trans hj
  · obtain ⟨j, o', hj, hrest⟩ := h.named hid
    exact ⟨j, o', (hkeep (hnamed hid)).trans hj, hrest⟩
  · obtain ⟨j, o', hj, hrest⟩ := h.leaving (List.mem_cons_of_mem _ hm)
    have hne : m ≠ nid := by
      rintro rfl
      exact hnot hm
    exact ⟨j, o', (hkeep hne).trans hj, hrest⟩
  · obtain ⟨hne, hj⟩ := hback hj
    exact List.mem_of_ne_of_mem hne (h.retired ho' hc' hj)
  · rw [hused]
    by_cases hm : m = nid
    · simp [hm]
    · simp only [hkeep hm, h.used, ne_eq, hm, not_false_eq_true, and_true]
  · simp only [serialOf?]
    cases hid : r.ids.get? id with
    | none => rfl
    | some m => exact hkeep (hnamed hid)

/-- Registering an object under a new identifier. -/
theorem insert (h : r.Indexed retiring) {id : String} {nid : Nat} {body : β} {r' : Registry β}
    (hins : r.insert id body = .ok (nid, r')) :
    r'.Indexed retiring ∧ r'.objects = r.objects ++ [⟨id, nid, 1, 0, false, body⟩] ∧
      r.serialOf? id = none ∧ r'.serialOf? id = some r.objects.length ∧
      ∀ id', id' ≠ id → r'.serialOf? id' = r.serialOf? id' := by
  rw [Registry.insert] at hins
  split_ifs at hins with hhas
  split at hins
  · cases hins
  rename_i nid' pool htake
  cases hins
  obtain ⟨hunused, hpool, hused⟩ := h.pool.take htake
  have hid : r.ids.get? id = none := by simpa [SortedMap.has_eq_isSome] using hhas
  have hnid : r.nids.get? nid = none := by simpa using (h.used nid).not.2 hunused
  have hkeep {m : Nat} {j : Nat} (hj : r.nids.get? m = some j) : m ≠ nid := by
    rintro rfl
    simp [hnid] at hj
  have hold {j : Nat} {o : Registered β} (ho : r.get? j = some o) :
      (r.objects ++ [⟨id, nid, 1, 0, false, body⟩])[j]? = some o := by
    rw [List.getElem?_append_left (lt_length_of_get? ho)]
    exact ho
  have hback {j : Nat} {o : Registered β}
      (ho : (r.objects ++ [⟨id, nid, 1, 0, false, body⟩])[j]? = some o) :
      r.get? j = some o ∨ j = r.objects.length ∧ o = ⟨id, nid, 1, 0, false, body⟩ := by
    have hnew : (⟨_, r.ids, r.nids, r.pool⟩ : Registry β).get? j = some o := ho
    exact get?_concat rfl hnew
  refine ⟨?_, rfl, by simp [serialOf?, hid], by simp [serialOf?], fun id' hne => ?_⟩
  · constructor
    case owner =>
      intro m j hj
      by_cases hm : m = nid
      · subst hm
        obtain rfl : r.objects.length = j := by simpa using hj
        exact ⟨⟨id, m, 1, 0, false, body⟩, by simp [get?], rfl⟩
      · rw [SortedMap.get?_insert_of_ne _ _ hm] at hj
        obtain ⟨o, ho, hrest⟩ := h.owner hj
        exact ⟨o, hold ho, hrest⟩
    case live =>
      intro j o ho hc
      rcases hback ho with ho | ⟨rfl, rfl⟩
      · have hj := h.live ho hc
        exact (SortedMap.get?_insert_of_ne _ _ (hkeep hj)).trans hj
      · simp
    case named =>
      intro id' m hm
      by_cases hne : id' = id
      · subst hne
        obtain rfl : nid = m := by simpa using hm
        exact ⟨r.objects.length, ⟨id', nid, 1, 0, false, body⟩, by simp, by simp [get?], rfl, rfl⟩
      · rw [SortedMap.get?_insert_of_ne _ _ hne] at hm
        obtain ⟨j, o, hj, ho, hrest⟩ := h.named hm
        exact ⟨j, o, (SortedMap.get?_insert_of_ne _ _ (hkeep hj)).trans hj, hold ho, hrest⟩
    case leaving =>
      intro m hm
      obtain ⟨j, o, hj, ho, hrest⟩ := h.leaving hm
      exact ⟨j, o, (SortedMap.get?_insert_of_ne _ _ (hkeep hj)).trans hj, hold ho, hrest⟩
    case retired =>
      intro j o ho hc hj
      rcases hback ho with ho | ⟨-, rfl⟩
      · by_cases hm : o.nid = nid
        · obtain rfl : r.objects.length = j := by simpa [hm] using hj
          exact absurd (lt_length_of_get? ho) (Nat.lt_irrefl _)
        · rw [SortedMap.get?_insert_of_ne _ _ hm] at hj
          exact h.retired ho hc hj
      · cases hc
    case once => exact h.once
    case used =>
      intro m
      rw [hused]
      by_cases hm : m = nid
      · simp [hm]
      · rw [SortedMap.get?_insert_of_ne _ _ hm, h.used]
        simp [hm]
    case pool => exact hpool
  · simp only [serialOf?, SortedMap.get?_insert_of_ne _ _ hne]
    cases hid' : r.ids.get? id' with
    | none => rfl
    | some m =>
      obtain ⟨j, o, hj, -⟩ := h.named hid'
      exact SortedMap.get?_insert_of_ne _ _ (hkeep hj)

/-- Taking an identifier out of its index. -/
theorem erase (h : r.Indexed retiring) (id : String) :
    ({ r with ids := r.ids.erase id } : Registry β).Indexed retiring := by
  refine ⟨h.owner, h.live, fun {id' nid} hid => ?_, h.leaving, h.retired, h.once, h.used, h.pool⟩
  have hne : id' ≠ id := by
    rintro rfl
    simp at hid
  exact h.named (SortedMap.get?_erase_of_ne _ hne ▸ hid)

end Indexed

end Registry

end Dataplane

import Dataplane.Json.Record
import Mathlib.Data.List.Nodup
import Mathlib.Data.List.Count

/-!
# Leaving out defaults

Some members of a record in JSON have a default: without such a member the record is read as if the
default stood there. So what is written may be trimmed, member by member and at any depth.

## The model

A `Place` is what a JSON value stands for in a configuration. `Place.default?` gives the members that
have a default, with its JSON form, and `Place.within?` what a member stands for in turn.
`Trims p j j'` says that `j'` is `j` with some members left out, each of which had the value that is
its default; elements of lists and members that stay may be trimmed themselves.

`ReadsAs q f j a` says that the reader `f` gives `a` for `j`, whatever is trimmed off `j` as something
at the place `q`. A record is read from its members one by one: those that may not be left out are
`needed`, the others `defaulted`.
-/

namespace Dataplane

/-- What a JSON value stands for. -/
inductive Place where
  /-- A record whose members are all there. -/
  | fixed
  /-- An action, tagged with its variant. -/
  | action
  /-- An action with its flag. -/
  | listed
  /-- The content of a variant of an action. -/
  | transmit | mirror | reparse | select | custom
  | update
  /-- A table and the content of its only variant. -/
  | table | tableContent
  /-- A table entry and the content of its only variant. -/
  | entry | entryContent
  | port
  | list (elem : Place)

namespace Place

/-- What a member stands for, if there is something inside it that may be left out. -/
def within? : Place → String → Option Place
  | listed, "action" => some action
  | action, "Transmit" => some transmit
  | action, "Mirror" => some mirror
  | action, "Reparse" => some reparse
  | action, "SelectActionList" => some select
  | action, "Custom" => some custom
  | action, "Update" => some update
  | action, _ => some fixed
  | mirror, "actions" => some (list listed)
  | select, "lists" => some (list (list listed))
  | table, "Action" => some tableContent
  | tableContent, "default_actions" => some (list listed)
  | entry, "Action" => some entryContent
  | entryContent, "actions" => some (list listed)
  | port, "actions" => some (list listed)
  | _, _ => none

/-- The default of a member that has one. -/
def default? : Place → String → Option Json
  | listed, "on_evaluate" => some (.bool false)
  | transmit, "immediate" => some (.bool false)
  | mirror, "port" => some .null
  | mirror, "actions" => some (.arr [])
  | mirror, "fields" => some (.arr [])
  | reparse, "fields" => some (.arr [])
  | reparse, "prepend" => some (.arr [])
  | custom, "args" => some (.obj [])
  | update, "value" => some (.arr [])
  | update, "src" => some .null
  | update, "bit_offset" => some (.nat 0)
  | update, "bit_count" => some (.nat 0)
  | tableContent, "default_actions" => some (.arr [])
  | entryContent, "position" => some (.str "Tail")
  | _, _ => none

end Place

mutual

/-- Members that have their defaults are left out, at any depth. -/
inductive Trims : Place → Json → Json → Prop where
  | same {p j} : Trims p j j
  | elems {p es es'} : TrimsElems p es es' → Trims (.list p) (.arr es) (.arr es')
  | members {p ms ms'} : TrimsMembers p ms ms' → Trims p (.obj ms) (.obj ms')

/-- Elements are trimmed one by one. -/
inductive TrimsElems : Place → List Json → List Json → Prop where
  | nil {p} : TrimsElems p [] []
  | cons {p e e' es es'} : Trims p e e' → TrimsElems p es es' → TrimsElems p (e :: es) (e' :: es')

/-- Members are left out, kept as they are or trimmed. -/
inductive TrimsMembers : Place → List (String × Json) → List (String × Json) → Prop where
  | nil {p} : TrimsMembers p [] []
  | leave {p name v ms ms'} : p.default? name = some v → TrimsMembers p ms ms' →
    TrimsMembers p ((name, v) :: ms) ms'
  | keep {p m ms ms'} : TrimsMembers p ms ms' → TrimsMembers p (m :: ms) (m :: ms')
  | within {p name q v v' ms ms'} : p.within? name = some q → Trims q v v' →
    TrimsMembers p ms ms' → TrimsMembers p ((name, v) :: ms) ((name, v') :: ms')

end

namespace Json

variable {α : Type} {ms : List (String × Json)} {name : String} {v : Json}

/-! ### Looking members up -/

/-- The value of the first member with a name. -/
def lookup (ms : List (String × Json)) (name : String) : Option Json :=
  (ms.find? (·.1 = name)).map (·.2)

theorem lookup_cons_self (name : String) (v : Json) (ms : List (String × Json)) :
    lookup ((name, v) :: ms) name = some v := by
  simp [lookup]

theorem lookup_cons_of_ne {name' : String} (v : Json) (ms : List (String × Json))
    (h : name' ≠ name) : lookup ((name', v) :: ms) name = lookup ms name := by
  simp [lookup, h]

theorem lookup_eq_none (h : name ∉ ms.map Prod.fst) : lookup ms name = none := by
  rw [lookup, List.find?_eq_none.2, Option.map_none]
  rintro m hm hname
  exact h (List.mem_map.2 ⟨m, hm, by simpa using hname⟩)

/-- The members of an object are listed as they are, each with the fact that it is smaller. -/
theorem members?_obj (ms : List (String × Json)) :
    ∃ l, (obj ms).members? = some l ∧ l.map (fun m => (m.1, m.2.1)) = ms := by
  refine ⟨_, rfl, ?_⟩
  rw [List.map_map]
  exact List.attach_map_subtype_val ms

/-- The elements of an array are listed as they are, each with the fact that it is smaller. -/
theorem elems?_arr (es : List Json) :
    ∃ l, (arr es).elems? = some l ∧ l.map (·.1) = es := by
  refine ⟨_, rfl, ?_⟩
  rw [List.map_map]
  exact List.attach_map_subtype_val es

theorem map_member? (ms : List (String × Json)) (name : String) :
    ((obj ms).member? name).map (·.1) = lookup ms name := by
  obtain ⟨l, hl, hmap⟩ := members?_obj ms
  simp [member?, hl, lookup, ← hmap, List.find?_map, Function.comp_def]

/-- The elements of an array are read one by one. -/
theorem elems?_mapM (f : Json → Option α) (es : List Json) :
    ((arr es).elems? >>= fun l => l.mapM fun v => f v.1) = es.mapM f := by
  obtain ⟨l, hl, hmap⟩ := elems?_arr es
  simp [hl, ← hmap]

/-- A member that has to be there is read off the object. -/
theorem needed_member? {f : Json → Option α} (h : lookup ms name = some v) :
    needed (fun w => f w.1) ((obj ms).member? name) = f v := by
  rw [← map_member?] at h
  obtain ⟨w, hw, rfl⟩ := Option.map_eq_some_iff.1 h
  rw [hw, needed]

/-- A member that is not there is taken for its default. -/
theorem defaulted_member? {f : Json → Option α} {dflt : α} :
    defaulted dflt (fun w => f w.1) ((obj ms).member? name) =
      (lookup ms name).elim (some dflt) f := by
  rw [← map_member?]
  cases (obj ms).member? name <;> rfl

/-! ### The fields of an object -/

theorem fields?_obj (names : List String) (h : (ms.map Prod.fst).Nodup) :
    (obj ms).fields? names = some (names.map (obj ms).member?) := by
  have hcount : ∀ name ∈ names, ms.countP (·.1 = name) ≤ 1 := by
    intro name _
    have hle := List.nodup_iff_count_le_one.1 h name
    simpa [List.count, List.countP_map, Function.comp_def, beq_eq_decide] using hle
  simp only [fields?]
  rw [if_pos]
  simpa using hcount

theorem record?_obj (names : List String) (h : (ms.map Prod.fst).Nodup) :
    (obj ms).record? names = some (names.map (obj ms).member?) :=
  fields?_obj names h

theorem content?_obj (o : Origin) (names : List String) (h : (ms.map Prod.fst).Nodup) :
    (obj ms).content? o names = some (names.map (obj ms).member?) := by
  cases o with
  | value => exact fields?_obj names h
  | text => exact record?_obj names h

theorem sizeOf_lt_tagged (name : String) (c : Json) : sizeOf c < sizeOf (tagged name c) := by
  simp [tagged]
  omega

/-- A tagged value is the variant of its tag. -/
theorem variant?_tagged (name : String) (c : Json) :
    (tagged name c).variant? = some (name, some ⟨c, sizeOf_lt_tagged name c⟩) :=
  rfl

end Json

/-! ### What is left of a record -/

theorem TrimsMembers.refl (p : Place) (ms : List (String × Json)) : TrimsMembers p ms ms := by
  induction ms with
  | nil => exact .nil
  | cons m ms ih => exact .keep ih

theorem TrimsElems.refl (p : Place) (es : List Json) : TrimsElems p es es := by
  induction es with
  | nil => exact .nil
  | cons e es ih => exact .cons .same ih

/-- Nothing is left out of a record whose members are all there. -/
theorem TrimsMembers.eq_of_fixed {ms ms' : List (String × Json)}
    (h : TrimsMembers .fixed ms ms') : ms' = ms := by
  induction ms generalizing ms' with
  | nil => cases h; rfl
  | cons m ms ih =>
    cases h with
    | leave hdflt _ => cases hdflt
    | keep h => rw [ih h]
    | within hq _ _ => cases hq

/-- No member is put in. -/
theorem TrimsMembers.names {p : Place} {ms ms' : List (String × Json)} (h : TrimsMembers p ms ms') :
    (ms'.map Prod.fst).Sublist (ms.map Prod.fst) := by
  induction ms generalizing ms' with
  | nil => cases h; exact .slnil
  | cons m ms ih =>
    cases h with
    | leave _ h => exact (ih h).cons _
    | keep h => exact (ih h).cons_cons _
    | within _ _ h => exact (ih h).cons_cons _

/-- A record whose members have different names, and what is left of it. -/
structure Record (p : Place) (ms ms' : List (String × Json)) : Prop where
  nodup : (ms.map Prod.fst).Nodup
  trims : TrimsMembers p ms ms'

/-- The reader gives a value, whatever is trimmed off its JSON form as something at the place. -/
def ReadsAs {α : Type} (q : Option Place) (f : Json → Option α) (j : Json) (a : α) : Prop :=
  f j = some a ∧ ∀ p, q = some p → ∀ j', Trims p j j' → f j' = some a

namespace Record

variable {α : Type} {p : Place} {ms ms' : List (String × Json)} {name : String} {v : Json}

theorem nodup_left (h : Record p ms ms') : (ms'.map Prod.fst).Nodup := h.trims.names.nodup h.nodup

/-- A member is there as it was or trimmed, or it had its default and is not there. -/
theorem lookup (h : Record p ms ms') (hv : Json.lookup ms name = some v) :
    (Json.lookup ms' name = none ∧ p.default? name = some v) ∨
      ∃ v', Json.lookup ms' name = some v' ∧
        (v' = v ∨ ∃ q, p.within? name = some q ∧ Trims q v v') := by
  obtain ⟨hnodup, htrims⟩ := h
  induction ms generalizing ms' with
  | nil => simp [Json.lookup] at hv
  | cons m ms ih =>
    obtain ⟨hm, hms⟩ := List.nodup_cons.1 hnodup
    obtain ⟨n, w⟩ := m
    by_cases hn : n = name
    · subst hn
      obtain rfl : w = v := by simpa [Json.lookup] using hv
      cases htrims with
      | leave hdflt h => exact .inl ⟨Json.lookup_eq_none fun hmem => hm (h.names.mem hmem), hdflt⟩
      | keep h => exact .inr ⟨w, Json.lookup_cons_self .., .inl rfl⟩
      | within hq hw h => exact .inr ⟨_, Json.lookup_cons_self .., .inr ⟨_, hq, hw⟩⟩
    · rw [Json.lookup_cons_of_ne w ms hn] at hv
      cases htrims with
      | leave _ h => exact ih hv hms h
      | keep h => rw [Json.lookup_cons_of_ne _ _ hn]; exact ih hv hms h
      | within _ _ h => rw [Json.lookup_cons_of_ne _ _ hn]; exact ih hv hms h

/-- What is left of a member is read as the member was. -/
theorem read_left {f : Json → Option α} {a : α} {v' : Json}
    (hread : ReadsAs (p.within? name) f v a)
    (h : v' = v ∨ ∃ q, p.within? name = some q ∧ Trims q v v') : f v' = some a := by
  obtain rfl | ⟨q, hq, htrims⟩ := h
  · exact hread.1
  · exact hread.2 q hq v' htrims

/-- A member without a default is read. -/
theorem needed {f : Json → Option α} {a : α} (h : Record p ms ms') (name : String)
    (hv : Json.lookup ms name = some v) (hdflt : p.default? name = none)
    (hread : ReadsAs (p.within? name) f v a) :
    Json.needed (fun w => f w.1) ((Json.obj ms').member? name) = some a := by
  obtain ⟨-, hleave⟩ | ⟨v', hv', hleft⟩ := h.lookup hv
  · rw [hdflt] at hleave
    cases hleave
  · rw [Json.needed_member? hv']
    exact read_left hread hleft

/-- A member with a default is read, or it is not there and its value was the default. -/
theorem defaulted {f : Json → Option α} {a dflt : α} {d : Json} (h : Record p ms ms')
    (name : String) (hv : Json.lookup ms name = some v) (hd : p.default? name = some d)
    (hdflt : v = d → a = dflt) (hread : ReadsAs (p.within? name) f v a) :
    Json.defaulted dflt (fun w => f w.1) ((Json.obj ms').member? name) = some a := by
  rw [Json.defaulted_member?]
  obtain ⟨hv', hleave⟩ | ⟨v', hv', hleft⟩ := h.lookup hv
  · have hvd : v = d := Option.some.inj (hleave.symm.trans hd)
    rw [hv', Option.elim, hdflt hvd]
  · rw [hv', Option.elim]
    exact read_left hread hleft

end Record

/-! ### Reading what is left -/

namespace ReadsAs

variable {α : Type} {p q : Place} {f : Json → Option α} {a : α}

/-- A value in which nothing may be left out is read as it is. -/
theorem whole {j : Json} (h : f j = some a) : ReadsAs none f j a := ⟨h, by simp⟩

/-- Nothing may be left out of a text. -/
theorem str {s : String} (h : f (.str s) = some a) : ReadsAs (some p) f (.str s) a := by
  refine ⟨h, ?_⟩
  rintro _ ⟨⟩ j' htrims
  cases htrims
  exact h

/-- A record is read from what is left of it. -/
theorem record {ms : List (String × Json)} (hnodup : (ms.map Prod.fst).Nodup)
    (h : ∀ ms', Record p ms ms' → f (.obj ms') = some a) : ReadsAs (some p) f (.obj ms) a := by
  have hsame : f (.obj ms) = some a := h ms ⟨hnodup, .refl p ms⟩
  refine ⟨hsame, ?_⟩
  rintro _ ⟨⟩ j' htrims
  cases htrims with
  | same => exact hsame
  | members htrims => exact h _ ⟨hnodup, htrims⟩

/-- A record whose members are all there is read as it is. -/
theorem fixed {ms : List (String × Json)} (h : f (.obj ms) = some a) :
    ReadsAs (some .fixed) f (.obj ms) a := by
  refine ⟨h, ?_⟩
  rintro _ ⟨⟩ j' htrims
  cases htrims with
  | same => exact h
  | members htrims => rwa [htrims.eq_of_fixed]

/-- A variant is read from what is left of the record that is its content. -/
theorem tagged {tag : String} {ms : List (String × Json)} (hnodup : (ms.map Prod.fst).Nodup)
    (hdflt : p.default? tag = none) (hq : p.within? tag = some q)
    (h : ∀ ms', Record q ms ms' → f (Json.tagged tag (.obj ms')) = some a) :
    ReadsAs (some p) f (Json.tagged tag (.obj ms)) a := by
  refine record (by simp) fun ms' hrecord => ?_
  cases hrecord.trims with
  | leave hleave _ =>
    rw [hdflt] at hleave
    cases hleave
  | keep hrest =>
    cases hrest
    exact h ms ⟨hnodup, .refl q ms⟩
  | within hwithin htrims hrest =>
    cases hrest
    obtain rfl : q = _ := Option.some.inj (hq.symm.trans hwithin)
    cases htrims with
    | same => exact h ms ⟨hnodup, .refl q ms⟩
    | members htrims => exact h _ ⟨hnodup, htrims⟩

/-- A list is read from what is left of its elements. -/
theorem elems {es : List Json} (h : ∀ es', TrimsElems p es es' → f (.arr es') = some a) :
    ReadsAs (some (.list p)) f (.arr es) a := by
  have hsame : f (.arr es) = some a := h es (.refl p es)
  refine ⟨hsame, ?_⟩
  rintro _ ⟨⟩ j' htrims
  cases htrims with
  | same => exact hsame
  | elems htrims => exact h _ htrims

end ReadsAs

end Dataplane

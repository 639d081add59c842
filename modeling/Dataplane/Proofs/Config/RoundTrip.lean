import Dataplane.Config.Decode
import Dataplane.Config.Encode
import Dataplane.Proofs.Config.Trimming

/-!
# Configurations are read as they were written

What is written for a configuration is read as the same configuration, and it stays so when members
are left out that have their defaults.

## The model

The readers and writers of the leaves (numbers, names, byte strings, maps of texts and of counters)
are inverse to each other. From there `ReadsAs` is carried up: through field identifiers and updates,
then by induction on actions and the lists inside them, and at last to tables, entries and ports.
-/

namespace Dataplane

open Json (needed defaulted optionOf? listOf? tagged)

/-! ### Numbers -/

theorem natBelow?_nat {n bound : Nat} (h : n < bound) : (Json.nat n).natBelow? bound = some n := by
  simp [Json.nat, Json.natBelow?, h]

theorem wordOfJson?_nat (n : UInt16) : wordOfJson? (.nat n.toNat) = some n := by
  simp [wordOfJson?, natBelow?_nat n.toNat_lt]

theorem eq_zero_of_nat {n : UInt16} (h : Json.nat n.toNat = .nat 0) : n = 0 := by
  have hn : n.toNat = 0 := by simpa [Json.nat] using h
  exact UInt16.toNat_inj.1 hn

theorem longOfJson?_nat (n : UInt64) : longOfJson? (.nat n.toNat) = some n := by
  simp [longOfJson?, natBelow?_nat n.toNat_lt]

theorem Instance.ofJson?_nat (i : Instance) : Instance.ofJson? (.nat i.val.toNat) = some i := by
  simp [Instance.ofJson?, natBelow?_nat i.val.toNat_lt]

/-! ### Lists -/

/-- A list is read when each of its elements is. -/
theorem mapM_map_some {α β : Type} {f : β → Option α} {g : α → β} (h : ∀ a, f (g a) = some a)
    (l : List α) : (l.map g).mapM f = some l := by
  induction l with
  | nil => rfl
  | cons a l ih => simp [h, ih]

theorem listOf?_ofList {α : Type} {f : Json → Option α} {g : α → Json} (h : ∀ a, f (g a) = some a)
    (l : List α) : listOf? f (Json.ofList g l) = some l :=
  mapM_map_some h l

theorem Bytes.ofJson?_toJson (b : Bytes) : Bytes.ofJson? b.toJson = some b :=
  listOf?_ofList (fun d => by simp [natBelow?_nat d.toNat_lt]) b

theorem ofList_eq_arr_nil {α : Type} {g : α → Json} {l : List α} (h : Json.ofList g l = .arr []) :
    l = [] := by
  simpa [Json.ofList] using h

/-! ### Options -/

section Option

variable {α : Type} {f : Json → Option α} {g : α → Json}

theorem optionOf?_ofOption (hnull : ∀ a, g a ≠ .null) (h : ∀ a, f (g a) = some a) (x : Option α) :
    optionOf? f (Json.ofOption g x) = some x := by
  cases x with
  | none => rfl
  | some a =>
    have hsome : optionOf? f (g a) = (f (g a)).map some := by
      unfold optionOf?
      split
      · rename_i heq
        exact absurd heq (hnull a)
      · rfl
    rw [Json.ofOption, hsome, h, Option.map_some]

theorem ofOption_eq_null (hnull : ∀ a, g a ≠ .null) {x : Option α} (h : Json.ofOption g x = .null) :
    x = none := by
  cases x with
  | none => rfl
  | some a => exact absurd h (hnull a)

end Option

/-! ### Members of finite types -/

/-- A member that is the one of its name is read by it. -/
theorem member_ofMember {α : Type} [BEq α] [Enumerated α] {a : α}
    (h : Enumerated.ofName? (Enumerated.name a) = some a) :
    (Json.ofMember a).member = some a := by
  simp [Json.ofMember, Json.member, Json.variant?, Json.isUnit, h]

theorem HeaderKind.member_ofMember (k : HeaderKind) : (Json.ofMember k).member = some k :=
  Dataplane.member_ofMember (by cases k <;> rfl)

theorem HeaderGroup.member_ofMember (g : HeaderGroup) : (Json.ofMember g).member = some g :=
  Dataplane.member_ofMember (by cases g <;> rfl)

theorem FieldNum.member_ofMember (num : FieldNum) : (Json.ofMember num).member = some num :=
  Dataplane.member_ofMember (by cases num <;> rfl)

theorem UpdateOp.member_ofMember (op : UpdateOp) : (Json.ofMember op).member = some op :=
  Dataplane.member_ofMember (by cases op <;> rfl)

theorem SelectAlgo.member_ofMember (algo : SelectAlgo) : (Json.ofMember algo).member = some algo :=
  Dataplane.member_ofMember (by cases algo <;> rfl)

theorem Position.member_ofMember (p : Position) : (Json.ofMember p).member = some p :=
  Dataplane.member_ofMember (by cases p <;> rfl)

theorem Position.eq_tail_of_ofMember {p : Position} (h : Json.ofMember p = .str "Tail") :
    p = .tail := by
  cases p with
  | head => simp [Json.ofMember, Enumerated.name] at h
  | tail => rfl

theorem Direction.member_ofMember (d : Direction) : (Json.ofMember d).member = some d :=
  Dataplane.member_ofMember (by cases d <;> rfl)

theorem CounterId.ofName?_name (id : CounterId) :
    Enumerated.ofName? (Enumerated.name id) = some id := by
  obtain ⟨event, unit⟩ := id
  cases event <;> cases unit <;> rfl

/-! ### Maps -/

namespace SortedMap

variable {κ ν : Type} [KeyOrder κ] [DecidableEq κ]

/-- A pair whose key comes after all others is put in last. -/
theorem insertPair_of_before {k : κ} {v : ν} {l : List (κ × ν)}
    (h : ∀ p ∈ l, KeyOrder.before p.1 k = true) : insertPair k v l = l ++ [(k, v)] := by
  induction l with
  | nil => rfl
  | cons p rest ih =>
    obtain ⟨hp, hrest⟩ := List.forall_mem_cons.1 h
    have hafter : KeyOrder.before k p.1 = false := by
      rw [Bool.eq_false_iff]
      intro hkp
      have := KeyOrder.trans _ _ _ hp hkp
      rw [KeyOrder.irrefl] at this
      cases this
    have hne : k ≠ p.1 := by
      rintro rfl
      rw [KeyOrder.irrefl] at hp
      cases hp
    simp [insertPair, hafter, hne, ih hrest]

/-- The pairs of a map, put in one after the other behind those that are there, are all there in the
end. -/
theorem pairs_foldl_insert (l : List (κ × ν)) (m : SortedMap κ ν)
    (h : (m.pairs ++ l).Pairwise fun p q => KeyOrder.before p.1 q.1 = true) :
    (l.foldl (fun m p => m.insert p.1 p.2) m).pairs = m.pairs ++ l := by
  induction l generalizing m with
  | nil => simp
  | cons p l ih =>
    have hinsert : (m.insert p.1 p.2).pairs = m.pairs ++ [p] :=
      insertPair_of_before fun q hq => (List.pairwise_append.1 h).2.2 q hq p List.mem_cons_self
    rw [List.foldl_cons, ih, hinsert, List.append_assoc, List.singleton_append]
    rwa [hinsert, List.append_assoc, List.singleton_append]

/-- A map is that of its pairs. -/
theorem ofList_pairs (m : SortedMap κ ν) : ofList m.pairs = m :=
  eq_of_pairs_eq (pairs_foldl_insert m.pairs empty m.sorted)

end SortedMap

theorem mapM_texts (l : List (String × String)) :
    (l.map fun (k, v) => (k, Json.str v)).mapM
      (fun q : String × Json => q.2.str?.map (q.1, ·)) = some l := by
  refine mapM_map_some ?_ l
  rintro ⟨k, v⟩
  rfl

theorem textsOfJson?_textsToJson (m : SortedMap String String) :
    textsOfJson? (textsToJson m) = some m := by
  rw [textsToJson, textsOfJson?, mapM_texts]
  exact congrArg some m.ofList_pairs

theorem eq_empty_of_textsToJson {m : SortedMap String String} (h : textsToJson m = .obj []) :
    m = .empty :=
  SortedMap.eq_of_pairs_eq (by simpa [textsToJson, SortedMap.empty] using h)

/-! ### Field identifiers and updates -/

theorem FieldId.ofJson?_toJson (o : Json.Origin) (i : FieldId) :
    FieldId.ofJson? o i.toJson = some i := by
  cases i with
  | field num i =>
    have h : Record .fixed [("num", Json.ofMember num), ("instance", .nat i.val.toNat)] _ :=
      ⟨by simp, .refl _ _⟩
    have hnum := h.needed "num" rfl rfl (.whole num.member_ofMember)
    have hinst := h.needed "instance" rfl rfl (.whole i.ofJson?_nat)
    rw [toJson, ofJson?, Json.variant?_tagged, Option.bind_eq_bind, Option.bind_some]
    simp [Json.content?_obj, hnum, hinst]
  | udf g offset size i =>
    have h : Record .fixed [("group", Json.ofMember g), ("offset", .nat offset.toNat),
        ("size", .nat size.toNat), ("instance", .nat i.val.toNat)] _ := ⟨by simp, .refl _ _⟩
    have hgroup := h.needed "group" rfl rfl (.whole g.member_ofMember)
    have hoffset := h.needed "offset" rfl rfl (.whole (wordOfJson?_nat offset))
    have hsize := h.needed "size" rfl rfl (.whole (wordOfJson?_nat size))
    have hinst := h.needed "instance" rfl rfl (.whole i.ofJson?_nat)
    rw [toJson, ofJson?, Json.variant?_tagged, Option.bind_eq_bind, Option.bind_some]
    simp [Json.content?_obj, hgroup, hoffset, hsize, hinst]

theorem FieldId.toJson_ne_null (i : FieldId) : i.toJson ≠ .null := by
  cases i <;> simp [toJson, tagged]

theorem UpdateConfig.reads (o : Json.Origin) (u : UpdateConfig) :
    ReadsAs (some .update) (UpdateConfig.ofJson? o) u.toJson u := by
  refine .record (by simp) fun ms' h => ?_
  have hfield := h.needed "field" rfl rfl (.whole (u.field.ofJson?_toJson o))
  have hop := h.needed "op" rfl rfl (.whole u.op.member_ofMember)
  have hvalue := h.defaulted "value" rfl rfl ofList_eq_arr_nil (.whole u.value.ofJson?_toJson)
  have hsrc := h.defaulted "src" rfl rfl (ofOption_eq_null FieldId.toJson_ne_null)
    (.whole (optionOf?_ofOption FieldId.toJson_ne_null (FieldId.ofJson?_toJson o) u.src))
  have hoffset := h.defaulted "bit_offset" rfl rfl eq_zero_of_nat
    (.whole (wordOfJson?_nat u.bitOffset))
  have hcount := h.defaulted "bit_count" rfl rfl eq_zero_of_nat
    (.whole (wordOfJson?_nat u.bitCount))
  simp [ofJson?, Json.record?_obj _ h.nodup_left, hfield, hop, hvalue, hsrc, hoffset, hcount]

/-! ### Actions -/

theorem eq_nil_of_listedToJson {l : List ListedConfig}
    (h : Json.arr (listedToJson l) = .arr []) : l = [] := by
  cases l with
  | nil => rfl
  | cons a l => simp [listedToJson] at h

theorem listedOfJson?_arr (o : Json.Origin) (es : List Json) :
    listedOfJson? o (.arr es) = es.mapM (Flagged.ofJson? o) := by
  rw [listedOfJson?]
  exact Json.elems?_mapM (Flagged.ofJson? o) es

theorem listsOfJson?_arr (o : Json.Origin) (es : List Json) :
    listsOfJson? o (.arr es) = es.mapM (listedOfJson? o) := by
  rw [listsOfJson?]
  exact Json.elems?_mapM (listedOfJson? o) es

/-! Each variant is read from its content; where there are lists of actions in it, as these are. -/

namespace ActionConfig

theorem reads_decap (o : Json.Origin) (k : HeaderKind) :
    ReadsAs (some .action) (ofJson? o) (decap k).toJson (decap k) := by
  refine .tagged (by simp) rfl rfl fun ms' h => ?_
  have hheader := h.needed "header" rfl rfl (.whole k.member_ofMember)
  rw [ofJson?, Json.variant?_tagged, Option.bind_eq_bind, Option.bind_some]
  simp [Json.content?_obj _ _ h.nodup_left, hheader]

theorem reads_encap (o : Json.Origin) (k : HeaderKind) :
    ReadsAs (some .action) (ofJson? o) (encap k).toJson (encap k) := by
  refine .tagged (by simp) rfl rfl fun ms' h => ?_
  have hheader := h.needed "header" rfl rfl (.whole k.member_ofMember)
  rw [ofJson?, Json.variant?_tagged, Option.bind_eq_bind, Option.bind_some]
  simp [Json.content?_obj _ _ h.nodup_left, hheader]

theorem reads_transmit (o : Json.Origin) (port : String) (immediate : Bool) :
    ReadsAs (some .action) (ofJson? o) (transmit port immediate).toJson
      (transmit port immediate) := by
  refine .tagged (by simp) rfl rfl fun ms' h => ?_
  have hport := h.needed "port" rfl rfl (f := Json.str?) (.whole rfl)
  have himmediate := h.defaulted "immediate" rfl rfl (f := Json.bool?)
    (fun hfalse => by simpa using hfalse) (.whole rfl)
  rw [ofJson?, Json.variant?_tagged, Option.bind_eq_bind, Option.bind_some]
  simp [Json.content?_obj _ _ h.nodup_left, hport, himmediate]

theorem reads_lookup (o : Json.Origin) (table : String) :
    ReadsAs (some .action) (ofJson? o) (lookup table).toJson (lookup table) := by
  refine .tagged (by simp) rfl rfl fun ms' h => ?_
  have htable := h.needed "table" rfl rfl (f := Json.str?) (.whole rfl)
  rw [ofJson?, Json.variant?_tagged, Option.bind_eq_bind, Option.bind_some]
  simp [Json.content?_obj _ _ h.nodup_left, htable]

theorem reads_mirror (o : Json.Origin) (port : Option String) {actions : List ListedConfig}
    (fields : List FieldId)
    (hlist : ReadsAs (some (.list .listed)) (listedOfJson? o) (.arr (listedToJson actions))
      actions) :
    ReadsAs (some .action) (ofJson? o) (mirror port actions fields).toJson
      (mirror port actions fields) := by
  refine .tagged (by simp) rfl rfl fun ms' h => ?_
  have hport := h.defaulted "port" rfl rfl (ofOption_eq_null (by simp))
    (.whole (optionOf?_ofOption (f := Json.str?) (by simp) (fun _ => rfl) port))
  have hactions := h.defaulted "actions" rfl rfl eq_nil_of_listedToJson hlist
  have hfields := h.defaulted "fields" rfl rfl ofList_eq_arr_nil
    (.whole (listOf?_ofList (FieldId.ofJson?_toJson o) fields))
  rw [ofJson?, Json.variant?_tagged, Option.bind_eq_bind, Option.bind_some]
  simp [Json.content?_obj _ _ h.nodup_left, hport, hactions, hfields]

theorem reads_ratelimit (o : Json.Origin) (rate burst : UInt64) :
    ReadsAs (some .action) (ofJson? o) (ratelimit rate burst).toJson (ratelimit rate burst) := by
  refine .tagged (by simp) rfl rfl fun ms' h => ?_
  have hrate := h.needed "rate" rfl rfl (.whole (longOfJson?_nat rate))
  have hburst := h.needed "burst" rfl rfl (.whole (longOfJson?_nat burst))
  rw [ofJson?, Json.variant?_tagged, Option.bind_eq_bind, Option.bind_some]
  simp [Json.content?_obj _ _ h.nodup_left, hrate, hburst]

theorem reads_reparse (o : Json.Origin) (k : HeaderKind) (fields : List FieldId) (front : Bytes) :
    ReadsAs (some .action) (ofJson? o) (reparse k fields front).toJson
      (reparse k fields front) := by
  refine .tagged (by simp) rfl rfl fun ms' h => ?_
  have hheader := h.needed "header" rfl rfl (.whole k.member_ofMember)
  have hfields := h.defaulted "fields" rfl rfl ofList_eq_arr_nil
    (.whole (listOf?_ofList (FieldId.ofJson?_toJson o) fields))
  have hfront := h.defaulted "prepend" rfl rfl ofList_eq_arr_nil (.whole front.ofJson?_toJson)
  rw [ofJson?, Json.variant?_tagged, Option.bind_eq_bind, Option.bind_some]
  simp [Json.content?_obj _ _ h.nodup_left, hheader, hfields, hfront]

theorem reads_select (o : Json.Origin) (fields : List FieldId) (algo : SelectAlgo)
    {lists : List (List ListedConfig)}
    (hall : ReadsAs (some (.list (.list .listed))) (listsOfJson? o) (.arr (listsToJson lists))
      lists) :
    ReadsAs (some .action) (ofJson? o) (select fields algo lists).toJson
      (select fields algo lists) := by
  refine .tagged (by simp) rfl rfl fun ms' h => ?_
  have hfields := h.needed "fields" rfl rfl
    (.whole (listOf?_ofList (FieldId.ofJson?_toJson o) fields))
  have halgo := h.needed "algo" rfl rfl (.whole algo.member_ofMember)
  have hlists := h.needed "lists" rfl rfl hall
  rw [ofJson?, Json.variant?_tagged, Option.bind_eq_bind, Option.bind_some]
  simp [Json.content?_obj _ _ h.nodup_left, hfields, halgo, hlists]

theorem reads_update (o : Json.Origin) (u : UpdateConfig) :
    ReadsAs (some .action) (ofJson? o) (update u).toJson (update u) := by
  refine .tagged (by simp) rfl rfl fun ms' h => ?_
  have hupdate := (u.reads o).2 _ rfl _ (.members h.trims)
  rw [ofJson?, Json.variant?_tagged, Option.bind_eq_bind, Option.bind_some]
  simp [hupdate]

theorem reads_flowCounter (o : Json.Origin) (counter : String) :
    ReadsAs (some .action) (ofJson? o) (flowCounter counter).toJson (flowCounter counter) := by
  refine .tagged (by simp) rfl rfl fun ms' h => ?_
  have hcounter := h.needed "counter" rfl rfl (f := Json.str?) (.whole rfl)
  rw [ofJson?, Json.variant?_tagged, Option.bind_eq_bind, Option.bind_some]
  simp [Json.content?_obj _ _ h.nodup_left, hcounter]

theorem reads_custom (o : Json.Origin) (kind : String) (args : SortedMap String String) :
    ReadsAs (some .action) (ofJson? o) (custom kind args).toJson (custom kind args) := by
  refine .tagged (by simp) rfl rfl fun ms' h => ?_
  have hkind := h.needed "kind" rfl rfl (f := Json.str?) (.whole rfl)
  have hargs := h.defaulted "args" rfl rfl eq_empty_of_textsToJson
    (.whole (textsOfJson?_textsToJson args))
  rw [ofJson?, Json.variant?_tagged, Option.bind_eq_bind, Option.bind_some]
  simp [Json.content?_obj _ _ h.nodup_left, hkind, hargs]

end ActionConfig

mutual

theorem ActionConfig.reads (o : Json.Origin) : (a : ActionConfig) →
    ReadsAs (some .action) (ActionConfig.ofJson? o) a.toJson a
  | .proceed | .drop | .debug | .evaluate | .output | .swapOutput =>
    .str (by rw [ActionConfig.ofJson?]; rfl)
  | .decap k => ActionConfig.reads_decap o k
  | .encap k => ActionConfig.reads_encap o k
  | .transmit port immediate => ActionConfig.reads_transmit o port immediate
  | .lookup table => ActionConfig.reads_lookup o table
  | .mirror port actions fields =>
    ActionConfig.reads_mirror o port fields (.elems (listed_reads o actions))
  | .ratelimit rate burst => ActionConfig.reads_ratelimit o rate burst
  | .reparse k fields front => ActionConfig.reads_reparse o k fields front
  | .select fields algo lists =>
    ActionConfig.reads_select o fields algo (.elems (lists_reads o lists))
  | .update u => ActionConfig.reads_update o u
  | .flowCounter counter => ActionConfig.reads_flowCounter o counter
  | .custom kind args => ActionConfig.reads_custom o kind args

theorem Flagged.reads (o : Json.Origin) : (a : ListedConfig) →
    ReadsAs (some .listed) (Flagged.ofJson? o) a.toJson a
  | ⟨action, onEvaluate⟩ => by
    refine .record (by simp) fun ms' h => ?_
    have haction := h.needed "action" rfl rfl (action.reads o)
    have hflag := h.defaulted "on_evaluate" rfl rfl (f := Json.bool?)
      (fun hfalse => by simpa using hfalse) (.whole rfl)
    rw [Flagged.ofJson?]
    simp [Json.record?_obj _ h.nodup_left, haction, hflag]

theorem listed_reads (o : Json.Origin) : (l : List ListedConfig) → (es : List Json) →
    TrimsElems .listed (listedToJson l) es → listedOfJson? o (.arr es) = some l
  | [], es, h => by
    cases h
    rw [listedOfJson?_arr]
    rfl
  | a :: l, es, h => by
    cases h with
    | cons ha hl =>
      have hhead := (a.reads o).2 _ rfl _ ha
      have htail := listed_reads o l _ hl
      rw [listedOfJson?_arr] at htail ⊢
      simp [hhead, htail]

theorem lists_reads (o : Json.Origin) : (ls : List (List ListedConfig)) → (es : List Json) →
    TrimsElems (.list .listed) (listsToJson ls) es → listsOfJson? o (.arr es) = some ls
  | [], es, h => by
    cases h
    rw [listsOfJson?_arr]
    rfl
  | l :: ls, es, h => by
    cases h with
    | cons hl hls =>
      have hhead := (ReadsAs.elems (listed_reads o l)).2 _ rfl _ hl
      have htail := lists_reads o ls _ hls
      rw [listsOfJson?_arr] at htail ⊢
      simp [hhead, htail]

end

/-! ### Tables, entries and ports -/

theorem TableConfig.reads (o : Json.Origin) (t : TableConfig) :
    ReadsAs (some .table) (TableConfig.decode? o) t.toJson t := by
  refine .tagged (by simp) rfl rfl fun ms' h => ?_
  have hactions := h.defaulted "default_actions" rfl rfl eq_nil_of_listedToJson
    (.elems (listed_reads o t.defaultActions))
  simp [decode?, tagged, Json.variant?, Json.content?_obj _ _ h.nodup_left, hactions]

theorem EntryConfig.reads (o : Json.Origin) (e : EntryConfig) :
    ReadsAs (some .entry) (EntryConfig.decode? o) e.toJson e := by
  refine .tagged (by simp) rfl rfl fun ms' h => ?_
  have hactions := h.needed "actions" rfl rfl (.elems (listed_reads o e.actions))
  have hposition := h.defaulted "position" rfl rfl Position.eq_tail_of_ofMember
    (.whole e.position.member_ofMember)
  simp [decode?, tagged, Json.variant?, Json.content?_obj _ _ h.nodup_left, hactions, hposition]

theorem PortConfig.reads (o : Json.Origin) (p : PortConfig) :
    ReadsAs (some .port) (PortConfig.decode? o) p.toJson p := by
  refine .record (by simp) fun ms' h => ?_
  have hdir := h.needed "dir" rfl rfl (.whole p.dir.member_ofMember)
  have hactions := h.needed "actions" rfl rfl (.elems (listed_reads o p.actions))
  simp [decode?, Json.record?_obj _ h.nodup_left, hdir, hactions]

theorem PortQuery.reads (q : PortQuery) : ReadsAs (some .fixed) PortQuery.ofJson? q.toJson q := by
  refine .record (by simp) fun ms' h => ?_
  have hcounters := h.needed "counters" rfl rfl (f := Json.bool?) (.whole rfl)
  simp [ofJson?, Json.record?_obj _ h.nodup_left, hcounters]

theorem countersOfJson?_pairs (c : Counters) :
    countersOfJson? (.obj (c.pairs.map fun (id, v) => (Enumerated.name id, .nat v.toNat))) =
      some c := by
  have hpairs : (c.pairs.map fun (id, v) => (Enumerated.name id, Json.nat v.toNat)).mapM
      (fun m : String × Json => do
        return ((← Enumerated.ofName? m.1 : CounterId), ← longOfJson? m.2)) = some c.pairs :=
    mapM_map_some (g := fun (id, v) => (Enumerated.name id, Json.nat v.toNat))
      (fun p => by simp [CounterId.ofName?_name, longOfJson?_nat]) c.pairs
  rw [countersOfJson?, hpairs]
  exact congrArg some (SortedMap.ofList_pairs c)

theorem PortReport.reads (r : PortReport) :
    ReadsAs (some .fixed) PortReport.ofJson? r.toJson r := by
  refine .record (by simp) fun ms' h => ?_
  have hid := h.needed "id" rfl rfl (f := Json.str?) (.whole rfl)
  have hnid := h.needed "nid" rfl rfl (.whole (longOfJson?_nat r.nid))
  have hrx := h.needed "rx_actions" rfl rfl (.whole (longOfJson?_nat r.rxActions))
  have htx := h.needed "tx_actions" rfl rfl (.whole (longOfJson?_nat r.txActions))
  have hcounters := h.needed "counters" rfl rfl (.whole (countersOfJson?_pairs r.counters))
  simp [ofJson?, Json.record?_obj _ h.nodup_left, hid, hnid, hrx, htx, hcounters]

theorem FieldId.reads (o : Json.Origin) (i : FieldId) :
    ReadsAs (some .fixed) (FieldId.ofJson? o) i.toJson i := by
  have hi := i.ofJson?_toJson o
  cases i <;> exact .fixed hi

end Dataplane

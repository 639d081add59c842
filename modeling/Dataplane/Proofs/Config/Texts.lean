import Dataplane.Proofs.Config.RoundTrip
import Dataplane.Proofs.Json.Text

/-!
# Configurations are read from their text

What is written for a configuration, trimmed or not, is read from its text as the same
configuration, as long as arrays and objects nest no deeper than texts may. A configuration may nest
deeper, and then its text is written but cannot be read: 32 mirror actions inside each other are
enough.

## The model

What is written for a configuration is plain, and so is what is trimmed off it, so its text stands
for it unless that is cut.
-/

namespace Dataplane

open Json (IsPlain IsPlainElems IsPlainMembers tagged)

/-! ### What is written is plain -/

namespace Json

theorem isPlainElems_map {α : Type} {f : α → Json} (h : ∀ a, (f a).IsPlain) (l : List α) :
    IsPlainElems (l.map f) := by
  induction l with
  | nil => trivial
  | cons a l ih => exact ⟨h a, ih⟩

theorem isPlainMembers_map {α : Type} {f : α → String × Json} (h : ∀ a, (f a).2.IsPlain)
    (l : List α) : IsPlainMembers (l.map f) := by
  induction l with
  | nil => trivial
  | cons a l ih => exact ⟨h a, ih⟩

theorem isPlain_nat (n : Nat) : (nat n).IsPlain := trivial

theorem isPlain_ofOption {α : Type} {f : α → Json} (h : ∀ a, (f a).IsPlain) (x : Option α) :
    (ofOption f x).IsPlain := by
  cases x with
  | none => trivial
  | some a => exact h a

theorem isPlain_ofList {α : Type} {f : α → Json} (h : ∀ a, (f a).IsPlain) (l : List α) :
    (ofList f l).IsPlain := isPlainElems_map h l

end Json

mutual

/-- What is trimmed stays plain. -/
theorem Trims.isPlain {p : Place} {j j' : Json} : Trims p j j' → j.IsPlain → j'.IsPlain
  | .same, h => h
  | .elems htrims, h => TrimsElems.isPlain htrims h
  | .members htrims, h => TrimsMembers.isPlain htrims h

theorem TrimsElems.isPlain {p : Place} {es es' : List Json} :
    TrimsElems p es es' → IsPlainElems es → IsPlainElems es'
  | .nil, _ => trivial
  | .cons he hes, h => ⟨he.isPlain h.1, hes.isPlain h.2⟩

theorem TrimsMembers.isPlain {p : Place} {ms ms' : List (String × Json)} :
    TrimsMembers p ms ms' → IsPlainMembers ms → IsPlainMembers ms'
  | .nil, _ => trivial
  | .leave _ hms, h => hms.isPlain h.2
  | .keep hms, h => ⟨h.1, hms.isPlain h.2⟩
  | .within _ hv hms, h => ⟨hv.isPlain h.1, hms.isPlain h.2⟩

end

theorem Bytes.isPlain_toJson (b : Bytes) : b.toJson.IsPlain :=
  Json.isPlain_ofList (fun _ => Json.isPlain_nat _) b

theorem FieldId.isPlain_toJson (i : FieldId) : i.toJson.IsPlain := by
  cases i with
  | field num i => exact ⟨⟨trivial, trivial, trivial⟩, trivial⟩
  | udf g offset size i => exact ⟨⟨trivial, trivial, trivial, trivial, trivial⟩, trivial⟩

theorem UpdateConfig.isPlain_toJson (u : UpdateConfig) : u.toJson.IsPlain :=
  ⟨u.field.isPlain_toJson, trivial, u.value.isPlain_toJson,
    Json.isPlain_ofOption FieldId.isPlain_toJson u.src, trivial, trivial, trivial⟩

theorem isPlain_fields (fields : List FieldId) : (Json.ofList FieldId.toJson fields).IsPlain :=
  Json.isPlain_ofList FieldId.isPlain_toJson fields

mutual

theorem ActionConfig.isPlain_toJson : (a : ActionConfig) → a.toJson.IsPlain
  | .proceed | .drop | .debug | .evaluate | .output | .swapOutput => trivial
  | .decap _ | .encap _ | .lookup _ | .flowCounter _ => ⟨⟨trivial, trivial⟩, trivial⟩
  | .transmit _ _ | .ratelimit _ _ => ⟨⟨trivial, trivial, trivial⟩, trivial⟩
  | .mirror port actions fields =>
    ⟨⟨Json.isPlain_ofOption (f := .str) (fun _ => trivial) port, isPlain_listedToJson actions,
      isPlain_fields fields, trivial⟩, trivial⟩
  | .reparse _ fields front =>
    ⟨⟨trivial, isPlain_fields fields, front.isPlain_toJson, trivial⟩, trivial⟩
  | .select fields _ lists =>
    ⟨⟨isPlain_fields fields, trivial, isPlain_listsToJson lists, trivial⟩, trivial⟩
  | .update u => ⟨u.isPlain_toJson, trivial⟩
  | .custom _ args =>
    ⟨⟨trivial, Json.isPlainMembers_map (fun (_, _) => trivial) args.pairs, trivial⟩, trivial⟩

theorem Flagged.isPlain_toJson : (a : ListedConfig) → a.toJson.IsPlain
  | ⟨action, _⟩ => ⟨action.isPlain_toJson, trivial, trivial⟩

theorem isPlain_listedToJson : (l : List ListedConfig) → IsPlainElems (listedToJson l)
  | [] => trivial
  | a :: l => ⟨a.isPlain_toJson, isPlain_listedToJson l⟩

theorem isPlain_listsToJson : (ls : List (List ListedConfig)) → IsPlainElems (listsToJson ls)
  | [] => trivial
  | l :: ls => ⟨isPlain_listedToJson l, isPlain_listsToJson ls⟩

end

theorem TableConfig.isPlain_toJson (t : TableConfig) : t.toJson.IsPlain :=
  ⟨⟨isPlain_listedToJson t.defaultActions, trivial⟩, trivial⟩

theorem EntryConfig.isPlain_toJson (e : EntryConfig) : e.toJson.IsPlain :=
  ⟨⟨isPlain_listedToJson e.actions, trivial, trivial⟩, trivial⟩

theorem PortConfig.isPlain_toJson (p : PortConfig) : p.toJson.IsPlain :=
  ⟨trivial, isPlain_listedToJson p.actions, trivial⟩

theorem PortQuery.isPlain_toJson (q : PortQuery) : q.toJson.IsPlain := ⟨trivial, trivial⟩

theorem PortReport.isPlain_toJson (r : PortReport) : r.toJson.IsPlain :=
  ⟨trivial, trivial, trivial, trivial,
    Json.isPlainMembers_map (fun (_, _) => trivial) r.counters.pairs, trivial⟩

/-! ### Round trips -/

/-- The reader gives back what the writer wrote, also when members that have their defaults are left
out: from the value wherever that comes from, and from its text if that nests no deeper than texts
may. -/
def RoundTrips {α : Type} (p : Place) (write : α → Json)
    (read : Json.Origin → Json → Option α) : Prop :=
  ∀ a j, Trims p (write a) j → (∀ o, read o j = some a) ∧
    (j.nesting ≤ Json.maxNesting → (Json.ofText? j.text >>= read .text) = some a)

theorem RoundTrips.of_reads {α : Type} {p : Place} {write : α → Json}
    {read : Json.Origin → Json → Option α} (hplain : ∀ a, (write a).IsPlain)
    (h : ∀ o a, ReadsAs (some p) (read o) (write a) a) : RoundTrips p write read := by
  intro a j htrims
  refine ⟨fun o => (h o a).2 p rfl j htrims, fun hnesting => ?_⟩
  rw [Json.ofText?_text (htrims.isPlain (hplain a)), Json.cut_eq_self j hnesting,
    Option.bind_eq_bind, Option.bind_some]
  exact (h .text a).2 p rfl j htrims

/-- Every configuration is read back from its JSON form, and from the text of it unless arrays and
objects nest too deep in that, whichever of the members that have their defaults are left out, at
any depth. -/
theorem configs_roundTrip :
    RoundTrips .action ActionConfig.toJson ActionConfig.ofJson? ∧
    RoundTrips .listed Flagged.toJson Flagged.ofJson? ∧
    RoundTrips .update UpdateConfig.toJson UpdateConfig.ofJson? ∧
    RoundTrips .table TableConfig.toJson TableConfig.decode? ∧
    RoundTrips .entry EntryConfig.toJson EntryConfig.decode? ∧
    RoundTrips .port PortConfig.toJson PortConfig.decode? ∧
    RoundTrips .fixed PortQuery.toJson (fun _ => PortQuery.ofJson?) ∧
    RoundTrips .fixed PortReport.toJson (fun _ => PortReport.ofJson?) ∧
    RoundTrips .fixed FieldId.toJson FieldId.ofJson? := by
  refine ⟨?actions, ?listed, ?updates, ?tables, ?entries, ?ports, ?queries, ?reports, ?fields⟩
  case actions => exact .of_reads ActionConfig.isPlain_toJson ActionConfig.reads
  case listed => exact .of_reads Flagged.isPlain_toJson Flagged.reads
  case updates => exact .of_reads UpdateConfig.isPlain_toJson UpdateConfig.reads
  case tables => exact .of_reads TableConfig.isPlain_toJson TableConfig.reads
  case entries => exact .of_reads EntryConfig.isPlain_toJson EntryConfig.reads
  case ports => exact .of_reads PortConfig.isPlain_toJson PortConfig.reads
  case queries => exact .of_reads PortQuery.isPlain_toJson fun _ => PortQuery.reads
  case reports => exact .of_reads PortReport.isPlain_toJson fun _ => PortReport.reads
  case fields => exact .of_reads FieldId.isPlain_toJson FieldId.reads

/-- The flag of an action and the flag inside it may both be left out when they are not set. -/
example : Trims .listed (Flagged.toJson ⟨.transmit "vif0" false, false⟩)
    (.obj [("action", tagged "Transmit" (.obj [("port", .str "vif0")]))]) :=
  .members (.within rfl (.members (.within rfl (.members (.keep (.leave rfl .nil))) .nil))
    (.leave rfl .nil))

/-! ### Too deep for a text -/

/-- Mirror actions inside each other, and inside the last one an action that drops. -/
def nestedMirrors : (count : Nat) → ActionConfig
  | 0 => .drop
  | count + 1 => .mirror none [⟨nestedMirrors count, false⟩] []

theorem ActionConfig.ofJson?_mirror {o : Json.Origin} {port actions fields : Json}
    (h : listedOfJson? o actions = none) :
    ofJson? o (tagged "Mirror" (.obj [("port", port), ("actions", actions), ("fields", fields)])) =
      none := by
  have hactions : Json.defaulted [] (fun v => listedOfJson? o v.1)
      ((Json.obj [("port", port), ("actions", actions), ("fields", fields)]).member? "actions") =
        none := by
    rw [Json.defaulted_member?]
    exact h
  rw [ofJson?, Json.variant?_tagged, Option.bind_eq_bind, Option.bind_some]
  simp [Json.content?_obj, hactions]

theorem listedOfJson?_single {o : Json.Origin} {e : Json} (h : Flagged.ofJson? o e = none) :
    listedOfJson? o (.arr [e]) = none := by
  rw [listedOfJson?_arr]
  simp [h]

theorem Flagged.ofJson?_of_action {o : Json.Origin} {action onEvaluate : Json}
    (h : ActionConfig.ofJson? o action = none) :
    Flagged.ofJson? o (.obj [("action", action), ("on_evaluate", onEvaluate)]) = none := by
  have haction : Json.needed (fun v => ActionConfig.ofJson? o v.1)
      ((Json.obj [("action", action), ("on_evaluate", onEvaluate)]).member? "action") = none := by
    rw [Json.needed_member? rfl]
    exact h
  rw [Flagged.ofJson?]
  simp [Json.record?_obj, haction]

/-- Mirror actions with a part that nests too deep are not read. -/
theorem nestedMirrors_cut (o : Json.Origin) {count room : Nat} (h : room < 4 * count) :
    ActionConfig.ofJson? o ((nestedMirrors count).toJson.cut room) = none := by
  induction count generalizing room with
  | zero => exact absurd h (Nat.not_lt_zero room)
  | succ count ih =>
    match room with
    | 0 => rw [ActionConfig.ofJson?]; rfl
    | 1 =>
      change ActionConfig.ofJson? o (tagged "Mirror" .spoilt) = none
      rw [ActionConfig.ofJson?, Json.variant?_tagged]
      cases o <;> rfl
    | 2 => exact ActionConfig.ofJson?_mirror (by rw [listedOfJson?]; rfl)
    | 3 => exact ActionConfig.ofJson?_mirror (listedOfJson?_single (by rw [Flagged.ofJson?]; rfl))
    | room + 4 =>
      have hinner := ih (show room < 4 * count by omega)
      exact ActionConfig.ofJson?_mirror (listedOfJson?_single (Flagged.ofJson?_of_action hinner))

theorem nestedMirrors_not_read :
    (Json.ofText? (nestedMirrors 32).toJson.text >>= ActionConfig.ofJson? .text) = none := by
  rw [Json.ofText?_text (nestedMirrors 32).isPlain_toJson]
  exact nestedMirrors_cut .text (by decide)

end Dataplane

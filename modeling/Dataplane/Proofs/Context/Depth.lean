import Dataplane.Context.Build

/-!
# How deep building goes

Lists nest in configurations, and in what the builders of custom actions make of arguments. Building
recurses on the depth that was computed beforehand, and that is enough: with any greater depth to go
the same is built, so building never fails for going too deep.
-/

namespace Dataplane

section Depth

variable {nesting : String → SortedMap String String → Nat}

theorem depth_pos {config : ActionConfig} : 0 < config.depth nesting := by
  cases config <;> exact Nat.succ_pos _

theorem depth_le_of_mem {configs : List ListedConfig} {config : ListedConfig}
    (h : config ∈ configs) : config.action.depth nesting ≤ depthOfList nesting configs := by
  induction configs with
  | nil => cases h
  | cons first rest ih =>
    rcases List.mem_cons.1 h with rfl | h
    · obtain ⟨action, onEvaluate⟩ := config
      exact Nat.le_max_left _ _
    · exact Nat.le_trans (ih h) (Nat.le_max_right _ _)

theorem depthOfList_le_of_mem {lists : List (List ListedConfig)} {configs : List ListedConfig}
    (h : configs ∈ lists) : depthOfList nesting configs ≤ depthOfLists nesting lists := by
  induction lists with
  | nil => cases h
  | cons first rest ih =>
    rcases List.mem_cons.1 h with rfl | h
    · exact Nat.le_max_left _ _
    · exact Nat.le_trans (ih h) (Nat.le_max_right _ _)

end Depth

namespace Build

variable {builders : CustomBuilders} {build build' : ActionConfig → Builder (Option Action)}

/-- What is built of a list depends on what is built of its configurations. -/
theorem list_congr {configs : List ListedConfig}
    (h : ∀ config ∈ configs, build config.action = build' config.action) (done : ActionList) :
    list build done configs = list build' done configs := by
  induction configs generalizing done with
  | nil => rfl
  | cons first rest ih =>
    obtain ⟨hfirst, hrest⟩ := List.forall_mem_cons.1 h
    simp only [list, hfirst, ih hrest]

theorem lists_congr {configs : List (List ListedConfig)}
    (h : ∀ l ∈ configs, ∀ config ∈ l, build config.action = build' config.action)
    (done : List ActionList) : lists build done configs = lists build' done configs := by
  induction configs generalizing done with
  | nil => rfl
  | cons first rest ih =>
    obtain ⟨hfirst, hrest⟩ := List.forall_mem_cons.1 h
    simp only [lists, list_congr hfirst, ih hrest]

/-- What a builder makes of arguments nests less deep than the action it is for. -/
theorem custom_congr {kind : String} {args : SortedMap String String}
    (h : ∀ config : ActionConfig, config.depth builders.nesting ≤ builders.nesting kind args →
      build config = build' config) :
    custom builders build kind args = custom builders build' kind args := by
  unfold custom
  split
  · rename_i builder hfind
    split
    · rename_i plan hplan
      cases plan with
      | jump configs state =>
        have hsame : list build [] configs = list build' [] configs :=
          list_congr (fun config hconfig => h config.action
            (Nat.le_trans (depth_le_of_mem hconfig) (builders.depth_le hfind hplan))) []
        rw [carryOut, carryOut, hsame]
      | _ => rfl
    · rfl
  · rfl

/-- It does not matter how deep building may go, as long as the configuration nests no deeper. -/
theorem action_eq_of_depth_le {fuel fuel' : Nat} {config : ActionConfig}
    (h : config.depth builders.nesting ≤ fuel) (h' : config.depth builders.nesting ≤ fuel') :
    action builders fuel config = action builders fuel' config := by
  induction fuel generalizing fuel' config with
  | zero => exact absurd depth_pos (Nat.not_lt.2 h)
  | succ fuel ih =>
    cases fuel' with
    | zero => exact absurd depth_pos (Nat.not_lt.2 h')
    | succ fuel' =>
      cases config with
      | mirror port actions fields =>
        have hsame : list (action builders fuel) [] actions =
            list (action builders fuel') [] actions := by
          refine list_congr (fun config hconfig => ?_) []
          have hdeep : config.action.depth builders.nesting ≤ _ := depth_le_of_mem hconfig
          simp only [ActionConfig.depth] at h h'
          exact ih (by omega) (by omega)
        simp only [action, hsame]
      | select fields algo configs =>
        have hsame : lists (action builders fuel) [] configs =
            lists (action builders fuel') [] configs := by
          refine lists_congr (fun l hl config hconfig => ?_) []
          have hdeep : config.action.depth builders.nesting ≤ _ := depth_le_of_mem hconfig
          have hlists : depthOfList builders.nesting l ≤ _ := depthOfList_le_of_mem hl
          simp only [ActionConfig.depth] at h h'
          exact ih (by omega) (by omega)
        simp only [action, hsame]
      | custom kind args =>
        have hsame : custom builders (action builders fuel) kind args =
            custom builders (action builders fuel') kind args := by
          refine custom_congr fun config hconfig => ?_
          simp only [ActionConfig.depth] at h h'
          exact ih (by omega) (by omega)
        simp only [action, hsame]
      | _ => rfl

/-- A list is built as if building could go as deep as wished. -/
theorem actions_eq_of_depth_le {configs : List ListedConfig} {c : Context} {fuel : Nat}
    (h : depthOfList c.builders.nesting configs ≤ fuel) :
    actions configs c = list (action c.builders fuel) [] configs c := by
  have hsame : list (action c.builders (depthOfList c.builders.nesting configs)) [] configs =
      list (action c.builders fuel) [] configs :=
    list_congr (fun _ hconfig => action_eq_of_depth_le (depth_le_of_mem hconfig)
      (Nat.le_trans (depth_le_of_mem hconfig) h)) []
  exact congrFun hsame c

end Build

end Dataplane

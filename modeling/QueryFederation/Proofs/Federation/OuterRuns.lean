import QueryFederation.Proofs.Federation.JoinGraph
import QueryFederation.Proofs.Federation.OuterSteps
import QueryFederation.Proofs.Federation.SubDescriptions
import QueryFederation.Proofs.Federation.Transparency

/-!
# Joining tables and joining partitions

A description can be answered by joining its tables one by one, in the columns it mentions, or by joining its
partitions, each of which is answered by joining its own tables and showing the needed columns. Either way the rows show
the maximal combinations for the sets of tables that are filled on this way.
-/

namespace QueryFederation

variable {tables : String → List Row} {joins : List JoinCondition} {columns needed : List ColumnRef}
  {sets : Finset (Finset String)} {placed others : List String}

/-- The rows of some tables, in the given columns. -/
def tableRows (columns : List ColumnRef) (tables : String → List Row) (group : List String) : NamedRows :=
  ⟨(columnsOf columns group).map (·.outputName), (combinations tables group).map (Combination.project (columnsOf columns group))⟩

namespace Description

/-- The columns that a description mentions, each once. -/
def allColumns (d : Description) (aggregates : Aggregates) : List ColumnRef :=
  distinctItems (d.mentionedColumns aggregates)

/-- Rows that come out of joining the tables one by one. -/
def JoinsTables (d : Description) (columns : List ColumnRef) (tables : String → List Row) (rows : List Row) : Prop :=
  ∃ (plan : JoinPlan) (isExpired : Bool) (joined : NamedRows), d.tablePlan? = some plan
    ∧ (plan.execute (tableRows columns tables)).answer isExpired = .ok joined ∧ joined.rows = rows

/-- The sets of tables that can be filled by joining the tables one by one. -/
def tableFills (d : Description) : Finset (Finset String) :=
  (d.tablePlan?.map fun plan => plan.fills fun group => {group.toFinset}).getD ∅

end Description

namespace FederationPlan

/-- Rows that come out of joining the partitions, if those of each come out of joining its tables. -/
def JoinsPartitions (plan : FederationPlan) (d : Description) (columns : List ColumnRef) (tables : String → List Row)
    (rows : List Row) : Prop :=
  ∃ (answers : Partition → List Row) (isExpired : Bool) (joined : NamedRows),
    (∀ p ∈ plan.partitions, ∃ rows, (p.subDescription d).JoinsTables columns tables rows
      ∧ (answers p).Perm (rows.map (Row.project p.outputNames)))
    ∧ (plan.join.execute (rowsOfGroup (plan.partitions.map fun p => (p, answers p)))).answer isExpired = .ok joined
    ∧ joined.rows = rows

/-- The sets of tables that the partition of a group can fill. -/
def partitionFills (plan : FederationPlan) (d : Description) (group : List String) : Finset (Finset String) :=
  ((plan.partitionOf? (group.headD "")).map fun p => (p.subDescription d).tableFills).getD ∅

/-- The sets of tables that can be filled by joining the partitions. -/
def fills (plan : FederationPlan) (d : Description) : Finset (Finset String) := plan.join.fills (plan.partitionFills d)

end FederationPlan

/-! ### Maximal combinations, shown in other ways -/

theorem maximalCombinations_perm (hperm : placed.Perm others) (hnodup : placed.Nodup) :
    (maximalCombinations tables joins sets placed).Perm (maximalCombinations tables joins sets others) := by
  classical
  have hof : ∀ c : PartialCombination, c.IsOf tables placed ↔ c.IsOf tables others := fun c =>
    forall₂_congr fun a row => imp_congr_right fun _ => and_congr_left fun _ => hperm.mem_iff
  have hmaximal : ∀ c : PartialCombination, c.IsMaximal tables joins sets placed ↔ c.IsMaximal tables joins sets others :=
    fun c => ⟨fun ⟨hformed, hmost⟩ => ⟨hformed, fun c' hc' => hmost c' ((hof c').mpr hc')⟩,
      fun ⟨hformed, hmost⟩ => ⟨hformed, fun c' hc' => hmost c' ((hof c').mp hc')⟩⟩
  have htest : (fun c : PartialCombination => decide (c.IsMaximal tables joins sets placed))
      = fun c => decide (c.IsMaximal tables joins sets others) := funext fun c => decide_eq_decide.mpr (hmaximal c)
  rw [maximalCombinations, maximalCombinations, htest]
  exact (partialCombinations_perm tables hperm hnodup).filter _

theorem ShowsMaximal.length_rows {joined : NamedRows} (h : ShowsMaximal tables joins columns sets placed joined)
    (hnodup : placed.Nodup) (hperm : placed.Perm others) :
    joined.rows.length = (maximalCombinations tables joins sets others).length := by
  rw [h.rows.length_eq, List.length_map]
  exact (maximalCombinations_perm hperm hnodup).length_eq

/-- What shows some columns shows fewer of them as well, in any order of the tables. -/
theorem ShowsMaximal.map_project_perm {joined : NamedRows} (h : ShowsMaximal tables joins columns sets placed joined)
    (hnames : NamesApart columns) (hnodup : placed.Nodup) (hperm : placed.Perm others) {shared : List ColumnRef}
    (hshared : ∀ c ∈ shared, c ∈ columns ∧ c.table ∈ others) :
    (joined.rows.map (Row.project (shared.map (·.outputName)))).Perm
      ((maximalCombinations tables joins sets others).map fun c => c.rows.project shared) := by
  refine (h.rows.map _).trans ?_
  rw [List.map_map]
  refine .trans (.of_eq (List.map_congr_left fun c _ => ?_)) ((maximalCombinations_perm hperm hnodup).map _)
  refine Description.project_project (hnames.nodup_names hnodup) (fun c hc => mem_columnsOf.mpr ?_) _
  exact (hshared c hc).imp_right hperm.mem_iff.mpr

theorem ShowsMaximal.project {joined : NamedRows} (h : ShowsMaximal tables joins columns sets placed joined)
    (hnames : NamesApart columns) (hnodup : placed.Nodup) (hperm : placed.Perm others) (hneeded : needed ⊆ columns)
    {rows : List Row}
    (hrows : rows.Perm (joined.rows.map (Row.project ((columnsOf needed others).map (·.outputName))))) :
    ShowsMaximal tables joins needed sets others ⟨(columnsOf needed others).map (·.outputName), rows⟩ := by
  refine ⟨h.within.of_perm hperm, rfl,
    hrows.trans (h.map_project_perm hnames hnodup hperm fun c hc => ?_)⟩
  exact (mem_columnsOf.mp hc).imp_left fun hmem => hneeded hmem

/-- A row of a single table is maximal. -/
theorem PartialCombination.isMaximal_update (hends : ∀ j ∈ joins, j.leftTable ≠ j.rightTable) {aliasName : String}
    (row : Row) : IsMaximal tables joins {{aliasName}} [aliasName] (Function.update (fun _ => none) aliasName (some row)) := by
  have hfilled : ∀ a, (Function.update (fun _ => none) aliasName (some row) a).isSome = true ↔ a = aliasName := by
    intro a
    by_cases heq : a = aliasName
    · subst heq
      simp
    · simp [heq]
  refine ⟨⟨⟨{aliasName}, Finset.mem_singleton_self _, fun a => (hfilled a).trans Finset.mem_singleton.symm⟩,
    fun j hj hl hr => ?_⟩, fun c hc _ hextends a r hr => ?_⟩
  · exact absurd (((hfilled _).mp hl).trans ((hfilled _).mp hr).symm) (hends j hj)
  · obtain rfl := List.mem_singleton.mp (hc a r hr).1
    have hsame := hextends a row (Function.update_self ..)
    rw [hr] at hsame
    rw [Function.update_self, hsame]

/-- A table shows its rows. -/
theorem showsMaximal_tableRows (hends : ∀ j ∈ joins, j.leftTable ≠ j.rightTable) (aliasName : String) :
    ShowsMaximal tables joins columns {[aliasName].toFinset} [aliasName] (tableRows columns tables [aliasName]) := by
  classical
  refine ⟨areWithin_singleton aliasName, rfl, .of_eq ?_⟩
  have hchoices : partialCombinations tables [aliasName] = (fun _ => none)
      :: (tables aliasName).map fun row => Function.update (fun _ => none) aliasName (some row) := by
    rw [partialCombinations, List.flatMap_cons, List.flatMap_map, partialCombinations]
    simp only [List.map_cons, List.map_nil, Function.update_eq_self, List.singleton_append]
    rw [← List.map_eq_flatMap]
  have hempty : ¬PartialCombination.IsMaximal tables joins {[aliasName].toFinset} [aliasName] fun _ => none := fun h =>
    h.formed.not_extends (areWithin_singleton aliasName) (.refl _)
  rw [maximalCombinations, hchoices, List.filter_cons_of_neg (by rwa [decide_eq_true_iff]), List.filter_eq_self.mpr,
    List.map_map, tableRows, combinations, combinations, List.map_flatMap]
  · simp only [List.map_cons, List.map_nil]
    rw [← List.map_eq_flatMap]
    refine List.map_congr_left fun row _ => congrArg _ (funext fun a => ?_)
    by_cases heq : a = aliasName
    · subst heq
      simp [PartialCombination.rows]
    · simp [PartialCombination.rows, heq]
  · intro c hc
    obtain ⟨row, -, rfl⟩ := List.mem_map.mp hc
    exact decide_eq_true (PartialCombination.isMaximal_update hends row)

/-! ### Joining tables -/

/-- Conditions between tables are found among all conditions and among those between the tables at hand. -/
theorem conditionsBetween_filter_isWithin {all group : List String} (hplaced : placed ⊆ all) (hgroup : group ⊆ all) :
    conditionsBetween (joins.filter (·.isWithin all)) placed group = conditionsBetween joins placed group := by
  rw [conditionsBetween, conditionsBetween, List.filter_filter]
  refine List.filter_congr fun j _ => Bool.and_eq_left_iff_imp.mpr fun hlinks => ?_
  simp only [JoinCondition.links, Bool.or_eq_true, Bool.and_eq_true, List.contains_iff_mem] at hlinks
  rw [JoinCondition.isWithin_iff]
  rcases hlinks with ⟨hl, hr⟩ | ⟨hr, hl⟩
  · exact ⟨hplaced hl, hgroup hr⟩
  · exact ⟨hgroup hl, hplaced hr⟩

/-- A plan for some of the tables goes by all conditions. -/
theorem PlanFrom.of_filter_isWithin {all : List String} {groups : List (List String)} {steps : List JoinStep}
    (plan : PlanFrom (joins.filter (·.isWithin all)) placed groups steps) (hplaced : placed ⊆ all)
    (hgroups : ∀ g ∈ groups, g ⊆ all) : PlanFrom joins placed groups steps := by
  induction plan with
  | nil placed => exact .nil placed
  | @cons placed group groups rest steps perm tail ih =>
    have hgroup : group ⊆ all := hgroups group (perm.mem_iff.mpr List.mem_cons_self)
    rw [conditionsBetween_filter_isWithin hplaced hgroup]
    exact .cons perm (ih (List.append_subset.mpr ⟨hplaced, hgroup⟩) fun g hg =>
      hgroups g (perm.mem_iff.mpr (List.mem_cons_of_mem _ hg)))

namespace Description

variable {d e : Description} {all : List String}

/-- The plan for single tables, by the conditions of a description that has these tables. -/
theorem HasGraph.exists_planFrom (h : e.HasGraph) (hjoins : e.joins = joins.filter (·.isWithin all))
    (hall : e.aliases ⊆ all) : ∃ plan others, e.tablePlan? = some plan ∧ plan.root = [e.primary]
      ∧ PlanFrom joins [e.primary] others plan.steps
      ∧ ([e.primary] :: others).Perm (e.aliases.map fun aliasName => [aliasName]) := by
  obtain ⟨others, hplan, hperm⟩ := tablePlan?_eq_some h.primary
  refine ⟨_, others, hplan, rfl, ?_, hperm⟩
  have hsteps := planFrom_joinSteps e.joins [e.primary] others
  rw [hjoins] at hsteps
  have hsubset : ∀ g ∈ [e.primary] :: others, g ⊆ all := by
    intro g hg a ha
    obtain ⟨aliasName, hmem, rfl⟩ := List.mem_map.mp (hperm.mem_iff.mp hg)
    rw [List.mem_singleton.mp ha]
    exact hall hmem
  rw [JoinPlan.ofGroups, hjoins]
  exact hsteps.of_filter_isWithin (hsubset _ List.mem_cons_self) fun g hg => hsubset g (List.mem_cons_of_mem _ hg)

theorem flatten_singletons_perm {first : String} {others : List (List String)} {aliases : List String}
    (h : ([first] :: others).Perm (aliases.map fun aliasName => [aliasName])) : ([first] ++ others.flatten).Perm aliases := by
  have hflatten := h.flatten
  rwa [List.flatten_cons, ← List.flatMap_def, List.flatMap_singleton'] at hflatten

/-- The ends of conditions are among the columns. -/
def HasEnds (columns : List ColumnRef) (joins : List JoinCondition) : Prop :=
  ∀ j ∈ joins, ⟨j.leftTable, j.leftColumn⟩ ∈ columns ∧ ⟨j.rightTable, j.rightColumn⟩ ∈ columns

theorem JoinsTables.showsMaximal (h : e.HasGraph) (hjoins : e.joins = joins.filter (·.isWithin all))
    (hall : e.aliases ⊆ all) (hends : ∀ j ∈ joins, j.leftTable ≠ j.rightTable) (hnames : NamesApart columns)
    (hcolumns : HasEnds columns joins) {rows : List Row} (hrows : e.JoinsTables columns tables rows) :
    ∃ placed joined, placed.Perm e.aliases ∧ ShowsMaximal tables joins columns e.tableFills placed joined
      ∧ joined.rows = rows := by
  obtain ⟨plan, others, hplan, hroot, hfrom, hperm⟩ := h.exists_planFrom hjoins hall
  obtain ⟨plan', isExpired, joined, hplan', hjoined, rfl⟩ := hrows
  obtain rfl := Option.some.inj (hplan.symm.trans hplan')
  have hrun := JoinRun.of_execute hjoined
  rw [hroot] at hrun
  have hflatten := flatten_singletons_perm hperm
  have hgroups : ∀ g ∈ others, ShowsMaximal tables joins columns {g.toFinset} g (tableRows columns tables g) := by
    intro g hg
    obtain ⟨aliasName, -, rfl⟩ := List.mem_map.mp (hperm.mem_iff.mp (List.mem_cons_of_mem _ hg))
    exact showsMaximal_tableRows hends aliasName
  have hneeded : ∀ step ∈ plan.steps, ∀ pair ∈ step.pairs, pair.placed ∈ columns ∧ pair.added ∈ columns := by
    intro step hstep pair hpair
    obtain ⟨j, hj, rfl | rfl⟩ := hfrom.exists_of_mem hstep hpair
    · exact hcolumns j hj
    · exact (hcolumns j hj).symm
  obtain ⟨placed, hplaced, hshows⟩ := hrun.showsMaximal (fun g => {g.toFinset}) hfrom
    (showsMaximal_tableRows hends e.primary) hgroups hnames (hflatten.nodup_iff.mpr h.nodup) hneeded
  refine ⟨placed, joined, hplaced.trans hflatten, ?_, rfl⟩
  rw [tableFills, hplan, Option.map_some, Option.getD_some, JoinPlan.fills, hroot]
  exact hshows

/-! ### Joining partitions -/

section

variable {aggregates : Aggregates} {canJoin : String → Bool} {plan : FederationPlan}

theorem mem_allColumns {c : ColumnRef} : c ∈ d.allColumns aggregates ↔ c ∈ d.mentionedColumns aggregates :=
  mem_distinctItems

theorem IsConsistent.namesApart_allColumns (h : d.IsConsistent aggregates) : NamesApart (d.allColumns aggregates) where
  nodup := nodup_distinctItems _
  eq_of_name c hc c' hc' := h.eq_of_name c (mem_allColumns.mp hc) c' (mem_allColumns.mp hc')

theorem hasEnds_allColumns (d : Description) (aggregates : Aggregates) : HasEnds (d.allColumns aggregates) d.joins := by
  have hmem : ∀ j ∈ d.joins, ∀ c ∈ [ColumnRef.mk j.leftTable j.leftColumn, ⟨j.rightTable, j.rightColumn⟩],
      c ∈ d.allColumns aggregates := by
    intro j hj c hc
    rw [mem_allColumns, mentionedColumns, referredColumns]
    exact List.mem_append_left _ (List.mem_append_right _ (List.mem_flatMap.mpr ⟨j, hj, hc⟩))
  exact fun j hj => ⟨hmem j hj _ List.mem_cons_self, hmem j hj _ (List.mem_cons_of_mem _ List.mem_cons_self)⟩

namespace PlannedAs

variable {root : List String} {others : List (List String)} (h : d.PlannedAs aggregates canJoin plan root others)

include h

theorem partitionFills_eq (hnodup : d.aliases.Nodup) {p : Partition} (hp : p ∈ plan.partitions) :
    plan.partitionFills d p.aliases = (p.subDescription d).tableFills := by
  rw [FederationPlan.partitionFills, h.partitionOf?_eq hnodup hp, Option.map_some, Option.getD_some]

/-- What a partition answers shows the maximal combinations of its tables. -/
theorem showsMaximal_partition (hconsistent : d.IsConsistent aggregates) (hidentifiers : d.aliasErrors = [])
    {p : Partition} (hp : p ∈ plan.partitions) {rows answer : List Row}
    (hrows : (p.subDescription d).JoinsTables (d.allColumns aggregates) tables rows)
    (hanswer : answer.Perm (rows.map (Row.project p.outputNames))) :
    ShowsMaximal tables d.joins (d.neededColumns aggregates plan.join plan.residual) (plan.partitionFills d p.aliases)
      p.aliases ⟨p.outputNames, answer⟩ := by
  have hnodup := hconsistent.nodup_aliases
  have hpart := h.hasPart hconsistent hp
  have hgraph := hpart.hasGraph_subDescription hidentifiers
  have hsubset : (p.subDescription d).aliases ⊆ p.aliases := fun _ hmem => hpart.mem_aliases.mp hmem
  obtain ⟨placed, joined, hplaced, hshows, rfl⟩ := hrows.showsMaximal hgraph hpart.joins hsubset hconsistent.ends_differ
    hconsistent.namesApart_allColumns (hasEnds_allColumns d aggregates)
  have hnames : p.outputNames = (columnsOf (d.neededColumns aggregates plan.join plan.residual) p.aliases).map
      (·.outputName) := by
    rw [Partition.outputNames, h.columns_eq hp, columnsOf]
  rw [h.partitionFills_eq hnodup hp, hnames]
  rw [hnames] at hanswer
  exact hshows.project hconsistent.namesApart_allColumns (hplaced.nodup_iff.mpr hgraph.nodup)
    (hplaced.trans (hpart.aliases_perm hnodup (h.nodup_aliases hnodup hp)))
    (fun c hc => mem_allColumns.mpr (h.neededColumns_subset hc)) hanswer

/-- What the partitions come to shows the maximal combinations of all tables. -/
theorem showsMaximal_of_joinsPartitions (hconsistent : d.IsConsistent aggregates) (hidentifiers : d.aliasErrors = [])
    {rows : List Row} (hrows : plan.JoinsPartitions d (d.allColumns aggregates) tables rows) :
    ∃ placed joined, placed.Perm d.aliases ∧ joined.rows = rows
      ∧ ShowsMaximal tables d.joins (d.neededColumns aggregates plan.join plan.residual) (plan.fills d) placed joined := by
  obtain ⟨answers, isExpired, joined, hanswers, hjoined, rfl⟩ := hrows
  have hnodup := hconsistent.nodup_aliases
  have hrun := JoinRun.of_execute hjoined
  rw [h.root_eq] at hrun
  have hgroups : ∀ g ∈ root :: others, ShowsMaximal tables d.joins
      (d.neededColumns aggregates plan.join plan.residual) (plan.partitionFills d g) g
        (rowsOfGroup (plan.partitions.map fun p => (p, answers p)) g) := by
    intro g hg
    obtain ⟨p, hp, rfl⟩ := List.mem_map.mp (h.groups_perm.mem_iff.mp hg)
    obtain ⟨rows, hrows, hanswer⟩ := hanswers p hp
    rw [h.rowsOfGroup_eq hnodup answers hp]
    exact h.showsMaximal_partition hconsistent hidentifiers hp hrows hanswer
  obtain ⟨placed, hplaced, hshows⟩ := hrun.showsMaximal (plan.partitionFills d) h.planFrom (hgroups root List.mem_cons_self)
    (fun g hg => hgroups g (List.mem_cons_of_mem _ hg)) (h.namesApart hconsistent)
    ((h.flatten_perm hnodup).nodup_iff.mpr hnodup) fun step hstep pair hpair => mem_neededColumns_of_step hstep hpair
  refine ⟨placed, joined, hplaced.trans (h.flatten_perm hnodup), rfl, ?_⟩
  rw [FederationPlan.fills, JoinPlan.fills, h.root_eq]
  exact hshows

end PlannedAs

end

end Description

end QueryFederation

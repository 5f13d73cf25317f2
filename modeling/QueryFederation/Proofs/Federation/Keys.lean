import QueryFederation.Federation.Execution
import QueryFederation.Proofs.Compilation.Aggregates
import QueryFederation.Proofs.Expression.Lookup
import QueryFederation.Proofs.Federation.Columns
import QueryFederation.Proofs.Join.Plan
import QueryFederation.Proofs.Result.Materialization

/-!
# Names in joined rows

Columns of several sources meet in joined rows under their output names, and a name that a row does not have reads as
null. So a column that was forgotten when the partitions were planned would not fail, but show as nulls. It cannot be
forgotten: what joins, filters, groups and aggregates read, the plan asks for; a valid description orders and filters
groups by names that their rows have; and what a partition was asked for, rows have once they are decoded, and keep
through each step of the join.
-/

namespace QueryFederation

/-! ### Rows that have names -/

/-- Are the names there, among the columns and in every row? -/
structure NamedRows.Carries (relation : NamedRows) (names : List String) : Prop where
  columns : names ⊆ relation.columns
  rows : ∀ row ∈ relation.rows, names ⊆ row.keys

theorem NamedRows.Carries.mono {relation : NamedRows} {names others : List String} (h : relation.Carries names)
    (hsubset : others ⊆ names) : relation.Carries others :=
  ⟨List.Subset.trans hsubset h.columns, fun row hrow => List.Subset.trans hsubset (h.rows row hrow)⟩

/-- The names under which joined rows carry the needed columns of some tables. -/
def namesOf (needed : List ColumnRef) (placed : List String) : List String :=
  (columnsOf needed placed).map (·.outputName)

section

variable {needed : List ColumnRef} {placed group first second : List String}

theorem mem_namesOf {c : ColumnRef} (hneeded : c ∈ needed) (htable : c.table ∈ placed) :
    c.outputName ∈ namesOf needed placed :=
  List.mem_map_of_mem (mem_columnsOf.mpr ⟨hneeded, htable⟩)

theorem namesOf_subset (h : placed ⊆ group) : namesOf needed placed ⊆ namesOf needed group := by
  intro name hname
  obtain ⟨c, hc, rfl⟩ := List.mem_map.mp hname
  obtain ⟨hneeded, htable⟩ := mem_columnsOf.mp hc
  exact mem_namesOf hneeded (h htable)

theorem namesOf_append : namesOf needed (placed ++ group) = namesOf needed placed ++ namesOf needed group := by
  rw [namesOf, columnsOf_append, List.map_append]
  rfl

/-- A step carries what either side carries, since rows that it extends with nulls get them for all columns. -/
theorem JoinStep.Attaches.carries {step : JoinStep} {left right next : NamedRows}
    (attaches : step.Attaches left right next) (hleft : left.Carries first) (hright : right.Carries second) :
    next.Carries (first ++ second) := by
  have hside : ∀ {relation : NamedRows} {names : List String} {part : Row}, relation.Carries names →
      part ∈ relation.rows ∨ part = Row.nulls relation.columns → names ⊆ part.keys := by
    rintro relation names part hcarries (hpart | rfl)
    · exact hcarries.rows part hpart
    · exact fun _ hname => Row.mem_keys_nulls.mpr (hcarries.columns hname)
  constructor
  · rw [attaches.columns]
    intro name hname
    exact List.mem_append.mpr ((List.mem_append.mp hname).imp (fun h => hleft.columns h) fun h => hright.columns h)
  · intro row hrow name hname
    obtain ⟨l, r, rfl, hl, hr⟩ := JoinStep.exists_of_mem_expected (attaches.rows.mem_iff.mp hrow)
    exact Entries.mem_keys_merge.mpr ((List.mem_append.mp hname).imp (fun h => hside hleft hl h) fun h =>
      hside hright hr h)

/-- What has been joined carries the names of all tables that are placed. -/
theorem JoinRun.carries {relation : List String → NamedRows} {steps : List JoinStep} {start joined : NamedRows}
    (run : JoinRun relation start steps joined) (hstart : start.Carries (namesOf needed placed))
    (hgroups : ∀ step ∈ steps, (relation step.nodes).Carries (namesOf needed step.nodes)) :
    joined.Carries (namesOf needed (placed ++ steps.flatMap (·.nodes))) := by
  induction run generalizing placed with
  | done => simpa using hstart
  | @step start next joined step steps attaches rest ih =>
    obtain ⟨hgroup, hgroups⟩ := List.forall_mem_cons.mp hgroups
    have hnext : next.Carries (namesOf needed (placed ++ step.nodes)) := by
      rw [namesOf_append]
      exact attaches.carries hstart hgroup
    rw [List.flatMap_cons, ← List.append_assoc]
    exact ih hnext hgroups

end

/-! ### Rows of sources -/

/-- Rows that are decoded have the names that were expected of them. -/
theorem keys_of_decodeRows {answer : RowSet} {source : Option String} {expected : List String} {rows : List Row}
    (h : decodeRows answer source expected = .ok rows) : ∀ row ∈ rows, expected ⊆ row.keys := by
  rw [decodeRows] at h
  dsimp only at h
  split at h
  · cases h
  intro row hrow name hname
  obtain ⟨values, -, hvalues⟩ := exists_left_of_forall₂ (Outcome.forall₂_of_mapM_eq_ok h) hrow
  obtain ⟨pairs, hpairs, hvalues⟩ := exists_of_bind_eq_ok hvalues
  cases hvalues
  rw [Entries.mem_keys_ofPairs]
  obtain ⟨pair, hpair, hvalue⟩ := exists_right_of_forall₂ (Outcome.forall₂_of_mapM_eq_ok hpairs) hname
  obtain ⟨v, -, hvalue⟩ := exists_of_bind_eq_ok hvalue
  cases hvalue
  exact List.mem_map.mpr ⟨_, hpair, rfl⟩

namespace Partition

/-- Is it the partition, or what is asked for in its place if no column is needed of it? -/
def IsAskedAs (p asked : Partition) : Prop := asked = p ∨ p.columns = [] ∧ ∃ name, asked = p.withColumn name

variable {p asked : Partition}

theorem IsAskedAs.aliases_eq (h : p.IsAskedAs asked) : asked.aliases = p.aliases := by
  rcases h with rfl | ⟨-, name, rfl⟩ <;> rfl

theorem IsAskedAs.outputNames_subset (h : p.IsAskedAs asked) : p.outputNames ⊆ asked.outputNames := by
  rcases h with rfl | ⟨hnone, -⟩
  · exact List.Subset.refl _
  · rw [outputNames, hnone]
    exact List.nil_subset _

end Partition

/-- Do the rows come from the partitions of a plan, decoded by what these were asked for? -/
def FederationPlan.IsAnsweredBy (plan : FederationPlan) (answers : List (Partition × List Row)) : Prop :=
  List.Forall₂ (fun p answer => p.IsAskedAs answer.1
    ∧ ∃ reply source, decodeRows reply source answer.1.outputNames = .ok answer.2) plan.partitions answers

namespace Description

variable {d : Description} {aggregates : Aggregates} {canJoin : String → Bool} {plan : FederationPlan}

/-! ### What is needed -/

section

variable {join : JoinPlan} {residual : List FilterPredicate}

theorem mem_neededColumns_of_selected {c : SelectedColumn} (hc : c ∈ d.selectedColumns) :
    c.toColumnRef ∈ d.neededColumns aggregates join residual := by
  rw [neededColumns, mem_distinctItems]
  simp only [List.mem_append]
  exact Or.inl (Or.inl (Or.inl (Or.inl (List.mem_map_of_mem hc))))

theorem mem_neededColumns_of_groupBy {c : ColumnRef} (hc : c ∈ d.groupBy) :
    c ∈ d.neededColumns aggregates join residual := by
  rw [neededColumns, mem_distinctItems]
  simp only [List.mem_append]
  exact Or.inl (Or.inl (Or.inl (Or.inr hc)))

theorem mem_neededColumns_of_aggregate {entry : String × AnalyzedAggregate} (hentry : entry ∈ aggregates)
    {c : String × String} (hc : c ∈ entry.2.columns) :
    ⟨c.1, c.2⟩ ∈ d.neededColumns aggregates join residual := by
  rw [neededColumns, mem_distinctItems]
  simp only [List.mem_append]
  refine Or.inl (Or.inl (Or.inr (List.mem_flatMap.mpr ⟨entry, hentry, ?_⟩)))
  exact List.mem_mergeSort.mpr (List.mem_map.mpr ⟨c, hc, rfl⟩)

end

namespace PlannedAs

variable {root : List String} {others : List (List String)} (h : d.PlannedAs aggregates canJoin plan root others)

include h

theorem outputNames_eq {p : Partition} (hp : p ∈ plan.partitions) :
    p.outputNames = namesOf (d.neededColumns aggregates plan.join plan.residual) p.aliases := by
  rw [Partition.outputNames, h.columns_eq hp]
  rfl

theorem flatMap_outputNames_eq : plan.partitions.flatMap (·.outputNames)
    = namesOf (d.neededColumns aggregates plan.join plan.residual) (plan.partitions.flatMap (·.aliases)) := by
  rw [namesOf, columnsOf, List.flatMap_assoc, List.map_flatMap]
  apply List.flatMap_congr
  intro p hp
  rw [h.outputNames_eq hp]
  rfl

/-- No two partitions have a column of one name, nor has one of them two. -/
theorem nodup_outputNames (hconsistent : d.IsConsistent aggregates) :
    (plan.partitions.flatMap (·.outputNames)).Nodup := by
  rw [h.flatMap_outputNames_eq]
  exact (h.namesApart hconsistent).nodup_names
    ((h.flatMap_aliases_perm hconsistent.nodup_aliases).nodup_iff.mpr hconsistent.nodup_aliases)

theorem mem_outputNames (hconsistent : d.IsConsistent aggregates) {c : ColumnRef}
    (hc : c ∈ d.neededColumns aggregates plan.join plan.residual) :
    c.outputName ∈ plan.partitions.flatMap (·.outputNames) := by
  rw [h.flatMap_outputNames_eq]
  refine mem_namesOf hc ((h.flatMap_aliases_perm hconsistent.nodup_aliases).mem_iff.mpr ?_)
  exact hconsistent.declared c (h.neededColumns_subset hc)

theorem follow (hnodup : d.aliases.Nodup) : Follow d.joins root plan.join.steps := by
  rw [h.steps_eq]
  exact follow_joinSteps ((h.flatten_perm hnodup).nodup_iff.mpr hnodup)

variable {group : List String}

/-- The groups of a plan are the tables of its partitions. -/
theorem exists_of_mem_groups (hgroup : group ∈ root :: others) :
    ∃ p ∈ plan.partitions, p.aliases = group :=
  List.mem_map.mp (h.groups_perm.mem_iff.mp hgroup)

/-- A needed column of a table of a group is one of the group's partition. -/
theorem exists_partition (hgroup : group ∈ root :: others) {c : ColumnRef}
    (hc : c ∈ d.neededColumns aggregates plan.join plan.residual) (htable : c.table ∈ group) :
    ∃ p ∈ plan.partitions, p.aliases = group ∧ c.outputName ∈ p.outputNames := by
  obtain ⟨p, hp, rfl⟩ := h.exists_of_mem_groups hgroup
  refine ⟨p, hp, rfl, ?_⟩
  rw [h.outputNames_eq hp]
  exact mem_namesOf hc htable

theorem nodes_mem {step : JoinStep} (hstep : step ∈ plan.join.steps) : step.nodes ∈ root :: others :=
  List.mem_cons_of_mem _ (h.planFrom.nodes_perm.mem_iff.mp (List.mem_map_of_mem hstep))

/-- The columns of a pair are needed, one of a table placed before its step and one of a table that the step adds. -/
theorem pair_needed (hnodup : d.aliases.Nodup) {before after : List JoinStep} {step : JoinStep}
    (hsteps : plan.join.steps = before ++ step :: after) {pair : JoinPair} (hpair : pair ∈ step.pairs) :
    (pair.placed ∈ d.neededColumns aggregates plan.join plan.residual
        ∧ pair.placed.table ∈ root ++ before.flatMap (·.nodes))
      ∧ pair.added ∈ d.neededColumns aggregates plan.join plan.residual ∧ pair.added.table ∈ step.nodes := by
  have hstep : step ∈ plan.join.steps := by
    rw [hsteps]
    exact List.mem_append_right _ List.mem_cons_self
  have hfollows : step.Follows d.joins (root ++ before.flatMap (·.nodes)) :=
    Follow.follows (hsteps ▸ h.follow hnodup)
  obtain ⟨hplaced, hadded⟩ := hfollows.tables_of_mem hpair
  obtain ⟨hneeded, hneeded'⟩ := mem_neededColumns_of_step hstep hpair
  exact ⟨⟨hneeded, hplaced⟩, hneeded', hadded⟩

/-- The rows of a group carry the names that are needed of its tables. -/
theorem carries_rowsOfGroup (hnodup : d.aliases.Nodup) {answers : List (Partition × List Row)}
    (hanswers : plan.IsAnsweredBy answers) (hgroup : group ∈ root :: others) :
    (rowsOfGroup answers group).Carries
      (namesOf (d.neededColumns aggregates plan.join plan.residual) group) := by
  obtain ⟨p, hp, rfl⟩ := h.exists_of_mem_groups hgroup
  have hhead : p.aliases.headD "" ∈ p.aliases := by
    obtain ⟨first, rest, haliases⟩ := List.exists_cons_of_ne_nil (h.aliases_ne_nil hp)
    rw [haliases]
    exact List.mem_cons_self
  obtain ⟨answer, hanswer, hasked, -⟩ := exists_right_of_forall₂ hanswers hp
  -- Answers are found by the first table of a group, and no other partition has this table.
  cases hfound : answers.find? fun answer => answer.1.aliases.contains (p.aliases.headD "") with
  | none =>
    have hcontains : answer.1.aliases.contains (p.aliases.headD "") = true := by
      rw [hasked.aliases_eq]
      exact List.contains_iff_mem.mpr hhead
    exact absurd hcontains (List.find?_eq_none.mp hfound answer hanswer)
  | some found =>
    obtain ⟨q, hq, hasked, reply, source, hdecoded⟩ :=
      exists_left_of_forall₂ hanswers (List.mem_of_find?_eq_some hfound)
    have hmem : p.aliases.headD "" ∈ found.1.aliases := List.contains_iff_mem.mp (List.find?_some hfound :)
    obtain rfl := h.eq_of_mem_aliases hnodup hp hq hhead (hasked.aliases_eq ▸ hmem)
    have hnames : namesOf (d.neededColumns aggregates plan.join plan.residual) p.aliases ⊆ found.1.outputNames := by
      rw [← h.outputNames_eq hp]
      exact hasked.outputNames_subset
    simp only [rowsOfGroup, hfound]
    exact ⟨hnames, fun row hrow => List.Subset.trans hnames (keys_of_decodeRows hdecoded row hrow)⟩

end PlannedAs

end Description

/-! ### What is read -/

/-- What a plan gives to joined rows, and that nothing else is read of them. -/
structure FederationPlan.Covers (plan : FederationPlan) (d : Description) (aggregates : Aggregates) : Prop where
  nodup : (plan.partitions.flatMap (·.outputNames)).Nodup
  pairs : ∀ before step after, plan.join.steps = before ++ step :: after → ∀ pair ∈ step.pairs,
    (∃ p ∈ plan.partitions, p.aliases ∈ plan.join.root :: before.map (·.nodes) ∧ pair.names.1 ∈ p.outputNames)
      ∧ ∃ p ∈ plan.partitions, p.aliases = step.nodes ∧ pair.names.2 ∈ p.outputNames
  residual : ∀ f ∈ plan.residual, f.outputName ∈ plan.partitions.flatMap (·.outputNames)
  grouped : ∀ c ∈ d.groupBy, c.outputName ∈ plan.partitions.flatMap (·.outputNames)
  selected : ∀ c ∈ d.selectedColumns, c.outputName ∈ plan.partitions.flatMap (·.outputNames)
  aggregated : ∀ entry ∈ aggregates, ∀ c ∈ entry.2.columns,
    outputName c.1 c.2 ∈ plan.partitions.flatMap (·.outputNames)
  ordered : d.isGrouped = false → ∀ o ∈ d.orderBy, o.target ∈ plan.partitions.flatMap (·.outputNames)

/-- What a step looks up in rows, those that are placed before it and those that it adds, is there. -/
def FederationPlan.FindsKeys (plan : FederationPlan) (relation : List String → NamedRows) : Prop :=
  ∀ before step after isExpired placed, plan.join.steps = before ++ step :: after →
    (JoinPlan.execute ⟨plan.join.root, before⟩ relation).answer isExpired = .ok placed → ∀ pair ∈ step.pairs,
      (∀ row ∈ placed.rows, pair.names.1 ∈ row.keys) ∧ ∀ row ∈ (relation step.nodes).rows, pair.names.2 ∈ row.keys

/-- The columns that the row of a group takes from the first row of the group. -/
def Description.groupColumns (d : Description) : List String :=
  d.groupBy.map (·.outputName) ++ d.selectedColumns.map (·.outputName)

/-- What materialization looks up in joined rows and in the rows of groups is there. -/
structure Description.FindsNames (d : Description) (aggregates : Aggregates) (order : List String)
    (residual : List FilterPredicate) (rows : List Row) : Prop where
  residual : ∀ row ∈ rows, ∀ f ∈ residual, f.outputName ∈ row.keys
  grouped : ∀ row ∈ rows, ∀ c ∈ d.groupBy, c.outputName ∈ row.keys
  first : d.isGrouped = true → ∀ kept ⊆ rows, ∀ members ∈ groupRows (d.groupBy.map (·.outputName)) kept,
    d.groupColumns ⊆ (members.headD []).keys
  aggregated : ∀ row ∈ rows, ∀ entry ∈ aggregates, ∀ c ∈ entry.2.columns, outputName c.1 c.2 ∈ row.keys
  computed : ∀ kept ⊆ rows, ∀ members ∈ groupRows (d.groupBy.map (·.outputName)) kept, ∀ key,
    computeAggregates aggregates order members = .error (.absentKey key) → aggregates.IsAliasInCall key
  groups : ∀ members group, d.groupRow aggregates order members = .ok group →
    (∀ h ∈ d.having, h.target ∈ group.keys) ∧ (∀ o ∈ d.orderBy, o.target ∈ group.keys) ∧ d.outputNames ⊆ group.keys
  ungrouped : d.isGrouped = false → ∀ row ∈ rows,
    (∀ o ∈ d.orderBy, o.target ∈ row.keys) ∧ d.outputNames ⊆ row.keys

namespace Description

variable {d : Description} {aggregates : Aggregates} {canJoin : String → Bool} {plan : FederationPlan}
  {cleanup : Cleanup} {order : List String} {replacements : Entries String}

namespace PlannedAs

variable {root : List String} {others : List (List String)} (h : d.PlannedAs aggregates canJoin plan root others)

include h

theorem covers (hconsistent : d.IsConsistent aggregates) (horder : d.orderErrors = []) : plan.Covers d aggregates where
  nodup := h.nodup_outputNames hconsistent
  pairs before step after hsteps pair hpair := by
    have hnodes : ∀ other ∈ before ++ [step], other.nodes ∈ root :: others := by
      intro other hother
      apply h.nodes_mem
      rw [hsteps, List.append_cons]
      exact List.mem_append_left _ hother
    obtain ⟨⟨hplaced, hearlier⟩, hadded, hthis⟩ := h.pair_needed hconsistent.nodup_aliases hsteps hpair
    refine ⟨?_, h.exists_partition (hnodes step (List.mem_append_right _ List.mem_cons_self)) hadded hthis⟩
    rw [h.root_eq]
    rcases List.mem_append.mp hearlier with hroot | hbefore
    · obtain ⟨p, hp, haliases, hname⟩ := h.exists_partition List.mem_cons_self hplaced hroot
      exact ⟨p, hp, List.mem_cons.mpr (Or.inl haliases), hname⟩
    · obtain ⟨earlier, hmem, htable⟩ := List.mem_flatMap.mp hbefore
      obtain ⟨p, hp, haliases, hname⟩ :=
        h.exists_partition (hnodes earlier (List.mem_append_left _ hmem)) hplaced htable
      exact ⟨p, hp, List.mem_cons_of_mem _ (haliases ▸ List.mem_map_of_mem hmem), hname⟩
  residual f hf := h.mem_outputNames hconsistent (mem_neededColumns_of_residual hf)
  grouped c hc := h.mem_outputNames hconsistent (mem_neededColumns_of_groupBy hc)
  selected c hc := h.mem_outputNames hconsistent (mem_neededColumns_of_selected hc)
  aggregated entry hentry c hc := h.mem_outputNames hconsistent (mem_neededColumns_of_aggregate hentry hc)
  ordered hgrouped o ho := by
    have htarget : o.target ∈ d.outputNames := by
      rw [isGrouped, Bool.or_eq_false_iff] at hgrouped
      refine (mem_of_orderErrors_eq_nil horder ho).resolve_right fun htarget => ?_
      rw [hgrouped.1] at htarget
      exact Bool.false_ne_true htarget.1
    rw [outputNames_of_isGrouped_eq_false hgrouped] at htarget
    obtain ⟨c, hc, hname⟩ := List.mem_map.mp htarget
    rw [← hname]
    exact h.mem_outputNames hconsistent (mem_neededColumns_of_selected hc)

/-- Rows that some of the steps have joined carry the names of the tables that these have placed. -/
theorem carries_of_execute (hnodup : d.aliases.Nodup) {answers : List (Partition × List Row)}
    (hanswers : plan.IsAnsweredBy answers) {steps : List JoinStep} (hsteps : steps ⊆ plan.join.steps) {isExpired : Bool}
    {joined : NamedRows}
    (hjoined : (JoinPlan.execute ⟨plan.join.root, steps⟩ (rowsOfGroup answers)).answer isExpired = .ok joined) :
    joined.Carries (namesOf (d.neededColumns aggregates plan.join plan.residual) (root ++ steps.flatMap (·.nodes))) := by
  have hstart := h.carries_rowsOfGroup hnodup hanswers (List.mem_cons_self : root ∈ root :: others)
  rw [← h.root_eq] at hstart ⊢
  exact (JoinRun.of_execute hjoined).carries hstart fun step hstep =>
    h.carries_rowsOfGroup hnodup hanswers (h.nodes_mem (hsteps hstep))

theorem findsKeys (hnodup : d.aliases.Nodup) {answers : List (Partition × List Row)}
    (hanswers : plan.IsAnsweredBy answers) : plan.FindsKeys (rowsOfGroup answers) := by
  intro before step after isExpired placed hsteps hplaced pair hpair
  have hbefore : before ⊆ plan.join.steps := hsteps ▸ List.subset_append_left _ _
  have hstep : step ∈ plan.join.steps := hsteps ▸ List.mem_append_right _ List.mem_cons_self
  obtain ⟨⟨hneeded, hearlier⟩, hneeded', hthis⟩ := h.pair_needed hnodup hsteps hpair
  have hcarries := h.carries_of_execute hnodup hanswers hbefore hplaced
  have hadds := h.carries_rowsOfGroup hnodup hanswers (h.nodes_mem hstep)
  exact ⟨fun row hrow => hcarries.rows row hrow (mem_namesOf hneeded hearlier),
    fun row hrow => hadds.rows row hrow (mem_namesOf hneeded' hthis)⟩

/-- In the end joined rows carry the names of all partitions. -/
theorem carries_outputNames (hnodup : d.aliases.Nodup) {answers : List (Partition × List Row)}
    (hanswers : plan.IsAnsweredBy answers) {isExpired : Bool} {joined : NamedRows}
    (hjoined : (plan.join.execute (rowsOfGroup answers)).answer isExpired = .ok joined) :
    joined.Carries (plan.partitions.flatMap (·.outputNames)) := by
  have hall : plan.partitions.flatMap (·.aliases) ⊆ root ++ plan.join.steps.flatMap (·.nodes) := by
    intro aliasName hmem
    have hdeclared := (h.flatMap_aliases_perm hnodup).mem_iff.mp hmem
    have hplaced := (h.flatten_perm hnodup).mem_iff.mpr hdeclared
    rw [List.flatMap_def]
    exact ((h.planFrom.nodes_perm.flatten).append_left root).mem_iff.mpr hplaced
  rw [h.flatMap_outputNames_eq]
  exact (h.carries_of_execute hnodup hanswers (List.Subset.refl _) hjoined).mono (namesOf_subset hall)

end PlannedAs

/-- A group has a first row to take columns from, unless there are none to take. -/
theorem groupColumns_subset_first (hgroupErrors : d.groupErrors = []) (hgrouped : d.isGrouped = true)
    {rows members : List Row} (hrows : ∀ row ∈ rows, d.groupColumns ⊆ row.keys)
    (hmembers : members ∈ groupRows (d.groupBy.map (·.outputName)) rows) :
    d.groupColumns ⊆ (members.headD []).keys := by
  obtain ⟨hsubset, hempty⟩ := mem_groupRows hmembers
  cases members with
  | cons first rest => exact hrows first (hsubset List.mem_cons_self)
  | nil =>
    -- Without rows there is a group only if nothing is grouped by, and then no column can be selected.
    have hgroupBy := List.map_eq_nil_iff.mp (hempty rfl)
    have haggregates : d.hasAggregates = true := by
      rw [isGrouped, hgroupBy] at hgrouped
      simpa using hgrouped
    have hselected : d.selectedColumns = [] := by
      refine List.eq_nil_iff_forall_not_mem.mpr fun c hc => ?_
      have hmem := mem_groupedNames_of_groupErrors_eq_nil hgroupErrors haggregates hc
      rw [groupedNames, hgroupBy] at hmem
      cases hmem
    rw [groupColumns, hgroupBy, hselected]
    exact List.nil_subset _

/-- The row of a group has the names of the result, those grouped by, and the aliases of all aggregates. -/
theorem names_subset_groupRow (hanalyzed : d.analyzedAggregates replacements = .ok aggregates)
    (horder : aggregates.dependencyOrder = .ok order) {members : List Row} {group : Row}
    (hgroup : d.groupRow aggregates order members = .ok group) :
    d.outputNames ++ d.groupedNames ++ aggregates.keys ⊆ group.keys := by
  have haliases : aggregates.keys ⊆ group.keys := by
    intro name hname
    have hmem : name ∈ order :=
      (Aggregates.ordered_of_dependencyOrder horder).2.mem_iff.mpr (Aggregates.keys_subset_names hname)
    exact (mem_keys_groupRow hgroup).mpr (Or.inr (Or.inr ⟨hmem, hname⟩))
  intro name hname
  rcases List.mem_append.mp hname with hname | hname
  · rcases List.mem_append.mp hname with hname | hname
    · rcases List.mem_append.mp hname with hname | hname
      · exact (mem_keys_groupRow hgroup).mpr (Or.inr (Or.inl hname))
      · exact haliases (((readAs_of_analyzedAggregates hanalyzed).2 name).mpr hname)
    · exact (mem_keys_groupRow hgroup).mpr (Or.inl hname)
  · exact haliases hname

/-- If joined rows carry the names of all partitions, materialization finds what it looks up. -/
theorem findsNames_of_carries (hvalid : (d.validate cleanup).isValid = true)
    (hanalyzed : d.analyzedAggregates (d.validate cleanup).replacements = .ok aggregates)
    (horder : aggregates.dependencyOrder = .ok order) (hcovers : plan.Covers d aggregates) {joined : NamedRows}
    (hcarries : joined.Carries (plan.partitions.flatMap (·.outputNames))) :
    d.FindsNames aggregates order plan.residual joined.rows := by
  obtain ⟨-, -, -, -, -, -, -, hgroupErrors, hhavingErrors, horderErrors⟩ := isValid_iff.mp hvalid
  rw [Except.ok.inj ((analyzedAggregates_of_isValid hvalid).symm.trans hanalyzed)] at hhavingErrors
  have hselected : ∀ row ∈ joined.rows, d.selectedColumns.map (·.outputName) ⊆ row.keys := by
    intro row hrow name hname
    obtain ⟨c, hc, rfl⟩ := List.mem_map.mp hname
    exact hcarries.rows row hrow (hcovers.selected c hc)
  have hcolumns : ∀ row ∈ joined.rows, d.groupColumns ⊆ row.keys := by
    intro row hrow name hname
    rcases List.mem_append.mp hname with hname | hname
    · obtain ⟨c, hc, rfl⟩ := List.mem_map.mp hname
      exact hcarries.rows row hrow (hcovers.grouped c hc)
    · exact hselected row hrow hname
  have haggregated : ∀ row ∈ joined.rows, ∀ entry ∈ aggregates, ∀ c ∈ entry.2.columns,
      outputName c.1 c.2 ∈ row.keys := fun row hrow entry hentry c hc =>
    hcarries.rows row hrow (hcovers.aggregated entry hentry c hc)
  exact {
    residual := fun row hrow f hf => hcarries.rows row hrow (hcovers.residual f hf)
    grouped := fun row hrow c hc => hcarries.rows row hrow (hcovers.grouped c hc)
    first := fun hgrouped kept hkept members hmembers =>
      groupColumns_subset_first hgroupErrors hgrouped (fun row hrow => hcolumns row (hkept hrow)) hmembers
    aggregated := haggregated
    computed := fun kept hkept members hmembers => by
      have hmem : members ⊆ joined.rows := List.Subset.trans (mem_groupRows hmembers).1 hkept
      have hread := (readAs_of_analyzedAggregates hanalyzed).1
      exact hread.analyzed.lacksOnly_computeAggregates (fun row hrow => haggregated row (hmem hrow)) order
    groups := fun members group hgroup => by
      have hnames := names_subset_groupRow hanalyzed horder hgroup
      have hresult : d.outputNames ++ d.groupedNames ⊆ group.keys := fun name hname =>
        hnames (List.mem_append_left _ hname)
      refine ⟨fun having hhaving => hnames (mem_of_havingErrors_eq_nil hhavingErrors hhaving), fun o ho => ?_,
        fun name hname => hresult (List.mem_append_left _ hname)⟩
      exact hresult (List.mem_append.mpr ((mem_of_orderErrors_eq_nil horderErrors ho).imp_right And.right))
    ungrouped := fun hgrouped row hrow => by
      refine ⟨fun o ho => hcarries.rows row hrow (hcovers.ordered hgrouped o ho), ?_⟩
      rw [outputNames_of_isGrouped_eq_false hgrouped]
      exact hselected row hrow }

/-- What a plan asks for is enough, both for its steps and for what becomes of joined rows. -/
theorem finds_of_federationPlan? (hvalid : (d.validate cleanup).isValid = true)
    (hanalyzed : d.analyzedAggregates (d.validate cleanup).replacements = .ok aggregates)
    (hplan : d.federationPlan? aggregates canJoin = some plan) (horder : aggregates.dependencyOrder = .ok order) :
    plan.Covers d aggregates ∧ ∀ answers, plan.IsAnsweredBy answers → plan.FindsKeys (rowsOfGroup answers)
      ∧ ∀ isExpired joined, (plan.join.execute (rowsOfGroup answers)).answer isExpired = .ok joined →
        d.FindsNames aggregates order plan.residual joined.rows := by
  have hconsistent : d.IsConsistent aggregates := by
    rw [Except.ok.inj (hanalyzed.symm.trans (analyzedAggregates_of_isValid hvalid))]
    exact isConsistent_of_isValid hvalid
  obtain ⟨root, others, hparts⟩ := federationPlan?_eq_some hplan
  obtain ⟨-, -, -, -, -, -, -, -, -, horderErrors⟩ := isValid_iff.mp hvalid
  have hcovers := hparts.covers hconsistent horderErrors
  refine ⟨hcovers, fun answers hanswers =>
    ⟨hparts.findsKeys hconsistent.nodup_aliases hanswers, fun isExpired joined hjoined => ?_⟩⟩
  exact findsNames_of_carries hvalid hanalyzed horder hcovers
    (hparts.carries_outputNames hconsistent.nodup_aliases hanswers hjoined)

/--
Nothing that is read of joined rows is lacking. The names of a plan's columns are distinct, and they are all that joins,
filters, groups, aggregates, order and result ask for; so whatever sources answer, every name that is looked up in a row
on the way to the result is a key of this row.
-/
theorem federation_finds_names (h : (d.validate cleanup).isValid = true) (canJoin : String → Bool) :
    ∃ aggregates plan order, d.analyzedAggregates (d.validate cleanup).replacements = .ok aggregates
      ∧ d.federationPlan? aggregates canJoin = some plan ∧ aggregates.dependencyOrder = .ok order
      ∧ plan.Covers d aggregates
      ∧ ∀ answers, plan.IsAnsweredBy answers → plan.FindsKeys (rowsOfGroup answers)
        ∧ ∀ isExpired joined, (plan.join.execute (rowsOfGroup answers)).answer isExpired = .ok joined →
          d.FindsNames aggregates order plan.residual joined.rows := by
  have hconsistent := isConsistent_of_isValid h
  have hanalyzed := analyzedAggregates_of_isValid h
  obtain ⟨order, horder⟩ := exists_dependencyOrder_of_isValid h
  obtain ⟨plan, hplan⟩ := exists_federationPlan? hconsistent.nodup_aliases hconsistent.primary_mem
    (d.aggregateFindings cleanup).analyzed canJoin
  exact ⟨_, plan, order, hanalyzed, hplan, horder, finds_of_federationPlan? h hanalyzed hplan horder⟩

/-! ### Orders by tier -/

/-- The orders of a shop by the tiers of those who have ordered, which another source knows. -/
def ordersByTier : Description where
  tables := [⟨"o", "shop", "orders", none⟩, ⟨"t", "docs", "tiers", none⟩]
  columns := [{ table := "t", column := "tier" }]
  joins := [⟨"o", "by", "t", "of", .left⟩]
  groupBy := [⟨"t", "tier"⟩]
  aggregates := [⟨"COUNT(o.id)", "n"⟩]
  orderBy := [⟨"n", true⟩]

open Expression in
/-- The aggregates of `ordersByTier`. -/
def ordersByTierAggregates : Aggregates :=
  [("n", .ofTree "n" ["n"] (aggregate .count [column [⟨"o", false⟩] ⟨"id", false⟩]))]

theorem isValid_ordersByTier : (ordersByTier.validate .strip).isValid = true
    ∧ ordersByTier.analyzedAggregates (ordersByTier.validate .strip).replacements = .ok ordersByTierAggregates := by
  have hfold : ordersByTier.allAggregates.zipIdx.foldl (AggregateFindings.check .strip
      (ordersByTier.allAggregates.map (·.aliasName)) ordersByTier.aliases) {} = { analyzed := ordersByTierAggregates } := by
    change AggregateFindings.check .strip ["n"] ["o", "t"] {} (⟨"COUNT(o.id)", "n"⟩, 0) = _
    rw [AggregateFindings.check_of_accepts _ (by decide) (by decide +kernel) (accepts_orderCount _ (by decide))]
    rfl
  have horder : ordersByTierAggregates.dependencyOrder = .ok ["n"] := by cbv
  have hfindings : ordersByTier.aggregateFindings .strip = { analyzed := ordersByTierAggregates } := by
    rw [aggregateFindings]
    simp only [hfold, horder]
  have hnames : ordersByTier.nameErrors ordersByTierAggregates = [] :=
    nameErrors_eq_nil_iff.mpr ⟨by decide +kernel, by decide⟩
  have hvalid : (ordersByTier.validate .strip).isValid = true := by
    rw [isValid_iff, hfindings]
    exact ⟨by cbv, by cbv, by cbv, by cbv, rfl, by cbv, hnames, by cbv, by cbv, by cbv⟩
  refine ⟨hvalid, ?_⟩
  rw [analyzedAggregates_of_isValid hvalid, hfindings]

/-- The plan of `ordersByTier`, if its sources can join. -/
def ordersByTierPlan : FederationPlan where
  partitions := [
    { sourceId := "shop", aliases := ["o"], columns := [⟨"o", "id"⟩, ⟨"o", "by"⟩] },
    { sourceId := "docs", aliases := ["t"], columns := [⟨"t", "tier"⟩, ⟨"t", "of"⟩] }]
  join := ⟨["o"], [⟨["t"], some .left, [⟨⟨"o", "by"⟩, ⟨"t", "of"⟩⟩], [⟨"o", "by", "t", "of", .left⟩]⟩]⟩
  residual := []

/-- Two orders, of which one has been made by someone with a tier. -/
def ordersByTierAnswers : List (Partition × List Row) :=
  ordersByTierPlan.partitions.zip [
    [[("o_id", .integer 5), ("o_by", .integer 1)], [("o_id", .integer 6), ("o_by", .integer 2)]],
    [[("t_tier", .text "gold"), ("t_of", .integer 1)]]]

theorem isAnsweredBy_ordersByTierAnswers : ordersByTierPlan.IsAnsweredBy ordersByTierAnswers := by
  refine .cons ⟨Or.inl rfl, ?_⟩ (.cons ⟨Or.inl rfl, ?_⟩ .nil)
  · exact ⟨⟨["o_id", "o_by"], [[.integer 5, .integer 1], [.integer 6, .integer 2]]⟩, some "shop", by cbv⟩
  · exact ⟨⟨["t_of", "t_tier"], [[.integer 1, .text "gold"]]⟩, some "docs", by cbv⟩

/-- The order without a tier has nulls, under the names that the other one has. -/
theorem ordersByTier_finds_names :
    let joined : NamedRows := ⟨["o_id", "o_by", "t_tier", "t_of"],
      [[("o_id", .integer 5), ("o_by", .integer 1), ("t_tier", .text "gold"), ("t_of", .integer 1)],
        [("o_id", .integer 6), ("o_by", .integer 2), ("t_tier", .null), ("t_of", .null)]]⟩
    (ordersByTier.validate .strip).isValid = true ∧ ordersByTierPlan.Covers ordersByTier ordersByTierAggregates
      ∧ ordersByTierPlan.FindsKeys (rowsOfGroup ordersByTierAnswers)
      ∧ (ordersByTierPlan.join.execute (rowsOfGroup ordersByTierAnswers)).answer false = .ok joined
      ∧ ordersByTier.FindsNames ordersByTierAggregates ["n"] [] joined.rows := by
  intro joined
  obtain ⟨hvalid, hanalyzed⟩ := isValid_ordersByTier
  obtain ⟨aggregates, plan, order, hread, hplan, horder, hcovers, hfinds⟩ :=
    federation_finds_names hvalid fun _ => true
  obtain rfl := Except.ok.inj (hanalyzed.symm.trans hread)
  have hplan' : ordersByTier.federationPlan? ordersByTierAggregates (fun _ => true) = some ordersByTierPlan := by cbv
  obtain rfl := Option.some.inj (hplan'.symm.trans hplan)
  have horder' : ordersByTierAggregates.dependencyOrder = .ok ["n"] := by cbv
  obtain rfl := Except.ok.inj (horder'.symm.trans horder)
  have hjoined : (ordersByTierPlan.join.execute (rowsOfGroup ordersByTierAnswers)).answer false = .ok joined := by
    cbv
  obtain ⟨hkeys, hnames⟩ := hfinds _ isAnsweredBy_ordersByTierAnswers
  exact ⟨hvalid, hcovers, hkeys, hjoined, hnames false _ hjoined⟩

end Description

end QueryFederation

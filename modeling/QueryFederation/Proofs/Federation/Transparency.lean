import QueryFederation.Federation.Execution
import QueryFederation.Proofs.Federation.InnerSteps

/-!
# Federation is transparent

Joining the answers of partitions gives what the description means, as long as all joins are inner. Every source is
asked for the combinations of its tables that meet the conditions and pass the filters it was given; the steps of the
plan put them together, and the residual filters drop what the description does not mean. Nothing of this depends on
where the tables are.
-/

namespace QueryFederation

variable {tables : String → List Row}

/-- The rows that the source of a partition is asked for. -/
def Partition.wanted (p : Partition) (tables : String → List Row) : List Row :=
  ((combinations tables p.aliases).filter (Combination.meets p.joins p.filters)).map (Combination.project p.columns)

namespace Description.PlannedAs

variable {d : Description} {aggregates : Aggregates} {canJoin : String → Bool} {plan : FederationPlan}
  {root : List String} {others : List (List String)} (h : d.PlannedAs aggregates canJoin plan root others)

include h

/-- The partition of a group is found by its first table. -/
theorem partitionOf?_eq (hnodup : d.aliases.Nodup) {p : Partition} (hp : p ∈ plan.partitions) :
    plan.partitionOf? (p.aliases.headD "") = some p := by
  have hhead : p.aliases.headD "" ∈ p.aliases := by
    obtain ⟨first, rest, haliases⟩ := List.exists_cons_of_ne_nil (h.aliases_ne_nil hp)
    rw [haliases]
    exact List.mem_cons_self
  cases hfound : plan.partitionOf? (p.aliases.headD "") with
  | none =>
    rw [FederationPlan.partitionOf?, List.find?_eq_none] at hfound
    exact absurd (List.contains_iff_mem.mpr hhead) (hfound p hp)
  | some q =>
    rw [h.eq_of_mem_aliases hnodup hp (List.mem_of_find?_eq_some hfound) hhead
      (List.contains_iff_mem.mp (List.find?_some hfound :))]

/-- The rows of a group are those of its partition. -/
theorem rowsOfGroup_eq (hnodup : d.aliases.Nodup) (answers : Partition → List Row) {p : Partition}
    (hp : p ∈ plan.partitions) :
    rowsOfGroup (plan.partitions.map fun p => (p, answers p)) p.aliases = ⟨p.outputNames, answers p⟩ := by
  have hfind := h.partitionOf?_eq hnodup hp
  rw [FederationPlan.partitionOf?] at hfind
  simp only [rowsOfGroup, List.find?_map, Function.comp_def, hfind, Option.map_some]

theorem shows_partition (hfirst : ∀ f ∈ d.filters.head?, f.connective = .and) {p : Partition} (hp : p ∈ plan.partitions)
    {rows : List Row} (hrows : rows.Perm (p.wanted tables)) :
    Shows tables d.joins (d.pushedFilters plan.join) (d.neededColumns aggregates plan.join plan.residual) p.aliases
      ⟨p.outputNames, rows⟩ := by
  have hcolumns : p.columns = columnsOf (d.neededColumns aggregates plan.join plan.residual) p.aliases := h.columns_eq hp
  have hconditions : ∀ f ∈ p.filters.tail, f.connective = .and := fun f hf =>
    connective_of_mem_pushedFilters hfirst ((h.mem_filters hp).mp (List.mem_of_mem_tail hf)).1
  constructor
  · rw [← hcolumns]
    rfl
  · refine hrows.trans (List.Perm.of_eq ?_)
    rw [Partition.wanted, ← hcolumns]
    congr 1
    apply List.filter_congr
    intro c _
    rw [Bool.eq_iff_iff, Combination.meets_iff, Combination.fits_iff, Combination.passes_of_conjunction hconditions,
      h.joins_eq hp]
    refine and_congr ?_ ?_
    · simp only [List.mem_filter, JoinCondition.isWithin_iff, and_imp]
    · simp only [h.mem_filters hp, and_imp]

/-- What fits and passes the residual filters is what the description means. -/
theorem fits_and_passes_iff (hconsistent : d.IsConsistent aggregates) {all : List String} (hall : all.Perm d.aliases)
    {c : Combination} : c.fits d.joins (d.pushedFilters plan.join) all = true ∧ c.passes plan.residual = .ok true
      ↔ c.meets d.joins d.filters = true := by
  rw [Combination.fits_iff, Combination.meets_iff, and_assoc]
  refine and_congr (forall₂_congr fun j hj => ?_) ?_
  · obtain ⟨hleft, hright⟩ := hconsistent.declared_ends hj
    exact ⟨fun hjoins => hjoins (hall.mem_iff.mpr hleft) (hall.mem_iff.mpr hright), fun hjoins _ _ => hjoins⟩
  · have hpushed : (∀ f ∈ d.pushedFilters plan.join, f.table ∈ all → c.outcome f = .ok (some true))
        ↔ ∀ f ∈ d.pushedFilters plan.join, c.outcome f = .ok (some true) := by
      refine forall₂_congr fun f hf => ⟨fun hpasses => hpasses ?_, fun hpasses _ => hpasses⟩
      exact hall.mem_iff.mpr (hconsistent.declared_filter (List.mem_of_mem_filter hf))
    rw [hpushed]
    -- Alternatives keep all filters with the plan, so filters are split among the parts only if all are conditions.
    cases hconjunctive : d.isConjunctive with
    | false =>
      rw [pushedFilters_eq_nil hconjunctive, h.residual, filter_not_pushes hconjunctive]
      exact and_iff_right (List.forall_mem_nil _)
    | true =>
      rw [Combination.passes_of_conjunction (isConjunctive_iff.mp hconjunctive),
        Combination.passes_of_conjunction (h.connective_of_mem_tail_residual hconjunctive), ← List.forall_mem_append,
        h.residual]
      exact forall_congr' fun f => imp_congr_left (List.filter_append_perm _ d.filters).mem_iff

end Description.PlannedAs

/-- Rows that come out of a plan, from sources that answer with what they are asked for. -/
def FederationPlan.Yields (plan : FederationPlan) (tables : String → List Row) (rows : List Row) : Prop :=
  ∃ (answers : Partition → List Row) (isExpired : Bool) (joined : NamedRows),
    (∀ p ∈ plan.partitions, (answers p).Perm (p.wanted tables))
      ∧ (plan.join.execute (rowsOfGroup (plan.partitions.map fun p => (p, answers p)))).answer isExpired = .ok joined
      ∧ joined.rows.filterM (Row.passes plan.residual) = .ok rows

namespace Description

variable {d : Description} {aggregates : Aggregates} {canJoin : String → Bool} {plan : FederationPlan}

/-- The combinations that a description means. -/
def wanted (d : Description) (tables : String → List Row) : List Combination :=
  (combinations tables d.aliases).filter (Combination.meets d.joins d.filters)

theorem PlannedAs.rows_perm {root : List String} {others : List (List String)}
    (h : d.PlannedAs aggregates canJoin plan root others) (hconsistent : d.IsConsistent aggregates)
    (hinner : ∀ j ∈ d.joins, j.kind = .inner) (hfirst : ∀ f ∈ d.filters.head?, f.connective = .and) {rows : List Row}
    (hyields : plan.Yields tables rows) :
    ∃ all : List String, all.Perm d.aliases ∧ rows.Perm ((d.wanted tables).map
      (Combination.project (columnsOf (d.neededColumns aggregates plan.join plan.residual) all))) := by
  obtain ⟨answers, isExpired, joined, hanswers, hjoined, hrows⟩ := hyields
  have hnodup := hconsistent.nodup_aliases
  have hrun := JoinRun.of_execute hjoined
  rw [h.root_eq] at hrun
  have hgroups : ∀ g ∈ root :: others, Shows tables d.joins (d.pushedFilters plan.join)
      (d.neededColumns aggregates plan.join plan.residual) g
        (rowsOfGroup (plan.partitions.map fun p => (p, answers p)) g) := by
    intro g hg
    obtain ⟨p, hp, rfl⟩ := List.mem_map.mp (h.groups_perm.mem_iff.mp hg)
    rw [h.rowsOfGroup_eq hnodup answers hp]
    exact h.shows_partition hfirst hp (hanswers p hp)
  obtain ⟨all, hall, hshows⟩ := hrun.shows h.planFrom (hgroups root List.mem_cons_self)
    (fun g hg => hgroups g (List.mem_cons_of_mem _ hg)) (h.namesApart hconsistent)
    ((h.flatten_perm hnodup).nodup_iff.mpr hnodup) hinner fun step hstep pair hpair =>
      mem_neededColumns_of_step hstep hpair
  have hall := hall.trans (h.flatten_perm hnodup)
  have hnames := (h.namesApart hconsistent).nodup_names (hall.nodup_iff.mpr hnodup)
  refine ⟨all, hall, ?_⟩
  have hcolumns : ∀ f ∈ plan.residual,
      ⟨f.table, f.column⟩ ∈ columnsOf (d.neededColumns aggregates plan.join plan.residual) all := by
    intro f hf
    refine mem_columnsOf.mpr ⟨mem_neededColumns_of_residual hf, hall.mem_iff.mpr ?_⟩
    rw [h.residual] at hf
    exact hconsistent.declared_filter (List.mem_of_mem_filter hf)
  rw [Outcome.filterM_eq_ok hrows]
  refine (hshows.rows.filter _).trans ?_
  rw [List.filter_map, List.filter_filter]
  refine List.Perm.map _ ?_
  -- The joins and the residual filters each decide about a part of the filters; together they decide about all.
  have htest : ∀ c : Combination, (((fun row => (Row.passes plan.residual row).toOption == some true)
      ∘ Combination.project (columnsOf (d.neededColumns aggregates plan.join plan.residual) all)) c
        && c.fits d.joins (d.pushedFilters plan.join) all) = c.meets d.joins d.filters := by
    intro c
    rw [Function.comp_apply, Combination.passes_project hnames hcolumns, Bool.eq_iff_iff, Bool.and_eq_true,
      Outcome.toOption_beq_some, and_comm, h.fits_and_passes_iff hconsistent hall]
  rw [List.filter_congr fun c _ => htest c]
  exact (combinations_perm tables hall (hall.nodup_iff.mpr hnodup)).filter _

/-- Do two descriptions differ in nothing but where tables are and start, and in the order of tables and conditions? -/
structure Rearranges (d d' : Description) : Prop where
  aliases : d'.aliases.Perm d.aliases
  joins : d'.joins.Perm d.joins
  filters : d'.filters = d.filters

theorem Rearranges.wanted_perm {d d' : Description} (h : Rearranges d d') (hnodup : d.aliases.Nodup) :
    (d.wanted tables).Perm (d'.wanted tables) := by
  have hmeets : Combination.meets d.joins d.filters = Combination.meets d'.joins d'.filters := by
    funext c
    rw [Combination.meets, Combination.meets, h.filters, h.joins.all_eq]
  rw [wanted, wanted, hmeets]
  exact (combinations_perm tables h.aliases.symm hnodup).filter _

/-- Rows that show combinations show them in fewer columns as well. -/
theorem project_project {shared columns : List ColumnRef} (hnames : (columns.map (·.outputName)).Nodup)
    (hshared : shared ⊆ columns) (c : Combination) :
    Row.project (shared.map (·.outputName)) (c.project columns) = c.project shared := by
  rw [Row.project, List.map_map]
  refine congrArg Entries.ofPairs (List.map_congr_left fun column hcolumn => ?_)
  rw [Function.comp_apply, Combination.get_project hnames (hshared hcolumn)]

theorem PlannedAs.map_project_perm {root : List String} {others : List (List String)}
    (h : d.PlannedAs aggregates canJoin plan root others) (hconsistent : d.IsConsistent aggregates)
    (hinner : ∀ j ∈ d.joins, j.kind = .inner) (hfirst : ∀ f ∈ d.filters.head?, f.connective = .and) {rows : List Row}
    (hyields : plan.Yields tables rows) {shared : List ColumnRef}
    (hshared : shared ⊆ d.neededColumns aggregates plan.join plan.residual) :
    (rows.map (Row.project (shared.map (·.outputName)))).Perm ((d.wanted tables).map (Combination.project shared)) := by
  obtain ⟨all, hall, hrows⟩ := h.rows_perm hconsistent hinner hfirst hyields
  have hnames := (h.namesApart hconsistent).nodup_names (hall.nodup_iff.mpr hconsistent.nodup_aliases)
  have hshared : shared ⊆ columnsOf (d.neededColumns aggregates plan.join plan.residual) all := fun c hc =>
    (h.columnsOf_perm hconsistent hall).mem_iff.mpr (hshared hc)
  refine (hrows.map _).trans (List.Perm.of_eq ?_)
  rw [List.map_map]
  exact List.map_congr_left fun c _ => project_project hnames hshared c

/--
With inner joins only, and a condition as the first filter, a plan for several sources yields the combinations of rows
that meet all join conditions and pass the filters, in all columns that are needed. Where tables are, which one is the
first, and the order of tables and conditions make no difference to the columns that are needed either way.
-/
theorem federation_transparent {cleanup : Cleanup} (hvalid : (d.validate cleanup).isValid = true)
    (hinner : ∀ j ∈ d.joins, j.kind = .inner) (hfirst : ∀ f ∈ d.filters.head?, f.connective = .and)
    (canJoin : String → Bool) (tables : String → List Row) :
    ∃ aggregates plan, d.analyzedAggregates (d.validate cleanup).replacements = .ok aggregates
      ∧ d.federationPlan? aggregates canJoin = some plan
      ∧ ∀ rows, plan.Yields tables rows →
        (∃ columns, columns.Perm (d.neededColumns aggregates plan.join plan.residual)
            ∧ rows.Perm ((d.wanted tables).map (Combination.project columns)))
          ∧ ∀ (d' : Description) (cleanup' : Cleanup) (aggregates' : Aggregates) (canJoin' : String → Bool)
              (plan' : FederationPlan) (rows' : List Row) (shared : List ColumnRef), Rearranges d d' →
              (d'.validate cleanup').isValid = true →
              d'.analyzedAggregates (d'.validate cleanup').replacements = .ok aggregates' →
              d'.federationPlan? aggregates' canJoin' = some plan' → plan'.Yields tables rows' →
              shared ⊆ d.neededColumns aggregates plan.join plan.residual →
              shared ⊆ d'.neededColumns aggregates' plan'.join plan'.residual →
              (rows.map (Row.project (shared.map (·.outputName)))).Perm
                (rows'.map (Row.project (shared.map (·.outputName)))) := by
  have hconsistent := isConsistent_of_isValid hvalid
  obtain ⟨plan, hplan⟩ := exists_federationPlan? hconsistent.nodup_aliases hconsistent.primary_mem
    (d.aggregateFindings cleanup).analyzed canJoin
  obtain ⟨root, others, hparts⟩ := federationPlan?_eq_some hplan
  refine ⟨_, plan, analyzedAggregates_of_isValid hvalid, hplan, fun rows hyields => ⟨?_, ?_⟩⟩
  · obtain ⟨all, hall, hrows⟩ := hparts.rows_perm hconsistent hinner hfirst hyields
    exact ⟨_, hparts.columnsOf_perm hconsistent hall, hrows⟩
  · intro d' cleanup' aggregates' canJoin' plan' rows' shared hsame hvalid' haggregates' hplan' hyields' hshared hshared'
    have hconsistent' := isConsistent_of_isValid hvalid'
    rw [analyzedAggregates_of_isValid hvalid', Except.ok.injEq] at haggregates'
    subst haggregates'
    obtain ⟨root', others', hparts'⟩ := federationPlan?_eq_some hplan'
    have hinner' : ∀ j ∈ d'.joins, j.kind = .inner := fun j hj => hinner j (hsame.joins.mem_iff.mp hj)
    have hfirst' : ∀ f ∈ d'.filters.head?, f.connective = .and := hsame.filters ▸ hfirst
    have hrows := hparts.map_project_perm hconsistent hinner hfirst hyields hshared
    have hrows' := hparts'.map_project_perm hconsistent' hinner' hfirst' hyields' hshared'
    exact hrows.trans (((hsame.wanted_perm hconsistent.nodup_aliases).map _).trans hrows'.symm)

/-- Orders of one source that are for someone, with the tier they are of from another. -/
def tieredOrders : Description :=
  { tables := [⟨"o", "shop", "orders", none⟩, ⟨"t", "docs", "tiers", none⟩]
    columns := [{ table := "o", column := "n" }]
    joins := [⟨"o", "by", "t", "of", .inner⟩]
    filters := [⟨"o", "n", .isNotNull, .null, .and⟩] }

/-- Three orders, one without a number and one by nobody, and two tiers. -/
def tieredRows (aliasName : String) : List Row :=
  if aliasName = "o" then
    [[("n", .boolean true), ("by", .integer 1)], [("n", .null), ("by", .integer 1)], [("n", .boolean true), ("by", .null)]]
  else [[("of", .integer 1)], [("of", .integer 1)]]

theorem isValid_tieredOrders : (tieredOrders.validate .strip).isValid = true := by
  have hnames : ∀ c ∈ tieredOrders.mentionedColumns [], ∀ c' ∈ tieredOrders.mentionedColumns [],
      c.outputName = c'.outputName → c = c' := by decide +kernel
  rw [isValid_iff]
  exact ⟨by cbv, by cbv, by cbv, by cbv, by cbv, by cbv, nameErrors_eq_nil_iff.mpr ⟨hnames, by decide⟩, by cbv, by cbv,
    by cbv⟩

/-- The order that is by someone with each of the tiers. -/
def tieredResult : List Row :=
  [[("o_n", .boolean true), ("o_by", .integer 1), ("t_of", .integer 1)],
    [("o_n", .boolean true), ("o_by", .integer 1), ("t_of", .integer 1)]]

def planOfTieredOrders : FederationPlan :=
  { partitions := [
      { sourceId := "shop", aliases := ["o"], columns := [⟨"o", "n"⟩, ⟨"o", "by"⟩]
        filters := [⟨"o", "n", .isNotNull, .null, .and⟩] },
      { sourceId := "docs", aliases := ["t"], columns := [⟨"t", "of"⟩] }]
    join := ⟨["o"], [⟨["t"], some .inner, [⟨⟨"o", "by"⟩, ⟨"t", "of"⟩⟩], [⟨"o", "by", "t", "of", .inner⟩]⟩]⟩
    residual := [] }

theorem yields_tieredResult : planOfTieredOrders.Yields tieredRows tieredResult := by
  refine ⟨fun p => if p.sourceId = "shop" then
      [[("o_n", .boolean true), ("o_by", .integer 1)], [("o_n", .boolean true), ("o_by", .null)]]
    else [[("t_of", .integer 1)], [("t_of", .integer 1)]], false, ⟨["o_n", "o_by", "t_of"], tieredResult⟩, ?_, ?_, rfl⟩
  · simp only [planOfTieredOrders, List.forall_mem_cons]
    exact ⟨.refl _, .refl _, List.forall_mem_nil _⟩
  · cbv

/-- Two sources answer a description as one would. -/
theorem tieredOrders_transparent : (tieredOrders.validate .strip).isValid = true
    ∧ tieredOrders.federationPlan? [] (fun _ => true) = some planOfTieredOrders
    ∧ ∃ columns : List ColumnRef, columns.Perm [⟨"o", "n"⟩, ⟨"o", "by"⟩, ⟨"t", "of"⟩]
      ∧ tieredResult.Perm ((tieredOrders.wanted tieredRows).map (Combination.project columns)) := by
  have hplanned : tieredOrders.federationPlan? [] (fun _ => true) = some planOfTieredOrders := by cbv
  obtain ⟨aggregates, plan, haggregates, hplan, htransparent⟩ :=
    federation_transparent isValid_tieredOrders (by decide) (by simp [tieredOrders]) (fun _ => true) tieredRows
  obtain rfl : [] = aggregates := Except.ok.inj haggregates
  obtain rfl := Option.some.inj (hplanned.symm.trans hplan)
  exact ⟨isValid_tieredOrders, hplanned, (htransparent tieredResult yields_tieredResult).1⟩

end Description

end QueryFederation

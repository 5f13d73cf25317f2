import QueryFederation.Federation.Plan
import QueryFederation.Proofs.Compilation.Sql
import QueryFederation.Result.Materialization

/-!
# Labels and columns that are only referred to

The label of a column is for those who read the result, and a column that is not selected is only there to be checked.
Neither may tell in what a query does. Most of a query is built from the selected columns without their labels. Filters
on results and the order are not: they look their names up among all columns. In a valid description that finds the
same, for columns that share a name are equal, and an aggregate never has the name of a column that is only referred to.
-/

namespace QueryFederation

/-- What is found in a list is found in a part of it, if that has one of what is sought and all of these are equal. -/
theorem find?_eq_of_subset {α : Type} {part items : List α} {p : α → Bool} (hsubset : part ⊆ items)
    (hunique : ∀ a ∈ items, ∀ b ∈ items, p a = true → p b = true → a = b)
    (hfound : ∀ a ∈ items, p a = true → ∃ b ∈ part, p b = true) : part.find? p = items.find? p := by
  cases hitems : items.find? p with
  | none => exact List.find?_eq_none.mpr fun a ha => List.find?_eq_none.mp hitems a (hsubset ha)
  | some a =>
    have hmem := List.mem_of_find?_eq_some hitems
    cases hpart : part.find? p with
    | none =>
      obtain ⟨b, hb, hpb⟩ := hfound a hmem (List.find?_some hitems)
      exact absurd hpb (List.find?_eq_none.mp hpart b hb)
    | some b =>
      rw [hunique b (hsubset (List.mem_of_find?_eq_some hpart)) a hmem (List.find?_some hpart) (List.find?_some hitems)]

def OutputColumn.unlabelled (c : OutputColumn) : OutputColumn := { c with label := none }

/-- The query without the labels that its columns carry. -/
def SourceQuery.unlabelled (q : SourceQuery) : SourceQuery := { q with columns := q.columns.map (·.unlabelled) }

namespace Description

/-- The selected columns alone, each under the label that its place is given. -/
def shownAs (d : Description) (labels : Nat → Option String) : Description :=
  { d with columns := d.selectedColumns.zipIdx.map fun (c, i) => { c with label := labels i } }

variable {d : Description} {cleanup : Cleanup} {labels : Nat → Option String} {aggregates : Aggregates}

/-! ### What is left of the columns -/

theorem selectedColumns_shownAs : (d.shownAs labels).selectedColumns = (d.shownAs labels).columns := by
  refine List.filter_eq_self.mpr fun c hc => ?_
  obtain ⟨⟨c, i⟩, hmem, rfl⟩ := List.mem_map.mp hc
  exact (List.mem_filter.mp (List.fst_mem_of_mem_zipIdx hmem)).2

theorem columns_shownAs : (d.shownAs labels).columns.map (·.toColumnRef) = d.selectedColumns.map (·.toColumnRef) := by
  have hunlabelled : (d.shownAs labels).columns.map (·.toColumnRef)
      = (d.selectedColumns.zipIdx.map Prod.fst).map (·.toColumnRef) := by
    rw [shownAs, List.map_map, List.map_map]
    rfl
  rw [hunlabelled, List.zipIdx_map_fst]

/-- Whatever is read off the selected columns without their labels is the same. -/
theorem map_selectedColumns_shownAs {α : Type} (f : ColumnRef → α) :
    (d.shownAs labels).selectedColumns.map (fun c => f c.toColumnRef)
      = d.selectedColumns.map fun c => f c.toColumnRef := by
  have hcolumns : ((d.shownAs labels).columns.map (·.toColumnRef)).map f
      = (d.selectedColumns.map (·.toColumnRef)).map f := by
    rw [columns_shownAs]
  rwa [List.map_map, List.map_map, ← selectedColumns_shownAs] at hcolumns

@[simp] theorem outputNames_shownAs : (d.shownAs labels).outputNames = d.outputNames :=
  congrArg (· ++ _) (map_selectedColumns_shownAs (·.outputName))

theorem referredColumns_shownAs_subset : (d.shownAs labels).referredColumns ⊆ d.referredColumns := by
  have hcolumns : (d.shownAs labels).columns.map (·.toColumnRef) ⊆ d.columns.map (·.toColumnRef) := by
    rw [columns_shownAs]
    exact List.map_subset _ List.filter_sublist.subset
  intro c hc
  simp only [referredColumns, List.mem_append] at hc ⊢
  exact hc.imp_left (Or.imp_left (Or.imp_left fun hmem => hcolumns hmem))

theorem mentionedColumns_shownAs_subset :
    (d.shownAs labels).mentionedColumns aggregates ⊆ d.mentionedColumns aggregates := fun _ hc =>
  List.mem_append.mpr ((List.mem_append.mp hc).imp_left fun hreferred => referredColumns_shownAs_subset hreferred)

/-! ### Validation -/

theorem isValid_shownAs (h : (d.validate cleanup).isValid = true) :
    ((d.shownAs labels).validate cleanup).isValid = true := by
  obtain ⟨haliases, hreferences, hjoins, hfilters, haggregates, houtput, hnames, hgroup, hhaving, horder⟩ :=
    isValid_iff.mp h
  have hselected : (d.shownAs labels).selectedColumns.map (·.outputName) = d.selectedColumns.map (·.outputName) :=
    map_selectedColumns_shownAs (·.outputName)
  rw [isValid_iff]
  refine ⟨haliases, ?_, hjoins, hfilters, haggregates, ?_, ?_, ?_, ?_, ?_⟩
  · rw [referenceErrors_eq_nil_iff] at hreferences ⊢
    exact ⟨fun c hc => hreferences.1 c (referredColumns_shownAs_subset hc), hreferences.2⟩
  · rwa [outputErrors, outputNames_shownAs]
  · rw [nameErrors_eq_nil_iff] at hnames ⊢
    refine ⟨fun c hc c' hc' => ?_, fun a ha hname => ?_⟩
    · exact hnames.1 c (mentionedColumns_shownAs_subset hc) c' (mentionedColumns_shownAs_subset hc')
    · rw [hselected]
      exact hnames.2 a ha (List.map_subset _ mentionedColumns_shownAs_subset hname)
  · rw [groupErrors_eq_nil_iff] at hgroup ⊢
    rwa [hselected]
  · rwa [havingErrors, outputNames_shownAs]
  · rwa [orderErrors, outputNames_shownAs]

/-! ### Names on results -/

/-- A name that the result can have stands for the same column, if it stands for one. -/
theorem outputTerm?_shownAs (hnames : d.nameErrors aggregates = []) {terms : Entries Sql.Term} {name : String}
    (hname : name ∈ d.outputNames ++ d.groupedNames) :
    (d.shownAs labels).outputTerm? terms name = d.outputTerm? terms name := by
  obtain ⟨hunique, haliases⟩ := nameErrors_eq_nil_iff.mp hnames
  have hmentioned : d.groupBy ++ d.columns.map (·.toColumnRef) ⊆ d.mentionedColumns aggregates := by
    intro c hc
    simp only [mentionedColumns, referredColumns, List.mem_append] at hc ⊢
    tauto
  have hfind : ((d.shownAs labels).groupBy ++ (d.shownAs labels).columns.map (·.toColumnRef)).find?
      (fun c => c.outputName = name)
        = (d.groupBy ++ d.columns.map (·.toColumnRef)).find? fun c => c.outputName = name := by
    rw [columns_shownAs]
    refine find?_eq_of_subset ?_ ?_ ?_
    · exact (List.Sublist.append_left (List.filter_sublist.map _) _).subset
    · intro a ha b hb hnamea hnameb
      exact hunique a (hmentioned ha) b (hmentioned hb)
        ((of_decide_eq_true hnamea).trans (of_decide_eq_true hnameb).symm)
    · intro a ha hnamea
      have hkept : name ∈ d.selectedColumns.map (·.outputName) ∨ name ∈ d.groupedNames := by
        rw [outputNames, List.mem_append, List.mem_append] at hname
        rcases hname with (hselected | halias) | hgrouped
        · exact Or.inl hselected
        · obtain ⟨aggregate, haggregate, rfl⟩ := List.mem_map.mp halias
          exact Or.inl (haliases aggregate haggregate
            (List.mem_map.mpr ⟨a, hmentioned ha, of_decide_eq_true hnamea⟩))
        · exact Or.inr hgrouped
      rcases hkept with hkept | hkept
      · obtain ⟨c, hc, rfl⟩ := List.mem_map.mp hkept
        exact ⟨c.toColumnRef, List.mem_append_right _ (List.mem_map_of_mem hc), decide_eq_true rfl⟩
      · obtain ⟨g, hg, rfl⟩ := List.mem_map.mp hkept
        exact ⟨g, List.mem_append_left _ hg, decide_eq_true rfl⟩
  rw [outputTerm?, outputTerm?, hfind]

/-- Apart from their labels, the columns of the result are the same. -/
theorem unlabelled_outputColumns_shownAs (names : List String) :
    ((d.shownAs labels).outputColumns names).map (·.unlabelled) = (d.outputColumns names).map (·.unlabelled) := by
  let named (c : ColumnRef) : OutputColumn := { name := c.outputName, table := some c.table, column := some c.column }
  simp only [outputColumns, List.map_append, List.map_map]
  exact congrArg (· ++ _) (map_selectedColumns_shownAs named)

theorem isEmpty_outputColumns_shownAs (names : List String) :
    ((d.shownAs labels).outputColumns names).isEmpty = (d.outputColumns names).isEmpty := by
  have hlength : (((d.shownAs labels).outputColumns names).map (·.unlabelled)).length
      = ((d.outputColumns names).map (·.unlabelled)).length := by
    rw [unlabelled_outputColumns_shownAs]
  rw [List.length_map, List.length_map] at hlength
  rw [Bool.eq_iff_iff, List.isEmpty_iff_length_eq_zero, List.isEmpty_iff_length_eq_zero, hlength]

variable (h : (d.validate cleanup).isValid = true)

include h

theorem havingCondition_shownAs (terms : Entries Sql.Term) :
    (d.shownAs labels).havingCondition terms = d.havingCondition terms := by
  obtain ⟨-, -, -, -, -, houtput, hnames, -, hhaving, -⟩ := isValid_iff.mp h
  have hkeys := keys_of_analyzedAggregates (nodup_of_outputErrors_eq_nil houtput) (analyzedAggregates_of_isValid h)
  refine Outcome.foldlM_congr (fun predicate hpredicate before => ?_) none
  have hname : predicate.target ∈ d.outputNames ++ d.groupedNames := by
    rcases List.mem_append.mp (mem_of_havingErrors_eq_nil hhaving hpredicate) with hmem | hmem
    · exact hmem
    · rw [hkeys] at hmem
      exact List.mem_append_left _ (List.mem_append_right _ hmem)
  rw [outputTerm?_shownAs hnames hname]

theorem order_shownAs (terms : Entries Sql.Term) : (d.shownAs labels).order terms = d.order terms := by
  obtain ⟨-, -, -, -, -, -, hnames, -, -, horder⟩ := isValid_iff.mp h
  refine Outcome.mapM_congr fun o ho => ?_
  have hname : o.target ∈ d.outputNames ++ d.groupedNames :=
    List.mem_append.mpr ((mem_of_orderErrors_eq_nil horder ho).imp_right And.right)
  rw [outputTerm?_shownAs hnames hname]

/-! ### Compiled queries and plans -/

theorem select_shownAs (dialect : Dialect) (terms : Entries Sql.Term) (plan : JoinPlan) :
    (d.shownAs labels).select dialect terms plan = d.select dialect terms plan := by
  rw [select, select, havingCondition_shownAs h, order_shownAs h,
    map_selectedColumns_shownAs fun c => Sql.Term.named c.term c.outputName]
  rfl

theorem unlabelled_compileSql_shownAs (dialectName : String) (replacements : Entries String) :
    ((d.shownAs labels).compileSql dialectName replacements).map (·.unlabelled)
      = (d.compileSql dialectName replacements).map (·.unlabelled) := by
  have hsources : (d.shownAs labels).sourceIds = d.sourceIds := rfl
  have hresolved : (d.shownAs labels).resolvedAggregates replacements = d.resolvedAggregates replacements := rfl
  have hplan : (d.shownAs labels).tablePlan? = d.tablePlan? := rfl
  rw [compileSql, compileSql, hsources, hresolved, hplan]
  rcases d.sourceIds with _ | ⟨sourceId, _ | ⟨_, _⟩⟩
  case cons.nil =>
    cases Dialect.ofName dialectName with
    | error e => rfl
    | ok dialect =>
      refine map_bind_congr fun dialect => map_bind_congr fun resolved => ?_
      simp only [select_shownAs h, isEmpty_outputColumns_shownAs]
      cases (d.outputColumns resolved.keys).isEmpty with
      | true => rfl
      | false =>
        cases d.tablePlan? with
        | none => rfl
        | some plan =>
          refine map_bind_congr fun written => ?_
          simp only [pure, Except.pure, Except.map, SourceQuery.unlabelled, unlabelled_outputColumns_shownAs]
  all_goals rfl

omit h

theorem unlabelled_compilePipeline_shownAs (replacements : Entries String) :
    ((d.shownAs labels).compilePipeline replacements).map (·.unlabelled)
      = (d.compilePipeline replacements).map (·.unlabelled) := by
  have hproject : (d.shownAs labels).projectStage = d.projectStage := by
    rw [projectStage, map_selectedColumns_shownAs fun c => (c.outputName, Document.fieldPath c.column)]
    rfl
  have htables : (d.shownAs labels).tables = d.tables := rfl
  have hjoins : (d.shownAs labels).joins = d.joins := rfl
  have hgroup : (d.shownAs labels).groupBy = d.groupBy := rfl
  have hfilters : (d.shownAs labels).filters = d.filters := rfl
  have hanalyzed : (d.shownAs labels).analyzedAggregates replacements = d.analyzedAggregates replacements := rfl
  rw [compilePipeline, compilePipeline, htables, hjoins, hproject, hfilters, hanalyzed, hgroup]
  rcases d.tables with _ | ⟨table, _ | ⟨_, _⟩⟩
  case cons.nil =>
    rcases d.joins with _ | ⟨_, _⟩
    · refine map_bind_congr fun condition => map_bind_congr fun analyzed => ?_
      cases List.isEmpty analyzed && d.groupBy.isEmpty with
      | true =>
        refine map_bind_congr fun stages => map_bind_congr fun having => ?_
        simp only [pure, Except.pure, Except.map, SourceQuery.unlabelled, unlabelled_outputColumns_shownAs]
        rfl
      | false =>
        refine map_bind_congr fun accumulations => map_bind_congr fun stages => map_bind_congr fun having => ?_
        simp only [pure, Except.pure, Except.map, SourceQuery.unlabelled, unlabelled_outputColumns_shownAs]
        rfl
    · rfl
  all_goals rfl

theorem federationPlan?_shownAs (aggregates : Aggregates) (canJoin : String → Bool) :
    (d.shownAs labels).federationPlan? aggregates canJoin = d.federationPlan? aggregates canJoin := by
  have hneeded : ∀ plan residual, (d.shownAs labels).neededColumns aggregates plan residual
      = d.neededColumns aggregates plan residual := by
    intro plan residual
    rw [neededColumns, selectedColumns_shownAs, columns_shownAs]
    rfl
  simp only [federationPlan?, hneeded]
  rfl

theorem materialize_shownAs (aggregates : Aggregates) (order : List String) (residual : List FilterPredicate)
    (rows : List Row) :
    (d.shownAs labels).materialize aggregates order residual rows = d.materialize aggregates order residual rows := by
  have hgroup : (d.shownAs labels).groupRow aggregates order = d.groupRow aggregates order := by
    funext members
    rw [groupRow, map_selectedColumns_shownAs (·.outputName)]
    rfl
  simp only [materialize, groupedRows, hgroup, outputNames_shownAs]
  rfl

/--
A valid description that is left with its selected columns, under any labels, stays valid with the same replacements.
Apart from the labels of its columns its statement in every dialect and its pipeline are the same, and so are its
aggregates, the plan, whichever sources can join, and the rows of the result; what fails fails as before.
-/
theorem shownAs_tells_nothing (h : (d.validate cleanup).isValid = true) (labels : Nat → Option String) :
    ((d.shownAs labels).validate cleanup).isValid = true
      ∧ ((d.shownAs labels).validate cleanup).replacements = (d.validate cleanup).replacements
      ∧ (∀ dialectName replacements, ((d.shownAs labels).compileSql dialectName replacements).map (·.unlabelled)
        = (d.compileSql dialectName replacements).map (·.unlabelled))
      ∧ (∀ replacements, ((d.shownAs labels).compilePipeline replacements).map (·.unlabelled)
        = (d.compilePipeline replacements).map (·.unlabelled))
      ∧ (∀ replacements, (d.shownAs labels).analyzedAggregates replacements = d.analyzedAggregates replacements)
      ∧ (∀ aggregates canJoin,
        (d.shownAs labels).federationPlan? aggregates canJoin = d.federationPlan? aggregates canJoin)
      ∧ ∀ aggregates order residual rows, (d.shownAs labels).materialize aggregates order residual rows
        = d.materialize aggregates order residual rows :=
  ⟨isValid_shownAs h, rfl, unlabelled_compileSql_shownAs h, unlabelled_compilePipeline_shownAs, fun _ => rfl,
    federationPlan?_shownAs, materialize_shownAs⟩

/-- How often buyers have ordered, the last of them first; the orders themselves are only referred to. -/
def frequentBuyers : Description where
  tables := [⟨"o", "shop", "orders", none⟩]
  columns := [{ table := "o", column := "id", isSelected := false },
    { table := "o", column := "by", label := some "Buyer" }]
  groupBy := [⟨"o", "by"⟩]
  aggregates := [⟨"COUNT(o.id)", "n"⟩]
  having := [⟨"n", .gt, .integer 1, .and⟩]
  orderBy := [⟨"o_by", true⟩]

open Expression in
/-- The aggregates of `frequentBuyers`. -/
def frequentBuyersAggregates : Aggregates :=
  [("n", .ofTree "n" ["n"] (aggregate .count [column [⟨"o", false⟩] ⟨"id", false⟩]))]

theorem isValid_frequentBuyers : (frequentBuyers.validate .reject).isValid = true := by
  have hfold : frequentBuyers.allAggregates.zipIdx.foldl (AggregateFindings.check .reject
      (frequentBuyers.allAggregates.map (·.aliasName)) frequentBuyers.aliases) {}
        = { analyzed := frequentBuyersAggregates } := by
    change AggregateFindings.check .reject ["n"] ["o"] {} (⟨"COUNT(o.id)", "n"⟩, 0) = _
    rw [AggregateFindings.check_of_accepts _ (by decide) hasBrackets_orderCount (accepts_orderCount _ (by decide))]
    rfl
  have horder : frequentBuyersAggregates.dependencyOrder = .ok ["n"] := by cbv
  have hfindings : frequentBuyers.aggregateFindings .reject = { analyzed := frequentBuyersAggregates } := by
    rw [aggregateFindings]
    simp only [hfold, horder]
  have hnames : frequentBuyers.nameErrors frequentBuyersAggregates = [] :=
    nameErrors_eq_nil_iff.mpr ⟨by decide_cbv, by decide⟩
  rw [isValid_iff, hfindings]
  exact ⟨by cbv, by cbv, by cbv, by cbv, rfl, by cbv, hnames, by cbv, by cbv, by cbv⟩

/-- Buyers under another label, and without the orders, are the same buyers: one has ordered twice. -/
theorem frequentBuyers_shownAs : (frequentBuyers.validate .reject).isValid = true
    ∧ (frequentBuyers.shownAs fun _ => some "Kunde").columns
      = [{ table := "o", column := "by", label := some "Kunde" }]
    ∧ ((frequentBuyers.shownAs fun _ => some "Kunde").validate .reject).isValid = true
    ∧ ((frequentBuyers.shownAs fun _ => some "Kunde").materialize frequentBuyersAggregates ["n"] []
      [[("o_id", .integer 1), ("o_by", .integer 7)], [("o_id", .integer 2), ("o_by", .integer 8)],
        [("o_id", .integer 3), ("o_by", .integer 7)]]).toOption.map (·.map (·.keys)) = some [["o_by", "n"]] := by
  obtain ⟨hvalid, -, -, -, -, -, hrows⟩ := shownAs_tells_nothing isValid_frequentBuyers fun _ => some "Kunde"
  refine ⟨isValid_frequentBuyers, by decide, hvalid, ?_⟩
  rw [hrows]
  decide +kernel

end Description

end QueryFederation

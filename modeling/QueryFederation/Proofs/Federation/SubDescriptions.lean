import QueryFederation.Proofs.Compilation.Pipeline
import QueryFederation.Proofs.Federation.Keys

/-!
# Descriptions of partitions

A partition is asked by a description of its own, which the engine does not validate again. It need not: every check
that the whole description has passed is passed by this one, because its tables, conditions and filters are some of the
whole's, its columns are mentioned there, and its tables are connected by its conditions, so there is nothing to warn of
either. A description that is valid compiles to a statement, and for a single table to a pipeline unless it looks for a
pattern that has no text.
-/

namespace QueryFederation

namespace Description

variable {d : Description} {aggregates : Aggregates} {canJoin : String → Bool} {plan : FederationPlan}
  {cleanup : Cleanup} {p : Partition}

/-- What a partition has of a description. -/
structure HasPart (d : Description) (aggregates : Aggregates) (p : Partition) : Prop where
  ne_nil : p.aliases ≠ []
  subset : p.aliases ⊆ d.aliases
  sourceId : ∀ t ∈ d.tables, t.aliasName ∈ p.aliases → t.sourceId = p.sourceId
  joins : p.joins = d.joins.filter (·.isWithin p.aliases)
  connected : ∀ a ∈ p.aliases, ∀ b ∈ p.aliases, Reaches p.joins a b
  filters : ∀ f ∈ p.filters, f ∈ d.filters ∧ f.table ∈ p.aliases
  columns : ∀ c ∈ p.columns, c ∈ d.mentionedColumns aggregates ∧ c.table ∈ p.aliases
  nodup_names : p.outputNames.Nodup

theorem PlannedAs.hasPart {root : List String} {others : List (List String)}
    (h : d.PlannedAs aggregates canJoin plan root others) (hconsistent : d.IsConsistent aggregates)
    (hp : p ∈ plan.partitions) : d.HasPart aggregates p := by
  have hnodup := hconsistent.nodup_aliases
  have hsubset : p.aliases ⊆ d.aliases := fun aliasName hmem =>
    (h.flatMap_aliases_perm hnodup).mem_iff.mp (List.mem_flatMap.mpr ⟨p, hp, hmem⟩)
  have hnames := h.nodup_outputNames hconsistent
  rw [List.flatMap_def] at hnames
  refine ⟨h.aliases_ne_nil hp, hsubset, ?_, h.joins_eq hp, ?_, fun f hf => ?_, fun c hc => ?_,
    hnames.sublist (List.sublist_flatten_of_mem (List.mem_map_of_mem hp))⟩
  · obtain ⟨q, hq, rfl⟩ := h.exists_of_mem hp
    exact fun t ht hmem => sourceId_of_mem_partitions hnodup hq ht hmem
  · obtain ⟨q, hq, rfl⟩ := h.exists_of_mem hp
    exact fun a ha b hb => reaches_joins_of_mem_partitions hnodup hq ha hb
  · rw [h.filters_eq hp] at hf
    obtain ⟨aliasName, hmem, hf⟩ := List.mem_flatMap.mp hf
    obtain ⟨hf, htable⟩ := List.mem_filter.mp hf
    exact ⟨List.mem_of_mem_filter hf, of_decide_eq_true htable ▸ hmem⟩
  · rw [h.columns_eq hp] at hc
    obtain ⟨hneeded, htable⟩ := mem_columnsOf.mp hc
    exact ⟨h.neededColumns_subset hneeded, htable⟩

theorem aliases_subDescription (d : Description) (p : Partition) :
    (p.subDescription d).aliases = d.aliases.filter p.aliases.contains := by
  rw [aliases, Partition.subDescription, aliases, List.filter_map]
  rfl

theorem selectedColumns_subDescription (d : Description) (p : Partition) :
    (p.subDescription d).selectedColumns.map (·.toColumnRef) = p.columns := by
  simp [selectedColumns, Partition.subDescription, List.filter_map, Function.comp_def]

theorem outputNames_subDescription (d : Description) (p : Partition) :
    (p.subDescription d).outputNames = p.outputNames := by
  rw [Partition.outputNames, ← selectedColumns_subDescription d p, List.map_map]
  exact List.append_nil _

/-- There are no aggregates, so nothing is found of them. -/
theorem aggregateFindings_subDescription (d : Description) (p : Partition) (cleanup : Cleanup) :
    (p.subDescription d).aggregateFindings cleanup = {} := by
  rfl

namespace HasPart

variable (h : d.HasPart aggregates p)

include h

theorem mem_aliases {aliasName : String} : aliasName ∈ (p.subDescription d).aliases ↔ aliasName ∈ p.aliases := by
  rw [aliases_subDescription, List.mem_filter, List.contains_iff_mem]
  exact ⟨And.right, fun hmem => ⟨h.subset hmem, hmem⟩⟩

theorem aliases_perm (hnodup : d.aliases.Nodup) (hnodup' : p.aliases.Nodup) :
    (p.subDescription d).aliases.Perm p.aliases := by
  rw [List.perm_ext_iff_of_nodup _ hnodup']
  · exact fun _ => h.mem_aliases
  · rw [aliases_subDescription]
    exact hnodup.filter _

/-- The first table of a partition is the one its description starts from. -/
theorem primary_subDescription_mem (hidentifiers : ∀ aliasName ∈ d.aliases, isIdentifier aliasName = true) :
    (p.subDescription d).primary ∈ p.aliases := by
  cases haliases : p.aliases with
  | nil => exact absurd haliases h.ne_nil
  | cons first others =>
    have hfirst := hidentifiers first (h.subset (haliases ▸ List.mem_cons_self))
    rw [primary, Partition.subDescription, haliases, List.head?_cons]
    split
    · rename_i heq
      cases heq
      cases hfirst
    · rename_i heq
      cases heq
    · rename_i heq
      cases heq
      exact List.mem_cons_self

theorem aliasErrors_subDescription (hvalid : d.aliasErrors = []) : (p.subDescription d).aliasErrors = [] := by
  obtain ⟨hidentifiers, hnodup, -⟩ := aliasErrors_eq_nil_iff.mp hvalid
  refine aliasErrors_eq_nil_iff.mpr ⟨fun aliasName hmem => ?_, ?_, ?_⟩
  · exact hidentifiers aliasName (h.subset (h.mem_aliases.mp hmem))
  · rw [aliases_subDescription]
    exact hnodup.filter _
  · exact h.mem_aliases.mpr (h.primary_subDescription_mem hidentifiers)

theorem joins_subset : p.joins ⊆ d.joins := by
  rw [h.joins]
  exact List.filter_sublist.subset

/-- What the description of a partition mentions is mentioned by the whole, and of a table of the partition. -/
theorem mentioned_of_mem_referredColumns {c : ColumnRef} (hc : c ∈ (p.subDescription d).referredColumns) :
    c ∈ d.mentionedColumns aggregates ∧ c.table ∈ p.aliases := by
  have hreferred : (p.subDescription d).referredColumns = p.columns ++ p.filters.map (fun f => ⟨f.table, f.column⟩)
      ++ p.joins.flatMap fun j => [⟨j.leftTable, j.leftColumn⟩, ⟨j.rightTable, j.rightColumn⟩] := by
    simp [referredColumns, Partition.subDescription, Function.comp_def]
  rw [hreferred, List.mem_append, List.mem_append] at hc
  rcases hc with (hc | hc) | hc
  · exact h.columns c hc
  · obtain ⟨f, hf, rfl⟩ := List.mem_map.mp hc
    obtain ⟨hmem, htable⟩ := h.filters f hf
    simp only [mentionedColumns, referredColumns, List.mem_append, List.mem_map]
    exact ⟨Or.inl (Or.inl (Or.inr ⟨f, hmem, rfl⟩)), htable⟩
  · obtain ⟨j, hj, hc⟩ := List.mem_flatMap.mp hc
    simp only [mentionedColumns, referredColumns, List.mem_append, List.mem_flatMap]
    refine ⟨Or.inl (Or.inr ⟨j, h.joins_subset hj, hc⟩), ?_⟩
    rw [h.joins, List.mem_filter, JoinCondition.isWithin_iff] at hj
    simp only [List.mem_cons, List.not_mem_nil, or_false] at hc
    rcases hc with rfl | rfl
    · exact hj.2.1
    · exact hj.2.2

theorem referenceErrors_subDescription : (p.subDescription d).referenceErrors = [] := by
  refine referenceErrors_eq_nil_iff.mpr ⟨fun c hc => ?_, List.forall_mem_nil _⟩
  exact h.mem_aliases.mpr (h.mentioned_of_mem_referredColumns hc).2

theorem joinErrors_subDescription (hvalid : d.joinErrors = []) : (p.subDescription d).joinErrors = [] := by
  obtain ⟨hends, hkinds⟩ := joinErrors_eq_nil_iff.mp hvalid
  exact joinErrors_eq_nil_iff.mpr ⟨fun j hj => hends j (h.joins_subset hj),
    fun j hj j' hj' => hkinds j (h.joins_subset hj) j' (h.joins_subset hj')⟩

theorem filterErrors_subDescription (hvalid : d.filterErrors = []) : (p.subDescription d).filterErrors = [] := by
  obtain ⟨hvalues, -⟩ := filterErrors_eq_nil_iff.mp hvalid
  exact filterErrors_eq_nil_iff.mpr ⟨fun f hf => hvalues f (h.filters f hf).1, List.forall_mem_nil _⟩

theorem outputErrors_subDescription : (p.subDescription d).outputErrors = [] := by
  rw [outputErrors, outputNames_subDescription, repeated_eq_nil_of_nodup h.nodup_names]
  rfl

theorem nameErrors_subDescription (hconsistent : d.IsConsistent aggregates) :
    (p.subDescription d).nameErrors [] = [] := by
  refine nameErrors_eq_nil_iff.mpr ⟨fun c hc c' hc' => ?_, List.forall_mem_nil _⟩
  rw [mentionedColumns, readColumns, List.flatMap_nil, List.append_nil] at hc hc'
  exact hconsistent.eq_of_name c (h.mentioned_of_mem_referredColumns hc).1 c' (h.mentioned_of_mem_referredColumns hc').1

theorem hasGraph_subDescription (hvalid : d.aliasErrors = []) : (p.subDescription d).HasGraph := by
  obtain ⟨-, hnodup, hprimary⟩ := aliasErrors_eq_nil_iff.mp (h.aliasErrors_subDescription hvalid)
  refine ⟨hnodup, hprimary, fun j hj => ?_⟩
  have hdeclared := (referenceErrors_eq_nil_iff.mp h.referenceErrors_subDescription).1
  have hmem : ∀ c ∈ [ColumnRef.mk j.leftTable j.leftColumn, ⟨j.rightTable, j.rightColumn⟩],
      c ∈ (p.subDescription d).referredColumns := fun c hc =>
    List.mem_append_right _ (List.mem_flatMap.mpr ⟨j, hj, hc⟩)
  exact ⟨hdeclared _ (hmem _ List.mem_cons_self), hdeclared _ (hmem _ (List.mem_cons_of_mem _ List.mem_cons_self))⟩

/-- The tables of a partition are connected by the conditions that it has. -/
theorem reaches_subDescription : ∀ a ∈ (p.subDescription d).aliases, ∀ b ∈ (p.subDescription d).aliases,
    Reaches (p.subDescription d).joins a b :=
  fun a ha b hb => h.connected a (h.mem_aliases.mp ha) b (h.mem_aliases.mp hb)

theorem sourceIds_subDescription : (p.subDescription d).sourceIds = [p.sourceId] := by
  refine distinctItems_eq_singleton ?_ ?_
  · obtain ⟨aliasName, hmem⟩ := List.exists_mem_of_ne_nil _ h.ne_nil
    obtain ⟨t, ht, -⟩ := List.mem_map.mp (h.mem_aliases.mpr hmem)
    exact List.ne_nil_of_mem (List.mem_map_of_mem ht)
  · intro sourceId hsource
    obtain ⟨t, ht, rfl⟩ := List.mem_map.mp hsource
    obtain ⟨hmem, hpart⟩ := List.mem_filter.mp ht
    exact h.sourceId t hmem (List.contains_iff_mem.mp hpart)

end HasPart

/-- The description of a partition passes every check of a description that has passed them. -/
theorem HasPart.validate_subDescription (hvalid : (d.validate cleanup).isValid = true)
    (h : d.HasPart (d.aggregateFindings cleanup).analyzed p) (cleanup' : Cleanup) :
    (p.subDescription d).validate cleanup' = .clean := by
  obtain ⟨haliases, -, hjoins, hfilters, -⟩ := isValid_iff.mp hvalid
  have hgraph := (h.hasGraph_subDescription haliases).graphWarnings_eq_nil h.reaches_subDescription
  rw [validate, aggregateFindings_subDescription, h.aliasErrors_subDescription haliases,
    h.referenceErrors_subDescription, h.joinErrors_subDescription hjoins, h.filterErrors_subDescription hfilters,
    h.outputErrors_subDescription, h.nameErrors_subDescription (isConsistent_of_isValid hvalid), hgraph]
  rfl

/-! ### Queries to partitions -/

section

variable (hvalid : (d.validate cleanup).isValid = true) (h : d.HasPart (d.aggregateFindings cleanup).analyzed p)

include hvalid h

/-- The statement for a partition crosses nothing and has the columns of the partition. -/
theorem HasPart.exists_compileSql (hne : p.columns ≠ []) {name : String} {dialect : Dialect}
    (hdialect : Dialect.ofName name = .ok dialect) (hfull : dialect.capabilities.fullJoin = true) :
    ∃ q, (p.subDescription d).compileSql name [] = .ok q ∧ .crossJoin ∉ q.flags ∧ q.outputNames = p.outputNames := by
  have hclean := h.validate_subDescription hvalid .strip
  have hsub : ((p.subDescription d).validate .strip).isValid = true := by rw [hclean]; rfl
  have hgraph := (isConsistent_of_isValid hsub).hasGraph
  obtain ⟨plan, hplan, hfollows⟩ := hgraph.exists_tablePlan?
  have hwithin : ¬(p.subDescription d).IsBeyond dialect plan := by
    rintro (⟨hcolumns, -⟩ | ⟨-, hlacks⟩)
    · apply hne
      rw [← selectedColumns_subDescription d p, hcolumns, List.map_nil]
    · rw [hfull] at hlacks
      cases hlacks
  obtain ⟨q, hcompiled⟩ := (exists_compileSql_iff hsub h.sourceIds_subDescription hdialect hplan).mpr hwithin
  have hnames := outputNames_of_compileSql hsub hcompiled
  rw [outputNames_subDescription] at hnames
  rw [hclean] at hcompiled
  refine ⟨q, hcompiled, fun hcross => ?_, hnames⟩
  have hwarns : (p.subDescription d).WarnsDisconnected .strip :=
    (hgraph.crossJoin_mem_iff (compiledFrom_of_compileSql hcompiled).markedBy).mp hcross
  have hone := hgraph.length_components_le_one h.reaches_subDescription
  exact absurd ((warnsDisconnected_iff hgraph.nodup).mp hwarns) (Nat.not_lt.mpr hone)

/-- A partition of one table has no conditions. -/
theorem HasPart.exists_isSelectionOf {aliasName : String} (hsingle : p.aliases = [aliasName]) :
    ∃ table, (p.subDescription d).IsSelectionOf table := by
  have hconsistent := isConsistent_of_isValid hvalid
  have haliases := h.aliases_perm hconsistent.nodup_aliases (hsingle ▸ List.nodup_singleton aliasName)
  rw [hsingle, List.perm_singleton, aliases, List.map_eq_singleton_iff] at haliases
  obtain ⟨table, htable, -⟩ := haliases
  have hjoins : p.joins = [] := by
    rw [h.joins, List.filter_eq_nil_iff]
    intro j hj hwithin
    rw [hsingle, JoinCondition.isWithin_iff, List.mem_singleton, List.mem_singleton] at hwithin
    exact hconsistent.ends_differ j hj (hwithin.1.trans hwithin.2.symm)
  exact ⟨table, htable, hjoins, rfl, rfl, rfl⟩

/-- A partition of one table has a pipeline with its columns, if the patterns it looks for have texts. -/
theorem HasPart.exists_pipeline_iff {aliasName : String} (hsingle : p.aliases = [aliasName]) :
    (∃ q, (p.subDescription d).compilePipeline [] = .ok q ∧ q.flags = [] ∧ q.outputNames = p.outputNames)
      ↔ ∀ f ∈ p.filters, f.operator.isPattern = true → ∃ text, Document.patternText f.value = .ok text := by
  obtain ⟨-, -, -, hfilters, -⟩ := isValid_iff.mp hvalid
  obtain ⟨table, hselection⟩ := h.exists_isSelectionOf hvalid hsingle
  obtain ⟨hvalues, -⟩ := filterErrors_eq_nil_iff.mp (h.filterErrors_subDescription hfilters)
  have hnames : (p.subDescription d).selectedColumns.map (·.outputName) = p.outputNames := by
    rw [Partition.outputNames, ← selectedColumns_subDescription d p, List.map_map]
    rfl
  have hiff := hselection.exists_pipeline_iff hvalues
  rw [hnames] at hiff
  exact hiff

end

/--
The description of every partition with columns is valid without a warning and names one source. It compiles to a
statement in every dialect that has full joins; for a single table it compiles to a pipeline exactly if the patterns that
its filters look for have texts. Nothing is crossed, and the answers have the columns of the partition.
-/
theorem subDescriptions_compile (h : (d.validate cleanup).isValid = true) (canJoin : String → Bool) :
    ∃ aggregates plan, d.analyzedAggregates (d.validate cleanup).replacements = .ok aggregates
      ∧ d.federationPlan? aggregates canJoin = some plan
      ∧ ∀ p ∈ plan.partitions, p.columns ≠ [] →
        (∀ cleanup', (p.subDescription d).validate cleanup' = .clean)
        ∧ (p.subDescription d).sourceIds = [p.sourceId]
        ∧ (∀ name dialect, Dialect.ofName name = .ok dialect → dialect.capabilities.fullJoin = true →
          ∃ q, (p.subDescription d).compileSql name [] = .ok q ∧ .crossJoin ∉ q.flags ∧ q.outputNames = p.outputNames)
        ∧ ∀ aliasName, p.aliases = [aliasName] →
          ((∃ q, (p.subDescription d).compilePipeline [] = .ok q ∧ q.flags = [] ∧ q.outputNames = p.outputNames)
            ↔ ∀ f ∈ p.filters, f.operator.isPattern = true → ∃ text, Document.patternText f.value = .ok text) := by
  have hconsistent := isConsistent_of_isValid h
  obtain ⟨plan, hplan⟩ := exists_federationPlan? hconsistent.nodup_aliases hconsistent.primary_mem
    (d.aggregateFindings cleanup).analyzed canJoin
  obtain ⟨root, others, hparts⟩ := federationPlan?_eq_some hplan
  refine ⟨_, plan, analyzedAggregates_of_isValid h, hplan, fun p hp hne => ?_⟩
  have hpart := hparts.hasPart hconsistent hp
  exact ⟨hpart.validate_subDescription h, hpart.sourceIds_subDescription,
    fun name dialect hdialect hfull => hpart.exists_compileSql h hne hdialect hfull,
    fun aliasName hsingle => hpart.exists_pipeline_iff h hsingle⟩

/-- Orders with the tickets about them, which are documents, by the code of the ticket. -/
def ordersByTicketCode (code : Value) : Description :=
  { tables := [⟨"o", "shop", "orders", none⟩, ⟨"t", "docs", "tickets", none⟩]
    columns := [{ table := "o", column := "id" }, { table := "t", column := "title" }]
    joins := [⟨"o", "ticket", "t", "id", .inner⟩]
    filters := [⟨"t", "code", .like, code, .and⟩] }

/-- The partition of the tickets. -/
def ticketsByCode (code : Value) : Partition :=
  { sourceId := "docs", aliases := ["t"], columns := [⟨"t", "title"⟩, ⟨"t", "id"⟩]
    filters := [⟨"t", "code", .like, code, .and⟩] }

theorem isValid_ordersByTicketCode {code : Value} (hcode : FilterOperator.valueProblem? .like code = none) :
    ((ordersByTicketCode code).validate .strip).isValid = true := by
  have hfilters : (ordersByTicketCode code).filterErrors = [] := by
    refine filterErrors_eq_nil_iff.mpr ⟨fun f hf => ?_, List.forall_mem_nil _⟩
    rw [List.mem_singleton.mp hf]
    exact hcode
  rw [isValid_iff]
  exact ⟨by cbv, by cbv, by cbv, hfilters, by cbv, by cbv,
    nameErrors_eq_nil_iff.mpr ⟨by
      change ∀ c ∈ (ordersByTicketCode .null).mentionedColumns [], ∀ c' ∈ (ordersByTicketCode .null).mentionedColumns [], _
      decide +kernel, List.forall_mem_nil _⟩, by cbv, by cbv, by cbv⟩

theorem exists_plan_ordersByTicketCode (code : Value) :
    ∃ plan, (ordersByTicketCode code).federationPlan? [] (fun sourceId => sourceId = "shop") = some plan
      ∧ ticketsByCode code ∈ plan.partitions := by
  have hpartitions : ((ordersByTicketCode code).federationPlan? [] fun sourceId => sourceId = "shop").map (·.partitions)
      = some [{ sourceId := "shop", aliases := ["o"], columns := [⟨"o", "id"⟩, ⟨"o", "ticket"⟩] }, ticketsByCode code] := by
    cbv
  obtain ⟨plan, hplan, heq⟩ := Option.map_eq_some_iff.mp hpartitions
  exact ⟨plan, hplan, heq ▸ List.mem_cons_of_mem _ List.mem_cons_self⟩

/-- Codes that are texts can be looked for among documents. -/
theorem ticketsByTextCode_compile : ((ordersByTicketCode (.text "5")).validate .strip).isValid = true
    ∧ ∃ q, ((ticketsByCode (.text "5")).subDescription (ordersByTicketCode (.text "5"))).compilePipeline [] = .ok q
      ∧ q.flags = [] ∧ q.outputNames = ["t_title", "t_id"] := by
  have hvalid := isValid_ordersByTicketCode (show FilterOperator.valueProblem? .like (.text "5") = none from rfl)
  obtain ⟨planned, hplanned, hmem⟩ := exists_plan_ordersByTicketCode (.text "5")
  obtain ⟨aggregates, plan, haggregates, hplan, hparts⟩ :=
    subDescriptions_compile hvalid fun sourceId => sourceId = "shop"
  obtain rfl : [] = aggregates := Except.ok.inj haggregates
  obtain rfl := Option.some.inj (hplanned.symm.trans hplan)
  obtain ⟨-, -, -, hpipeline⟩ := hparts _ hmem (List.cons_ne_nil _ _)
  refine ⟨hvalid, (hpipeline "t" rfl).mpr fun f hf _ => ?_⟩
  rw [List.mem_singleton.mp hf]
  exact ⟨_, rfl⟩

/-- A code that is a number passes validation as well, but there is no pipeline that looks for it. -/
theorem ticketsByNumberCode_fail : ((ordersByTicketCode (.integer 5)).validate .strip).isValid = true
    ∧ ∃ plan, (ordersByTicketCode (.integer 5)).federationPlan? [] (fun sourceId => sourceId = "shop") = some plan
      ∧ ∃ p ∈ plan.partitions, p.aliases = ["t"] ∧ p.columns ≠ []
        ∧ (p.subDescription (ordersByTicketCode (.integer 5))).compilePipeline [] = .error (.value .operandType) := by
  obtain ⟨plan, hplan, hmem⟩ := exists_plan_ordersByTicketCode (.integer 5)
  exact ⟨isValid_ordersByTicketCode rfl, plan, hplan, _, hmem, rfl, List.cons_ne_nil _ _, by rfl⟩

end Description

end QueryFederation

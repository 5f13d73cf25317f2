import QueryFederation.Compilation.Sql
import QueryFederation.Proofs.Compilation.Aggregates
import QueryFederation.Proofs.Federation.JoinGraph

/-!
# Statements for valid descriptions

Validation and compilation resolve names, read values and order aggregates each in its own way. Here the two are
compared: for a valid description every step of the compiler comes back, with two exceptions. The description may ask for
nothing at all, and its joins may be of a kind that the dialect does not have. A statement that is compiled has the
columns that the description announces.
-/

namespace QueryFederation

/-! ### Values and names -/

/-- What validation accepts as the value of a filter can be written in a condition. -/
theorem FilterOperator.exists_term {operator : FilterOperator} {v : Value} (h : operator.valueProblem? v = none)
    (subject : Sql.Term) : ∃ term, operator.term subject v = .ok term := by
  cases operator with
  | isIn | notIn =>
    obtain ⟨items, rfl⟩ := exists_items_of_valueProblem? (by simp) h
    exact ⟨_, rfl⟩
  | between =>
    obtain ⟨low, high, rfl⟩ := exists_bounds_of_valueProblem? h
    exact ⟨_, rfl⟩
  | _ => exact ⟨_, rfl⟩

/-- Entries that are looked up one by one come in the order of their keys. -/
theorem Entries.keys_filterMap_lookup {α : Type} {entries : Entries α} {names : List String}
    (h : ∀ name ∈ names, name ∈ entries.keys) :
    Entries.keys (names.filterMap fun name => (entries.lookup name).map (name, ·)) = names := by
  induction names with
  | nil => rfl
  | cons name names ih =>
    obtain ⟨hname, hnames⟩ := List.forall_mem_cons.mp h
    cases hlookup : entries.lookup name with
    | none => exact absurd hname (lookup_eq_none_iff.mp hlookup)
    | some v =>
      rw [List.filterMap_cons, hlookup]
      exact congrArg (name :: ·) (ih hnames)

namespace Description

variable {d : Description} {cleanup : Cleanup} {replacements : Entries String} {aggregates : Aggregates}
  {dialect : Dialect} {plan : JoinPlan} {sourceId name : String}

theorem IsConsistent.hasGraph (h : d.IsConsistent aggregates) : d.HasGraph :=
  ⟨h.nodup_aliases, h.primary_mem, fun _ hj => h.declared_ends hj⟩

theorem exists_condition (h : ∀ f ∈ d.filters, f.operator.valueProblem? f.value = none) :
    ∃ condition, d.condition = .ok condition := by
  refine exists_foldlM_eq_ok (fun f hf before => ?_) none
  obtain ⟨term, hterm⟩ := FilterOperator.exists_term (h f hf) (.column (some f.table) f.column)
  rw [hterm]
  exact ⟨_, rfl⟩

/-- Aggregates, grouped columns and columns of the description stand for something in the statement. -/
theorem exists_outputTerm {terms : Entries Sql.Term}
    (h : name ∈ d.outputNames ++ d.groupedNames ∨ name ∈ terms.keys)
    (hkeys : terms.keys = d.allAggregates.map (·.aliasName)) : ∃ term, d.outputTerm? terms name = some term := by
  rw [outputTerm?]
  cases hlookup : terms.lookup name with
  | some term => exact ⟨term, rfl⟩
  | none =>
    rw [Entries.lookup_eq_none_iff] at hlookup
    have hcolumn : ∃ c ∈ d.groupBy ++ d.columns.map (·.toColumnRef), c.outputName = name := by
      simp only [outputNames, groupedNames, List.mem_append, List.mem_map] at h
      rcases h with ((⟨c, hc, rfl⟩ | haggregate) | ⟨g, hg, rfl⟩) | hmem
      · exact ⟨c.toColumnRef, List.mem_append_right _ (List.mem_map_of_mem (List.mem_of_mem_filter hc)), rfl⟩
      · rw [hkeys] at hlookup
        exact absurd (List.mem_map.mpr haggregate) hlookup
      · exact ⟨g, List.mem_append_left _ hg, rfl⟩
      · exact absurd hmem hlookup
    obtain ⟨c, hc, hname⟩ := hcolumn
    cases hfind : (d.groupBy ++ d.columns.map (·.toColumnRef)).find? fun c => c.outputName = name with
    | some found => exact ⟨found.term, rfl⟩
    | none => exact absurd (decide_eq_true hname) (List.find?_eq_none.mp hfind c hc)

/-! ### Aggregates -/

private theorem keys_foldlM {known : List String} {items : List AggregateExpression} {start : Aggregates}
    (hnodup : (start.keys ++ items.map (·.aliasName)).Nodup)
    (h : items.foldlM (AggregateFindings.readAgain known replacements) start = .ok aggregates) :
    aggregates.keys = start.keys ++ items.map (·.aliasName) := by
  induction items generalizing start with
  | nil =>
    cases h
    rw [List.map_nil, List.append_nil]
  | cons item items ih =>
    rw [List.foldlM_cons] at h
    obtain ⟨next, hstep, h⟩ := exists_of_bind_eq_ok h
    obtain ⟨a, -, hstep⟩ := exists_of_bind_eq_ok hstep
    cases hstep
    have hfresh : item.aliasName ∉ start.keys := fun hmem =>
      (List.nodup_append.mp hnodup).2.2 _ hmem _ List.mem_cons_self rfl
    have hkeys : (Entries.put start item.aliasName a).keys = start.keys ++ [item.aliasName] := by
      rw [Entries.put_of_notMem_keys _ hfresh, Entries.keys, List.map_append]
      rfl
    rw [List.map_cons, List.append_cons, ← hkeys] at hnodup
    rw [ih hnodup h, hkeys, List.map_cons, ← List.append_cons]

/-- Aggregates are read in the order of the description. -/
theorem keys_of_analyzedAggregates (hnodup : (d.allAggregates.map (·.aliasName)).Nodup)
    (h : d.analyzedAggregates replacements = .ok aggregates) : aggregates.keys = d.allAggregates.map (·.aliasName) := by
  have hstart : (Entries.keys ([] : Aggregates) ++ d.allAggregates.map (·.aliasName)).Nodup := hnodup
  exact keys_foldlM hstart h

/-- The aggregates of a valid description are written out, in their order. -/
theorem exists_resolvedAggregates (h : (d.validate cleanup).isValid = true) :
    ∃ resolved, d.resolvedAggregates (d.validate cleanup).replacements = .ok resolved
      ∧ resolved.keys = d.allAggregates.map (·.aliasName) := by
  obtain ⟨order, horder⟩ := exists_dependencyOrder_of_isValid h
  have hanalyzed := analyzedAggregates_of_isValid h
  have hnodup := nodup_of_outputErrors_eq_nil (isValid_iff.mp h).2.2.2.2.2.1
  generalize (d.aggregateFindings cleanup).analyzed = aggregates at horder hanalyzed
  have hkeys := keys_of_analyzedAggregates hnodup hanalyzed
  obtain ⟨⟨hread, hdistinct⟩, -⟩ := readAs_of_analyzedAggregates hanalyzed
  have hisOrder := hread.isOrder (fun key hkey => hkeys ▸ hkey) horder
  have hfound : ∀ key ∈ aggregates.keys, key ∈ (order.foldl aggregates.inlineStep []).keys := by
    intro key hkey
    obtain ⟨entry, hentry, rfl⟩ := List.mem_map.mp hkey
    obtain ⟨earlier, hmem, -⟩ := hisOrder.exists_of_lookup (P := fun _ => True) (fun _ _ _ _ _ => trivial)
      (Entries.lookup_of_mem hdistinct hentry)
    exact List.mem_map_of_mem hmem
  have hinlined := Aggregates.inlined_of_dependencyOrder horder
  refine ⟨_, ?_, (Entries.keys_filterMap_lookup hfound).trans hkeys⟩
  rw [resolvedAggregates, hanalyzed]
  simp only [bind, Except.bind, hinlined]
  rfl

/-! ### Clauses -/

variable {terms : Entries Sql.Term} (hkeys : terms.keys = d.allAggregates.map (·.aliasName))

include hkeys

theorem exists_havingCondition (haggregates : aggregates.keys = terms.keys) (hhaving : d.havingErrors aggregates = [])
    (hvalues : ∀ having ∈ d.having, having.operator.valueProblem? having.value = none) :
    ∃ condition, d.havingCondition terms = .ok condition := by
  refine exists_foldlM_eq_ok (fun having hmem before => ?_) none
  have htarget : having.target ∈ d.outputNames ++ d.groupedNames ∨ having.target ∈ terms.keys := by
    rw [← haggregates]
    exact List.mem_append.mp (mem_of_havingErrors_eq_nil hhaving hmem)
  obtain ⟨subject, hsubject⟩ := exists_outputTerm htarget hkeys
  obtain ⟨term, hterm⟩ := FilterOperator.exists_term (hvalues having hmem) subject
  simp only [hsubject, hterm]
  exact ⟨_, rfl⟩

theorem exists_order (horder : d.orderErrors = []) : ∃ order, d.order terms = .ok order := by
  refine exists_mapM_eq_ok fun o hmem => ?_
  have htarget : o.target ∈ d.outputNames ++ d.groupedNames := by
    rcases mem_of_orderErrors_eq_nil horder hmem with h | ⟨-, h⟩
    · exact List.mem_append_left _ h
    · exact List.mem_append_right _ h
  obtain ⟨term, hterm⟩ := exists_outputTerm (Or.inl htarget) hkeys
  simp only [hterm]
  exact ⟨_, rfl⟩

omit hkeys

/-- The only joins that a dialect may lack are full ones. -/
theorem supports_eq_false_iff {kind : JoinKind} :
    dialect.supports kind = false ↔ kind = .full ∧ dialect.capabilities.fullJoin = false := by
  cases kind <;> cases dialect <;> decide

theorem unsupportedJoin?_eq_none_iff (hsteps : ∀ step ∈ plan.steps, step.kind.isSome → step.conditions ≠ []) :
    unsupportedJoin? dialect plan = none
      ↔ ¬((∃ step ∈ plan.steps, step.kind = some .full) ∧ dialect.capabilities.fullJoin = false) := by
  rw [unsupportedJoin?, List.findSome?_eq_none_iff]
  constructor
  · rintro h ⟨⟨step, hstep, hfull⟩, hlacks⟩
    have hnone := h step hstep
    cases hconditions : step.conditions with
    | nil => exact hsteps step hstep (by rw [hfull]; rfl) hconditions
    | cons condition conditions =>
      have hunsupported : dialect.supports .full = false := supports_eq_false_iff.mpr ⟨rfl, hlacks⟩
      simp [hfull, hconditions, hunsupported] at hnone
  · intro h step hstep
    cases hkind : step.kind with
    | none => rfl
    | some kind =>
      cases step.conditions with
      | nil => rfl
      | cons condition conditions =>
        have hsupported : dialect.supports kind = true := by
          by_contra hnot
          obtain ⟨rfl, hlacks⟩ := supports_eq_false_iff.mp (Bool.not_eq_true _ ▸ hnot)
          exact h ⟨⟨step, hstep, hkind⟩, hlacks⟩
        simp only [hsupported, if_true]

/-- The clauses of a valid description come back, so only its joins can keep it from a statement. -/
theorem exists_select_iff (h : (d.validate cleanup).isValid = true)
    (hkeys : terms.keys = d.allAggregates.map (·.aliasName)) :
    (∃ select, d.select dialect terms plan = .ok select) ↔ unsupportedJoin? dialect plan = none := by
  obtain ⟨-, -, -, hfilters, -, houtput, -, -, hhaving, horder⟩ := isValid_iff.mp h
  obtain ⟨hvalues, hhavingValues⟩ := filterErrors_eq_nil_iff.mp hfilters
  have hanalyzed := keys_of_analyzedAggregates (nodup_of_outputErrors_eq_nil houtput) (analyzedAggregates_of_isValid h)
  obtain ⟨condition, hcondition⟩ := exists_condition hvalues
  obtain ⟨having, hhaving⟩ := exists_havingCondition hkeys (hanalyzed.trans hkeys.symm) hhaving hhavingValues
  obtain ⟨order, horder⟩ := exists_order hkeys horder
  rw [select, joinsOf, hcondition, hhaving, horder]
  cases unsupportedJoin? dialect plan with
  | none => exact iff_of_true ⟨_, rfl⟩ rfl
  | some e => exact iff_of_false nofun nofun

/-! ### Statements -/

/-- Does the description ask for nothing, or for a join that the dialect does not have? -/
def IsBeyond (d : Description) (dialect : Dialect) (plan : JoinPlan) : Prop :=
  (d.selectedColumns = [] ∧ d.allAggregates = [])
    ∨ ((∃ step ∈ plan.steps, step.kind = some .full) ∧ dialect.capabilities.fullJoin = false)

theorem outputColumns_eq_nil_iff {names : List String} (hnames : names = d.allAggregates.map (·.aliasName)) :
    (d.outputColumns names).isEmpty = true ↔ d.selectedColumns = [] ∧ d.allAggregates = [] := by
  rw [List.isEmpty_iff, outputColumns, List.append_eq_nil_iff, List.map_eq_nil_iff, List.map_eq_nil_iff, hnames,
    List.map_eq_nil_iff]

/-- A compiled statement has the columns that the description announces, in their order. -/
theorem outputNames_of_compileSql {q : SourceQuery} (h : (d.validate cleanup).isValid = true)
    (hcompiled : d.compileSql name (d.validate cleanup).replacements = .ok q) : q.outputNames = d.outputNames := by
  obtain ⟨resolved, hresolved, hkeys⟩ := exists_resolvedAggregates h
  have hnames : d.outputColumns (d.allAggregates.map (·.aliasName)) = q.columns := by
    cases compiledFrom_of_compileSql hcompiled with
    | pipeline aggregates analyzed _ columns _ =>
      have hanalyzed := keys_of_analyzedAggregates (nodup_of_outputErrors_eq_nil (isValid_iff.mp h).2.2.2.2.2.1) analyzed
      rw [columns, hanalyzed]
    | tables written _ hwritten _ columns _ =>
      obtain rfl := Except.ok.inj (hresolved.symm.trans hwritten)
      rw [columns, hkeys]
  rw [SourceQuery.outputNames, ← hnames, outputColumns, outputNames, List.map_append, List.map_map, List.map_map]
  congr 1
  exact List.map_id _

/-- Apart from what is beyond the dialect, valid descriptions of one source compile. -/
theorem exists_compileSql_iff (h : (d.validate cleanup).isValid = true) (hsource : d.sourceIds = [sourceId])
    (hdialect : Dialect.ofName name = .ok dialect) (hplan : d.tablePlan? = some plan) :
    (∃ q, d.compileSql name (d.validate cleanup).replacements = .ok q) ↔ ¬d.IsBeyond dialect plan := by
  obtain ⟨resolved, hresolved, hkeys⟩ := exists_resolvedAggregates h
  obtain ⟨plan', hplan', hfollows⟩ := (isConsistent_of_isValid h).hasGraph.exists_tablePlan?
  obtain rfl := Option.some.inj (hplan.symm.trans hplan')
  have hsteps : ∀ step ∈ plan.steps, step.kind.isSome → step.conditions ≠ [] := by
    intro step hstep hkind hnone
    obtain ⟨before, after, hsplit⟩ := List.append_of_mem hstep
    have hfollows := hfollows.follows before step after hsplit
    rw [hfollows.conditions, conditionsBetween_eq_nil_iff, ← hfollows.isCross_iff, JoinStep.isCross] at hnone
    rw [Option.isNone_iff_eq_none.mp hnone] at hkind
    cases hkind
  have hterms : Entries.keys (resolved.map fun entry => (entry.1, Sql.Term.written (entry.2.render dialect)))
      = d.allAggregates.map (·.aliasName) := by
    rw [← hkeys, Entries.keys, List.map_map]
    rfl
  have hselect : _ ↔ unsupportedJoin? dialect plan = none := exists_select_iff h hterms
  rw [unsupportedJoin?_eq_none_iff hsteps] at hselect
  rw [IsBeyond, not_or, ← hselect, ← outputColumns_eq_nil_iff hkeys, compileSql, hsource, hdialect, hresolved, hplan]
  generalize hmap : resolved.map (fun entry => (entry.1, Sql.Term.written (entry.2.render dialect))) = terms
  change (∃ q, (if (d.outputColumns resolved.keys).isEmpty = true then (throw (CompileFailure.error .noColumns)) >>= _
    else d.select dialect (resolved.map _) plan >>= _) = Except.ok q) ↔ _
  rw [hmap]
  cases hempty : (d.outputColumns resolved.keys).isEmpty with
  | true =>
    refine iff_of_false ?_ fun hboth => hboth.1 rfl
    rintro ⟨q, hq⟩
    cases hq
  | false =>
    cases hwritten : d.select dialect terms plan with
    | error failure =>
      refine iff_of_false ?_ ?_
      · rintro ⟨q, hq⟩
        cases hq
      · rintro ⟨-, written, hsome⟩
        cases hsome
    | ok written => exact iff_of_true ⟨_, rfl⟩ ⟨Bool.false_ne_true, _, rfl⟩

/--
A valid description of one source compiles to a statement with the columns that it announces, unless it asks for nothing
or its plan has a full join that the dialect does not have.
-/
theorem compileSql_of_isValid (h : (d.validate cleanup).isValid = true) (hsource : d.sourceIds = [sourceId])
    (hdialect : Dialect.ofName name = .ok dialect) :
    ∃ plan, d.tablePlan? = some plan
      ∧ ((∃ failure, d.compileSql name (d.validate cleanup).replacements = .error failure) ↔ d.IsBeyond dialect plan)
      ∧ (¬d.IsBeyond dialect plan → ∃ q, d.compileSql name (d.validate cleanup).replacements = .ok q
        ∧ q.outputNames = d.outputNames) := by
  obtain ⟨plan, hplan, -⟩ := (isConsistent_of_isValid h).hasGraph.exists_tablePlan?
  have hiff := exists_compileSql_iff h hsource hdialect hplan
  refine ⟨plan, hplan, ?_, fun hwithin => ?_⟩
  · cases hcompiled : d.compileSql name (d.validate cleanup).replacements with
    | error failure =>
      rw [hcompiled] at hiff
      exact iff_of_true ⟨failure, rfl⟩ (Classical.not_not.mp fun hwithin => nomatch hiff.mpr hwithin)
    | ok q => exact iff_of_false nofun (hiff.mp ⟨q, hcompiled⟩)
  · obtain ⟨q, hcompiled⟩ := hiff.mpr hwithin
    exact ⟨q, hcompiled, outputNames_of_compileSql h hcompiled⟩

/-- Customers beside their orders, also those without orders and orders without customers. -/
def customersBesideOrders : Description :=
  { tables := [⟨"c", "shop", "customers", none⟩, ⟨"o", "shop", "orders", none⟩]
    columns := [{ table := "c", column := "name" }, { table := "o", column := "id", label := some "order" }]
    joins := [⟨"o", "customer_id", "c", "id", .full⟩]
    filters := [⟨"c", "country", .isIn, .list [.text "DE", .text "AT"], .and⟩]
    orderBy := [⟨"o_id", true⟩] }

/-- One dialect does not have the join, another has it. -/
theorem customersBesideOrders_compiles : (customersBesideOrders.validate .strip).isValid = true
    ∧ (∃ failure, customersBesideOrders.compileSql "MySQL" (customersBesideOrders.validate .strip).replacements
      = .error failure)
    ∧ ∃ q, customersBesideOrders.compileSql "postgresql" (customersBesideOrders.validate .strip).replacements = .ok q
      ∧ q.outputNames = ["c_name", "o_id"] := by
  have hvalid : (customersBesideOrders.validate .strip).isValid = true := by
    rw [isValid_iff]
    exact ⟨by cbv, by cbv, by cbv, by cbv, by cbv, by cbv, nameErrors_eq_nil_iff.mpr ⟨by decide +kernel, by decide⟩,
      by cbv, by cbv, by cbv⟩
  have hplan : customersBesideOrders.tablePlan?.map (fun plan => plan.steps.map (·.kind)) = some [some .full] := by cbv
  have hsource : customersBesideOrders.sourceIds = ["shop"] := by cbv
  have hmysql : Dialect.ofName "MySQL" = .ok .mysql := by cbv
  have hpostgres : Dialect.ofName "postgresql" = .ok .postgres := by cbv
  obtain ⟨plan, htables, hfails, -⟩ := compileSql_of_isValid hvalid hsource hmysql
  obtain ⟨plan', -, -, hcompiles⟩ := compileSql_of_isValid hvalid hsource hpostgres
  have hfull : ∃ step ∈ plan.steps, step.kind = some .full := by
    rw [htables, Option.map_some, Option.some.injEq] at hplan
    exact List.mem_map.mp (hplan ▸ List.mem_singleton.mpr rfl)
  have hwithin : ¬customersBesideOrders.IsBeyond .postgres plan' := by
    rintro (⟨hcolumns, -⟩ | ⟨-, hlacks⟩)
    · cases hcolumns
    · cases hlacks
  exact ⟨hvalid, hfails.mpr (Or.inr ⟨hfull, rfl⟩), hcompiles hwithin⟩

end Description

end QueryFederation

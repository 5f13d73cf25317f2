import QueryFederation.Proofs.Document.Stages
import QueryFederation.Proofs.Filter.Agreement

/-!
# Selections from a collection

A description of one collection without grouping asks for the documents its filters select, in its order and by its
page. In memory that is said at once; a document store runs the pipeline the description is compiled to, in which
filters have become a nested query. Where the values of filters and of sorted columns are of one kind with the values in
the documents, the rows that are decoded from the store's answer are those that memory would give.
-/

namespace QueryFederation

/-! ### Filters between values of one kind -/

section

variable {kind : Value.Kind} {operator : FilterOperator} {w v t : Value}

/-- Can a value be compared with all values of a filter, because it is of their kind? -/
def FilterOperator.MeetsKind (operator : FilterOperator) (w v : Value) : Prop :=
  ∀ t ∈ operator.targets v, ∃ kind : Value.Kind, kind.Has t ∧ kind.HasOrNull w

theorem Value.Kind.Has.exists_eq_text (h : Value.Kind.text.Has w) : ∃ s, w = .text s := by
  cases h with
  | text s => exact ⟨s, rfl⟩

theorem FilterOperator.mem_targets_of_isPattern (h : operator.isPattern = true) : v ∈ operator.targets v := by
  cases operator with
  | like | notLike => exact List.mem_cons_self
  | _ => cases h

theorem Value.Kind.HasOrNull.exists_ordered (hw : kind.HasOrNull w) (ht : kind.Has t) (holds : Ordering → Bool) :
    ∃ truth, Value.ordered holds w t = .ok truth := by
  rw [Value.ordered]
  split
  · exact ⟨none, rfl⟩
  · rename_i hnull
    obtain ⟨o, ho⟩ := Value.Kind.exists_order (hw.has (by simp_all)) ht
    rw [Value.Kind.coercePair_of_has hw ht]
    dsimp only
    rw [ho]
    cases o <;> exact ⟨_, rfl⟩

theorem FilterOperator.MeetsKind.exists_holds (h : operator.MeetsKind w v) (hv : operator.valueProblem? v = none) :
    ∃ truth, operator.holds w v = .ok truth := by
  cases hw : w.isNull with
  | true =>
    cases operator with
    | isNull | isNotNull => exact ⟨_, rfl⟩
    | _ => exact ⟨none, holds_of_isNull (by decide) (by decide) hw⟩
  | false =>
    have hordered : v ∈ operator.targets v → ∀ holds, ∃ truth, Value.ordered holds w v = .ok truth := by
      intro hmem holds
      obtain ⟨kind, ht, hkind⟩ := h v hmem
      exact hkind.exists_ordered ht holds
    cases operator with
    | isNull | isNotNull => exact ⟨_, rfl⟩
    | isIn =>
      obtain ⟨items, rfl⟩ := exists_items_of_valueProblem? (Or.inl rfl) hv
      exact ⟨_, holds_isIn hw items⟩
    | notIn =>
      obtain ⟨items, rfl⟩ := exists_items_of_valueProblem? (Or.inr rfl) hv
      exact ⟨_, holds_notIn hw items⟩
    | between =>
      obtain ⟨low, high, rfl⟩ := exists_bounds_of_valueProblem? hv
      obtain ⟨kind, hlow, hkind⟩ := h low List.mem_cons_self
      obtain ⟨other, hhigh, hother⟩ := h high (List.mem_cons_of_mem _ List.mem_cons_self)
      obtain ⟨truth, htruth⟩ := hkind.exists_ordered hlow (· != .lt)
      rw [holds_between hw, htruth]
      rcases truth with _ | _ | _
      · exact ⟨none, rfl⟩
      · exact ⟨some false, rfl⟩
      · exact hother.exists_ordered hhigh (· != .gt)
    | like => exact ⟨_, holds_like hw v⟩
    | notLike => exact ⟨_, holds_notLike hw v⟩
    | eq => exact ⟨_, holds_eq hw v⟩
    | ne => exact ⟨_, holds_ne hw v⟩
    | gt =>
      rw [holds_gt hw]
      exact hordered List.mem_cons_self _
    | ge =>
      rw [holds_ge hw]
      exact hordered List.mem_cons_self _
    | lt =>
      rw [holds_lt hw]
      exact hordered List.mem_cons_self _
    | le =>
      rw [holds_le hw]
      exact hordered List.mem_cons_self _

end

/-- A filter as a query for documents, under its connective. -/
def FilterPredicate.query (f : FilterPredicate) : Outcome (Connective × Row) := do
  return (f.connective, ← Document.condition f.column f.operator f.value)

theorem FilterPredicate.query_eq_ok {f : FilterPredicate} {next : Row}
    (h : Document.condition f.column f.operator f.value = .ok next) : f.query = .ok (f.connective, next) := by
  rw [query, h]
  rfl

namespace Description

variable {d : Description} {table : TableReference} {docs : List Row} {doc : Row}

/-! ### In memory -/

/-- Do the filters select a document? A field that is not there is null. -/
def selectsDocument (d : Description) (doc : Row) : Outcome Bool := do
  let results ← d.filters.mapM fun f => do
    return (f.connective, ← f.operator.holds (Row.get doc f.column) f.value)
  return selects results

/-- The selected columns of a document under their output names. -/
def selectedRow (d : Description) (doc : Row) : Row :=
  Entries.ofPairs (d.selectedColumns.map fun c => (c.outputName, Row.get doc c.column))

/-- The documents that the filters select, as rows, in the order and by the page of the description. -/
def selectionOf (d : Description) (docs : List Row) : Outcome (List Row) := do
  let kept ← docs.filterM d.selectsDocument
  return d.page (sortRows d.sortColumns (kept.map d.selectedRow))

/-- Documents whose values are of one kind with the values they are compared with. -/
structure SelectsWithinKinds (d : Description) (docs : List Row) : Prop where
  isPlain : ∀ c ∈ d.referredColumns, Document.IsPlain c.column
  noDollar : ∀ c ∈ d.referredColumns, c.column.startsWith "$" = false
  nodup_targets : (d.orderBy.map (·.target)).Nodup
  meetsKind : ∀ f ∈ d.filters, ∀ doc ∈ docs, f.operator.MeetsKind (Row.get doc f.column) f.value
  noNull : ∀ f ∈ d.filters, ∀ t ∈ f.operator.targets f.value, t.isNull = false
  pattern : ∀ f ∈ d.filters, f.operator.isPattern = true → ∃ like, f.value = .text like
  noLineFeed : ∀ f ∈ d.filters, f.operator.isPattern = true → ∀ doc ∈ docs, ∀ s, Row.get doc f.column = .text s →
    '\n' ∉ s.toList
  isSortable : ∀ o ∈ d.orderBy, ∀ c ∈ d.selectedColumns, c.outputName = o.target → Document.IsSortable c.column docs

namespace SelectsWithinKinds

variable (h : d.SelectsWithinKinds docs)

include h

theorem filterColumn {f : FilterPredicate} (hf : f ∈ d.filters) :
    Document.IsPlain f.column ∧ f.column ≠ "$and" ∧ f.column ≠ "$or" := by
  have hmem : (⟨f.table, f.column⟩ : ColumnRef) ∈ d.referredColumns := by
    simp only [referredColumns, List.mem_append, List.mem_map]
    exact Or.inl (Or.inr ⟨f, hf, rfl⟩)
  have hdollar := h.noDollar _ hmem
  refine ⟨h.isPlain _ hmem, ?_, ?_⟩
  · intro hand
    simp [hand] at hdollar
  · intro hor
    simp [hor] at hdollar

theorem selectedColumn {c : SelectedColumn} (hc : c ∈ d.selectedColumns) : Document.IsPlain c.column := by
  apply h.isPlain c.toColumnRef
  simp only [referredColumns, List.mem_append, List.mem_map]
  exact Or.inl (Or.inl (Or.inl ⟨c, (List.mem_filter.mp hc).1, rfl⟩))

/-- The condition of a filter matches the documents for which the filter is true. -/
theorem exists_condition {f : FilterPredicate} (hf : f ∈ d.filters) (hv : f.operator.valueProblem? f.value = none) :
    ∃ query, Document.condition f.column f.operator f.value = .ok query
      ∧ ∀ doc ∈ docs, ∃ truth, f.operator.holds (Row.get doc f.column) f.value = .ok truth
        ∧ Document.queryMatches doc (.record query) = .ok truth.isTrue := by
  obtain ⟨hplain, hand, hor⟩ := h.filterColumn hf
  obtain ⟨query, hquery, hmatches⟩ :=
    Document.exists_condition_decides hand hor hv (h.pattern f hf) fun _ => h.noNull f hf
  refine ⟨query, hquery, fun doc hdoc => ?_⟩
  have hmeets := h.meetsKind f hf doc hdoc
  obtain ⟨truth, htruth⟩ := hmeets.exists_holds hv
  -- Values of one kind are not converted in memory, so the store's comparison as they are is the same.
  have hconvert : ∀ t ∈ f.operator.targets f.value,
      (Row.get doc f.column).coercePair t = (Row.get doc f.column, t) := by
    intro t ht
    obtain ⟨kind, hkind, hw⟩ := hmeets t ht
    exact Value.Kind.coercePair_of_has hw hkind
  have htext : f.operator.isPattern = true → (Row.get doc f.column).isNull = false →
      ∃ s, Row.get doc f.column = .text s ∧ '\n' ∉ s.toList := by
    intro hop hpresent
    obtain ⟨like, hlike⟩ := h.pattern f hf hop
    obtain ⟨kind, hkind, hw⟩ := hmeets f.value (FilterOperator.mem_targets_of_isPattern hop)
    rw [hlike] at hkind
    cases hkind
    obtain ⟨s, hs⟩ := (hw.has hpresent).exists_eq_text
    exact ⟨s, hs, h.noLineFeed f hf hop doc hdoc s hs⟩
  refine ⟨truth, htruth, ?_⟩
  rw [hmatches, Document.field_of_isPlain doc hplain,
    Comparison.decides_asIs_eq_converted (h.pattern f hf) hconvert htext, FilterOperator.decides_of_holds hv htruth]

/-- The filters become a query that accepts the documents that they select. -/
theorem exists_query (hvalues : ∀ f ∈ d.filters, f.operator.valueProblem? f.value = none) :
    ∃ query, Document.folded FilterPredicate.query d.filters = .ok query
      ∧ ∀ doc ∈ docs, ∃ b, d.selectsDocument doc = .ok b ∧ Document.accepts doc query = .ok b := by
  obtain ⟨query, hquery⟩ : ∃ query, Document.folded FilterPredicate.query d.filters = .ok query := by
    refine Document.exists_folded_iff.mpr fun f hf => ?_
    obtain ⟨next, hnext, -⟩ := h.exists_condition hf (hvalues f hf)
    exact ⟨_, FilterPredicate.query_eq_ok hnext⟩
  refine ⟨query, hquery, fun doc hdoc => ?_⟩
  obtain ⟨results, hresults⟩ : ∃ results, d.filters.mapM (fun f => do
      return (f.connective, ← f.operator.holds (Row.get doc f.column) f.value)) = Except.ok results := by
    refine exists_mapM_eq_ok fun f hf => ?_
    obtain ⟨_, -, hmatches⟩ := h.exists_condition hf (hvalues f hf)
    obtain ⟨truth, htruth, -⟩ := hmatches doc hdoc
    rw [htruth]
    exact ⟨_, rfl⟩
  have hreflects : Document.Reflects doc FilterPredicate.query d.filters results := by
    refine forall₂_imp_of_mem (Outcome.forall₂_of_mapM_eq_ok hresults) fun f hf r hr => ?_
    obtain ⟨next, hnext, hmatches⟩ := h.exists_condition hf (hvalues f hf)
    obtain ⟨truth, htruth, hmatch⟩ := hmatches doc hdoc
    rw [htruth] at hr
    cases hr
    exact ⟨next, FilterPredicate.query_eq_ok hnext, hmatch⟩
  obtain ⟨other, hother, haccepts⟩ := Document.exists_folded_accepts hreflects
  rw [hquery] at hother
  cases hother
  refine ⟨selects results, ?_, haccepts⟩
  rw [selectsDocument, hresults]
  rfl

end SelectsWithinKinds

/-! ### In a store -/

/-- A selection compiles to matching, projecting, sorting and counting off. -/
theorem IsSelectionOf.compilePipeline_eq (h : d.IsSelectionOf table) (replacements : Entries String)
    {query : Option Row} (hquery : Document.folded FilterPredicate.query d.filters = .ok query) :
    d.compilePipeline replacements = .ok {
      sourceId := table.sourceId
      language := .document
      statement := .pipeline table.table (matchStage query ++ [d.projectStage] ++ d.sortStage ++ d.pageStages)
      columns := d.outputColumns [] } := by
  have hanalyzed : d.analyzedAggregates replacements = .ok [] := by
    rw [analyzedAggregates, h.aggregates]
    rfl
  have hfolded : Document.folded (fun f : FilterPredicate => do
      return (f.connective, ← Document.condition f.column f.operator f.value)) d.filters = .ok query := hquery
  rw [compilePipeline, h.tables, h.joins, hanalyzed, h.groupBy, h.having, hfolded]
  exact congrArg (fun stages => Except.ok (SourceQuery.mk table.sourceId .document (.pipeline table.table stages)
    (d.outputColumns []) [] [] true)) (by simp [matchStage])

section

variable {cleanup : Cleanup}

/-- A valid description of one collection that groups nothing is a selection. -/
theorem isSelectionOf_of_isValid (hvalid : (d.validate cleanup).isValid = true) (htables : d.tables = [table])
    (haggregates : d.hasAggregates = false) (hgroups : d.groupBy = []) : d.IsSelectionOf table := by
  have hconsistent := isConsistent_of_isValid hvalid
  obtain ⟨-, -, -, -, -, -, -, -, hhaving, -⟩ := isValid_iff.mp hvalid
  refine ⟨htables, ?_, hgroups, hasAggregates_eq_false_iff.mp haggregates, ?_⟩
  · refine List.eq_nil_iff_forall_not_mem.mpr fun j hj => hconsistent.ends_differ j hj ?_
    have hends := hconsistent.declared_ends hj
    rw [aliases, htables, List.map_singleton, List.mem_singleton, List.mem_singleton] at hends
    exact hends.1.trans hends.2.symm
  · refine List.eq_nil_iff_forall_not_mem.mpr fun having hmem => ?_
    obtain ⟨i, hi⟩ := exists_eq_none_of_filterMap_zipIdx hhaving hmem
    simp [haggregates] at hi

theorem nodup_selectedNames (hvalid : (d.validate cleanup).isValid = true) :
    (d.selectedColumns.map (·.outputName)).Nodup := by
  obtain ⟨-, -, -, -, -, houtput, -⟩ := isValid_iff.mp hvalid
  rw [outputErrors, List.map_eq_nil_iff] at houtput
  exact (List.nodup_append.mp (nodup_of_repeated_eq_nil houtput)).1

end

section

variable (hnodup : (d.selectedColumns.map (·.outputName)).Nodup)

include hnodup

theorem selectedRow_eq (doc : Row) :
    d.selectedRow doc = d.selectedColumns.map fun c => (c.outputName, Row.get doc c.column) := by
  apply Entries.ofPairs_eq_self
  rw [List.map_map]
  exact hnodup

theorem keys_selectedRow (doc : Row) : (d.selectedRow doc).keys = d.selectedColumns.map (·.outputName) := by
  rw [selectedRow_eq hnodup, Entries.keys, List.map_map]
  rfl

theorem get_selectedRow (doc : Row) {c : SelectedColumn} (hc : c ∈ d.selectedColumns) :
    Row.get (d.selectedRow doc) c.outputName = Row.get doc c.column := by
  have hmem : (c.outputName, Row.get doc c.column) ∈ d.selectedRow doc := by
    rw [selectedRow_eq hnodup]
    exact List.mem_map_of_mem hc
  have hkeys : (d.selectedRow doc).keys.Nodup := by
    rw [keys_selectedRow hnodup]
    exact hnodup
  rw [Row.get, Entries.lookup_of_mem hkeys hmem, Option.getD_some]

theorem SelectsWithinKinds.runPipeline_projectStage (h : d.SelectsWithinKinds docs) (kept : List Row) :
    Document.runPipeline kept [.record d.projectStage] = .ok (kept.map d.selectedRow) := by
  have hrules : Entries.ofPairs (d.selectedColumns.map fun c => (c.outputName, Document.fieldPath c.column))
      = Document.pathRules (d.selectedColumns.map fun c => (c.outputName, c.column)) := by
    rw [Document.pathRules, List.map_map]
    apply Entries.ofPairs_eq_self
    rw [List.map_map]
    exact hnodup
  have hproject : ∀ doc ∈ kept, (do Document.project (← Document.fieldsOf
      (.record (Document.pathRules (d.selectedColumns.map fun c => (c.outputName, c.column))))) doc)
        = Except.ok (d.selectedRow doc) := by
    intro doc _
    refine (Document.project_pathRules _ doc).trans ?_
    rw [List.map_map, selectedRow]
    refine congrArg (fun pairs => Except.ok (Entries.ofPairs pairs)) (List.map_congr_left fun c hc => ?_)
    exact congrArg _ (Document.field_of_isPlain doc (h.selectedColumn hc))
  rw [projectStage, hrules]
  exact (Document.runPipeline_single kept _).trans (Outcome.mapM_of_forall hproject)

theorem SelectsWithinKinds.isSortable_selectedRow (h : d.SelectsWithinKinds docs) {kept : List Row} (hkept : kept ⊆ docs)
    {o : OrderBy} (ho : o ∈ d.orderBy) (htarget : o.target ∈ d.selectedColumns.map (·.outputName)) :
    Document.IsSortable o.target (kept.map d.selectedRow) := by
  obtain ⟨c, hc, hname⟩ := List.mem_map.mp htarget
  obtain ⟨kind, hkind⟩ := h.isSortable o ho c hc hname
  refine ⟨kind, List.forall_mem_map.mpr fun doc hdoc => ?_⟩
  rw [← hname, get_selectedRow hnodup doc hc]
  exact hkind doc (hkept hdoc)

end

/-- A query that accepts what the filters select keeps the documents that they keep. -/
theorem exists_kept {query : Option Row}
    (h : ∀ doc ∈ docs, ∃ b, d.selectsDocument doc = .ok b ∧ Document.accepts doc query = .ok b) :
    ∃ kept, kept ⊆ docs ∧ docs.filterM d.selectsDocument = .ok kept
      ∧ docs.filterM (fun doc => Document.accepts doc query) = .ok kept := by
  have hkeeps : ∀ doc ∈ docs, d.selectsDocument doc = .ok ((d.selectsDocument doc).toOption == some true)
      ∧ Document.accepts doc query = .ok ((d.selectsDocument doc).toOption == some true) := by
    intro doc hdoc
    obtain ⟨b, hb, haccepts⟩ := h doc hdoc
    rw [hb, haccepts]
    cases b <;> exact ⟨rfl, rfl⟩
  exact ⟨_, fun _ hdoc => (List.mem_filter.mp hdoc).1, Outcome.filterM_of_forall fun doc hdoc => (hkeeps doc hdoc).1,
    Outcome.filterM_of_forall fun doc hdoc => (hkeeps doc hdoc).2⟩

theorem page_subset {α : Type} (d : Description) (rows : List α) : d.page rows ⊆ rows := by
  rw [page]
  cases d.limit with
  | none => exact List.drop_subset _ _
  | some limit => exact fun row hrow => List.drop_subset _ _ (List.take_subset _ _ hrow)

/-- The stages of a selection keep, project, sort and count off documents as memory does. -/
theorem SelectsWithinKinds.runPipeline_stages (h : d.SelectsWithinKinds docs)
    (hnodup : (d.selectedColumns.map (·.outputName)).Nodup)
    (htargets : ∀ o ∈ d.orderBy, o.target ∈ d.selectedColumns.map (·.outputName)) {query : Option Row}
    {kept : List Row} (hsubset : kept ⊆ docs)
    (haccepted : docs.filterM (fun doc => Document.accepts doc query) = .ok kept) :
    Document.runPipeline docs ((matchStage query ++ [d.projectStage] ++ d.sortStage ++ d.pageStages).map .record)
      = .ok (d.page (sortRows d.sortColumns (kept.map d.selectedRow))) := by
  rw [List.map_append, List.map_append, List.map_append, Document.runPipeline_append, Document.runPipeline_append,
    Document.runPipeline_append, Document.runPipeline_matchStage, haccepted]
  change ((Document.runPipeline kept [.record d.projectStage] >>= _) >>= _) = _
  rw [h.runPipeline_projectStage hnodup kept]
  change (Document.runPipeline (kept.map d.selectedRow) (d.sortStage.map .record) >>= _) = _
  rw [Document.runPipeline_sortStage h.nodup_targets fun o ho =>
    h.isSortable_selectedRow hnodup hsubset ho (htargets o ho)]
  exact Document.runPipeline_pageStages d _

/-- The pipeline of a selection gives the rows that the description selects in memory. -/
theorem pipeline_answers_selection {cleanup : Cleanup} (hvalid : (d.validate cleanup).isValid = true)
    (htables : d.tables = [table]) (haggregates : d.hasAggregates = false) (hgroups : d.groupBy = [])
    (h : d.SelectsWithinKinds docs) (source : Option String) :
    ∃ q stages found rows, d.compilePipeline (d.validate cleanup).replacements = .ok q
      ∧ q.statement = .pipeline table.table stages
      ∧ Document.runPipeline docs (stages.map .record) = .ok found
      ∧ d.selectionOf docs = .ok rows
      ∧ decodeRows (Connector.rowsOfDocuments q.outputNames found) source d.outputNames = .ok rows := by
  obtain ⟨-, -, -, hfilters, -, -, -, -, -, horder⟩ := isValid_iff.mp hvalid
  have hselection := isSelectionOf_of_isValid hvalid htables haggregates hgroups
  have hnodup := nodup_selectedNames hvalid
  have hnames : d.outputNames = d.selectedColumns.map (·.outputName) := by
    rw [outputNames, hselection.aggregates, List.map_nil, List.append_nil]
  obtain ⟨query, hquery, hselects⟩ := h.exists_query (filterErrors_eq_nil_iff.mp hfilters).1
  obtain ⟨kept, hsubset, hkept, haccepted⟩ := exists_kept hselects
  have htargets : ∀ o ∈ d.orderBy, o.target ∈ d.selectedColumns.map (·.outputName) := by
    intro o ho
    rcases mem_of_orderErrors_eq_nil horder ho with hmem | ⟨hsome, -⟩
    · exact hnames ▸ hmem
    · rw [haggregates] at hsome
      cases hsome
  have hkeys : ∀ row ∈ d.page (sortRows d.sortColumns (kept.map d.selectedRow)), row.keys = d.outputNames := by
    intro row hrow
    obtain ⟨doc, -, rfl⟩ := List.mem_map.mp (Document.mem_sortRows.mp (page_subset d _ hrow))
    rw [keys_selectedRow hnodup, hnames]
  have houtput : (d.outputColumns []).map (·.name) = d.outputNames := by
    rw [hnames, outputColumns, List.map_nil, List.append_nil, List.map_map]
    rfl
  refine ⟨_, _, _, d.page (sortRows d.sortColumns (kept.map d.selectedRow)),
    hselection.compilePipeline_eq _ hquery, rfl, h.runPipeline_stages hnodup htargets hsubset haccepted, ?_, ?_⟩
  · rw [selectionOf, hkept]
    rfl
  · rw [SourceQuery.outputNames, houtput]
    exact decodeRows_rowsOfDocuments (hnames ▸ hnodup) hkeys source

/-- Billing tickets and severe ones, the last of them first. -/
def urgentTickets : Description where
  tables := [⟨"tickets", "docs", "tickets", none⟩]
  columns := [{ table := "tickets", column := "id" }, { table := "tickets", column := "tag" }]
  filters := [⟨"tickets", "tag", .like, .text "bill%", .and⟩,
    ⟨"tickets", "severity", .between, .list [.integer 2, .integer 5], .or⟩]
  orderBy := [⟨"tickets_id", true⟩]
  limit := some 2

def ticketDocuments : List Row :=
  [[("id", .integer 10), ("severity", .integer 3), ("tag", .text "Billing")],
    [("id", .integer 11), ("severity", .integer 1), ("tag", .text "login")],
    [("id", .integer 12), ("severity", .null), ("tag", .text "billing-2")], [("id", .integer 13)]]

theorem isValid_urgentTickets : (urgentTickets.validate .strip).isValid = true := by
  rw [isValid_iff]
  exact ⟨by cbv, by cbv, by cbv, by cbv, by cbv, by cbv, nameErrors_eq_nil_iff.mpr ⟨by decide +kernel, by decide⟩,
    by cbv, by cbv, by cbv⟩

theorem selectsWithinKinds_urgentTickets : urgentTickets.SelectsWithinKinds ticketDocuments where
  isPlain := by decide
  noDollar := by decide +kernel
  nodup_targets := by decide
  meetsKind := by
    have htag : ∀ doc ∈ ticketDocuments, Value.Kind.text.HasOrNull (Row.get doc "tag") := by
      simp only [ticketDocuments, List.forall_mem_cons]
      exact ⟨Or.inr (.text _), Or.inr (.text _), Or.inr (.text _), Or.inl rfl, List.forall_mem_nil _⟩
    have hseverity : ∀ doc ∈ ticketDocuments, Value.Kind.number.HasOrNull (Row.get doc "severity") := by
      simp only [ticketDocuments, List.forall_mem_cons]
      exact ⟨Or.inr (.integer _), Or.inr (.integer _), Or.inl rfl, Or.inl rfl, List.forall_mem_nil _⟩
    simp only [urgentTickets, List.forall_mem_cons]
    refine ⟨fun doc hdoc => ?_, fun doc hdoc => ?_, List.forall_mem_nil _⟩
    · exact List.forall_mem_singleton.mpr ⟨.text, .text _, htag doc hdoc⟩
    · refine List.forall_mem_cons.mpr ⟨⟨.number, .integer _, hseverity doc hdoc⟩, List.forall_mem_singleton.mpr ?_⟩
      exact ⟨.number, .integer _, hseverity doc hdoc⟩
  noNull := by decide
  pattern := by
    simp only [urgentTickets, List.forall_mem_cons]
    exact ⟨fun _ => ⟨_, rfl⟩, nofun, List.forall_mem_nil _⟩
  noLineFeed := by
    have htag : ∀ doc ∈ ticketDocuments, ∀ s, Row.get doc "tag" = .text s → '\n' ∉ s.toList := by
      simp only [ticketDocuments, List.forall_mem_cons]
      refine ⟨fun s hs => ?_, fun s hs => ?_, fun s hs => ?_, nofun, List.forall_mem_nil _⟩ <;>
        · cases hs
          decide
    simp only [urgentTickets, List.forall_mem_cons]
    exact ⟨fun _ => htag, nofun, List.forall_mem_nil _⟩
  isSortable := by
    have hid : ∀ doc ∈ ticketDocuments, Value.Kind.number.HasOrNull (Row.get doc "id") := by
      simp only [ticketDocuments, List.forall_mem_cons]
      exact ⟨Or.inr (.integer _), Or.inr (.integer _), Or.inr (.integer _), Or.inr (.integer _), List.forall_mem_nil _⟩
    refine List.forall_mem_singleton.mpr (List.forall_mem_cons.mpr ⟨fun _ => ⟨.number, hid⟩, ?_⟩)
    exact List.forall_mem_singleton.mpr fun hname => absurd hname (by decide)

/-- The ticket without a severity is billed, so it counts. -/
theorem selectionOf_urgentTickets : urgentTickets.selectionOf ticketDocuments
    = .ok [[("tickets_id", .integer 12), ("tickets_tag", .text "billing-2")],
      [("tickets_id", .integer 10), ("tickets_tag", .text "Billing")]] := by
  have hkept : ticketDocuments.filterM urgentTickets.selectsDocument
      = .ok [[("id", .integer 10), ("severity", .integer 3), ("tag", .text "Billing")],
        [("id", .integer 12), ("severity", .null), ("tag", .text "billing-2")]] := by rfl
  rw [selectionOf, hkept]
  cbv

theorem pipeline_answers_urgentTickets :
    (urgentTickets.validate .strip).isValid = true ∧ urgentTickets.SelectsWithinKinds ticketDocuments
      ∧ ∃ q stages found, urgentTickets.compilePipeline (urgentTickets.validate .strip).replacements = .ok q
        ∧ q.statement = .pipeline "tickets" stages
        ∧ Document.runPipeline ticketDocuments (stages.map .record) = .ok found
        ∧ decodeRows (Connector.rowsOfDocuments q.outputNames found) none urgentTickets.outputNames
          = .ok [[("tickets_id", .integer 12), ("tickets_tag", .text "billing-2")],
            [("tickets_id", .integer 10), ("tickets_tag", .text "Billing")]] := by
  obtain ⟨q, stages, found, rows, hcompile, hstatement, hfound, hrows, hdecoded⟩ :=
    pipeline_answers_selection isValid_urgentTickets rfl rfl rfl selectsWithinKinds_urgentTickets none
  rw [← hrows, selectionOf_urgentTickets] at hdecoded
  exact ⟨isValid_urgentTickets, selectsWithinKinds_urgentTickets, q, stages, found, hcompile, hstatement, hfound,
    hdecoded⟩

end Description

end QueryFederation

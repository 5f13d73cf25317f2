import QueryFederation.Proofs.Items
import QueryFederation.Proofs.Validation.Aggregates
import QueryFederation.Validation.Basic

/-!
# Consistent descriptions

What validation promises to the steps that plan and join: tables go by distinct names, the primary table is one of
them, every column that is mentioned is one of a declared table and has a name of its own in joined rows, and no
condition joins a table to itself. The aggregates are those that compilation reads again.
-/

namespace QueryFederation

theorem mem_sortedTexts {texts : List String} {text : String} : text ∈ sortedTexts texts ↔ text ∈ texts := by
  rw [sortedTexts, List.mem_mergeSort, mem_distinctItems]

section

variable {α β : Type} {items : List α}

private theorem exists_mem_zipIdx {item : α} (h : item ∈ items) : ∃ i, (item, i) ∈ items.zipIdx := by
  obtain ⟨i, hi, rfl⟩ := List.getElem_of_mem h
  exact ⟨i, List.mk_mem_zipIdx_iff_getElem?.mpr (List.getElem?_eq_getElem hi)⟩

/-- What is found of items by their places is nothing if each is good, wherever it is. -/
theorem flatMap_zipIdx_eq_nil_iff {f : α × Nat → List β} {good : α → Prop} (h : ∀ item i, f (item, i) = [] ↔ good item) :
    items.zipIdx.flatMap f = [] ↔ ∀ item ∈ items, good item := by
  rw [List.flatMap_eq_nil_iff]
  constructor
  · intro hall item hitem
    obtain ⟨i, hi⟩ := exists_mem_zipIdx hitem
    exact (h item i).mp (hall _ hi)
  · exact fun hall entry hentry => (h entry.1 entry.2).mpr (hall _ (List.fst_mem_of_mem_zipIdx hentry))

theorem filterMap_zipIdx_eq_nil_iff {f : α × Nat → Option β} {good : α → Prop}
    (h : ∀ item i, f (item, i) = none ↔ good item) : items.zipIdx.filterMap f = [] ↔ ∀ item ∈ items, good item := by
  rw [List.filterMap_eq_nil_iff]
  constructor
  · intro hall item hitem
    obtain ⟨i, hi⟩ := exists_mem_zipIdx hitem
    exact (h item i).mp (hall _ hi)
  · exact fun hall entry hentry => (h entry.1 entry.2).mpr (hall _ (List.fst_mem_of_mem_zipIdx hentry))

theorem exists_eq_none_of_filterMap_zipIdx {f : α × Nat → Option β} (h : items.zipIdx.filterMap f = [])
    {item : α} (hitem : item ∈ items) : ∃ i, f (item, i) = none := by
  obtain ⟨i, hi⟩ := exists_mem_zipIdx hitem
  exact ⟨i, List.filterMap_eq_nil_iff.mp h _ hi⟩

end

namespace Description

variable {d : Description} {aggregates : Aggregates} {cleanup : Cleanup}

/-- The columns that aggregates read. -/
def readColumns (aggregates : Aggregates) : List ColumnRef :=
  aggregates.flatMap fun (_, a) => a.columns.map fun (table, column) => ⟨table, column⟩

/-- Every column that the description mentions. -/
def mentionedColumns (d : Description) (aggregates : Aggregates) : List ColumnRef :=
  d.referredColumns ++ readColumns aggregates

structure IsConsistent (d : Description) (aggregates : Aggregates) : Prop where
  nodup_aliases : d.aliases.Nodup
  primary_mem : d.primary ∈ d.aliases
  ends_differ : ∀ j ∈ d.joins, j.leftTable ≠ j.rightTable
  declared : ∀ c ∈ d.mentionedColumns aggregates, c.table ∈ d.aliases
  eq_of_name : ∀ c ∈ d.mentionedColumns aggregates, ∀ c' ∈ d.mentionedColumns aggregates,
    c.outputName = c'.outputName → c = c'

theorem IsConsistent.declared_filter (h : d.IsConsistent aggregates) {f : FilterPredicate} (hf : f ∈ d.filters) :
    f.table ∈ d.aliases := by
  apply h.declared ⟨f.table, f.column⟩
  simp only [mentionedColumns, referredColumns, List.mem_append, List.mem_map]
  exact Or.inl (Or.inl (Or.inr ⟨f, hf, rfl⟩))

theorem IsConsistent.declared_ends (h : d.IsConsistent aggregates) {j : JoinCondition} (hj : j ∈ d.joins) :
    j.leftTable ∈ d.aliases ∧ j.rightTable ∈ d.aliases := by
  have hmem : ∀ c ∈ [ColumnRef.mk j.leftTable j.leftColumn, ⟨j.rightTable, j.rightColumn⟩],
      c ∈ d.mentionedColumns aggregates := by
    intro c hc
    simp only [mentionedColumns, referredColumns, List.mem_append]
    exact Or.inl (Or.inr (List.mem_flatMap.mpr ⟨j, hj, hc⟩))
  exact ⟨h.declared _ (hmem _ List.mem_cons_self), h.declared _ (hmem _ (List.mem_cons_of_mem _ List.mem_cons_self))⟩

theorem hasAggregates_eq_false_iff : d.hasAggregates = false ↔ d.allAggregates = [] := by
  simp [hasAggregates, allAggregates]

/-- Without groups the names of the result are those of the selected columns. -/
theorem outputNames_of_isGrouped_eq_false (h : d.isGrouped = false) :
    d.outputNames = d.selectedColumns.map (·.outputName) := by
  rw [isGrouped, Bool.or_eq_false_iff] at h
  rw [outputNames, hasAggregates_eq_false_iff.mp h.1, List.map_nil, List.append_nil]

/-! ### One check after the other -/

theorem aliasErrors_eq_nil_iff : d.aliasErrors = []
    ↔ (∀ aliasName ∈ d.aliases, isIdentifier aliasName = true) ∧ d.aliases.Nodup ∧ d.primary ∈ d.aliases := by
  have hidentifiers : (d.aliases.zipIdx.filterMap fun entry =>
      if isIdentifier entry.1 then none else some (Violation.invalidTableAlias entry.2 entry.1)) = []
        ↔ ∀ aliasName ∈ d.aliases, isIdentifier aliasName = true :=
    filterMap_zipIdx_eq_nil_iff fun name i => by cases isIdentifier name <;> simp
  rw [aliasErrors, List.append_eq_nil_iff, List.append_eq_nil_iff, hidentifiers, List.map_eq_nil_iff, and_assoc]
  refine and_congr_right fun _ => and_congr ⟨nodup_of_repeated_eq_nil, repeated_eq_nil_of_nodup⟩ ?_
  rw [← List.contains_iff_mem]
  cases d.aliases.contains d.primary <;> simp

theorem tableError_eq_nil_iff {place : Element} {aliasName : String} :
    d.tableError place aliasName = [] ↔ aliasName ∈ d.aliases := by
  rw [tableError, ← List.contains_iff_mem]
  cases d.aliases.contains aliasName <;> simp

theorem flatMap_tableError_eq_nil_iff {α : Type} (items : List α) (table : α → String) (place : Nat → Element) :
    (items.zipIdx.flatMap fun (item, i) => d.tableError (place i) (table item)) = []
      ↔ ∀ item ∈ items, table item ∈ d.aliases :=
  flatMap_zipIdx_eq_nil_iff fun _ _ => tableError_eq_nil_iff

theorem referenceErrors_eq_nil_iff : d.referenceErrors = []
    ↔ (∀ c ∈ d.referredColumns, c.table ∈ d.aliases) ∧ ∀ a ∈ d.columnAggregates, a.table ∈ d.aliases := by
  have hjoins : (d.joins.zipIdx.flatMap fun entry => d.tableError ⟨"joins", entry.2, none⟩ entry.1.leftTable
      ++ d.tableError ⟨"joins", entry.2, none⟩ entry.1.rightTable) = []
        ↔ ∀ j ∈ d.joins, j.leftTable ∈ d.aliases ∧ j.rightTable ∈ d.aliases :=
    flatMap_zipIdx_eq_nil_iff fun j i => by
      rw [List.append_eq_nil_iff, tableError_eq_nil_iff, tableError_eq_nil_iff]
  rw [referenceErrors, List.append_eq_nil_iff, List.append_eq_nil_iff, List.append_eq_nil_iff, List.append_eq_nil_iff,
    hjoins, flatMap_tableError_eq_nil_iff d.columns (·.table) fun i => ⟨"columns", i, some "table"⟩,
    flatMap_tableError_eq_nil_iff d.filters (·.table) fun i => ⟨"filters", i, some "table"⟩,
    flatMap_tableError_eq_nil_iff d.groupBy (·.table) fun i => ⟨"group_by", i, some "table"⟩,
    flatMap_tableError_eq_nil_iff d.columnAggregates (·.table) fun i => ⟨"aggregate_functions", i, some "table"⟩]
  refine and_congr_left fun _ => ?_
  simp only [referredColumns, List.forall_mem_append, List.forall_mem_map, List.forall_mem_flatMap, List.forall_mem_cons,
    List.not_mem_nil, false_implies, implies_true, and_true]
  tauto

theorem name_injective {kind other : JoinKind} (h : kind.name = other.name) : kind = other := by
  cases kind <;> cases other <;> first | rfl | exact absurd h (by decide)

/-- No condition joins a table to itself, and conditions between the same tables agree on their kind. -/
theorem joinErrors_eq_nil_iff : d.joinErrors = []
    ↔ (∀ j ∈ d.joins, j.leftTable ≠ j.rightTable)
      ∧ ∀ j ∈ d.joins, ∀ j' ∈ d.joins, j.inOrder.leftTable = j'.inOrder.leftTable →
          j.inOrder.rightTable = j'.inOrder.rightTable → j.inOrder.kind = j'.inOrder.kind := by
  have hself : (d.joins.zipIdx.filterMap fun entry =>
      if entry.1.leftTable = entry.1.rightTable then some (Violation.selfJoin entry.2 entry.1) else none) = []
        ↔ ∀ j ∈ d.joins, j.leftTable ≠ j.rightTable :=
    filterMap_zipIdx_eq_nil_iff fun j i => by simp
  rw [joinErrors, List.append_eq_nil_iff, hself]
  refine and_congr_right fun hends => ?_
  have hall : d.joins.filter (fun j => decide (j.leftTable ≠ j.rightTable)) = d.joins :=
    List.filter_eq_self.mpr fun j hj => decide_eq_true (hends j hj)
  rw [hall, List.filterMap_eq_nil_iff]
  have hkinds : ∀ left right, (sortedTexts (((d.joins.map (·.inOrder)).filter fun j =>
      j.leftTable = left && j.rightTable = right).map (·.kind.name))).length ≤ 1
        ↔ ∀ j ∈ d.joins, ∀ j' ∈ d.joins, j.inOrder.leftTable = left ∧ j.inOrder.rightTable = right →
          j'.inOrder.leftTable = left ∧ j'.inOrder.rightTable = right → j.inOrder.kind = j'.inOrder.kind := by
    intro left right
    have hmem : ∀ text, text ∈ ((d.joins.map (·.inOrder)).filter fun j =>
        j.leftTable = left && j.rightTable = right).map (·.kind.name)
          ↔ ∃ j ∈ d.joins, (j.inOrder.leftTable = left ∧ j.inOrder.rightTable = right) ∧ j.inOrder.kind.name = text := by
      intro text
      simp [and_assoc]
    rw [sortedTexts, List.length_mergeSort, length_le_one_iff_of_nodup (nodup_distinctItems _)]
    simp only [mem_distinctItems, hmem]
    constructor
    · intro h j hj j' hj' hsame hsame'
      exact name_injective (h _ ⟨j, hj, hsame, rfl⟩ _ ⟨j', hj', hsame', rfl⟩)
    · rintro h _ ⟨j, hj, hsame, rfl⟩ _ ⟨j', hj', hsame', rfl⟩
      rw [h j hj j' hj' hsame hsame']
  constructor
  · intro h j hj j' hj' hleft hright
    have hnone := h (j.inOrder.leftTable, j.inOrder.rightTable)
      (mem_distinctItems.mpr (List.mem_map_of_mem (List.mem_map_of_mem hj)))
    have hlength := Nat.not_lt.mp fun hlong => Option.some_ne_none _ (ite_eq_right_iff.mp hnone hlong)
    exact (hkinds _ _).mp hlength j hj j' hj' ⟨rfl, rfl⟩ ⟨hleft.symm, hright.symm⟩
  · intro h pair _
    refine if_neg (Nat.not_lt.mpr ((hkinds pair.1 pair.2).mpr ?_))
    intro j hj j' hj' hsame hsame'
    exact h j hj j' hj' (hsame.1.trans hsame'.1.symm) (hsame.2.trans hsame'.2.symm)

theorem filterErrors_eq_nil_iff : d.filterErrors = []
    ↔ (∀ f ∈ d.filters, f.operator.valueProblem? f.value = none)
      ∧ ∀ having ∈ d.having, having.operator.valueProblem? having.value = none := by
  rw [filterErrors, List.append_eq_nil_iff]
  refine and_congr ?_ ?_ <;> exact filterMap_zipIdx_eq_nil_iff fun _ _ => Option.map_eq_none_iff

/-- Columns that share their name are equal if no two of them are listed as sharing it. -/
theorem sharing_length_le_one_iff (columns : List ColumnRef) (name : String) :
    (((distinctItems columns).filter fun c => c.outputName = name).mergeSort ColumnRef.le).length ≤ 1
      ↔ ∀ c ∈ columns, ∀ c' ∈ columns, c.outputName = name → c'.outputName = name → c = c' := by
  rw [List.length_mergeSort, length_le_one_iff_of_nodup ((nodup_distinctItems columns).filter _)]
  simp only [List.mem_filter, mem_distinctItems, decide_eq_true_iff]
  constructor
  · exact fun h c hc c' hc' hname hname' => h c ⟨hc, hname⟩ c' ⟨hc', hname'⟩
  · exact fun h c hc c' hc' => h c hc.1 c' hc'.1 hc.2 hc'.2

theorem nameErrors_eq_nil_iff : d.nameErrors aggregates = []
    ↔ (∀ c ∈ d.mentionedColumns aggregates, ∀ c' ∈ d.mentionedColumns aggregates, c.outputName = c'.outputName → c = c')
      ∧ ∀ a ∈ d.allAggregates, a.aliasName ∈ (d.mentionedColumns aggregates).map (·.outputName) →
          a.aliasName ∈ d.selectedColumns.map (·.outputName) := by
  have hnames : ∀ name, name ∈ sortedTexts ((distinctItems (d.mentionedColumns aggregates)).map (·.outputName))
      ↔ name ∈ (d.mentionedColumns aggregates).map (·.outputName) := by
    intro name
    simp only [mem_sortedTexts, List.mem_map, mem_distinctItems]
  refine List.append_eq_nil_iff.trans (and_congr ?_ ?_)
  · rw [List.filterMap_eq_nil_iff]
    have hshared : ∀ name, (if 1 < (((distinctItems (d.mentionedColumns aggregates)).filter
        fun c => c.outputName = name).mergeSort ColumnRef.le).length then
          some (Violation.sharedName name (((distinctItems (d.mentionedColumns aggregates)).filter
            fun c => c.outputName = name).mergeSort ColumnRef.le)) else none) = none
        ↔ ∀ c ∈ d.mentionedColumns aggregates, ∀ c' ∈ d.mentionedColumns aggregates,
          c.outputName = name → c'.outputName = name → c = c' := by
      intro name
      rw [← sharing_length_le_one_iff, ite_eq_right_iff, ← Nat.not_lt]
      simp
    constructor
    · intro h c hc c' hc' hname
      exact (hshared c.outputName).mp (h _ ((hnames _).mpr (List.mem_map_of_mem hc))) c hc c' hc' rfl hname.symm
    · intro h name _
      refine (hshared name).mpr fun c hc c' hc' hname hname' => h c hc c' hc' (hname.trans hname'.symm)
  · rw [List.filterMap_eq_nil_iff]
    have halias : ∀ a : AggregateExpression × Nat,
        (if (sortedTexts ((distinctItems (d.mentionedColumns aggregates)).map (·.outputName))).contains a.1.aliasName
            && !(d.selectedColumns.map (·.outputName)).contains a.1.aliasName then
          some (Violation.aliasOfColumn a.2 a.1.aliasName) else none) = none
        ↔ (a.1.aliasName ∈ (d.mentionedColumns aggregates).map (·.outputName) →
          a.1.aliasName ∈ d.selectedColumns.map (·.outputName)) := by
      intro a
      rw [← hnames, ← List.contains_iff_mem, ← List.contains_iff_mem]
      cases List.contains _ a.1.aliasName <;> cases List.contains _ a.1.aliasName <;> simp
    constructor
    · intro h a ha
      obtain ⟨i, hi⟩ := exists_mem_zipIdx ha
      exact (halias (a, i)).mp (h _ hi)
    · intro h a ha
      exact (halias a).mpr (h a.1 (List.fst_mem_of_mem_zipIdx ha))

theorem nodup_of_outputErrors_eq_nil (h : d.outputErrors = []) : (d.allAggregates.map (·.aliasName)).Nodup := by
  rw [outputErrors, List.map_eq_nil_iff] at h
  exact (List.nodup_append.mp (nodup_of_repeated_eq_nil h)).2.1

theorem groupErrors_eq_nil_iff : d.groupErrors = []
    ↔ (d.hasAggregates = true → ∀ name ∈ d.selectedColumns.map (·.outputName), name ∈ d.groupedNames) := by
  have hgood : ∀ (c : SelectedColumn) (i : Nat), (if c.isSelected && !d.groupedNames.contains c.outputName then
      some (Violation.notGrouped i c.toColumnRef) else none) = none
        ↔ (c.isSelected = true → c.outputName ∈ d.groupedNames) := by
    intro c i
    rw [← List.contains_iff_mem]
    cases c.isSelected <;> cases d.groupedNames.contains c.outputName <;> simp
  rw [groupErrors, List.forall_mem_map]
  cases d.hasAggregates with
  | false => simp
  | true =>
    refine (filterMap_zipIdx_eq_nil_iff hgood).trans ?_
    simp only [selectedColumns, List.mem_filter, and_imp, true_implies]

theorem mem_groupedNames_of_groupErrors_eq_nil (h : d.groupErrors = []) (haggregates : d.hasAggregates = true)
    {c : SelectedColumn} (hc : c ∈ d.selectedColumns) : c.outputName ∈ d.groupedNames :=
  groupErrors_eq_nil_iff.mp h haggregates _ (List.mem_map_of_mem hc)

theorem mem_of_havingErrors_eq_nil (h : d.havingErrors aggregates = []) {having : HavingPredicate}
    (hmem : having ∈ d.having) : having.target ∈ d.outputNames ++ d.groupedNames ++ aggregates.keys := by
  obtain ⟨i, hi⟩ := exists_eq_none_of_filterMap_zipIdx h hmem
  by_contra hnot
  rw [← List.contains_iff_mem] at hnot
  dsimp only at hi
  rw [if_neg hnot] at hi
  split at hi <;> cases hi

theorem mem_of_orderErrors_eq_nil (h : d.orderErrors = []) {o : OrderBy} (hmem : o ∈ d.orderBy) :
    o.target ∈ d.outputNames ∨ d.hasAggregates = true ∧ o.target ∈ d.groupedNames := by
  obtain ⟨i, hi⟩ := exists_eq_none_of_filterMap_zipIdx h hmem
  by_contra hnot
  dsimp only at hi
  rw [if_neg (by simpa using hnot)] at hi
  cases hi

/-! ### All checks together -/

theorem isValid_iff : (d.validate cleanup).isValid = true
    ↔ d.aliasErrors = [] ∧ d.referenceErrors = [] ∧ d.joinErrors = [] ∧ d.filterErrors = []
      ∧ (d.aggregateFindings cleanup).errors = [] ∧ d.outputErrors = []
      ∧ d.nameErrors (d.aggregateFindings cleanup).analyzed = [] ∧ d.groupErrors = []
      ∧ d.havingErrors (d.aggregateFindings cleanup).analyzed = [] ∧ d.orderErrors = [] := by
  rw [Validation.isValid, List.isEmpty_iff]
  simp only [validate, List.append_eq_nil_iff, and_assoc]

theorem isConsistent_of_isValid (h : (d.validate cleanup).isValid = true) :
    d.IsConsistent (d.aggregateFindings cleanup).analyzed := by
  obtain ⟨haliases, hreferences, hjoins, -, haggregates, houtput, hnames, -⟩ := isValid_iff.mp h
  obtain ⟨-, hnodup, hprimary⟩ := aliasErrors_eq_nil_iff.mp haliases
  refine ⟨hnodup, hprimary, (joinErrors_eq_nil_iff.mp hjoins).1, fun c hc => ?_, (nameErrors_eq_nil_iff.mp hnames).1⟩
  rcases List.mem_append.mp hc with hc | hc
  · exact (referenceErrors_eq_nil_iff.mp hreferences).1 c hc
  · obtain ⟨entry, hentry, hc⟩ := List.mem_flatMap.mp hc
    obtain ⟨column, hcolumn, rfl⟩ := List.mem_map.mp hc
    exact declared_of_mem_analyzed haggregates (nodup_of_outputErrors_eq_nil houtput) hentry hcolumn

/-- The aggregates that compilation reads are those that validation has checked. -/
theorem analyzedAggregates_of_isValid (h : (d.validate cleanup).isValid = true) :
    d.analyzedAggregates (d.validate cleanup).replacements = .ok (d.aggregateFindings cleanup).analyzed := by
  obtain ⟨-, -, -, -, haggregates, houtput, -⟩ := isValid_iff.mp h
  exact analyzedAggregates_of_errors_eq_nil haggregates (nodup_of_outputErrors_eq_nil houtput)

end Description

end QueryFederation

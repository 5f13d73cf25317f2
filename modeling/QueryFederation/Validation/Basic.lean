import QueryFederation.Join.Graph
import QueryFederation.Validation.Aggregates

/-!
# Validation

A description that validates is consistent in itself: every name it uses is declared, every filter has a value its
operator can use, joins of two tables agree on their kind, aggregates can be computed, and no two things share a name
in the result or in joined rows. Errors are listed in the order of the checks. Tables that no join reaches are worth a
warning only.
-/

namespace QueryFederation

structure Validation where
  errors : List Violation
  warnings : List Violation
  replacements : Entries String

namespace Validation

def isValid (v : Validation) : Bool := v.errors.isEmpty

def kinds (v : Validation) : List String := sortedTexts ((v.errors ++ v.warnings).map fun e => e.kind.name)

def message (v : Validation) : String :=
  "Query description is invalid: " ++ "; ".intercalate (v.errors.map (·.text))

def clean : Validation := ⟨[], [], []⟩

end Validation

namespace FilterOperator

def valueProblem? (operator : FilterOperator) (v : Value) : Option ValueProblem :=
  match operator with
  | .isIn | .notIn =>
    match v with
    | .list (_ :: _) => none
    | _ => some (.notList operator)
  | .between =>
    match v with
    | .list [_, _] => none
    | _ => some .notPair
  | .isNull | .isNotNull => none
  | _ =>
    match v with
    | .null => some (.missing operator)
    | .list _ | .record _ => some (.notScalar operator)
    | _ => none

theorem exists_items_of_valueProblem? {operator : FilterOperator} {v : Value}
    (hoperator : operator = .isIn ∨ operator = .notIn) (h : operator.valueProblem? v = none) :
    ∃ items, v = .list items := by
  obtain rfl | rfl := hoperator <;> cases v with
  | list items => exact ⟨items, rfl⟩
  | _ => cases h

theorem exists_bounds_of_valueProblem? {v : Value} (h : between.valueProblem? v = none) :
    ∃ low high, v = .list [low, high] := by
  cases v with
  | list items =>
    match items, h with
    | [low, high], _ => exact ⟨low, high, rfl⟩
  | _ => cases h

end FilterOperator

namespace Description

/-! ### Names and references -/

def aliasErrors (d : Description) : List Violation :=
  (d.aliases.zipIdx.filterMap fun (name, i) => if isIdentifier name then none else some (.invalidTableAlias i name))
    ++ (repeated d.aliases).map (fun (aliasName, n) => .repeatedTableAlias aliasName n)
    ++ (if d.aliases.contains d.primary then [] else [.undeclaredPrimary d.primary (distinctItems d.aliases)])

def tableError (d : Description) (place : Element) (aliasName : String) : List Violation :=
  if d.aliases.contains aliasName then [] else [.undeclaredTable place aliasName (sortedTexts d.aliases)]

def referenceErrors (d : Description) : List Violation :=
  (d.columns.zipIdx.flatMap fun (c, i) => d.tableError ⟨"columns", i, some "table"⟩ c.table)
    ++ (d.joins.zipIdx.flatMap fun (j, i) =>
      d.tableError ⟨"joins", i, none⟩ j.leftTable ++ d.tableError ⟨"joins", i, none⟩ j.rightTable)
    ++ (d.filters.zipIdx.flatMap fun (f, i) => d.tableError ⟨"filters", i, some "table"⟩ f.table)
    ++ (d.groupBy.zipIdx.flatMap fun (g, i) => d.tableError ⟨"group_by", i, some "table"⟩ g.table)
    ++ (d.columnAggregates.zipIdx.flatMap fun (a, i) => d.tableError ⟨"aggregate_functions", i, some "table"⟩ a.table)

/-! ### Joins and filters -/

def joinErrors (d : Description) : List Violation :=
  let selfJoins := d.joins.zipIdx.filterMap fun (j, i) =>
    if j.leftTable = j.rightTable then some (Violation.selfJoin i j) else none
  let ordered := (d.joins.filter fun j => j.leftTable ≠ j.rightTable).map (·.inOrder)
  let pairs := distinctItems (ordered.map fun j => (j.leftTable, j.rightTable))
  let disagreements := pairs.filterMap fun (left, right) =>
    let kinds := sortedTexts ((ordered.filter fun j => j.leftTable = left && j.rightTable = right).map (·.kind.name))
    if 1 < kinds.length then some (Violation.disagreeingJoins left right kinds) else none
  selfJoins ++ disagreements

def filterErrors (d : Description) : List Violation :=
  (d.filters.zipIdx.filterMap fun (f, i) =>
    (f.operator.valueProblem? f.value).map (.invalidValue ⟨"filters", i, none⟩))
    ++ d.having.zipIdx.filterMap fun (h, i) =>
      (h.operator.valueProblem? h.value).map (.invalidValue ⟨"having", i, none⟩)

/-! ### Names in results and in joined rows -/

def outputErrors (d : Description) : List Violation :=
  (repeated d.outputNames).map fun (name, n) => .repeatedOutput name n

def referredColumns (d : Description) : List ColumnRef :=
  d.columns.map (·.toColumnRef) ++ d.groupBy ++ d.filters.map (fun f => ⟨f.table, f.column⟩)
    ++ d.joins.flatMap fun j => [⟨j.leftTable, j.leftColumn⟩, ⟨j.rightTable, j.rightColumn⟩]

/-- Columns with equal names in joined rows, and aggregates with the names of columns. -/
def nameErrors (d : Description) (aggregates : Aggregates) : List Violation :=
  let columns := distinctItems (d.referredColumns
    ++ aggregates.flatMap fun (_, a) => a.columns.map fun (table, column) => ⟨table, column⟩)
  let names := sortedTexts (columns.map (·.outputName))
  let shared := names.filterMap fun name =>
    let sharing := (columns.filter fun c => c.outputName = name).mergeSort ColumnRef.le
    if 1 < sharing.length then some (Violation.sharedName name sharing) else none
  let selected := d.selectedColumns.map (·.outputName)
  shared ++ d.allAggregates.zipIdx.filterMap fun (a, i) =>
    if names.contains a.aliasName && !selected.contains a.aliasName then some (.aliasOfColumn i a.aliasName) else none

/-! ### Grouping, filters on results and order -/

def groupedNames (d : Description) : List String := d.groupBy.map (·.outputName)

def groupErrors (d : Description) : List Violation :=
  if !d.hasAggregates then []
  else d.columns.zipIdx.filterMap fun (c, i) =>
    if c.isSelected && !d.groupedNames.contains c.outputName then some (.notGrouped i c.toColumnRef) else none

def havingErrors (d : Description) (aggregates : Aggregates) : List Violation :=
  let possible := d.outputNames ++ d.groupedNames ++ aggregates.keys
  d.having.zipIdx.filterMap fun (h, i) =>
    if !d.hasAggregates then some (.havingWithoutAggregate i)
    else if possible.contains h.target then none
    else some (.unknownHaving i h.target (sortedTexts possible))

def orderErrors (d : Description) : List Violation :=
  d.orderBy.zipIdx.filterMap fun (o, i) =>
    if d.outputNames.contains o.target || (d.hasAggregates && d.groupedNames.contains o.target) then none
    else some (.unknownOrder i o.target (sortedTexts d.outputNames))

/-! ### The join graph -/

def graphWarnings (d : Description) : List Violation :=
  if d.tables.length < 2 then []
  else
    let components := d.components
    d.orphans.map (fun aliasName => .orphanedTable (d.aliases.idxOf aliasName) aliasName d.primary)
      ++ (if 1 < components.length then [.disconnected components] else [])

def validate (d : Description) (cleanup : Cleanup) : Validation :=
  let aggregates := d.aggregateFindings cleanup
  { errors := d.aliasErrors ++ d.referenceErrors ++ d.joinErrors ++ d.filterErrors ++ aggregates.errors
      ++ d.outputErrors ++ d.nameErrors aggregates.analyzed ++ d.groupErrors ++ d.havingErrors aggregates.analyzed
      ++ d.orderErrors
    warnings := aggregates.warnings ++ d.graphWarnings
    replacements := aggregates.replacements }

end Description

end QueryFederation

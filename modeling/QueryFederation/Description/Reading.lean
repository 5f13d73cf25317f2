import QueryFederation.Description.Basic
import QueryFederation.Json
import QueryFederation.Reading

/-!
# Reading descriptions

A description is read from a record or from JSON text. A description without a primary table starts from the first of
its tables; a limit or offset of -1 stands for none. What is written back by `Description.toRecord` reads as the same
description.
-/

namespace QueryFederation

/-- Why there is no description: the data is malformed, or it does not even have a first table to look at. -/
inductive DescriptionError where
  | malformed (m : Malformed)
  | tablesInRecord
  | tablesInScalar

namespace Read

def tableReference : Value → Checked TableReference :=
  record "TableReference" fun row =>
    TableReference.mk <$> required row "alias" text <*> required row "source_id" text <*> required row "table" text
      <*> defaulted row (if (row.lookup "schema").isSome then "schema" else "schema_name") (optional text) none

def columnRef : Value → Checked ColumnRef :=
  record "ColumnRef" fun row => ColumnRef.mk <$> required row "table" text <*> required row "column" text

def selectedColumn : Value → Checked SelectedColumn :=
  record "SelectedColumn" fun row =>
    (fun table column label isSelected => { table, column, label, isSelected })
      <$> required row "table" text <*> required row "column" text <*> defaulted row "label" (optional text) none
      <*> defaulted row "selected" truth true

def joinKind : Value → Checked JoinKind := choice JoinKind.all JoinKind.name

def joinCondition : Value → Checked JoinCondition :=
  record "JoinCondition" fun row =>
    JoinCondition.mk <$> required row "left_table" text <*> required row "left_column" text
      <*> required row "right_table" text <*> required row "right_column" text
      <*> defaulted row "join_type" joinKind .inner

def filterOperator : Value → Checked FilterOperator := choice FilterOperator.all FilterOperator.name

def connective : Value → Checked Connective := choice Connective.all Connective.name

def filterPredicate : Value → Checked FilterPredicate :=
  record "FilterPredicate" fun row =>
    FilterPredicate.mk <$> required row "table" text <*> required row "column" text
      <*> required row "operator" filterOperator <*> defaulted row "value" any .null
      <*> defaulted row "connective" connective .and

def aggregateExpression : Value → Checked AggregateExpression :=
  record "AggregateExpression" fun row =>
    AggregateExpression.mk <$> required row "expression" text <*> required row "alias" text

def columnAggregate : Value → Checked ColumnAggregate :=
  record "AggregateFunction" fun row =>
    ColumnAggregate.mk <$> required row "function" (choice AggregateFunction.all AggregateFunction.name)
      <*> required row "table" text <*> required row "column" text <*> defaulted row "distinct" truth false
      <*> defaulted row "alias" (optional text) none

def havingPredicate : Value → Checked HavingPredicate :=
  record "HavingPredicate" fun row =>
    HavingPredicate.mk <$> required row "target" text <*> required row "operator" filterOperator
      <*> defaulted row "value" any .null <*> defaulted row "connective" connective .and

def directionName (isDescending : Bool) : String := if isDescending then "desc" else "asc"

def orderBy : Value → Checked OrderBy :=
  record "OrderBy" fun row =>
    OrderBy.mk <$> required row "target" text
      <*> defaulted row "direction" (choice [false, true] directionName) false

def page : Value → Checked (Option Nat)
  | .integer (-1) => .ok none
  | v => optional natural v

def tables (v : Value) : Checked (List TableReference) :=
  (list tableReference v).andThen fun tables => if tables.isEmpty then .problem .noItems else .ok tables

def descriptionFields (row : Row) : Checked Description :=
  Description.mk <$> required row "tables" tables <*> defaulted row "primary_table" (optional text) none
    <*> defaulted row "columns" (list selectedColumn) [] <*> defaulted row "joins" (list joinCondition) []
    <*> defaulted row "filters" (list filterPredicate) [] <*> defaulted row "group_by" (list columnRef) []
    <*> defaulted row "aggregates" (list aggregateExpression) []
    <*> defaulted row "aggregate_functions" (list columnAggregate) []
    <*> defaulted row "having" (list havingPredicate) [] <*> defaulted row "order_by" (list orderBy) []
    <*> defaulted row "limit" page none <*> defaulted row "offset" page none

def description : Value → Checked Description := record "QueryDescription" descriptionFields

end Read

namespace Description

def firstAlias : Value → Value
  | .record first => Row.get first "alias"
  | _ => .null

/-- Fills in a primary table that is missing or empty. -/
def withPrimary (row : Row) : Except DescriptionError Row :=
  if !(Row.get row "primary_table").isFalsy then .ok row
  else
    let tables := Row.get row "tables"
    if tables.isFalsy then .ok row
    else match tables with
      | .list (first :: _) => .ok (Entries.put row "primary_table" (firstAlias first))
      | .list [] | .text _ | .bytes _ => .ok (Entries.put row "primary_table" .null)
      | .record _ => .error .tablesInRecord
      | _ => .error .tablesInScalar

def prepared : Value → Except DescriptionError Value
  | .record row => (withPrimary row).map Value.record
  | v => .ok v

def ofData (origin : Origin) (v : Value) : Except DescriptionError Description := do
  match (Read.description (← prepared v)).toExcept origin with
  | .ok d => return d
  | .error m => throw (.malformed m)

/-- Reads a description from a value; a text is taken for JSON. -/
def ofValue (v : Value) : Except DescriptionError Description :=
  match v with
  | .text s =>
    match Json.ofText? s with
    | some data => ofData .text data
    | none => .error (.malformed ⟨.text, [{ kind := .unreadableText }]⟩)
  | v => ofData .values v

/-! ### Writing back -/

def optionalText (s : Option String) : Value := (s.map Value.text).getD .null

def optionalNat (n : Option Nat) : Value := (n.map fun n => Value.integer n).getD .null

/-- The record of a description with every field filled in. -/
def toRecord (d : Description) : Value :=
  .record [
    ("tables", .list (d.tables.map fun t => .record
      [("alias", .text t.aliasName), ("source_id", .text t.sourceId), ("table", .text t.table),
       ("schema", optionalText t.schema)])),
    ("primary_table", optionalText d.primaryTable),
    ("columns", .list (d.columns.map fun c => .record
      [("table", .text c.table), ("column", .text c.column), ("label", optionalText c.label),
       ("selected", .boolean c.isSelected)])),
    ("joins", .list (d.joins.map fun j => .record
      [("left_table", .text j.leftTable), ("left_column", .text j.leftColumn), ("right_table", .text j.rightTable),
       ("right_column", .text j.rightColumn), ("join_type", .text j.kind.name)])),
    ("filters", .list (d.filters.map fun f => .record
      [("table", .text f.table), ("column", .text f.column), ("operator", .text f.operator.name), ("value", f.value),
       ("connective", .text f.connective.name)])),
    ("group_by", .list (d.groupBy.map fun g => .record [("table", .text g.table), ("column", .text g.column)])),
    ("aggregates", .list (d.aggregates.map fun a => .record
      [("expression", .text a.expression), ("alias", .text a.aliasName)])),
    ("aggregate_functions", .list (d.columnAggregates.map fun a => .record
      [("function", .text a.function.name), ("table", .text a.table), ("column", .text a.column),
       ("distinct", .boolean a.isDistinct), ("alias", optionalText a.aliasName)])),
    ("having", .list (d.having.map fun h => .record
      [("target", .text h.target), ("operator", .text h.operator.name), ("value", h.value),
       ("connective", .text h.connective.name)])),
    ("order_by", .list (d.orderBy.map fun o => .record
      [("target", .text o.target), ("direction", .text (Read.directionName o.isDescending))])),
    ("limit", optionalNat d.limit),
    ("offset", optionalNat d.offset)]

end Description

end QueryFederation

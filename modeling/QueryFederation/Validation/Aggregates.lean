import QueryFederation.Expression.Brackets
import QueryFederation.Expression.Dependencies
import QueryFederation.Validation.Violation

/-!
# Validation of aggregates

Aggregate texts may come with brackets that tools put around names. They are removed, or else refused, before the text
is read. An aggregate that could be read takes part in the further checks even if something is wrong with it.
-/

namespace QueryFederation

/-- What is done with brackets around names. -/
inductive Cleanup where
  | strip
  | reject
  deriving DecidableEq, Repr, Inhabited

namespace Cleanup

def name : Cleanup → String
  | strip => "rewrite"
  | reject => "reject"

def all : List Cleanup := [strip, reject]

end Cleanup

structure AggregateFindings where
  errors : List Violation := []
  warnings : List Violation := []
  /-- The texts to use instead of the given ones, by alias. -/
  replacements : Entries String := []
  analyzed : Aggregates := []

namespace AggregateFindings

def error (f : AggregateFindings) (v : Violation) : AggregateFindings := { f with errors := f.errors ++ [v] }

def analyze (known tables : List String) (index : Nat) (aliasName text : String) (f : AggregateFindings) :
    AggregateFindings :=
  match AnalyzedAggregate.analyze aliasName text known with
  | .error cause => f.error (.unreadableAggregate index cause)
  | .ok a =>
    let columns := (a.columns.map fun (table, column) => ColumnRef.mk table column).mergeSort ColumnRef.le
    let undeclared := columns.filter fun c => !tables.contains c.table
    { f with
      errors := f.errors ++ a.problems.map (.problemOfAggregate index aliasName)
        ++ undeclared.map (.undeclaredTableOfAggregate index aliasName)
      analyzed := Entries.put f.analyzed aliasName a }

def check (cleanup : Cleanup) (known tables : List String) (f : AggregateFindings) (item : AggregateExpression × Nat) :
    AggregateFindings :=
  let (⟨text, aliasName⟩, index) := item
  let f := if isIdentifier aliasName then f else f.error (.invalidAggregateAlias index aliasName)
  if Expression.hasBrackets text then
    let cleaned := Expression.stripBrackets text
    match cleanup with
    | .reject => f.error (.bracketNotation index aliasName text cleaned)
    | .strip =>
      let f := { f with
        warnings := f.warnings ++ [Violation.stripped index aliasName text cleaned]
        replacements := Entries.put f.replacements aliasName cleaned }
      f.analyze known tables index aliasName cleaned
  else f.analyze known tables index aliasName text

end AggregateFindings

def Description.aggregateFindings (d : Description) (cleanup : Cleanup) : AggregateFindings :=
  let known := d.allAggregates.map (·.aliasName)
  let findings := d.allAggregates.zipIdx.foldl (AggregateFindings.check cleanup known d.aliases) {}
  match findings.analyzed.dependencyOrder with
  | .ok _ => findings
  | .error cause => findings.error (.circularAggregates cause)

end QueryFederation

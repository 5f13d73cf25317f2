import QueryFederation.Compilation.Aggregates
import QueryFederation.Compilation.Basic
import QueryFederation.Compilation.Sql
import QueryFederation.Document.Condition

/-!
# Compiling to document pipelines

A description of one collection becomes a pipeline: documents that match, grouped or projected to the output names, then
groups that match, order, and paging. Of aggregates only single calls over one field can be expressed; a group first
accumulates them, and a projection turns what was accumulated into the value.
-/

namespace QueryFederation

namespace Document

def fieldPath (name : String) : Value := .text ("$" ++ name)

/-- How an aggregate is accumulated over a group, and how its value is read from what was accumulated. -/
structure Accumulation where
  accumulator : Value
  projection : Value
  deriving Inhabited

def accumulatorName : AggregateFunction → String
  | .sum => "$sum"
  | .avg => "$avg"
  | .min => "$min"
  | .max => "$max"
  | .count => "$sum"

def single (key : String) (v : Value) : Value := .record [(key, v)]

def countPresent (field : String) : Value :=
  single "$cond" (.list [single "$ne" (.list [fieldPath field, .null]), .integer 1, .integer 0])

def accumulation? (aliasName : String) : AggregateFunction → List Expression → Option Accumulation
  | .count, .star :: _ => some ⟨single "$sum" (.integer 1), .integer 1⟩
  | .count, .distinct [.column _ name] :: _ =>
    some ⟨single "$addToSet" (fieldPath name.name), single "$size" (fieldPath aliasName)⟩
  | .count, .column _ name :: _ => some ⟨single "$sum" (countPresent name.name), .integer 1⟩
  | function, .column _ name :: _ => some ⟨single (accumulatorName function) (fieldPath name.name), .integer 1⟩
  | _, _ => none

def accumulation (text : String) (a : AnalyzedAggregate) : Except CompileError Accumulation :=
  match a.simpleAggregate? with
  | some (function, args) =>
    if !a.aliasRefs.isEmpty then .error (.notCall text)
    else match accumulation? a.aliasName function args with
      | some accumulation => .ok accumulation
      | none => .error (.notField text)
  | none => .error (.notCall text)

end Document

namespace Description

open Document

def groupStages (d : Description) (accumulations : Entries Accumulation) : List Row :=
  let keys := Entries.ofPairs (d.groupBy.map fun g => (g.outputName, fieldPath g.column))
  let id : Value := if keys.isEmpty then .null else .record keys
  let group := accumulations.foldl (fun group (aliasName, a) => Entries.put group aliasName a.accumulator) [("_id", id)]
  let projectedKeys := keys.foldl (fun project (name, _) => Entries.put project name (.text ("$_id." ++ name)))
    [("_id", .integer 0)]
  let project := accumulations.foldl (fun project (name, a) => Entries.put project name a.projection) projectedKeys
  [[("$group", .record group)], [("$project", .record project)]]

def projectStage (d : Description) : Row :=
  [("$project", .record (Entries.ofPairs (d.selectedColumns.map fun c => (c.outputName, fieldPath c.column))))]

def matchStage (condition : Option Row) : List Row := (condition.map fun c => [("$match", Value.record c)]).toList

def sortStage (d : Description) : List Row :=
  if d.orderBy.isEmpty then []
  else [[("$sort", .record (Entries.ofPairs (d.orderBy.map fun o =>
    (o.target, .integer (if o.isDescending then -1 else 1)))))]]

def pageStages (d : Description) : List Row :=
  (match d.offset with
    | none | some 0 => []
    | some n => [[("$skip", Value.integer n)]])
    ++ (match d.limit with
      | none => []
      | some n => [[("$limit", .integer n)]])

def compilePipeline (d : Description) (replacements : Entries String) : Except CompileFailure SourceQuery := do
  let ([table], []) := (d.tables, d.joins) | throw (.error .joinedCollections)
  let condition ← CompileFailure.ofOutcome (folded (fun f : FilterPredicate => do
    return (f.connective, ← Document.condition f.column f.operator f.value)) d.filters)
  let analyzed ← CompileFailure.ofCompile (d.analyzedAggregates replacements)
  let texts := d.aggregateTexts replacements
  let stages ←
    if analyzed.isEmpty && d.groupBy.isEmpty then pure [d.projectStage]
    else do
      let accumulations ← analyzed.mapM fun (aliasName, a) => do
        let accumulation ← CompileFailure.ofCompile (accumulation ((texts.lookup aliasName).getD "") a)
        return (aliasName, accumulation)
      pure (d.groupStages accumulations)
  let having ← CompileFailure.ofOutcome (folded (fun h : HavingPredicate => do
    return (h.connective, ← Document.condition h.target h.operator h.value)) d.having)
  return {
    sourceId := table.sourceId
    language := .document
    statement := .pipeline table.table
      (matchStage condition ++ stages ++ matchStage having ++ d.sortStage ++ d.pageStages)
    columns := d.outputColumns analyzed.keys }

end Description

end QueryFederation

import QueryFederation.Compilation.Aggregates
import QueryFederation.Compilation.Basic
import QueryFederation.Filter.Comparison
import QueryFederation.Join.Plan
import QueryFederation.Sql.Select

/-!
# Compiling to SQL

A description whose tables are all of one source becomes one SELECT statement: tables in the order of their join plan,
filters joined from left to right, aggregates written out wherever they are referred to. Nulls come last in the order.
-/

namespace QueryFederation

namespace Value

/-- A value as a literal: decimals as doubles, dates as texts, and what SQL has no literals for by its text. -/
def literal : Value → Value
  | decimal d => double (.ofDecimal d)
  | date d => text d.toText
  | timestamp t => text t.toText
  | bytes bs => text (bytes bs).toText
  | list items => text (list items).toText
  | record fields => text (record fields).toText
  | v => v

def term (v : Value) : Sql.Term := .literal v.literal

end Value

def FilterOperator.term (operator : FilterOperator) (subject : Sql.Term) (v : Value) : Outcome Sql.Term := do
  match operator with
  | .isNull => return .isNull false subject
  | .isNotNull => return .isNull true subject
  | .isIn => return .inList false subject ((← v.parts).map Value.term)
  | .notIn => return .inList true subject ((← v.parts).map Value.term)
  | .between => do
    let (low, high) ← v.bounds
    return .between false subject low.term high.term
  | .like => return .like false subject v.term
  | .notLike => return .like true subject v.term
  | .eq => return .binary .eq subject v.term
  | .ne => return .binary .ne subject v.term
  | .gt => return .binary .gt subject v.term
  | .ge => return .binary .ge subject v.term
  | .lt => return .binary .lt subject v.term
  | .le => return .binary .le subject v.term

def Connective.operator : Connective → Sql.Operator
  | and => .and
  | or => .or

def ColumnRef.term (c : ColumnRef) : Sql.Term := .column (some c.table) c.column

def JoinPair.term (pair : JoinPair) : Sql.Term := .binary .eq pair.placed.term pair.added.term

def JoinStep.join (step : JoinStep) (source : Sql.Source) : Sql.Join Sql.Term :=
  match step.kind with
  | none => { kind := none, source }
  | some kind => { kind := some kind, source, condition := some (Sql.Term.all (step.pairs.map (·.term))) }

namespace Dialect

def supports (dialect : Dialect) : JoinKind → Bool
  | .full => dialect.capabilities.fullJoin
  | .right => dialect.capabilities.rightJoin
  | _ => true

end Dialect

namespace CompileFailure

def ofOutcome {α : Type} : Outcome α → Except CompileFailure α
  | .ok a => .ok a
  | .error f => .error (.value f)

def ofCompile {α : Type} : Except CompileError α → Except CompileFailure α
  | .ok a => .ok a
  | .error e => .error (.error e)

end CompileFailure

namespace Description

def source (d : Description) (aliasName : String) : Sql.Source :=
  match d.table? aliasName with
  | some t => ⟨t.table, t.schema, some t.aliasName⟩
  | none => ⟨aliasName, none, some aliasName⟩

def unsupportedJoin? (dialect : Dialect) (plan : JoinPlan) : Option CompileError :=
  plan.steps.findSome? fun step =>
    match step.kind, step.conditions with
    | some kind, condition :: _ =>
      if dialect.supports kind then none else some (.unsupportedJoin dialect kind condition)
    | _, _ => none

def joinsOf (d : Description) (dialect : Dialect) (plan : JoinPlan) :
    Except CompileFailure (List (Sql.Join Sql.Term)) :=
  match unsupportedJoin? dialect plan with
  | some e => .error (.error e)
  | none => .ok (plan.steps.map fun step => step.join (d.source (step.nodes.headD "")))

def condition (d : Description) : Outcome (Option Sql.Term) :=
  d.filters.foldlM (fun before f => do
    let term ← f.operator.term (.column (some f.table) f.column) f.value
    return some (Sql.Term.joined f.connective.operator before term)) none

/-- What a name of the result stands for: an aggregate or a column, which need not be selected. -/
def outputTerm? (d : Description) (aggregates : Entries Sql.Term) (name : String) : Option Sql.Term :=
  match aggregates.lookup name with
  | some term => some term
  | none => ((d.groupBy ++ d.columns.map (·.toColumnRef)).find? fun c => c.outputName = name).map (·.term)

def havingCondition (d : Description) (aggregates : Entries Sql.Term) : Except CompileFailure (Option Sql.Term) :=
  d.having.foldlM (fun before h =>
    match d.outputTerm? aggregates h.target with
    | none => throw (.error (.unknownHaving h.target))
    | some subject => do
      let term ← CompileFailure.ofOutcome (h.operator.term subject h.value)
      return some (Sql.Term.joined h.connective.operator before term)) none

def order (d : Description) (aggregates : Entries Sql.Term) : Except CompileFailure (List (Sql.Order Sql.Term)) :=
  d.orderBy.mapM fun o =>
    match d.outputTerm? aggregates o.target with
    | none => throw (.error (.unknownOrder o.target))
    | some term => return { term, isDescending := o.isDescending, nullsLast := some true }

def select (d : Description) (dialect : Dialect) (aggregates : Entries Sql.Term) (plan : JoinPlan) :
    Except CompileFailure (Sql.Select Sql.Term) := do
  let columns := d.selectedColumns.map (fun c => Sql.Term.named c.toColumnRef.term c.outputName)
    ++ aggregates.map fun (aliasName, term) => Sql.Term.named term aliasName
  let joins ← d.joinsOf dialect plan
  let condition ← CompileFailure.ofOutcome d.condition
  let having ← d.havingCondition aggregates
  let orderBy ← d.order aggregates
  return {
    columns, joins, condition, having, orderBy
    source := some (d.source (plan.root.headD ""))
    groupBy := d.groupBy.map (·.term)
    limit := d.limit.map Int.ofNat
    offset := d.offset.map Int.ofNat }

def compileSql (d : Description) (dialectName : String) (replacements : Entries String) :
    Except CompileFailure SourceQuery := do
  let [sourceId] := d.sourceIds | throw (.error (.severalSources d.sourceIds))
  let dialect ← match Dialect.ofName dialectName with
    | .ok dialect => pure dialect
    | .error e => throw (.dialect e)
  let resolved ← CompileFailure.ofCompile (d.resolvedAggregates replacements)
  let aggregates := resolved.map fun (aliasName, e) => (aliasName, Sql.Term.written (e.render dialect))
  let columns := d.outputColumns resolved.keys
  if columns.isEmpty then throw (.error .noColumns)
  let some plan := d.tablePlan? | throw .noPrimary
  let statement := (← d.select dialect aggregates plan).text dialect
  let crossed := (plan.steps.filter (·.isCross)).map fun step => step.nodes.headD ""
  let complaints := Sql.complaints dialect.name statement
  return {
    sourceId, columns
    language := .sql dialect
    statement := .sql statement
    flags := if crossed.isEmpty then [] else [.crossJoin]
    warnings := crossed.map .crossJoined ++ complaints.map .unreadable
    isReadable := complaints.isEmpty }

end Description

end QueryFederation

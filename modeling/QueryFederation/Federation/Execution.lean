import QueryFederation.Compilation.Checked
import QueryFederation.Engine.Registry
import QueryFederation.Federation.Plan
import QueryFederation.Join.Execution
import QueryFederation.Result.Materialization

/-!
# Answering from several sources

A description is planned, each partition is asked for its rows, and the rows are joined and materialized. A partition
of which no column is needed is asked for one nonetheless, since the number of its rows counts.

All partitions are asked, whatever becomes of the others. If several fail, the first one that does not just run out of
time is the one that counts.
-/

namespace QueryFederation

structure TimeLimits where
  subQuery : Double
  join : Double
  connector : Double

def Serving.ofOutcome {α : Type} : Outcome α → Serving α
  | .ok a => pure a
  | .error f => throw (.computation f)

def EngineError.ofCompilation {α : Type} : Except CompileFailure α → Except EngineError α
  | .ok a => .ok a
  | .error f => .error (.compilation f)

namespace Partition

def withColumn (p : Partition) (name : String) : Partition :=
  { p with columns := p.columns ++ [⟨p.aliases.headD "", name⟩] }

def compile (p : Partition) (d : Description) (r : Registry) : Except EngineError SourceQuery := do
  let connector ← r.connector p.sourceId
  EngineError.ofCompilation ((p.subDescription d).compileTo connector.language [])

/-- The name of the table of a partition that has nothing but its number of rows to give. -/
def firstTable (p : Partition) (d : Description) : String :=
  let aliasName := p.aliases.headD ""
  ((d.table? aliasName).map (·.table)).getD aliasName

def filled (p : Partition) (d : Description) (r : Registry) (time : Double) : Serving Partition := do
  if !p.columns.isEmpty then return p
  match ← r.columns p.sourceId (p.firstTable d) time with
  | [] => throw (.noColumns (p.firstTable d) p.sourceId)
  | column :: _ => return p.withColumn column.name

end Partition

structure FederatedDescription where
  aggregates : Aggregates
  plan : FederationPlan

namespace Description

def federate (d : Description) (v : Validation) (r : Registry) : Except EngineError FederatedDescription := do
  let aggregates ← EngineError.ofCompilation (CompileFailure.ofCompile (d.analyzedAggregates v.replacements))
  for id in d.sourceIds do
    let _ ← r.connector id
  match d.federationPlan? aggregates r.canJoin with
  | some plan => return { aggregates, plan }
  | none => throw (.compilation .noPrimary)

end Description

namespace FederatedDescription

def queries (f : FederatedDescription) (d : Description) (r : Registry) : Except EngineError (List SourceQuery) :=
  (f.plan.partitions.filter fun p => !p.columns.isEmpty).mapM fun p => p.compile d r

end FederatedDescription

def Description.compileFederated (d : Description) (v : Validation) (r : Registry) :
    Except EngineError FederatedQuery := do
  let f ← d.federate v r
  return {
    columns := d.outputColumns (d.allAggregates.map (·.aliasName))
    flags := if f.plan.join.hasCrossJoin then [.crossJoin] else []
    partitions := ← f.queries d r }

/-! ### The rows of partitions -/

def Registry.rows (r : Registry) (q : SourceQuery) (time : Double) : Serving (List Row) := do
  Serving.ofOutcome (decodeRows (← r.query q.sourceId q time) (some q.sourceId) q.outputNames)

def partitionRows (r : Registry) (limits : TimeLimits) (time : Double) (q : SourceQuery) : Serving (List Row) := do
  let time := limits.subQuery.smaller time
  if time.isSpent then throw (.expired .partition)
  r.rows q time

/-- The failure of a partition, as the caller of the whole is told. -/
def EngineError.ofPartition (e : EngineError) : EngineError := if e.isUnforeseen then .partition e.message else e

/-- Of several failures the one that counts. -/
def EngineError.leading? (errors : List EngineError) : Option EngineError :=
  (errors.find? fun e => !e.isExpired).or errors.head?

def allAnswers {α : Type} (outcomes : List (Except EngineError α)) : Except EngineError (List α) :=
  let errors := outcomes.filterMap fun
    | .ok _ => none
    | .error e => some e
  match EngineError.leading? errors with
  | some e => .error e.ofPartition
  | none => outcomes.mapM id

def rowsOfGroup (answers : List (Partition × List Row)) (nodes : List String) : NamedRows :=
  match answers.find? fun (p, _) => p.aliases.contains (nodes.headD "") with
  | some (p, rows) => ⟨p.outputNames, rows⟩
  | none => ⟨[], []⟩

def Description.joinPartitions (d : Description) (f : FederatedDescription) (order : List String)
    (answers : List (Partition × List Row)) : Outcome (List Row) := do
  let joined ← (f.plan.join.execute (rowsOfGroup answers)).answer false
  d.materialize f.aggregates order f.plan.residual joined.rows

/-- The rows of a description over several sources, and whether rows had to be crossed for them. -/
def Description.executeFederated (d : Description) (v : Validation) (r : Registry) (limits : TimeLimits)
    (time : Double) : Serving (List Row × Bool) := do
  let f ← d.federate v r
  let _ ← f.queries d r
  let partitions ← f.plan.partitions.mapM fun p => do
    let p ← p.filled d r (limits.connector.smaller time)
    return (p, ← p.compile d r)
  let outcomes ← partitions.mapM fun (_, q) => observing (partitionRows r limits time q)
  let answers ← allAnswers outcomes
  if (limits.join.smaller time).isSpent then throw (.expired .join)
  match f.aggregates.dependencyOrder with
  | .error e => throw (.compilation (.error (.circularAggregates e)))
  | .ok order =>
    let rows ← Serving.ofOutcome (d.joinPartitions f order ((partitions.map (·.1)).zip answers))
    return (rows, f.plan.join.hasCrossJoin)

end QueryFederation

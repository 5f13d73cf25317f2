import QueryFederation.Engine.Settings
import QueryFederation.Federation.Execution

/-!
# Engines

An engine has settings and registered sources. It validates descriptions, compiles them for their sources, executes
them, suggests joins, and tells what its sources have. A description is federated if its tables are of several
sources, or of one source that cannot join them.
-/

namespace QueryFederation

structure Engine where
  settings : Settings := {}
  registry : Registry := {}

inductive ExecutionMode where
  | single
  | federated
  deriving DecidableEq, Repr

def ExecutionMode.name : ExecutionMode → String
  | single => "single"
  | federated => "federated"

structure ExecutionResult where
  rows : List Row
  columns : List DescribedColumn
  flags : List QueryFlag
  warnings : List QueryWarning
  mode : ExecutionMode

namespace Engine

def ofSettings (settings : Settings) : Engine := { settings, registry := { retries := settings.retries } }

def limits (e : Engine) : TimeLimits := ⟨e.settings.subQueryTime, e.settings.joinTime, e.settings.connectorTime⟩

/-- The seconds for a request that does not ask for another time. -/
def defaultTime (e : Engine) : Double := e.settings.subQueryTime.add e.settings.joinTime

/-! ### Descriptions -/

def validate (e : Engine) (d : Description) : Validation := d.validate e.settings.cleanup

def validated (e : Engine) (d : Description) : Except EngineError Validation :=
  EngineError.ofCompilation (d.validated e.settings.cleanup)

def onlySource (d : Description) : String := d.sourceIds.headD ""

def needsFederation (e : Engine) (d : Description) : Bool :=
  d.isFederated || (d.tables.length > 1 && !e.registry.canJoin (onlySource d))

def languageOf (e : Engine) (id : String) : String :=
  ((e.registry.find? id).map (·.language)).getD e.settings.defaultDialect

/-- Compiles a description; a language other than that of the source may be asked for, but not with an empty name. -/
def compile (e : Engine) (d : Description) (language : Option String) : Except EngineError CompiledQuery := do
  let v ← e.validated d
  if e.needsFederation d then
    return (CompiledQuery.federated (← d.compileFederated v e.registry)).annotate v
  let language := (language.filter (!·.isEmpty)).getD (e.languageOf (onlySource d))
  EngineError.ofCompilation (d.compileChecked language v)

def executeFederated (e : Engine) (d : Description) (v : Validation) (time : Double) : Serving ExecutionResult := do
  let (rows, isCrossed) ← d.executeFederated v e.registry e.limits time
  return {
    rows
    columns := describeColumns (d.outputColumns (d.allAggregates.map (·.aliasName))) rows
    flags := v.flags (if isCrossed then [.crossJoin] else [])
    warnings := v.queryWarnings ++ (if isCrossed then [.crossedPartitions] else [])
    mode := .federated }

def executeSingle (e : Engine) (d : Description) (v : Validation) (time : Double) : Serving ExecutionResult := do
  let connector ← e.registry.connector (onlySource d)
  let q ← EngineError.ofCompilation (d.compileTo connector.language v.replacements)
  let rows ← e.registry.rows q (e.settings.subQueryTime.smaller time)
  return {
    rows
    columns := describeColumns q.columns rows
    flags := v.flags q.flags
    warnings := v.queryWarnings ++ q.warnings
    mode := .single }

/-- The result of a description; it has so many seconds. -/
def execute (e : Engine) (d : Description) (time : Option Double) : Serving ExecutionResult := do
  let v ← e.validated d
  let time := time.getD e.defaultTime
  if e.needsFederation d then e.executeFederated d v time else e.executeSingle d v time

/-! ### Sources -/

def register (e : Engine) (id : String) (c : Connector) : Except Registry.Taken Engine := do
  return { e with registry := ← e.registry.register id c }

def tables (e : Engine) (id : String) : Serving (List String) := e.registry.tables id e.settings.connectorTime

def columns (e : Engine) (id table : String) : Serving (List ColumnDescriptor) :=
  e.registry.columns id table e.settings.connectorTime

def schema (e : Engine) (t : TableReference) : Serving TableSchema := do
  let columns ← e.columns t.sourceId t.table
  let foreignKeys ← e.registry.foreignKeys t.sourceId t.table e.settings.connectorTime
  return { aliasName := t.aliasName, sourceId := t.sourceId, table := some t.table, columns, foreignKeys }

def schemas (e : Engine) (tables : List TableReference) : Serving (List TableSchema) := tables.mapM e.schema

def query (e : Engine) (q : SourceQuery) : Serving RowSet := e.registry.query q.sourceId q e.settings.subQueryTime

def close (e : Engine) : Serving Unit := e.registry.close

def suggestJoins (e : Engine) (tables : List TableSchema) (hints : List Discovery.Hint) : List Discovery.Candidate :=
  Discovery.suggest tables hints e.settings.minJoinConfidence

end Engine

end QueryFederation

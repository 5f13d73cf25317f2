import QueryFederation.Description.Reading
import QueryFederation.Engine.Basic

/-!
# Answers as records

The records in which callers from outside are told of plans, validations, compiled queries, results, suggested joins and
what there is in a source.
-/

namespace QueryFederation

namespace Value

def texts (items : List String) : Value := .list (items.map .text)

def optionalText (s : Option String) : Value := (s.map Value.text).getD .null

end Value

/-! ### Problems and violations -/

def PathStep.toValue : PathStep → Value
  | field name => .text name
  | item index => .integer index

def Problem.toRecord (p : Problem) (origin : Origin) : Value :=
  .record ([("type", .text p.kind.name), ("loc", .list (p.path.map (·.toValue)))]
    ++ (match p.kind.message? origin with
      | some message => [("msg", .text message)]
      | none => []))

def Malformed.toValue (m : Malformed) : Value := .list (m.problems.map fun p => p.toRecord m.origin)

def Violation.toRecord (v : Violation) : Value :=
  .record [("kind", .text v.kind.name), ("message", .text v.message), ("path", .text v.path),
    ("suggestions", .texts v.suggestions)]

def Validation.toRecord (v : Validation) : Value :=
  .record [("valid", .boolean v.isValid), ("errors", .list (v.errors.map (·.toRecord))),
    ("warnings", .list (v.warnings.map (·.toRecord))),
    ("rewrites", .record (v.replacements.map fun (aliasName, s) => (aliasName, .text s)))]

/-! ### Plans -/

def JoinPair.toValue (p : JoinPair) : Value := .texts [p.placed.table, p.placed.column, p.added.table, p.added.column]

def JoinStep.toRecord (step : JoinStep) : Value :=
  .record [("nodes", .texts step.nodes), ("kind", .optionalText (step.kind.map (·.name))),
    ("pairs", .list (step.pairs.map (·.toValue))), ("conditions", .texts (step.conditions.map (·.text)))]

def JoinPlan.toRecord (plan : JoinPlan) : Value :=
  .record [("root", .texts plan.root), ("has_cross_join", .boolean plan.hasCrossJoin),
    ("steps", .list (plan.steps.map (·.toRecord))), ("null_supplying", .texts (sortedTexts plan.nullSupplying))]

def FilterPredicate.toRecord (f : FilterPredicate) : Value :=
  .record [("table", .text f.table), ("column", .text f.column), ("operator", .text f.operator.name),
    ("value", f.value), ("connective", .text f.connective.name)]

def Partition.toRecord (p : Partition) (d : Description) (place : Nat) : Value :=
  .record [("index", .integer place), ("source_id", .text p.sourceId), ("aliases", .texts p.aliases),
    ("joins", .texts (p.joins.map (·.text))), ("filters", .list (p.filters.map (·.toRecord))),
    ("output_names", .texts p.outputNames), ("sub", (p.subDescription d).toRecord)]

/-- The place of the partition that has a table. -/
def FederationPlan.placeOf (plan : FederationPlan) (aliasName : String) : Nat :=
  (plan.partitions.findIdx? fun p => p.aliases.contains aliasName).getD 0

def FederationPlan.toRecord (plan : FederationPlan) (d : Description) : Value :=
  .record [("partitions", .list (plan.partitions.zipIdx.map fun (p, place) => p.toRecord d place)),
    ("join_plan", plan.join.toRecord), ("residual", .list (plan.residual.map (·.toRecord))),
    ("partition_of", .record (d.aliases.map fun aliasName => (aliasName, .integer (plan.placeOf aliasName))))]

/-! ### Queries and results -/

def OutputColumn.toRow (c : OutputColumn) : Row :=
  [("name", .text c.name), ("table", .optionalText c.table), ("column", .optionalText c.column),
    ("aggregate", .boolean c.isAggregate), ("label", .optionalText c.label)]

def DescribedColumn.toRecord (c : DescribedColumn) : Value :=
  .record (("type", .text c.type.name) :: c.toOutputColumn.toRow)

def Statement.toValue : Statement → Value
  | sql s => .text s
  | pipeline collection stages =>
    .record [("collection", .text collection), ("pipeline", .list (stages.map .record))]
  | other => .null

/-- What all compiled queries are told by. -/
def queryRow (columns : List OutputColumn) (flags : List QueryFlag) (warnings : List QueryWarning) : Row :=
  [("columns", .list (columns.map fun c => .record c.toRow)), ("flags", .texts (flags.map (·.name))),
    ("warnings", .texts (warnings.map (·.message)))]

def SourceQuery.toRecord (q : SourceQuery) : Value :=
  .record ([("source_id", .text q.sourceId), ("dialect", .text q.language.name), ("statement", q.statement.toValue),
    ("partitions", .list []), ("sql_valid", .boolean q.isReadable)] ++ queryRow q.columns q.flags q.warnings)

def federatedName : String := "federated"

def FederatedQuery.toRecord (q : FederatedQuery) : Value :=
  .record ([("source_id", .null), ("dialect", .text federatedName), ("statement", .null),
    ("partitions", .list (q.partitions.map (·.toRecord))), ("sql_valid", .boolean true)]
    ++ queryRow q.columns q.flags q.warnings)

def CompiledQuery.toRecord : CompiledQuery → Value
  | single q => q.toRecord
  | federated q => q.toRecord

def ExecutionResult.toRecord (r : ExecutionResult) : Value :=
  .record [("rows", .list (r.rows.map .record)), ("columns", .list (r.columns.map (·.toRecord))),
    ("flags", .texts (r.flags.map (·.name))), ("warnings", .texts (r.warnings.map (·.message))),
    ("mode", .text r.mode.name)]

/-! ### Sources and joins -/

def ColumnDescriptor.toRecord (c : ColumnDescriptor) : Value := .record [("name", .text c.name), ("type", .text c.type)]

def ForeignKey.toRecord (k : ForeignKey) : Value :=
  .record [("column", .text k.column), ("references_table", .text k.referencedTable),
    ("references_column", .text k.referencedColumn)]

def TableSchema.toRecord (t : TableSchema) : Value :=
  .record [("alias", .text t.aliasName), ("source_id", .text t.sourceId), ("table", .optionalText t.table),
    ("columns", .list (t.columns.map (·.toRecord))), ("foreign_keys", .list (t.foreignKeys.map (·.toRecord)))]

def tableRecord (name : String) : Value := .record [("name", .text name), ("schema_name", .null)]

def Connector.toRecord (c : Connector) (id : String) : Value :=
  .record [("source_id", .text id), ("kind", .text c.kind.name), ("dialect", .text c.language),
    ("supports_joins", .boolean c.supportsJoins)]

def Discovery.Candidate.toRow (c : Discovery.Candidate) : Row :=
  [("left_table", .text c.left.table), ("left_column", .text c.left.column), ("right_table", .text c.right.table),
    ("right_column", .text c.right.column), ("confidence", .double c.confidence),
    ("source", .text c.evidence.sourceName), ("pattern", .text c.evidence.patternName), ("reason", .text c.reason),
    ("join_type", .text c.kind.name)]

def Dialect.Capabilities.toRecord (c : Dialect.Capabilities) : Value :=
  .record [("supports_right_join", .boolean c.rightJoin), ("supports_full_join", .boolean c.fullJoin),
    ("supports_ilike", .boolean c.caselessLike), ("supports_nulls_ordering", .boolean c.nullsOrdering),
    ("requires_limit_with_offset", .boolean c.limitWithOffset)]

/-! ### Settings -/

def Settings.toRecord (s : Settings) : Value :=
  .record [("log_level", .text s.logLevel), ("api_server_host", .text s.host),
    ("api_server_port", .integer s.interfacePort), ("port", (s.assignedPort.map Value.integer).getD .null),
    ("max_body_bytes", .integer s.maxBodyBytes), ("sub_query_timeout_seconds", .double s.subQueryTime),
    ("join_timeout_seconds", .double s.joinTime), ("connector_timeout_seconds", .double s.connectorTime),
    ("connector_retries", .integer s.connectorRetries), ("default_dialect", .text s.defaultDialect),
    ("expression_cleanup", .text s.cleanup.name), ("min_join_confidence", .double s.minJoinConfidence),
    (Settings.storeFilesName, .record (s.storeFiles.map fun (id, path) => (id, .text path)))]

end QueryFederation

import QueryFederation.Result.Column
import QueryFederation.Sql.Dialect
import QueryFederation.Sql.Lexing
import QueryFederation.Validation.Basic

/-!
# Compiled queries

What a description is compiled to: a statement for one source, or the statements for all partitions of a federated
query. Compiled queries carry flags and warnings about what the caller may not expect, and know which columns the
answer has.
-/

namespace QueryFederation

inductive Language where
  | sql (dialect : Dialect)
  | document
  deriving DecidableEq, Repr, Inhabited

namespace Language

def documentName : String := "document"

def name : Language → String
  | sql dialect => dialect.name
  | document => documentName

end Language

inductive Statement where
  | sql (text : String)
  | pipeline (collection : String) (stages : List Row)
  | other
  deriving Inhabited

inductive QueryFlag where
  | crossJoin
  | cleanup
  deriving DecidableEq, Repr, Inhabited

def QueryFlag.name : QueryFlag → String
  | crossJoin => "fallback-cross-join"
  | cleanup => "expression-cleanup"

inductive QueryWarning where
  | violation (v : Violation)
  | crossJoined (aliasName : String)
  | unreadable (complaint : String)
  | crossedPartitions

def QueryWarning.message : QueryWarning → String
  | violation v => v.text
  | crossJoined aliasName => "Table '" ++ aliasName ++ "' has no join condition and is cross joined"
  | unreadable complaint => "SQL validation: " ++ complaint
  | crossedPartitions => "No join condition links some partitions; rows are cross joined"

structure SourceQuery where
  sourceId : String
  language : Language
  statement : Statement
  columns : List OutputColumn
  flags : List QueryFlag := []
  warnings : List QueryWarning := []
  isReadable : Bool := true
  deriving Inhabited

namespace SourceQuery

def outputNames (q : SourceQuery) : List String := q.columns.map (·.name)

end SourceQuery

structure FederatedQuery where
  columns : List OutputColumn
  flags : List QueryFlag := []
  warnings : List QueryWarning := []
  partitions : List SourceQuery
  deriving Inhabited

inductive CompiledQuery where
  | single (q : SourceQuery)
  | federated (q : FederatedQuery)

def Validation.flags (v : Validation) (flags : List QueryFlag) : List QueryFlag :=
  if v.replacements.isEmpty || flags.contains .cleanup then flags else flags ++ [.cleanup]

def Validation.queryWarnings (v : Validation) : List QueryWarning := v.warnings.map .violation

def CompiledQuery.annotate (q : CompiledQuery) (v : Validation) : CompiledQuery :=
  match q with
  | single q => single { q with flags := v.flags q.flags, warnings := v.queryWarnings ++ q.warnings }
  | federated q => federated { q with flags := v.flags q.flags, warnings := v.queryWarnings ++ q.warnings }

namespace Description

/-- The columns of the result: those selected, then the aggregates. -/
def outputColumns (d : Description) (aggregates : List String) : List OutputColumn :=
  d.selectedColumns.map (fun c =>
    { name := c.outputName, table := some c.table, column := some c.column, label := c.label })
    ++ aggregates.map fun aliasName => { name := aliasName, isAggregate := true, label := some aliasName }

end Description

end QueryFederation

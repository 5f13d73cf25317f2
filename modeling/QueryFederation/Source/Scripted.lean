import QueryFederation.Source.Connector
import QueryFederation.Table.Basic

/-!
# Scripted sources

A source with prepared answers, to try an engine without a store. It answers a query with the rows prepared for the
table of the first column asked for. It may fail the first so many requests for tables, columns or rows, never reply
to queries, or break at them.
-/

namespace QueryFederation

inductive ScriptedFailure where
  | told (reason : FailureReason) (words : String)
  | breakdown (b : Breakdown)

structure ScriptedSource where
  kind : SourceKind := .relational
  language : String := Dialect.name .postgres
  /-- The rows prepared for tables; those for aggregates are under a star. -/
  rows : Entries (List Row) := []
  columns : Entries (List ColumnDescriptor) := []
  foreignKeys : Entries (List ForeignKey) := []
  emptyColumns : Option (List String) := none
  failure : Option (ScriptedFailure × Nat) := none
  isSilent : Bool := false
  breaksWith : Option Breakdown := none

namespace ScriptedSource

/-- Does a failure of the script count the request? -/
def counts : Request → Bool
  | .foreignKeys _ | .close => false
  | _ => true

def reply {α : Type} (s : ScriptedSource) (earlier : List Request) (answer : Reply α) : Reply α :=
  match s.failure with
  | none => answer
  | some (failure, times) =>
    if (earlier.filter counts).length < times then
      match failure with
      | .told reason words => .failure (.told reason words)
      | .breakdown b => .breakdown b
    else answer

def rowsName (q : SourceQuery) : String :=
  match q.columns with
  | [] => "*"
  | c :: _ => c.table.getD "*"

def rowSet (s : ScriptedSource) (q : SourceQuery) : RowSet :=
  let rows := (s.rows.lookup (rowsName q)).getD []
  let columns := if rows.isEmpty then s.emptyColumns.getD q.outputNames else Table.columnsOf rows
  ⟨columns, rows.map fun row => columns.map (Row.get row)⟩

def queryReply (s : ScriptedSource) (q : SourceQuery) : Reply RowSet :=
  if s.isSilent then .silence
  else match s.breaksWith with
    | some b => .breakdown b
    | none => .answer (s.rowSet q)

def connector (s : ScriptedSource) : Connector where
  kind := s.kind
  language := s.language
  tables earlier := s.reply earlier (.answer s.columns.keys)
  columns earlier table := s.reply earlier (.answer ((s.columns.lookup table).getD []))
  foreignKeys _ table := .answer ((s.foreignKeys.lookup table).getD [])
  query earlier q := s.reply earlier (s.queryReply q)

end ScriptedSource

end QueryFederation

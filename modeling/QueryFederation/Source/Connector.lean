import QueryFederation.Compilation.Basic
import QueryFederation.Source.Schema
import QueryFederation.Table.Store

/-!
# Connectors

A connector is the way to a source. It is asked for tables, columns and declared keys, and to answer queries. What it
replies may depend on what it has been asked before, so every call is given the earlier requests.

A source may fail for a reason it tells, break, or not reply at all. Of the reasons only a lost connection is one that
may be gone when the source is asked again.
-/

namespace QueryFederation

inductive SourceKind where
  | relational
  | flatFile
  | document
  deriving DecidableEq, Repr, Inhabited

namespace SourceKind

def all : List SourceKind := [relational, flatFile, document]

def name : SourceKind → String
  | relational => "relational"
  | flatFile => "flat_file"
  | document => "document"

def supportsJoins (kind : SourceKind) : Bool := kind ≠ document

end SourceKind

/-! ### Failures -/

inductive FailureReason where
  | connectionLost
  | authExpired
  | tableNotFound
  | queryFailed
  deriving DecidableEq, Repr, Inhabited

namespace FailureReason

def all : List FailureReason := [connectionLost, authExpired, tableNotFound, queryFailed]

def name : FailureReason → String
  | connectionLost => "connection_lost"
  | authExpired => "auth_expired"
  | tableNotFound => "table_not_found"
  | queryFailed => "query_failed"

def ofName? (s : String) : Option FailureReason := all.find? fun reason => reason.name = s

/-- May it help to ask again? -/
def isPassing (reason : FailureReason) : Bool := reason = connectionLost

end FailureReason

inductive ConnectorFailure where
  | noTable (name : String)
  | noCollection (name : String)
  | query (e : QueryError)
  | pipeline (f : Fault)
  | sqlExpected
  | pipelineExpected
  | cannotOpen
  | notDatabase
  | told (reason : FailureReason) (words : String)

namespace ConnectorFailure

def words : ConnectorFailure → String
  | noTable name => "no table '" ++ name ++ "'"
  | noCollection name => "no collection '" ++ name ++ "'"
  | query e => e.message
  | pipeline f => f.message
  | sqlExpected => "expected a SQL statement"
  | pipelineExpected => "expected an aggregation pipeline"
  | cannotOpen => "unable to open database file"
  | notDatabase => "file is not a database"
  | told _ words => words

/-- The reason for the failure of a query; a table store gives it away only by its words. -/
def reasonOfWords (words : String) : FailureReason :=
  let mentions (part : String) : Bool := Text.isPart part (Text.lower words)
  if mentions "no such table" then .tableNotFound
  else if mentions "locked" || mentions "unable to open" || mentions "disk i/o" then .connectionLost
  else .queryFailed

def reason : ConnectorFailure → FailureReason
  | noTable _ | noCollection _ => .tableNotFound
  | query e => reasonOfWords e.message
  | cannotOpen => .connectionLost
  | pipeline _ | sqlExpected | pipelineExpected | notDatabase => .queryFailed
  | told reason _ => reason

end ConnectorFailure

structure Breakdown where
  kind : String
  words : String
  deriving DecidableEq, Repr

/-! ### Requests and replies -/

inductive Request where
  | tables
  | columns (table : String)
  | foreignKeys (table : String)
  | query (q : SourceQuery)
  | close
  deriving Inhabited

def Request.name : Request → String
  | tables => "list_tables"
  | columns _ => "list_columns"
  | foreignKeys _ => "list_foreign_keys"
  | query _ => "query"
  | close => "close"

def Request.isClose : Request → Bool
  | close => true
  | _ => false

inductive Reply (α : Type) where
  | answer (a : α)
  | failure (f : ConnectorFailure)
  | fault (f : Fault)
  | malformed (m : Malformed)
  | breakdown (b : Breakdown)
  | silence

namespace Reply

variable {α β : Type}

def map (f : α → β) : Reply α → Reply β
  | answer a => answer (f a)
  | failure f => failure f
  | fault f => fault f
  | malformed m => malformed m
  | breakdown b => breakdown b
  | silence => silence

def isPassing : Reply α → Bool
  | failure f => f.reason.isPassing
  | _ => false

end Reply

/-- The way to a source. Every call is given the requests that were made before. -/
structure Connector where
  kind : SourceKind
  language : String
  tables : List Request → Reply (List String)
  columns : List Request → String → Reply (List ColumnDescriptor)
  foreignKeys : List Request → String → Reply (List ForeignKey)
  query : List Request → SourceQuery → Reply RowSet

namespace Connector

def supportsJoins (c : Connector) : Bool := c.kind.supportsJoins

def failing (kind : SourceKind) (language : String) (f : ConnectorFailure) : Connector where
  kind := kind
  language := language
  tables _ := .failure f
  columns _ _ := .failure f
  foreignKeys _ _ := .failure f
  query _ _ := .failure f

end Connector

end QueryFederation

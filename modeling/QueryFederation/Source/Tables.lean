import QueryFederation.Source.Connector

/-!
# Table stores as sources

A table store answers in the dialect of SQLite. It is kept in memory, so closing it empties it. A store that cannot be
reached, or is none, fails every request.
-/

namespace QueryFederation.Connector

/-- A key that a table declares; a key that does not name its column cannot be told. -/
def declaredKey (key : Sql.DeclaredKey) : Checked ForeignKey :=
  match key.referenced with
  | some column => .ok ⟨key.column, key.table, column⟩
  | none => Checked.under (.field "references_column") (.problem .notText)

/-- The keys in order; the first that cannot be told fails. -/
def declaredKeys : List Sql.DeclaredKey → Reply (List ForeignKey)
  | [] => .answer []
  | key :: keys =>
    match declaredKey key with
    | .ok k => (declaredKeys keys).map (k :: ·)
    | .bad problems => .malformed ⟨.values, problems⟩

def storeColumns (store : Store) (table : String) : Reply (List ColumnDescriptor) :=
  match store.columns table with
  | .ok columns => .answer (columns.map (·.descriptor))
  | .error (.noTable _) => .failure (.noTable table)
  | .error e => .failure (.query e)

def storeQuery (store : Store) (q : SourceQuery) : Reply RowSet :=
  match q.statement with
  | .sql statement =>
    match store.query statement with
    | .ok rows => .answer rows
    | .error e => .failure (.query e)
  | _ => .failure .sqlExpected

def storeLanguage : String := Dialect.name .sqlite

/-- What is left of a store: nothing, once it has been closed. -/
def remaining (store : Store) (earlier : List Request) : Store := if earlier.any Request.isClose then {} else store

def ofStore (kind : SourceKind) (store : Store) : Connector where
  kind := kind
  language := storeLanguage
  tables earlier := .answer (remaining store earlier).tableNames
  columns earlier := storeColumns (remaining store earlier)
  foreignKeys earlier table := declaredKeys ((remaining store earlier).keys table)
  query earlier := storeQuery (remaining store earlier)

def unopened : Connector := failing .relational storeLanguage .cannotOpen

def noStore : Connector := failing .relational storeLanguage .notDatabase

end QueryFederation.Connector

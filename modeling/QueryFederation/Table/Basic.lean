import QueryFederation.Source.Schema
import QueryFederation.Table.Affinity

/-!
# Tables

A table has columns with declared types, and rows that hold one stored value for each column. Names of tables and
columns are the same whatever the case of their ASCII letters, so neither two columns nor two tables may differ in
case only.
-/

namespace QueryFederation

/-- Are two names the same, whatever the case of their ASCII letters? -/
def sameName (a b : String) : Bool := a.toList.map Char.toLower = b.toList.map Char.toLower

structure TableColumn where
  name : String
  declaredType : String := ""
  deriving DecidableEq, Repr, Inhabited

namespace TableColumn

def affinity (c : TableColumn) : Affinity := .ofDeclaredType c.declaredType

def descriptor (c : TableColumn) : ColumnDescriptor :=
  if c.declaredType.isEmpty then { name := c.name } else ⟨c.name, Text.lower c.declaredType⟩

end TableColumn

structure Table where
  name : String
  columns : List TableColumn
  rows : List (List Value) := []
  deriving Inhabited

inductive TableError where
  | noColumns (table : String)
  /-- A table may not be defined like this: its name is taken or reserved, or a column comes twice. -/
  | badDefinition
  | value (refusal : Refusal)
  deriving DecidableEq, Repr

/-- The words for a table without columns; other causes have none. -/
def TableError.message : TableError → String
  | noColumns table => "table '" ++ table ++ "' has no columns"
  | badDefinition | value _ => ""

namespace Table

def hasSameNames : List String → Bool
  | [] => false
  | name :: rest => rest.any (sameName name) || hasSameNames rest

def reservedStart : List Char := "sqlite_".toList

def isReserved (name : String) : Bool := reservedStart.isPrefixOf (name.toList.map Char.toLower)

def define (name : String) (columns : List TableColumn) : Except TableError Table :=
  if isReserved name || hasSameNames (columns.map (·.name)) then .error .badDefinition else .ok { name, columns }

def storedRow (t : Table) (values : List Value) : Except Refusal (List Value) :=
  (t.columns.zip values).mapM fun (c, v) => v.storedBy c.affinity

def insert (t : Table) (rows : List (List Value)) : Except TableError Table :=
  match rows.mapM t.storedRow with
  | .ok stored => .ok { t with rows := t.rows ++ stored }
  | .error refusal => .error (.value refusal)

/-- A table of rows under names. What a column may hold is read off its values. -/
def ofRows (name : String) (columns : List String) (rows : List Row) : Except TableError Table := do
  if columns.isEmpty then throw (.noColumns name)
  let types := columns.map fun c => TableColumn.mk c (Affinity.ofValues (rows.map fun row => Row.get row c)).name
  (← define name types).insert (rows.map fun row => columns.map (Row.get row))

/-- The names in rows, each where it comes first. -/
def columnsOf (rows : List Row) : List String := (rows.flatMap Entries.keys).eraseDups

end Table

end QueryFederation

import QueryFederation.Table.Delimited
import QueryFederation.Table.Query

/-!
# Table stores

A store holds tables and views under names that differ in more than case. It is filled with rows or by a script, tells
what it holds, and answers queries. A view is a query of what was there before it.
-/

namespace QueryFederation

open Sql (Select Command DeclaredKey)

inductive Definition where
  | table (t : Table) (keys : List DeclaredKey := [])
  | view (name : String) (s : Select Expression)
  deriving Inhabited

def Definition.name : Definition → String
  | table t _ => t.name
  | view name _ => name

structure Store where
  definitions : List Definition := []
  deriving Inhabited

inductive ScriptError where
  | query (e : QueryError)
  | table (e : TableError)
  deriving Repr

namespace Store

/-! ### Queries -/

def find (source : Sql.Source) : List Definition → Except QueryError Table.Relation
  | [] => .error (.noTable ((source.schema.map (· ++ ".")).getD "" ++ source.table))
  | d :: earlier =>
    if !sameName d.name source.table || source.schema.any (fun schema => !sameName schema "main") then
      find source earlier
    else match d with
      | .table t _ => .ok (.ofTable t source.aliasName)
      | .view name s => do
        let (columns, rows) ← Table.answer (fun inner => find inner earlier) s
        return .ofTable { name, columns, rows } source.aliasName

/-- The answer to a statement. One that changes the store has none, nor has an empty one. -/
def query (store : Store) (statement : String) : Except QueryError RowSet :=
  match Sql.readScript statement with
  | .error e => .error (.reading e)
  | .ok (_ :: _ :: _) => .error .severalStatements
  | .ok [.select s] => do
    let (columns, rows) ← Table.answer (fun source => find source store.definitions) s
    return ⟨columns.map (·.name), rows⟩
  | .ok _ => .ok ⟨[], []⟩

/-! ### What there is -/

/-- The names of tables and views, in order. Names that begin like those of internal tables are left out. -/
def tableNames (store : Store) : List String :=
  let isInternal (name : String) : Bool := Table.followsLike "sqlite_%".toList name.toList
  ((store.definitions.map (·.name)).filter fun name => !isInternal name).mergeSort (· ≤ ·)

def columns (store : Store) (table : String) : Except QueryError (List TableColumn) := do
  return (← find { table } store.definitions).fields.map (·.toTableColumn)

/-- The keys that a table declares, the last one first. -/
def keys (store : Store) (table : String) : List DeclaredKey :=
  match store.definitions.find? fun d => sameName d.name table with
  | some (.table _ keys) => keys.reverse
  | _ => []

/-! ### Filling -/

def add (store : Store) (d : Definition) : Except TableError Store :=
  if store.definitions.any fun other => sameName other.name d.name then .error .badDefinition
  else .ok ⟨d :: store.definitions⟩

def ofTables (tables : List (Except TableError Table)) : Except TableError Store :=
  tables.foldlM (fun store made => do store.add (.table (← made))) {}

def ofRows (tables : Entries (List Row)) : Except TableError Store :=
  ofTables (tables.map fun (name, rows) => Table.ofRows name (Table.columnsOf rows) rows)

def ofDelimited (texts : Entries String) : Except TableError Store :=
  ofTables (texts.map fun (name, s) => Table.ofDelimited name s)

/-- The values of a row to be added, in the order of the table's columns; those not named are null. -/
def arranged (t : Table) (names : List String) (values : List Value) : List Value :=
  if names.isEmpty then values
  else t.columns.map fun c => (((names.zip values).find? fun (name, _) => sameName name c.name).map (·.2)).getD .null

def inserted (t : Table) (names : List String) (rows : List (List Expression)) : Except ScriptError Table := do
  let values ← match rows.mapM fun row => Table.evaluateAll { fields := [], row := [] } row with
    | .ok values => pure values
    | .error e => throw (.query e)
  match t.insert (values.map fun row => arranged t names (row.map (·.value))) with
  | .ok t => return t
  | .error e => throw (.table e)

def insertInto (name : String) (names : List String) (rows : List (List Expression)) :
    List Definition → Except ScriptError (List Definition)
  | [] => .error (.query (.noTable name))
  | d :: rest =>
    match d with
    | .table t keys =>
      if sameName t.name name then do return .table (← inserted t names rows) keys :: rest
      else do return d :: (← insertInto name names rows rest)
    | .view .. => do return d :: (← insertInto name names rows rest)

def execute (store : Store) : Command → Except ScriptError Store
  | .select _ => .ok store
  | .createTable name columns keys =>
    match Table.define name columns >>= fun t => store.add (.table t keys) with
    | .ok store => .ok store
    | .error e => .error (.table e)
  | .createView name s =>
    match store.add (.view name s) with
    | .ok store => .ok store
    | .error e => .error (.table e)
  | .insert name names rows => do return ⟨← insertInto name names rows store.definitions⟩

def run (store : Store) (script : String) : Except ScriptError Store :=
  match Sql.readScript script with
  | .error e => .error (.query (.reading e))
  | .ok commands => commands.foldlM execute store

end Store

end QueryFederation

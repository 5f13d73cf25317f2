import QueryFederation.Fault

/-!
# Columns of results

A column of a result stands for a column of a table or for an aggregate. Sources answer with rows of values by position;
`decodeRows` turns them into rows under the names that were asked for, and fails if one of these is not there. The type
of a column is read off its values.
-/

namespace QueryFederation

structure OutputColumn where
  name : String
  table : Option String := none
  column : Option String := none
  isAggregate : Bool := false
  label : Option String := none
  deriving DecidableEq, Repr, Inhabited

inductive ColumnType where
  | unknown
  | boolean
  | integer
  | float
  | decimal
  | datetime
  | date
  | text
  deriving DecidableEq, Repr, Inhabited

namespace ColumnType

def name : ColumnType → String
  | unknown => "unknown"
  | boolean => "boolean"
  | integer => "integer"
  | float => "float"
  | decimal => "decimal"
  | datetime => "datetime"
  | date => "date"
  | text => "string"

def ofValue : Value → ColumnType
  | .boolean _ => boolean
  | .integer _ => integer
  | .double _ => float
  | .decimal _ => decimal
  | .timestamp _ => datetime
  | .date _ => date
  | .text _ => text
  | _ => unknown

def isNumeric : ColumnType → Bool
  | integer | float | decimal => true
  | _ => false

def isTemporal : ColumnType → Bool
  | date | datetime => true
  | _ => false

/-- The type of values of several types: that of all of them, or one that can hold numbers or points in time. -/
def common : List ColumnType → ColumnType
  | [] => unknown
  | type :: types =>
    if types.all (· = type) then type
    else if (type :: types).all isNumeric then float
    else if (type :: types).all isTemporal then datetime
    else unknown

/-- The type of values; nulls say nothing about it. -/
def ofValues (values : List Value) : ColumnType := common ((values.filter fun v => !v.isNull).map ofValue)

end ColumnType

structure DescribedColumn extends OutputColumn where
  type : ColumnType
  deriving DecidableEq, Repr, Inhabited

def describeColumns (columns : List OutputColumn) (rows : List Row) : List DescribedColumn :=
  columns.map fun c => { c with type := .ofValues (rows.map fun row => Row.get row c.name) }

structure RowSet where
  columns : List String
  rows : List (List Value) := []
  deriving Inhabited

def RowSet.records (answer : RowSet) : List Row := answer.rows.map fun row => Entries.ofPairs (answer.columns.zip row)

def valueAt (row : List Value) (place : Nat) : Outcome Value :=
  match row[place]? with
  | some v => .ok v
  | none => .error .shortRow

def decodeRows (answer : RowSet) (source : Option String) (expected : List String) : Outcome (List Row) := do
  let missing := expected.filter fun name => !answer.columns.contains name
  if !missing.isEmpty then throw (.missingColumns source missing answer.columns)
  answer.rows.mapM fun row => do
    let pairs ← expected.mapM fun name => do return (name, ← valueAt row (answer.columns.idxOf name))
    return Entries.ofPairs pairs

end QueryFederation

import QueryFederation.Groups
import QueryFederation.Value.Text

/-!
# Grouping rows

Rows belong to one group if they agree in the columns that are grouped by. Values are not converted for this: a number
and the text of it are in different groups, and so are a truth value and the number that it counts as.
-/

namespace QueryFederation

/-- What a value is told apart by. -/
inductive GroupKey where
  | value (v : Value)
  | truth (b : Bool)
  /-- A list or record, by its kind and its quoted form. -/
  | shown (kind text : String)
  deriving Inhabited

namespace GroupKey

def ofValue : Value → GroupKey
  | .boolean b => truth b
  | .list items => shown (Value.list items).kindName (Value.list items).quoted
  | .record fields => shown (Value.record fields).kindName (Value.record fields).quoted
  | v => value v

def same : GroupKey → GroupKey → Bool
  | value v, value w => Value.same v w
  | truth b, truth c => b = c
  | shown kind text, shown kind' text' => kind = kind' && text = text'
  | _, _ => false

def sameList : List GroupKey → List GroupKey → Bool
  | [], [] => true
  | a :: as, b :: bs => same a b && sameList as bs
  | _, _ => false

def ofRow (columns : List String) (row : Row) : List GroupKey := columns.map fun column => ofValue (Row.get row column)

end GroupKey

/-- The groups of rows; rows that are grouped by no column are one group, even if there are none. -/
def groupRows (columns : List String) (rows : List Row) : List (List Row) :=
  let groups := Groups.ofPairs GroupKey.sameList (rows.map fun row => (GroupKey.ofRow columns row, row))
  if columns.isEmpty && groups.isEmpty then [[]] else groups.map (·.2)

end QueryFederation

import QueryFederation.Value.Text

/-!
# Sorting rows

Rows are sorted by several columns, each ascending or descending. Nulls come last in both directions, and rows that
agree in every column stay in their order. Numbers come before texts and texts before values of other kinds, which are
compared by their texts.
-/

namespace QueryFederation

/-- The place of a value among others: first by rank, then by value. -/
structure SortKey where
  rank : Nat
  value : Value
  deriving Inhabited

namespace SortKey

def ofValue : Value → SortKey
  | .boolean b => ⟨0, .integer (Value.boolToInt b)⟩
  | .integer n => ⟨0, .integer n⟩
  | .double x => ⟨0, .double x⟩
  | .text s => ⟨1, .text s⟩
  | v => ⟨2, .text v.toText⟩

def before (a b : SortKey) : Bool :=
  a.rank < b.rank || (a.rank = b.rank && Value.order? a.value b.value matches some (some .lt))

end SortKey

structure SortColumn where
  name : String
  isDescending : Bool := false
  deriving DecidableEq, Repr, Inhabited

/-- May the first row stay before the second? -/
def SortColumn.allows (column : SortColumn) (a b : Row) : Bool :=
  let key (row : Row) := SortKey.ofValue (Row.get row column.name)
  if column.isDescending then !(key a).before (key b) else !(key b).before (key a)

def sortByColumn (column : SortColumn) (rows : List Row) : List Row :=
  let present := rows.filter fun row => !(Row.get row column.name).isNull
  let absent := rows.filter fun row => (Row.get row column.name).isNull
  present.mergeSort column.allows ++ absent

/-- Sorts by the first column; rows that agree there by the second, and so on. -/
def sortRows (columns : List SortColumn) (rows : List Row) : List Row := columns.foldr sortByColumn rows

end QueryFederation

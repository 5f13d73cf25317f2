import QueryFederation.Expression.Basic
import QueryFederation.Filter.Operator
import QueryFederation.Join.Kind
import QueryFederation.Logic
import QueryFederation.Text.Case

/-!
# Query descriptions

A description says what a query is about: tables of sources under aliases, the columns to select, how the tables join,
filters on rows, grouping, aggregates, filters on results, order and paging. All names of columns are pairs of an alias
and a column, and results carry them as one name, the output name.
-/

namespace QueryFederation

/-- The name under which results carry a column. -/
def outputName (table column : String) : String := table ++ "_" ++ column

def distinctItems {α : Type} [BEq α] (items : List α) : List α :=
  items.foldl (fun seen item => if seen.contains item then seen else seen ++ [item]) []

/-- The items that occur more than once, each with how often. -/
def repeated {α : Type} [BEq α] (items : List α) : List (α × Nat) :=
  ((distinctItems items).map fun item => (item, items.count item)).filter fun (_, n) => 1 < n

def sortedTexts (texts : List String) : List String := (distinctItems texts).mergeSort (· ≤ ·)

structure TableReference where
  aliasName : String
  sourceId : String
  table : String
  schema : Option String
  deriving DecidableEq, Repr, Inhabited

structure ColumnRef where
  table : String
  column : String
  deriving DecidableEq, Repr, Inhabited

namespace ColumnRef

def le (a b : ColumnRef) : Bool := a.table < b.table || (a.table = b.table && a.column ≤ b.column)

def outputName (c : ColumnRef) : String := QueryFederation.outputName c.table c.column

def text (c : ColumnRef) : String := c.table ++ "." ++ c.column

end ColumnRef

/-- A column; one that is not selected is only referred to. -/
structure SelectedColumn extends ColumnRef where
  label : Option String := none
  isSelected : Bool := true
  deriving DecidableEq, Repr, Inhabited

structure JoinCondition where
  leftTable : String
  leftColumn : String
  rightTable : String
  rightColumn : String
  kind : JoinKind := .inner
  deriving DecidableEq, Repr, Inhabited

namespace JoinCondition

def touches (j : JoinCondition) (aliasName : String) : Bool := aliasName = j.leftTable || aliasName = j.rightTable

def other (j : JoinCondition) (aliasName : String) : String :=
  if aliasName = j.leftTable then j.rightTable else j.leftTable

def columnFor (j : JoinCondition) (aliasName : String) : String :=
  if aliasName = j.leftTable then j.leftColumn else j.rightColumn

def text (j : JoinCondition) : String :=
  j.leftTable ++ "." ++ j.leftColumn ++ " " ++ Text.upper j.kind.name ++ " " ++ j.rightTable ++ "." ++ j.rightColumn

def reversed (j : JoinCondition) : JoinCondition :=
  ⟨j.rightTable, j.rightColumn, j.leftTable, j.leftColumn, j.kind.flip⟩

/-- The condition with the smaller of its tables on the left. -/
def inOrder (j : JoinCondition) : JoinCondition := if j.leftTable < j.rightTable then j else j.reversed

end JoinCondition

structure FilterPredicate where
  table : String
  column : String
  operator : FilterOperator
  value : Value := .null
  connective : Connective := .and
  deriving Inhabited

def FilterPredicate.outputName (f : FilterPredicate) : String := QueryFederation.outputName f.table f.column

structure AggregateExpression where
  expression : String
  aliasName : String
  deriving DecidableEq, Repr, Inhabited

structure ColumnAggregate where
  function : AggregateFunction
  table : String
  column : String
  isDistinct : Bool := false
  aliasName : Option String := none
  deriving DecidableEq, Repr, Inhabited

/-- The aggregate as an expression; without an alias, or with an empty one, function and column name it. -/
def ColumnAggregate.toExpression (a : ColumnAggregate) : AggregateExpression :=
  let name := a.table ++ "." ++ a.column
  let inner := if a.isDistinct then "DISTINCT " ++ name else name
  let aliasName := match a.aliasName with
    | some "" | none => a.function.name ++ "_" ++ a.table ++ "_" ++ a.column
    | some aliasName => aliasName
  ⟨a.function.keyword ++ "(" ++ inner ++ ")", aliasName⟩

structure HavingPredicate where
  target : String
  operator : FilterOperator
  value : Value := .null
  connective : Connective := .and
  deriving Inhabited

structure OrderBy where
  target : String
  isDescending : Bool := false
  deriving DecidableEq, Repr, Inhabited

structure Description where
  tables : List TableReference
  primaryTable : Option String := none
  columns : List SelectedColumn := []
  joins : List JoinCondition := []
  filters : List FilterPredicate := []
  groupBy : List ColumnRef := []
  aggregates : List AggregateExpression := []
  columnAggregates : List ColumnAggregate := []
  having : List HavingPredicate := []
  orderBy : List OrderBy := []
  limit : Option Nat := none
  offset : Option Nat := none
  deriving Inhabited

namespace Description

def aliases (d : Description) : List String := d.tables.map (·.aliasName)

/-- The alias of the table that the query starts from; without one, or with an empty one, it is the first. -/
def primary (d : Description) : String :=
  match d.primaryTable with
  | some "" | none => (d.tables.head?.map (·.aliasName)).getD ""
  | some aliasName => aliasName

def table? (d : Description) (aliasName : String) : Option TableReference := d.tables.find? (·.aliasName = aliasName)

/-- The sources, each where its first table is. -/
def sourceIds (d : Description) : List String := distinctItems (d.tables.map (·.sourceId))

def isFederated (d : Description) : Bool := 1 < d.sourceIds.length

def selectedColumns (d : Description) : List SelectedColumn := d.columns.filter (·.isSelected)

/-- All aggregates as expressions, those of one column last. -/
def allAggregates (d : Description) : List AggregateExpression :=
  d.aggregates ++ d.columnAggregates.map (·.toExpression)

def hasAggregates (d : Description) : Bool := !(d.aggregates.isEmpty && d.columnAggregates.isEmpty)

def isGrouped (d : Description) : Bool := d.hasAggregates || !d.groupBy.isEmpty

def outputNames (d : Description) : List String :=
  d.selectedColumns.map (·.outputName) ++ d.allAggregates.map (·.aliasName)

end Description

/-- Is the name one that needs no quotes anywhere? A line feed may follow it. -/
def isIdentifier (name : String) : Bool :=
  let isFirst (c : Char) : Bool := c.isAlpha || c = '_'
  let isNext (c : Char) : Bool := c.isAlphanum || c = '_'
  match name.toList with
  | [] => false
  | c :: rest => isFirst c && (rest.all isNext || (rest.getLast? = some '\n' && rest.dropLast.all isNext))

end QueryFederation

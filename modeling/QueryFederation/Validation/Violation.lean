import QueryFederation.Description.Basic
import QueryFederation.Expression.Analysis

/-!
# Violations

What can be wrong with a description, or worth a warning: each cause with what it is about, its kind, its words, the
element of the description where it is, and what could be done.
-/

namespace QueryFederation

inductive ViolationKind where
  | missingGroupBy
  | orphanedTable
  | unsupportedAggregate
  | ambiguousAlias
  | disconnectedJoinGraph
  | unknownReference
  | invalidJoin
  | invalidFilter
  | expressionCleaned
  deriving DecidableEq, Repr, Inhabited

def ViolationKind.name : ViolationKind → String
  | missingGroupBy => "missing_group_by"
  | orphanedTable => "orphaned_table"
  | unsupportedAggregate => "unsupported_aggregate"
  | ambiguousAlias => "ambiguous_alias"
  | disconnectedJoinGraph => "disconnected_join_graph"
  | unknownReference => "unknown_reference"
  | invalidJoin => "invalid_join"
  | invalidFilter => "invalid_filter"
  | expressionCleaned => "expression_rewritten"

structure Element where
  list : String
  index : Nat
  field : Option String := none
  deriving DecidableEq, Repr, Inhabited

def Element.text (e : Element) : String :=
  e.list ++ "[" ++ toString e.index ++ "]" ++ (match e.field with
    | none => ""
    | some field => "." ++ field)

inductive ValueProblem where
  | notList (operator : FilterOperator)
  | notPair
  | missing (operator : FilterOperator)
  | notScalar (operator : FilterOperator)
  deriving DecidableEq, Repr

def ValueProblem.message : ValueProblem → String
  | notList operator => "Operator '" ++ operator.name ++ "' needs a non-empty list value"
  | notPair => "Operator 'between' needs a [low, high] pair"
  | missing operator => "Operator '" ++ operator.name ++ "' needs a value; use is_null for null checks"
  | notScalar operator => "Operator '" ++ operator.name ++ "' needs a scalar value"

inductive Violation where
  | invalidTableAlias (index : Nat) (aliasName : String)
  | repeatedTableAlias (aliasName : String) (count : Nat)
  | undeclaredPrimary (aliasName : String) (declared : List String)
  | undeclaredTable (place : Element) (aliasName : String) (declared : List String)
  | selfJoin (index : Nat) (join : JoinCondition)
  | disagreeingJoins (left right : String) (kinds : List String)
  | invalidValue (place : Element) (problem : ValueProblem)
  | invalidAggregateAlias (index : Nat) (aliasName : String)
  | bracketNotation (index : Nat) (aliasName text cleaned : String)
  | stripped (index : Nat) (aliasName text cleaned : String)
  | unreadableAggregate (index : Nat) (cause : ExpressionError)
  | problemOfAggregate (index : Nat) (aliasName : String) (problem : ExpressionProblem)
  | undeclaredTableOfAggregate (index : Nat) (aliasName : String) (column : ColumnRef)
  | circularAggregates (cause : ExpressionError)
  | repeatedOutput (name : String) (count : Nat)
  | sharedName (name : String) (columns : List ColumnRef)
  | aliasOfColumn (index : Nat) (aliasName : String)
  | notGrouped (index : Nat) (column : ColumnRef)
  | havingWithoutAggregate (index : Nat)
  | unknownHaving (index : Nat) (target : String) (possible : List String)
  | unknownOrder (index : Nat) (target : String) (possible : List String)
  | orphanedTable (index : Nat) (aliasName primary : String)
  | disconnected (components : List (List String))

namespace Violation

def kind : Violation → ViolationKind
  | invalidTableAlias .. | repeatedTableAlias .. | invalidAggregateAlias .. | repeatedOutput .. | sharedName ..
  | aliasOfColumn .. => .ambiguousAlias
  | undeclaredPrimary .. | undeclaredTable .. | unknownHaving .. | unknownOrder .. => .unknownReference
  | selfJoin .. | disagreeingJoins .. => .invalidJoin
  | invalidValue .. => .invalidFilter
  | bracketNotation .. | unreadableAggregate .. | problemOfAggregate .. | undeclaredTableOfAggregate ..
  | circularAggregates .. => .unsupportedAggregate
  | stripped .. => .expressionCleaned
  | notGrouped .. | havingWithoutAggregate .. => .missingGroupBy
  | orphanedTable .. => .orphanedTable
  | disconnected .. => .disconnectedJoinGraph

def message : Violation → String
  | invalidTableAlias _ aliasName => "Table alias '" ++ aliasName ++ "' is not a valid identifier"
  | repeatedTableAlias aliasName count => "Table alias '" ++ aliasName ++ "' is declared " ++ toString count ++ " times"
  | undeclaredPrimary aliasName _ => "Primary table '" ++ aliasName ++ "' is not declared"
  | undeclaredTable _ aliasName _ => "Table alias '" ++ aliasName ++ "' is not declared in tables"
  | selfJoin _ join =>
    "Join '" ++ join.text ++ "' joins table '" ++ join.leftTable
      ++ "' to itself; declare a second alias for self joins"
  | disagreeingJoins left right kinds =>
    "Conditions between '" ++ left ++ "' and '" ++ right ++ "' disagree on the join kind ("
      ++ ", ".intercalate kinds ++ ")"
  | invalidValue _ problem => problem.message
  | invalidAggregateAlias _ aliasName => "Aggregate alias '" ++ aliasName ++ "' is not a valid identifier"
  | bracketNotation _ aliasName text _ => "Aggregate '" ++ aliasName ++ "' uses bracket notation: " ++ text
  | stripped _ aliasName text cleaned =>
    "Aggregate '" ++ aliasName ++ "' was rewritten from '" ++ text ++ "' to '" ++ cleaned ++ "'"
  | unreadableAggregate _ cause => cause.message
  | problemOfAggregate _ aliasName problem => "Aggregate '" ++ aliasName ++ "': " ++ problem.message
  | undeclaredTableOfAggregate _ aliasName column =>
    "Aggregate '" ++ aliasName ++ "': table '" ++ column.table ++ "' of '" ++ column.text ++ "' is not declared"
  | circularAggregates cause => cause.message
  | repeatedOutput name count => "Output name '" ++ name ++ "' is produced " ++ toString count ++ " times"
  | sharedName name columns =>
    "Columns " ++ ", ".intercalate (columns.map (·.text)) ++ " all map to the row key " ++ name
  | aliasOfColumn _ aliasName => "Aggregate alias " ++ aliasName ++ " collides with the row key of a referenced column"
  | notGrouped _ column => "Column '" ++ column.text ++ "' is selected alongside aggregates but not grouped"
  | havingWithoutAggregate _ => "HAVING requires at least one aggregate"
  | unknownHaving _ target _ => "HAVING target '" ++ target ++ "' is not an aggregate alias or grouped column"
  | unknownOrder _ target _ => "ORDER BY target '" ++ target ++ "' is not an output column"
  | orphanedTable _ aliasName primary =>
    "Table '" ++ aliasName ++ "' is not reachable from '" ++ primary ++ "' through any join and will be cross joined"
  | disconnected components =>
    "Join graph has " ++ toString components.length ++ " disconnected components: "
      ++ " | ".intercalate (components.map fun c => ", ".intercalate c)

def text (v : Violation) : String := "[" ++ v.kind.name ++ "] " ++ v.message

def path : Violation → String
  | invalidTableAlias index _ => (Element.mk "tables" index (some "alias")).text
  | repeatedTableAlias .. | sharedName .. => "tables"
  | undeclaredPrimary .. => "primary_table"
  | undeclaredTable place .. | invalidValue place _ => place.text
  | selfJoin index _ => (Element.mk "joins" index none).text
  | disagreeingJoins .. | disconnected _ => "joins"
  | invalidAggregateAlias index _ | aliasOfColumn index _ => (Element.mk "aggregates" index (some "alias")).text
  | bracketNotation index .. | stripped index .. | unreadableAggregate index _ | problemOfAggregate index ..
  | undeclaredTableOfAggregate index .. => (Element.mk "aggregates" index none).text
  | circularAggregates _ => "aggregates"
  | repeatedOutput .. => "columns"
  | notGrouped index _ => (Element.mk "columns" index none).text
  | havingWithoutAggregate index => (Element.mk "having" index none).text
  | unknownHaving index .. => (Element.mk "having" index (some "target")).text
  | unknownOrder index .. => (Element.mk "order_by" index (some "target")).text
  | orphanedTable index .. => (Element.mk "tables" index none).text

def suggestions : Violation → List String
  | undeclaredPrimary _ declared | undeclaredTable _ _ declared => declared
  | bracketNotation _ _ _ cleaned => [cleaned]
  | sharedName .. => ["rename one of the table aliases"]
  | notGrouped _ column => ["add " ++ column.text ++ " to group_by", "mark " ++ column.text ++ " as not selected"]
  | unknownHaving _ _ possible | unknownOrder _ _ possible => possible
  | _ => []

end Violation

end QueryFederation

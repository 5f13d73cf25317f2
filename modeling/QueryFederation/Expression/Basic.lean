/-!
# Aggregate expressions

The trees of the expression language in which aggregates are written. Only part of the language may be used; what
parses but is not allowed is kept as a `construct`, so that it can be named in a complaint. Names keep whether they
were quoted, and numbers the digits they were written with.
-/

namespace QueryFederation

structure Identifier where
  name : String
  isQuoted : Bool := false
  deriving DecidableEq, Repr, Inhabited

inductive AggregateFunction where
  | sum
  | avg
  | count
  | min
  | max
  deriving DecidableEq, Repr, Inhabited

namespace AggregateFunction

def name : AggregateFunction → String
  | sum => "sum"
  | avg => "avg"
  | count => "count"
  | min => "min"
  | max => "max"

def keyword : AggregateFunction → String
  | sum => "SUM"
  | avg => "AVG"
  | count => "COUNT"
  | min => "MIN"
  | max => "MAX"

def all : List AggregateFunction := [sum, avg, count, min, max]

end AggregateFunction

inductive BinaryOperator where
  | or
  | and
  | eq
  | ne
  | lt
  | le
  | gt
  | ge
  | add
  | sub
  | mul
  | div
  | mod
  deriving DecidableEq, Repr, Inhabited

namespace BinaryOperator

def text : BinaryOperator → String
  | or => "OR"
  | and => "AND"
  | eq => "="
  | ne => "<>"
  | lt => "<"
  | le => "<="
  | gt => ">"
  | ge => ">="
  | add => "+"
  | sub => "-"
  | mul => "*"
  | div => "/"
  | mod => "%"

def isLogical : BinaryOperator → Bool
  | or | and => true
  | _ => false

def isComparison : BinaryOperator → Bool
  | eq | ne | lt | le | gt | ge => true
  | _ => false

end BinaryOperator

inductive CastTarget where
  | int
  | bigint
  | smallint
  | tinyint
  | float
  | double
  | decimal
  | char
  | varchar
  | text
  | boolean
  | date
  | timestamp
  /-- A type that is not known; it keeps its name. -/
  | named (name : String)
  deriving DecidableEq, Repr, Inhabited

structure CastType where
  target : CastTarget
  parameters : List String := []
  deriving DecidableEq, Repr, Inhabited

inductive Construct where
  | operator (symbol : String)
  | inList
  | between
  | function (name : String)
  | aggregate (name : String)
  | unknownFunction (name : String)
  /-- A call over a window; the first operand is the call, then come this many partition expressions. -/
  | window (partitions : Nat)
  | order
  | orderItem (descending : Bool)
  | subquery
  /-- A query of so many items; the table, if there is one, comes after them. -/
  | select (items : Nat)
  | fromClause
  | table (name : String)
  | array
  | tuple
  | named (name : Identifier)
  deriving DecidableEq, Repr, Inhabited

inductive Expression where
  /-- A column: the names before the last, outermost first, and its own. -/
  | column (qualifiers : List Identifier) (name : Identifier)
  | tableStar (qualifiers : List Identifier)
  | star
  | text (s : String)
  | number (s : String)
  | null
  | boolean (b : Bool)
  | paren (e : Expression)
  | neg (e : Expression)
  | not (e : Expression)
  | binary (op : BinaryOperator) (left right : Expression)
  | is (left right : Expression)
  | coalesce (args : List Expression)
  | nullif (left right : Expression)
  | round (args : List Expression)
  | abs (e : Expression)
  | aggregate (function : AggregateFunction) (args : List Expression)
  | distinct (items : List Expression)
  | case (operand : Option Expression) (branches : List (Expression × Expression)) (otherwise : Option Expression)
  | conditional (condition yes : Expression) (no : Option Expression)
  | cast (e : Expression) (type : CastType)
  | construct (c : Construct) (args : List Expression)
  deriving Inhabited

namespace Expression

/-- The name of the table a column belongs to; empty if there is none. -/
def tableName (qualifiers : List Identifier) : String := (qualifiers.getLast?.map Identifier.name).getD ""

def isBinary : Expression → Bool
  | binary .. | is .. | construct (.operator _) _ => true
  | _ => false

end Expression

end QueryFederation

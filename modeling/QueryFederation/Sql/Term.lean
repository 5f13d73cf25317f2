import QueryFederation.Sql.Dialect
import QueryFederation.Value.Text

/-!
# SQL terms

The expressions that statements are built of, as trees. Their text depends on the dialect in how names are quoted and
in the operator that compares texts whatever their case. Every operation is written in parentheses, so a tree has one
reading.
-/

namespace QueryFederation.Sql

inductive Operator where
  | or
  | and
  | eq
  | ne
  | lt
  | le
  | gt
  | ge
  | other (symbol : String)
  deriving DecidableEq, Repr, Inhabited

def Operator.text : Operator → String
  | or => "OR"
  | and => "AND"
  | eq => "="
  | ne => "<>"
  | lt => "<"
  | le => "<="
  | gt => ">"
  | ge => ">="
  | other symbol => symbol

inductive Term where
  | literal (v : Value)
  | column (table : Option String) (name : String)
  | named (term : Term) (aliasName : String)
  | binary (operator : Operator) (left right : Term)
  | like (isNegated : Bool) (left right : Term)
  | isNull (isNegated : Bool) (term : Term)
  | inList (isNegated : Bool) (term : Term) (items : List Term)
  | between (isNegated : Bool) (term low high : Term)
  | written (text : String)
  deriving Inhabited

def textLiteral (s : String) : String :=
  String.ofList ('\'' :: (Dialect.escapeEach '\'' '\'' s.toList ++ ['\'']))

def literalText : Value → String
  | .null => "NULL"
  | .boolean b => if b then "TRUE" else "FALSE"
  | .text s => textLiteral s
  | v => v.toText

def likeKeyword (dialect : Dialect) : String := if dialect.capabilities.caselessLike then "ILIKE" else "LIKE"

def negatable (isNegated : Bool) (keyword : String) : String := if isNegated then "NOT " ++ keyword else keyword

namespace Term

mutual

def text (dialect : Dialect) : Term → String
  | literal v => literalText v
  | column none name => dialect.quoteIdentifier name
  | column (some table) name => dialect.quoteIdentifier table ++ "." ++ dialect.quoteIdentifier name
  | named term aliasName => text dialect term ++ " AS " ++ dialect.quoteIdentifier aliasName
  | binary operator left right => "(" ++ text dialect left ++ " " ++ operator.text ++ " " ++ text dialect right ++ ")"
  | like isNegated left right =>
    "(" ++ text dialect left ++ " " ++ negatable isNegated (likeKeyword dialect) ++ " " ++ text dialect right ++ ")"
  | isNull isNegated term => "(" ++ text dialect term ++ (if isNegated then " IS NOT NULL)" else " IS NULL)")
  | inList isNegated term items =>
    "(" ++ text dialect term ++ " " ++ negatable isNegated "IN"
      ++ " (" ++ ", ".intercalate (texts dialect items) ++ "))"
  | between isNegated term low high =>
    "(" ++ text dialect term ++ " " ++ negatable isNegated "BETWEEN" ++ " " ++ text dialect low ++ " AND "
      ++ text dialect high ++ ")"
  | written s => s

def texts (dialect : Dialect) : List Term → List String
  | [] => []
  | term :: terms => text dialect term :: texts dialect terms

end

/-- The term that holds if all of some terms hold. -/
def all : List Term → Term
  | [] => literal (.boolean true)
  | term :: terms => terms.foldl (binary .and) term

def joined (operator : Operator) (before : Option Term) (term : Term) : Term :=
  match before with
  | none => term
  | some left => binary operator left term

end Term

end QueryFederation.Sql

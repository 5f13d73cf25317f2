import QueryFederation.Join.Kind
import QueryFederation.Sql.Term

/-!
# SELECT statements

A statement has clauses over terms of some type. One over `Term` is built clause by clause and written in the order of
SQL, one clause a line. A dialect that needs a limit before an offset is given one that is no limit.
-/

namespace QueryFederation.Sql

structure Source where
  table : String
  schema : Option String := none
  aliasName : Option String := none
  deriving DecidableEq, Repr, Inhabited

/-- A joined table; a cross join has no kind. -/
structure Join (τ : Type) where
  kind : Option JoinKind
  source : Source
  condition : Option τ := none
  deriving Inhabited

structure Order (τ : Type) where
  term : τ
  isDescending : Bool := false
  nullsLast : Option Bool := none
  deriving Inhabited

structure Select (τ : Type) where
  columns : List τ := []
  source : Option Source := none
  joins : List (Join τ) := []
  condition : Option τ := none
  groupBy : List τ := []
  having : Option τ := none
  orderBy : List (Order τ) := []
  limit : Option Int := none
  offset : Option Int := none
  deriving Inhabited

/-- The table, and its alias unless that is empty. -/
def Source.text (dialect : Dialect) (source : Source) : String :=
  dialect.tableText source.table source.schema
    ++ (match source.aliasName with
      | none | some "" => ""
      | some aliasName => " AS " ++ dialect.quoteIdentifier aliasName)

def joinKeyword : Option JoinKind → String
  | none => "CROSS"
  | some .full => "FULL OUTER"
  | some kind => Text.upper kind.name

def Join.text (dialect : Dialect) (join : Join Term) : String :=
  joinKeyword join.kind ++ " JOIN " ++ join.source.text dialect
    ++ (match join.condition with
      | none => ""
      | some condition => " ON " ++ condition.text dialect)

def Order.text (dialect : Dialect) (order : Order Term) : String :=
  order.term.text dialect ++ (if order.isDescending then " DESC" else " ASC")
    ++ (match order.nullsLast with
      | none => ""
      | some last =>
        if !dialect.capabilities.nullsOrdering then "" else if last then " NULLS LAST" else " NULLS FIRST")

namespace Select

def listClause (keyword : String) (items : List String) : List String :=
  if items.isEmpty then [] else [keyword ++ " " ++ ", ".intercalate items]

def clause (keyword : String) (item : Option String) : List String := item.toList.map fun s => keyword ++ " " ++ s

def limitText? (dialect : Dialect) (s : Select Term) : Option String :=
  match s.limit with
  | some n => some (toString n)
  | none =>
    if s.offset.isSome && dialect.capabilities.limitWithOffset then some (dialect.unboundedLimit?.getD "") else none

def clauses (dialect : Dialect) (s : Select Term) : List String :=
  (if s.columns.isEmpty then ["SELECT *"] else listClause "SELECT" (Term.texts dialect s.columns))
    ++ clause "FROM" (s.source.map (·.text dialect))
    ++ s.joins.map (·.text dialect)
    ++ clause "WHERE" (s.condition.map (·.text dialect))
    ++ listClause "GROUP BY" (Term.texts dialect s.groupBy)
    ++ clause "HAVING" (s.having.map (·.text dialect))
    ++ listClause "ORDER BY" (s.orderBy.map (·.text dialect))
    ++ clause "LIMIT" (s.limitText? dialect)
    ++ clause "OFFSET" (s.offset.map toString)

def text (dialect : Dialect) (s : Select Term) : String := "\n".intercalate (s.clauses dialect)

/-! ### Building -/

def column (s : Select Term) (term : Term) : Select Term := { s with columns := s.columns ++ [term] }

def from_ (s : Select Term) (source : Source) : Select Term := { s with source := some source }

def join (s : Select Term) (join : Join Term) : Select Term := { s with joins := s.joins ++ [join] }

def where_ (s : Select Term) (term : Term) : Select Term :=
  { s with condition := some (Term.joined .and s.condition term) }

def group (s : Select Term) (terms : List Term) : Select Term := { s with groupBy := s.groupBy ++ terms }

def having_ (s : Select Term) (term : Term) : Select Term := { s with having := some (Term.joined .and s.having term) }

def order (s : Select Term) (order : Order Term) : Select Term := { s with orderBy := s.orderBy ++ [order] }

end Select

end QueryFederation.Sql

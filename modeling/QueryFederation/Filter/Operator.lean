/-!
# Filter operators

The operators of filters on rows and on results, by the names under which descriptions know them.
-/

namespace QueryFederation

inductive FilterOperator where
  | eq
  | ne
  | gt
  | ge
  | lt
  | le
  | isIn
  | notIn
  | like
  | notLike
  | isNull
  | isNotNull
  | between
  deriving DecidableEq, Repr, Inhabited

namespace FilterOperator

def all : List FilterOperator :=
  [eq, ne, gt, ge, lt, le, isIn, notIn, like, notLike, isNull, isNotNull, between]

def name : FilterOperator → String
  | eq => "="
  | ne => "!="
  | gt => ">"
  | ge => ">="
  | lt => "<"
  | le => "<="
  | isIn => "in"
  | notIn => "not_in"
  | like => "like"
  | notLike => "not_like"
  | isNull => "is_null"
  | isNotNull => "is_not_null"
  | between => "between"

def ofName? (s : String) : Option FilterOperator := all.find? fun operator => operator.name = s

end FilterOperator

end QueryFederation

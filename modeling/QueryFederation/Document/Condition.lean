import QueryFederation.Filter.Comparison

/-!
# Conditions on documents

A filter as a condition of a document store: a record that has, under the name of a field, operators with their values.
Negative operators also ask for the field to be there, as a filter on a null value never holds.
-/

namespace QueryFederation.Document

/-- The pattern's text for one item of a value; only a wildcard that is the whole item is one. -/
def pieceText : Value → Outcome String
  | .text s =>
    match s.toList with
    | [c] => .ok (String.ofList (Text.Pattern.likeCharacter c))
    | cs => .ok (String.ofList (cs.flatMap Text.Pattern.escape))
  | _ => .error .operandType

/-- The pattern's text for the value of a LIKE filter; the items of a list follow each other. -/
def patternText (v : Value) : Outcome String :=
  match v with
  | .text s => .ok (Text.Pattern.likeText s)
  | v => do
    let pieces ← (← v.parts).mapM pieceText
    return "^" ++ String.join pieces ++ "$"

def operators (operator : FilterOperator) (v : Value) : Outcome Row := do
  match operator with
  | .isNull => return [("$eq", .null)]
  | .isNotNull => return [("$ne", .null)]
  | .between => do
    let (low, high) ← v.bounds
    return [("$gte", low), ("$lte", high)]
  | .like => return [("$regex", .text (← patternText v)), ("$options", .text "i")]
  | .notLike =>
    return [("$not", .record [("$regex", .text (← patternText v)), ("$options", .text "i")]), ("$ne", .null)]
  | .ne => return [("$nin", .list [v, .null])]
  | .notIn => return [("$nin", .list ((← v.parts) ++ [.null]))]
  | .eq => return [("$eq", v)]
  | .gt => return [("$gt", v)]
  | .ge => return [("$gte", v)]
  | .lt => return [("$lt", v)]
  | .le => return [("$lte", v)]
  | .isIn => return [("$in", v)]

def condition (field : String) (operator : FilterOperator) (v : Value) : Outcome Row := do
  return [(field, .record (← operators operator v))]

def joined (before : Option Row) (connective : Connective) (next : Row) : Row :=
  match before with
  | none => next
  | some before =>
    let key := match connective with
      | .and => "$and"
      | .or => "$or"
    [(key, .list [.record before, .record next])]

def folded {α : Type} (read : α → Outcome (Connective × Row)) (filters : List α) : Outcome (Option Row) :=
  filters.foldlM (fun before f => do
    let (connective, next) ← read f
    return some (joined before connective next)) none

end QueryFederation.Document

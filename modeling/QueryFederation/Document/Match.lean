import QueryFederation.Document.Field
import QueryFederation.Text.Basic

/-!
# Matching documents

A query is a record: each of its fields names a field of the document and says what its value has to be, or joins
further queries. A value that is no record of operators has to be equal. What cannot be put in order does not match.
-/

namespace QueryFederation.Document

/-- Is the value among the items of another, or a part of a text? -/
def isAmong (v : Value) : Value → Outcome Bool
  | .list items => .ok (items.any v.same)
  | .text whole =>
    match v with
    | .text part => .ok (Text.isPart part whole)
    | _ => .error .operandType
  | .record fields => if v.isHashable then .ok (fields.any fun (key, _) => v.same (.text key)) else .error .operandType
  | .bytes bs =>
    match v with
    | .integer n => .ok (bs.any fun b => (b.toNat : Int) = n)
    | _ => .error .operandType
  | _ => .error .operandType

def inOrder (holds : Ordering → Bool) (actual expected : Value) : Bool :=
  match Value.order? actual expected with
  | some (some o) => holds o
  | _ => false

def compare (operator : String) (actual expected : Value) : Outcome Bool :=
  match operator with
  | "$eq" => .ok (actual.same expected)
  | "$ne" => .ok !(actual.same expected)
  | "$in" => isAmong actual expected
  | "$nin" => do return !(← isAmong actual expected)
  | _ =>
    if actual.isNull || expected.isNull then .ok false
    else match operator with
      | "$gt" => .ok (inOrder (· == .gt) actual expected)
      | "$gte" => .ok (inOrder (· != .lt) actual expected)
      | "$lt" => .ok (inOrder (· == .lt) actual expected)
      | "$lte" => .ok (inOrder (· != .gt) actual expected)
      | _ => .error (.unsupportedOperator operator)

def ignoresCase (criteria : Row) : Outcome Bool := isAmong (.text "i") ((criteria.lookup "$options").getD (.text ""))

def followsPattern (criteria : Row) (actual pattern : Value) : Outcome Bool := do
  let ignoreCase ← ignoresCase criteria
  match actual, pattern with
  | .text s, .text p => return (Text.Pattern.ofText p).isFoundIn ⟨ignoreCase, false⟩ s
  | .text _, _ => throw .operandType
  | _, _ => return false

def hasOperators (criteria : Row) : Bool := criteria.any fun (key, _) => key.startsWith "$"

mutual

def fieldMatches (actual : Value) : Value → Outcome Bool
  | .record criteria =>
    if hasOperators criteria then operatorsHold actual criteria criteria
    else .ok (actual.same (.record criteria))
  | v => .ok (actual.same v)

/-- Do all operators hold? `all` has the options besides them. -/
def operatorsHold (actual : Value) (all : Row) : List (String × Value) → Outcome Bool
  | [] => .ok true
  | (operator, expected) :: rest => do
    let holds ←
      if operator = "$options" then pure true
      else if operator = "$regex" then followsPattern all actual expected
      else if operator = "$not" then do pure !(← fieldMatches actual expected)
      else compare operator actual expected
    if holds then operatorsHold actual all rest else return false

end

mutual

def queryMatches (doc : Row) : Value → Outcome Bool
  | .record fields => fieldsMatch doc fields
  | _ => .error .notRecord

def fieldsMatch (doc : Row) : List (String × Value) → Outcome Bool
  | [] => .ok true
  | (key, criteria) :: rest => do
    let holds ←
      if key = "$and" then allMatch doc criteria
      else if key = "$or" then anyMatches doc criteria
      else fieldMatches (field doc key) criteria
    if holds then fieldsMatch doc rest else return false

def allMatch (doc : Row) : Value → Outcome Bool
  | .list queries => allOf doc queries
  | v => do if (← v.parts).isEmpty then return true else throw .notRecord

def allOf (doc : Row) : List Value → Outcome Bool
  | [] => .ok true
  | q :: queries => do if ← queryMatches doc q then allOf doc queries else return false

def anyMatches (doc : Row) : Value → Outcome Bool
  | .list queries => anyOf doc queries
  | v => do if (← v.parts).isEmpty then return false else throw .notRecord

def anyOf (doc : Row) : List Value → Outcome Bool
  | [] => .ok false
  | q :: queries => do if ← queryMatches doc q then return true else anyOf doc queries

end

end QueryFederation.Document

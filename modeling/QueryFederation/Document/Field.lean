import QueryFederation.Filter.Comparison

/-!
# Fields of documents

A path of names between points leads into nested documents. Expressions of a pipeline are values themselves: a text that
starts with a dollar is a path, a record of one operator computes something, and any other value stands for itself.
-/

namespace QueryFederation.Document

def follow : List String → Value → Option Value
  | [], v => some v
  | name :: names, .record fields => (List.lookup name fields).bind (follow names)
  | _ :: _, _ => none

def pathNames (path : String) : List String := (path.toList.splitOn '.').map String.ofList

def field? (doc : Row) (path : String) : Option Value := follow (pathNames path) (.record doc)

/-- The field at a path; null if there is none. -/
def field (doc : Row) (path : String) : Value := (field? doc path).getD .null

def fieldsOf : Value → Outcome Row
  | .record fields => .ok fields
  | _ => .error .notRecord

def onlyField (v : Value) : Outcome (String × Value) := do
  match ← fieldsOf v with
  | [entry] => return entry
  | _ => throw .operandValue

def size : Value → Outcome Value
  | .null => .ok (.integer 0)
  | v => do return .integer (← v.parts).length

def itemAt (place : Nat) : Value → Outcome Value
  | .record _ => .error .missingField
  | v => do
    match (← v.parts)[place]? with
    | some item => return item
    | none => throw .shortRow

/-- A text that starts with a dollar is a path. -/
def textValue (doc : Row) (s : String) : Value :=
  match s.toList with
  | '$' :: path => field doc (String.ofList path)
  | _ => .text s

def plainValue (doc : Row) : Value → Value
  | .text s => textValue doc s
  | v => v

/-- A choice between the items of a value that is no list. -/
def plainChoice (doc : Row) (arg : Value) : Outcome Value := do
  match ← arg.parts with
  | [test, yes, no] => return plainValue doc (if (plainValue doc test).isFalsy then no else yes)
  | _ => throw .operandValue

def plainEqual (doc : Row) (arg : Value) : Outcome Bool := do
  return (plainValue doc (← itemAt 0 arg)).same (plainValue doc (← itemAt 1 arg))

mutual

def evaluate (doc : Row) : Value → Outcome Value
  | .text s => .ok (textValue doc s)
  | .record [(operator, arg)] =>
    if operator = "$cond" then choose doc arg
    else if operator = "$eq" then do return .boolean (← areEqual doc arg)
    else if operator = "$ne" then do return .boolean !(← areEqual doc arg)
    else if operator = "$size" then do size (← evaluate doc arg)
    else do return .record [(operator, ← evaluate doc arg)]
  | .record fields => do return .record (← evaluateFields doc fields)
  | v => .ok v

def evaluateFields (doc : Row) : List (String × Value) → Outcome Row
  | [] => .ok []
  | (name, v) :: fields => do return (name, ← evaluate doc v) :: (← evaluateFields doc fields)

/-- The second of three expressions if the first is not empty, zero, false or null, and otherwise the third. -/
def choose (doc : Row) : Value → Outcome Value
  | .list [test, yes, no] => do
    if (← evaluate doc test).isFalsy then evaluate doc no else evaluate doc yes
  | .list _ => .error .operandValue
  | arg => plainChoice doc arg

def areEqual (doc : Row) : Value → Outcome Bool
  | .list (left :: right :: _) => do return (← evaluate doc left).same (← evaluate doc right)
  | .list [left] => do
    let _ ← evaluate doc left
    throw .shortRow
  | .list [] => .error .shortRow
  | arg => plainEqual doc arg

end

end QueryFederation.Document

import QueryFederation.Document.Match
import QueryFederation.Groups
import QueryFederation.Join.Key

/-!
# Document pipelines

Documents go through stages: those that match stay, groups are accumulated, fields are projected, documents are
sorted, and some are skipped or cut off. A stage is a record of its name and what it works with.
-/

namespace QueryFederation.Document

/-! ### Groups -/

def requireKey : Value → Outcome Unit
  | .record fields => if fields.all fun (_, v) => v.isHashable then .ok () else .error .operandType
  | v => if v.isHashable then .ok () else .error .operandType

def groupKey (key : Value) (doc : Row) : Outcome Value := do
  let v ← if key.isNull then pure .null else evaluate doc key
  requireKey v
  return v

def isSummand : Value → Bool
  | .boolean _ | .integer _ | .double _ => true
  | _ => false

/-- The mean of numbers; null if there are none. -/
def average : List Value → Outcome Value
  | [] => .ok .null
  | vs => do (← Value.sum vs).div (.integer vs.length)

def accumulate (operator : String) (present : List Value) : Outcome Value :=
  match operator with
  | "$sum" => Value.sum (present.filter isSummand)
  | "$avg" => average present
  | "$min" => Value.extreme .lt .operandType present
  | "$max" => Value.extreme .gt .operandType present
  | "$addToSet" =>
    .ok (.list (present.foldl (fun seen v => if seen.any v.same then seen else seen ++ [v]) []))
  | operator => .error (.unsupportedAccumulator operator)

def accumulateField (members : List Row) (rule : Value) : Outcome Value := do
  let (operator, expression) ← onlyField rule
  let values ← members.mapM fun doc => evaluate doc expression
  accumulate operator (values.filter fun v => !v.isNull)

def groupDocument (rules : Row) (group : Value × List Row) : Outcome Row := do
  let fields ← (rules.filter fun (name, _) => name ≠ "_id").mapM fun (name, rule) => do
    return (name, ← accumulateField group.2 rule)
  return Entries.merge [("_id", group.1)] fields

/-- One document for each group. Without a key all documents are one group, even if there are none. -/
def group (rules : Row) (docs : List Row) : Outcome (List Row) := do
  let some key := rules.lookup "_id" | throw .missingField
  let pairs ← docs.mapM fun doc => do return (← groupKey key doc, doc)
  let groups := Groups.ofPairs Value.same pairs
  let groups := if key.isNull && groups.isEmpty then [(.null, [])] else groups
  groups.mapM (groupDocument rules)

/-! ### Projections -/

def projectField (doc : Row) (name : String) (rule : Value) : Outcome (Option Value) :=
  if rule.same (.integer 0) then .ok none
  else if rule.same (.integer 1) then .ok (field? doc name)
  else do return some (← evaluate doc rule)

def project (rules : Row) (doc : Row) : Outcome Row :=
  rules.foldlM (fun out (name, rule) => do
    match ← projectField doc name rule with
    | some v => return Entries.put out name v
    | none => return out) []

/-! ### Order and pages -/

def areComparable : List Value → Bool
  | [] => true
  | v :: vs => vs.all (fun w => (Value.order? v w).isSome) && areComparable vs

def before (a b : Value) : Bool := Value.order? a b matches some (some .lt)

def isDownward (direction : Value) : Outcome Bool :=
  match Value.order? direction (.integer 0) with
  | some o => .ok (isLess o)
  | none => .error .operandType

/-- Sorts documents by one field; those without it come last. -/
def sortBy (name : String) (direction : Value) (docs : List Row) : Outcome (List Row) := do
  let downward ← isDownward direction
  let present := docs.filter fun doc => !(Row.get doc name).isNull
  let absent := docs.filter fun doc => (Row.get doc name).isNull
  if !areComparable (present.map fun doc => Row.get doc name) then throw .operandType
  let le (a b : Row) : Bool :=
    if downward then !before (Row.get a name) (Row.get b name) else !before (Row.get b name) (Row.get a name)
  return present.mergeSort le ++ absent

/-- A number of documents; none stands for no limit. -/
def count? : Value → Outcome (Option Int)
  | .null => .ok none
  | v =>
    match v.integer? with
    | some n => .ok (some n)
    | none => .error .operandType

/-- All documents but the first ones; of a negative number, that many last ones. -/
def skip {α : Type} (n : Int) (docs : List α) : List α :=
  if 0 ≤ n then docs.drop n.toNat else docs.drop (docs.length - n.natAbs)

/-- The first documents; of a negative number, all but that many last ones. -/
def limit {α : Type} (n : Int) (docs : List α) : List α :=
  if 0 ≤ n then docs.take n.toNat else docs.take (docs.length - n.natAbs)

/-! ### Running -/

def runStage (stage : Value) (docs : List Row) : Outcome (List Row) := do
  let (name, body) ← onlyField stage
  match name with
  | "$match" => docs.filterM fun doc => queryMatches doc body
  | "$group" => do
    match body with
    | .record rules => group rules docs
    | _ => throw .operandType
  | "$project" => docs.mapM fun doc => do project (← fieldsOf body) doc
  | "$sort" => do (← fieldsOf body).reverse.foldlM (fun docs (field, direction) => sortBy field direction docs) docs
  | "$skip" => do return (← count? body).elim docs fun n => skip n docs
  | "$limit" => do return (← count? body).elim docs fun n => limit n docs
  | name => throw (.unsupportedStage name)

def runPipeline (docs : List Row) (stages : List Value) : Outcome (List Row) :=
  stages.foldlM (fun docs stage => runStage stage docs) docs

end QueryFederation.Document

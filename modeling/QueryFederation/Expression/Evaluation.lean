import QueryFederation.Description.Basic
import QueryFederation.Expression.Dependencies
import QueryFederation.Filter.Comparison
import QueryFederation.Text.Basic

/-!
# Evaluation of expressions

An expression is evaluated for one row or for a group of rows. For a row a name is the value of a column; for a group it
is an aggregate that has been computed before, and a call of an aggregate evaluates its argument for every row of the
group. Null operands give null, except where a rule says otherwise.
-/

namespace QueryFederation

inductive Scope where
  | row (row : Row)
  | group (rows : List Row) (computed : Entries Value)

namespace Scope

/-- The value of a name; an empty table is none. -/
def column (scope : Scope) (table name : String) : Outcome Value :=
  match scope with
  | row r =>
    let key := if table = "" then name else outputName table name
    match r.lookup key with
    | some v => .ok v
    | none => .error (.absentKey key)
  | group _ computed =>
    if table ≠ "" then .error (.columnOfGroup table name)
    else match computed.lookup name with
      | some v => .ok v
      | none => .error (.aliasNotComputed name)

end Scope

namespace Expression

/-- An operation on the numeric views of two values; null if one of them is. -/
def arithmetic (operation : Value → Value → Outcome Value) (a b : Value) : Outcome Value :=
  if a.isNull || b.isNull then .ok .null else operation a.asNumber b.asNumber

/-- A quotient; null if the divisor is zero. -/
def quotient (a b : Value) : Outcome Value :=
  if a.isNull || b.isNull then .ok .null
  else if b.asNumber.same (.integer 0) then .ok .null
  else a.asNumber.div b.asNumber

/-- A value as a value of a type, of which only the name counts. -/
def castValue (v : Value) (type : CastType) : Outcome Value :=
  let name := Text.upper (type.text none)
  let guardCast (outcome : Outcome Value) : Outcome Value :=
    match outcome with
    | .error .operandType | .error .operandValue => .error (.notCastable v name)
    | outcome => outcome
  if v.isNull then .ok .null
  else if Text.isPart "INT" name then guardCast (v.asNumber.toInteger.map .integer)
  else if ["DEC", "NUM", "FLOAT", "DOUBLE", "REAL"].any (Text.isPart · name) then
    guardCast (v.asNumber.toReal.map .double)
  else if ["CHAR", "TEXT", "STRING"].any (Text.isPart · name) then .ok (.text v.toText)
  else .ok v

def distinctValues (vs : List Value) : List Value :=
  vs.foldl (fun seen v => if seen.any (Value.same v) then seen else seen ++ [v]) []

/-- What an aggregate makes of the values of its argument that are not null. -/
def aggregateValue (call : Expression) (function : AggregateFunction) (present : List Value) : Outcome Value :=
  match function with
  | .count => .ok (.integer present.length)
  | function =>
    if present.isEmpty then .ok .null
    else match function with
      | .sum => Value.sum (present.map Value.asNumber)
      | .avg => do (← Value.sum (present.map Value.asNumber)).div (.integer present.length)
      | .min => Value.extreme .lt (.mixedTypes call.shown) present
      | _ => Value.extreme .gt (.mixedTypes call.shown) present

def comparison (operator : FilterOperator) (a b : Value) : Outcome Value :=
  (operator.holds a b).map Value.ofTruth

/-- An operator on two values. The remainder is not one of them: it looks at its right operand first. -/
def binaryValue : BinaryOperator → Value → Value → Outcome Value
  | .or, a, b => .ok (.ofTruth (a.or3 b))
  | .and, a, b => .ok (.ofTruth (a.and3 b))
  | .eq, a, b => comparison .eq a b
  | .ne, a, b => comparison .ne a b
  | .lt, a, b => comparison .lt a b
  | .le, a, b => comparison .le a b
  | .gt, a, b => comparison .gt a b
  | .ge, a, b => comparison .ge a b
  | .add, a, b => arithmetic Value.add a b
  | .sub, a, b => arithmetic Value.sub a b
  | .mul, a, b => arithmetic Value.mul a b
  | .mod, a, b => arithmetic Value.mod a b
  | .div, a, b => quotient a b

def notValue (v : Value) : Value := if v.isNull then .null else .boolean v.isFalsy

/-- Is the value true itself, and not only something that counts as true? -/
def isTrueValue : Value → Bool
  | .boolean true => true
  | _ => false

def numeric (operation : Value → Outcome Value) (v : Value) : Outcome Value :=
  if v.isNull then .ok .null else operation v.asNumber

def countsRows : AggregateFunction → List Expression → Bool
  | .count, star :: _ => true
  | _, _ => false

/-- Does a call take only distinct values? If it does, of how many items? -/
def distinctItemCount? : List Expression → Option Nat
  | distinct items :: _ => some items.length
  | _ => none

mutual

def evaluate (scope : Scope) : Expression → Outcome Value
  | column qualifiers name => scope.column (tableName qualifiers) name.name
  | tableStar qualifiers => scope.column (tableName qualifiers) "*"
  | text s => .ok (.text s)
  | number s => .ok (Value.text s).asNumber
  | null => .ok .null
  | boolean b => .ok (.boolean b)
  | paren e => evaluate scope e
  | neg e => do numeric Value.neg (← evaluate scope e)
  | not e => return notValue (← evaluate scope e)
  | binary .mod left right => do
    let divisor ← evaluate scope right
    if divisor.same (.integer 0) then return .null
    binaryValue .mod (← evaluate scope left) divisor
  | binary op left right => do
    let a ← evaluate scope left
    let b ← evaluate scope right
    binaryValue op a b
  | is left null => return .boolean (← evaluate scope left).isNull
  | is left right => do
    let a ← evaluate scope left
    return .boolean (a.same (← evaluate scope right))
  | coalesce args => firstPresent scope args
  | nullif left right => do
    let a ← evaluate scope left
    return if a.same (← evaluate scope right) then .null else a
  | round args => roundArguments scope args
  | abs e => do numeric Value.abs (← evaluate scope e)
  | aggregate function args =>
    match scope with
    | .row _ => throw (.aggregateOfRow (aggregate function args).shown)
    | .group rows _ =>
      if countsRows function args then return .integer rows.length
      else match distinctItemCount? args with
        | some 1 => do
          let values ← rows.mapM fun row => evaluateFirst (.row row) args
          aggregateValue (aggregate function args) function (distinctValues (values.filter (!·.isNull)))
        | some _ => throw .distinctArity
        | none => do
          let values ← rows.mapM fun row => evaluateFirst (.row row) args
          aggregateValue (aggregate function args) function (values.filter (!·.isNull))
  | case _ branches otherwise => do
    match ← firstTrue scope branches with
    | some v => return v
    | none => evaluateOptional scope otherwise
  | conditional condition yes no => do
    if isTrueValue (← evaluate scope condition) then evaluate scope yes else evaluateOptional scope no
  | cast e type => do castValue (← evaluate scope e) type
  | star => throw (.notEvaluable star.shown)
  | distinct items => throw (.notEvaluable (distinct items).shown)
  | construct c args => throw (.notEvaluable (construct c args).shown)

def evaluateFirst (scope : Scope) : List Expression → Outcome Value
  | [] => throw .missingArgument
  | distinct items :: _ => evaluateFirst scope items
  | e :: _ => evaluate scope e

def firstPresent (scope : Scope) : List Expression → Outcome Value
  | [] => .ok .null
  | e :: es => do
    let v ← evaluate scope e
    if v.isNull then firstPresent scope es else return v

def firstTrue (scope : Scope) : List (Expression × Expression) → Outcome (Option Value)
  | [] => .ok none
  | (condition, value) :: branches => do
    if isTrueValue (← evaluate scope condition) then return some (← evaluate scope value)
    else firstTrue scope branches

def evaluateOptional (scope : Scope) : Option Expression → Outcome Value
  | none => .ok .null
  | some e => evaluate scope e

/-- A value rounded to places, of which there are none if they are not given. -/
def roundArguments (scope : Scope) : List Expression → Outcome Value
  | [] => throw .missingArgument
  | [e] => do numeric (·.roundTo 0) (← evaluate scope e)
  | e :: places :: _ => do
    let v ← evaluate scope e
    let n ← (← evaluate scope places).toInteger
    numeric (·.roundTo n) v

end

end Expression

end QueryFederation

import QueryFederation.Value.Text

/-!
# What can go wrong while values are computed

Computing with values, joining rows and decoding answers fail for the causes listed here. The first group are failures a
caller is told about in words; the second are failures of an operation on operands it is not made for.
-/

namespace QueryFederation

inductive Fault where
  | absentKey (key : String)
  | aggregateOfRow (call : String)
  /-- A column of a table is read for a whole group. -/
  | columnOfGroup (table name : String)
  | aliasNotComputed (name : String)
  | distinctArity
  /-- The smallest or largest of values that are in no common order. -/
  | mixedTypes (call : String)
  | notEvaluable (expression : String)
  | incomparable (left right : Value)
  | notCastable (value : Value) (type : String)
  /-- No pair of rows could match, because the key values of the two sides are of different kinds. -/
  | incompatibleKeys (left right : String) (leftKinds rightKinds : List String)
  | missingColumns (source : Option String) (missing present : List String)
  | joinDeadline
  /-- The operands are of kinds the operation is not defined for. -/
  | operandType
  /-- An operand is of the right kind, but not a possible value. -/
  | operandValue
  | divisionByZero
  | overflow
  | missingArgument
  /-- A row is shorter than its columns, or a list shorter than an operator needs. -/
  | shortRow
  | missingField
  | notRecord
  /-- A document pipeline uses an operator that is not known, or an accumulator, or a stage. -/
  | unsupportedOperator (name : String)
  | unsupportedAccumulator (name : String)
  | unsupportedStage (name : String)
  deriving Inhabited

namespace Fault

def sourceText (source : Option String) : String := source.getD "None"

/-- The words a caller is told; failures of operands have none. -/
def message : Fault → String
  | absentKey key => "row has no column '" ++ key ++ "'"
  | aggregateOfRow call => "aggregate '" ++ call ++ "' used in row context"
  | columnOfGroup table name => "column '" ++ table ++ "." ++ name ++ "' used outside an aggregate"
  | aliasNotComputed name => "aggregate alias '" ++ name ++ "' is not computed yet"
  | distinctArity => "COUNT(DISTINCT ...) takes exactly one expression"
  | mixedTypes call => "'" ++ call ++ "' over values of mixed types"
  | notEvaluable expression => "cannot evaluate '" ++ expression ++ "' in memory"
  | incomparable left right => "cannot compare " ++ left.quoted ++ " with " ++ right.quoted
  | notCastable value type => "cannot cast " ++ value.quoted ++ " to " ++ type
  | incompatibleKeys left right leftKinds rightKinds =>
    "Join key '" ++ left ++ "' = '" ++ right ++ "' compares incompatible types ("
      ++ ", ".intercalate leftKinds ++ " vs " ++ ", ".intercalate rightKinds ++ ")"
  | missingColumns source missing present =>
    "Source '" ++ sourceText source ++ "' returned no column(s) " ++ ", ".intercalate missing ++ "; got "
      ++ (if present.isEmpty then "none" else ", ".intercalate present)
  | joinDeadline => "in-memory join exceeded its deadline"
  | unsupportedOperator name => "unsupported query operator '" ++ name ++ "'"
  | unsupportedAccumulator name => "unsupported accumulator '" ++ name ++ "'"
  | unsupportedStage name => "unsupported pipeline stage '" ++ name ++ "'"
  | operandType | operandValue | divisionByZero | overflow | missingArgument | shortRow | missingField
  | notRecord => ""

/-- Is the failure one of an operand, for which there are no words? -/
def isOperandFailure : Fault → Bool
  | operandType | operandValue | divisionByZero | overflow | missingArgument | shortRow | missingField
  | notRecord => true
  | _ => false

def isUnsupported : Fault → Bool
  | unsupportedOperator _ | unsupportedAccumulator _ | unsupportedStage _ => true
  | _ => false

end Fault

abbrev Outcome (α : Type) := Except Fault α

end QueryFederation

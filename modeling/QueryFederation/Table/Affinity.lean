import QueryFederation.Text.Basic
import QueryFederation.Value.Arithmetic
import QueryFederation.Value.Text

/-!
# Stored values

A table keeps null, 64-bit integers, doubles, texts and bytes. Other values are turned into one of these when they are
handed over, or refused. The affinity of a column then decides in which form a value is kept: as a text, as a number
if it spells one, or as it is.
-/

namespace QueryFederation

inductive Affinity where
  | integer
  | real
  | numeric
  | text
  /-- Values are kept as they are. -/
  | none
  deriving DecidableEq, Repr, Inhabited

inductive Refusal where
  | tooLarge
  | unsupported
  deriving DecidableEq, Repr

namespace Affinity

def name : Affinity → String
  | integer => "INTEGER"
  | real => "REAL"
  | numeric => "NUMERIC"
  | text => "TEXT"
  | none => ""

def isNumeric : Affinity → Bool
  | integer | real | numeric => true
  | text | none => false

/-- The affinity of a column that is to hold the values; nulls say nothing about it. -/
def ofValues (values : List Value) : Affinity :=
  let present := values.filter fun v => !v.isNull
  let isWhole : Value → Bool
    | .integer _ | .boolean _ => true
    | _ => false
  let isReal : Value → Bool
    | .double _ => true
    | v => isWhole v
  if present.isEmpty then text
  else if present.all isWhole then integer
  else if present.all isReal then real
  else text

def ofDeclaredType (type : String) : Affinity :=
  let hasAny (words : List String) : Bool := words.any fun word => Text.isPart word (Text.upper type)
  if type.isEmpty then none
  else if hasAny ["INT"] then integer
  else if hasAny ["CHAR", "CLOB", "TEXT"] then text
  else if hasAny ["BLOB"] then none
  else if hasAny ["REAL", "FLOA", "DOUB"] then real
  else numeric

end Affinity

namespace Value

def largestStored : Int := 9223372036854775807

def smallestStored : Int := -9223372036854775808

def isStorable (n : Int) : Bool := smallestStored ≤ n && n ≤ largestStored

/-- The value in which a table takes over another. -/
def handedOver : Value → Except Refusal Value
  | null => .ok null
  | boolean b => .ok (integer (boolToInt b))
  | integer n => if isStorable n then .ok (integer n) else .error .tooLarge
  | double .nan => .ok null
  | double x => .ok (double x)
  | text s => .ok (text s)
  | bytes bs => .ok (bytes bs)
  | date d => .ok (text d.toText)
  | timestamp t => .ok (text t.toSpacedText)
  | decimal _ | list _ | record _ => .error .unsupported

def storedDoubleText : Double → String
  | .infinite negative => if negative then "-Inf" else "Inf"
  | .negativeZero => Double.toStoredText (.finite 0)
  | x => x.toStoredText

/-- A stored number as a text; other values stay. -/
def withTextAffinity : Value → Value
  | integer n => text (toString n)
  | double x => text (storedDoubleText x)
  | v => v

/-- A text that spells a number as that number; other values stay. -/
def withNumericAffinity : Value → Value
  | text s => (ofNumericText? s).getD (text s)
  | v => v

/-- A double without a fraction as an integer, if it is one of 64 bits. -/
def wholeDouble (x : Double) : Value :=
  match x.toInt? with
  | some n => if isStorable n then integer n else double x
  | none => double x

def storedIn (affinity : Affinity) (v : Value) : Value :=
  match affinity with
  | .none => v
  | .text => v.withTextAffinity
  | .integer | .numeric =>
    match v.withNumericAffinity with
    | double x => wholeDouble x
    | v => v
  | .real =>
    match v.withNumericAffinity with
    | integer n => double (.ofRat n)
    | double .negativeZero => double (.finite 0)
    | v => v

def storedBy (affinity : Affinity) (v : Value) : Except Refusal Value := do
  return (← v.handedOver).storedIn affinity

end Value

end QueryFederation

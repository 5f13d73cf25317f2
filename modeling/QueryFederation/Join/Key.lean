import QueryFederation.Value.Arithmetic

/-!
# Join keys

Sources hold the same key in different forms: one as a number, another as a text. Keys are compared in a form in which
equal keys of all sources are equal: integers wherever a number is whole, doubles for other numbers, the standard text
of dates and bytes, and texts without blanks at their ends.
-/

namespace QueryFederation

namespace Value

def doubleKey (x : Double) : Value :=
  match x.toInt? with
  | some n => integer n
  | none => double x

def decimalKey (d : Decimal) : Value :=
  if d.toRat.den = 1 then integer d.toRat.num else doubleKey (.ofDecimal d)

def textKey (s : String) : Value :=
  match ofNumericText? s with
  | some (double x) => doubleKey x
  | some v => v
  | none => text (Text.trim s)

/-- The form in which values are compared as keys. -/
def joinKey : Value → Value
  | boolean b => integer (boolToInt b)
  | double x => doubleKey x
  | decimal d => decimalKey d
  | text s => textKey s
  | date d => text d.toText
  | timestamp t => text t.toText
  | bytes bs => text (Text.hexText bs)
  | v => v

/-- The kind of a value in the form of keys. -/
def keyKind : Value → String
  | boolean _ | integer _ | double _ => "number"
  | text _ => "text"
  | v => v.kindName

end Value

abbrev Key := List Value

namespace Key

def same (a b : Key) : Bool := Value.sameItems a b

/-- The key of a row; a row without a value at one of the columns has none. -/
def ofRow (columns : List String) (row : Row) : Option Key :=
  let key := columns.map fun column => (Row.get row column).joinKey
  if key.any Value.isNull then none else some key

def requireHashable : Option Key → Outcome Unit
  | none => .ok ()
  | some key => if key.all Value.isHashable then .ok () else .error .operandType

end Key

end QueryFederation

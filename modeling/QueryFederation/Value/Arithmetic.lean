import QueryFederation.Fault
import QueryFederation.Number.Reading

/-!
# Arithmetic on values

Sources deliver the same number as an integer, a double, a decimal or a text. Arithmetic therefore looks at the numeric
view of its operands: a decimal as a double, a numeric text as the number it spells, everything else as it is. Integers
stay exact, and an operation with a double rounds once.
-/

namespace QueryFederation.Value

open Number Text

/-- The number that a numeric text spells: an integer if it is written as one. -/
def ofNumericText? (s : String) : Option Value :=
  let cs := trimList s.toList
  match integerOfChars? cs with
  | some n => some (integer n)
  | none => (Decimal.ofChars? cs).map fun d => double (.ofDecimal d)

def asNumber : Value → Value
  | decimal d => double (.ofDecimal d)
  | text s => (ofNumericText? s).getD (text s)
  | v => v

/-- The integer that a boolean or an integer counts as. -/
def integer? : Value → Option Int
  | boolean b => some (boolToInt b)
  | integer n => some n
  | _ => none

/-- A number as a double; an integer beyond the range of doubles has none. -/
def toDouble : Value → Outcome Double
  | boolean b => .ok (.finite (boolToInt b))
  | integer n => match Double.ofInt? n with
    | some x => .ok x
    | none => .error .overflow
  | double x => .ok x
  | _ => .error .operandType

/-- An operation on two numbers: on integers exactly, otherwise on doubles. -/
def onNumbers (exact : Int → Int → Outcome Value) (rounded : Double → Double → Outcome Value) (a b : Value) :
    Outcome Value :=
  match a.integer?, b.integer? with
  | some m, some n => exact m n
  | _, _ => do
    if a.isNumber && b.isNumber then rounded (← toDouble a) (← toDouble b) else throw .operandType

/-- Puts `n` copies of a list after each other; there are none if `n` is negative. -/
def repeatList {α : Type} (items : List α) (n : Int) : List α := (List.replicate n.toNat items).flatten

/-- Sums numbers; joins two texts, two lists or two byte strings. -/
def add : Value → Value → Outcome Value
  | text a, text b => .ok (text (a ++ b))
  | list as, list bs => .ok (list (as ++ bs))
  | bytes as, bytes bs => .ok (bytes (as ++ bs))
  | a, b => onNumbers (fun m n => .ok (integer (m + n))) (fun x y => .ok (double (x.add y))) a b

def sub (a b : Value) : Outcome Value :=
  onNumbers (fun m n => .ok (integer (m - n))) (fun x y => .ok (double (x.sub y))) a b

/-- Repeats a text, list or byte string as often as an integer says. -/
def repeated (a : Value) (n : Int) : Option Value :=
  match a with
  | text s => some (text (String.ofList (repeatList s.toList n)))
  | list items => some (list (repeatList items n))
  | bytes bs => some (bytes (repeatList bs n))
  | _ => none

/-- Multiplies numbers; an integer beside a text, list or byte string repeats it. -/
def mul (a b : Value) : Outcome Value :=
  match b.integer?.bind a.repeated, a.integer?.bind b.repeated with
  | some v, _ => .ok v
  | none, some v => .ok v
  | none, none =>
    onNumbers (fun m n => .ok (integer (m * n))) (fun x y => .ok (double (x.mul y))) a b

/-- The exact quotient of two integers, rounded once. -/
def divInt (m n : Int) : Outcome Value :=
  if n = 0 then .error .divisionByZero
  else if m = 0 then .ok (double (.zero (decide (n < 0))))
  else match Double.ofRat ((m : Rat) / (n : Rat)) with
    | .infinite _ => .error .overflow
    | x => .ok (double x)

def div (a b : Value) : Outcome Value :=
  onNumbers divInt
    (fun x y => if y.isZero then .error .divisionByZero else .ok (double (x.div y))) a b

/-- The remainder with the sign of the divisor. -/
def mod (a b : Value) : Outcome Value :=
  onNumbers (fun m n => if n = 0 then .error .divisionByZero else .ok (integer (m.fmod n)))
    (fun x y => if y.isZero then .error .divisionByZero else .ok (double (x.mod y))) a b

def neg : Value → Outcome Value
  | boolean b => .ok (integer (-boolToInt b))
  | integer n => .ok (integer (-n))
  | double x => .ok (double x.neg)
  | _ => .error .operandType

def abs : Value → Outcome Value
  | boolean b => .ok (integer (boolToInt b))
  | integer n => .ok (integer n.natAbs)
  | double x => .ok (double x.abs)
  | _ => .error .operandType

/-- An integer rounded to tens, hundreds and so on; a half goes to the even side. -/
def roundInteger (n : Int) (places : Int) : Int :=
  if 0 ≤ places then n
  else if (Decimal.digitsOf n.natAbs).length < (-places).toNat then 0
  else
    let unit : Int := Nat.pow 10 (-places).toNat
    roundHalfEven ((n : Rat) / (unit : Rat)) * unit

/-- Rounds to decimal places: integers stay integers, doubles doubles. -/
def roundTo (v : Value) (places : Int) : Outcome Value :=
  match v with
  | boolean b => .ok (integer (roundInteger (boolToInt b) places))
  | integer n => .ok (integer (roundInteger n places))
  | double x => match x, x.roundTo places with
    | .finite _, .infinite _ => .error .overflow
    | _, y => .ok (double y)
  | _ => .error .operandType

/-! ### Conversions -/

def asciiText (bs : List UInt8) : String := String.ofList (bs.map fun b => Char.ofNat b.toNat)

def readInteger (s : String) : Outcome Int :=
  match readInteger? s with
  | some n => .ok n
  | none => .error .operandValue

/-- The integer that a value spells or is after its fraction is dropped. -/
def toInteger : Value → Outcome Int
  | boolean b => .ok (boolToInt b)
  | integer n => .ok n
  | double x => match x.truncate? with
    | some n => .ok n
    | none => .error (if x.isNan then .operandValue else .overflow)
  | decimal d =>
    let q := d.toRat
    .ok (if q < 0 then -((-q).floor) else q.floor)
  | text s => readInteger s
  | bytes bs => readInteger (asciiText bs)
  | _ => .error .operandType

def readDouble (s : String) : Outcome Double :=
  match readDouble? s with
  | some x => .ok x
  | none => .error .operandValue

/-- The double that a value spells or is nearest to. -/
def toReal : Value → Outcome Double
  | decimal d => .ok (.ofDecimal d)
  | text s => readDouble s
  | bytes bs => readDouble (asciiText bs)
  | v => toDouble v

/-! ### Folds -/

def sum (vs : List Value) : Outcome Value := vs.foldlM add (integer 0)

/-- The first value that no other comes before; a value that is in no order with the smallest so far is a failure. -/
def extreme (better : Ordering) (onMixed : Fault) : List Value → Outcome Value
  | [] => .ok null
  | v :: vs => vs.foldlM (fun best w =>
      match order? w best with
      | none => throw onMixed
      | some o => pure (if o = some better then w else best)) v

end QueryFederation.Value

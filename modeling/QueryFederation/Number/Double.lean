import QueryFederation.Number.Decimal

/-!
# Double-precision numbers

A double is a rational number that has a 53-bit significand and an exponent in range, or one of the special values.
Every operation computes its exact rational result and rounds it once, so the meaning of an operation is the rational
operation followed by `Double.ofRat`. Minus zero has a constructor of its own, because no rational number is it.
-/

namespace QueryFederation

inductive Double where
  | nan
  | infinite (negative : Bool)
  | negativeZero
  | finite (value : Rat)
  deriving DecidableEq, Inhabited

namespace Double

open Number

/-- The exponent of the last significant bit of a double near a positive number. -/
def lastBit (q : Rat) : Int := max (binaryExponent q - 52) (-1074)

/-- The nearest double, of two equally near ones that with the even significand; a number too large is infinite. -/
def ofRat (q : Rat) : Double :=
  if q = 0 then finite 0
  else
    let negative := decide (q < 0)
    let size := if negative then -q else q
    let e := lastBit size
    let rounded := roundHalfEven (size / power 2 e) * power 2 e
    if power 2 1024 ≤ rounded then infinite negative
    else if rounded = 0 then (if negative then negativeZero else finite 0)
    else finite (if negative then -rounded else rounded)

def zero (negative : Bool) : Double := if negative then negativeZero else finite 0

def toRat? : Double → Option Rat
  | negativeZero => some 0
  | finite q => some q
  | _ => none

def isNan : Double → Bool
  | nan => true
  | _ => false

def isNegative : Double → Bool
  | infinite negative => negative
  | negativeZero => true
  | finite q => q < 0
  | nan => false

def isZero : Double → Bool
  | negativeZero => true
  | finite q => q = 0
  | _ => false

def infinity : Double := infinite false

def neg : Double → Double
  | nan => nan
  | infinite negative => infinite !negative
  | negativeZero => finite 0
  | finite q => if q = 0 then negativeZero else finite (-q)

def abs (x : Double) : Double := if x.isNegative then x.neg else x

def add : Double → Double → Double
  | nan, _ | _, nan => nan
  | infinite a, infinite b => if a = b then infinite a else nan
  | infinite a, _ => infinite a
  | _, infinite b => infinite b
  | negativeZero, y => y
  | x, negativeZero => x
  | finite p, finite q => ofRat (p + q)

def sub (x y : Double) : Double := add x y.neg

def mul (x y : Double) : Double :=
  match x, y with
  | nan, _ | _, nan => nan
  | infinite a, y => if y.isZero then nan else infinite (a != y.isNegative)
  | x, infinite b => if x.isZero then nan else infinite (x.isNegative != b)
  | x, y =>
    match x.toRat?, y.toRat? with
    | some p, some q => if p * q = 0 then zero (x.isNegative != y.isNegative) else ofRat (p * q)
    | _, _ => nan

/-- The quotient; a divisor of zero gives a signed infinity. -/
def div (x y : Double) : Double :=
  match x, y with
  | nan, _ | _, nan => nan
  | infinite _, infinite _ => nan
  | infinite a, y => infinite (a != y.isNegative)
  | x, infinite b => zero (x.isNegative != b)
  | x, y =>
    match x.toRat?, y.toRat? with
    | some p, some q =>
      if q = 0 then (if p = 0 then nan else infinite (x.isNegative != y.isNegative))
      else if p = 0 then zero (x.isNegative != y.isNegative)
      else ofRat (p / q)
    | _, _ => nan

/-- The remainder that has the sign of the divisor. -/
def mod (x y : Double) : Double :=
  match x, y with
  | nan, _ | _, nan => nan
  | infinite _, _ => nan
  | x, infinite b => if x.isZero then zero b else if x.isNegative = b then x else infinite b
  | x, y =>
    match x.toRat?, y.toRat? with
    | some p, some q =>
      if q = 0 then nan
      else
        let quotient := p / q
        let whole : Int := if quotient < 0 then -((-quotient).floor) else quotient.floor
        let rest := p - whole * q
        if rest = 0 then zero y.isNegative
        else if decide (rest < 0) = y.isNegative then ofRat rest
        else ofRat (rest + q)
    | _, _ => nan

/-- Rounds to a number of decimal places, which may be negative. -/
def roundTo (x : Double) (places : Int) : Double :=
  match x with
  | finite q =>
    if 323 < places then x
    else if places < -308 then zero x.isNegative
    else
      let r := roundToPlaces q places
      if r = 0 then zero x.isNegative else ofRat r
  | _ => x

/-! ### Conversions -/

def ofInt? (n : Int) : Option Double :=
  match ofRat n with
  | infinite _ => none
  | x => some x

def truncate? : Double → Option Int
  | negativeZero => some 0
  | finite q => some (if q < 0 then -((-q).floor) else q.floor)
  | _ => none

def toInt? : Double → Option Int
  | negativeZero => some 0
  | finite q => if q.den = 1 then some q.num else none
  | _ => none

/-- The nearest double of a decimal. The exponents outside of which the answer is zero or infinite are cut off first. -/
def ofDecimal (d : Decimal) : Double :=
  let magnitude := d.exponent + decimalLength d.coefficient
  if d.coefficient = 0 || magnitude < -400 then zero d.negative
  else if 400 < magnitude then infinite d.negative
  else match ofRat d.toRat with
    | finite 0 => zero d.negative
    | x => x

end Double

end QueryFederation

import QueryFederation.Number.Double

/-!
# The text of a double

Two choices make the text of a double: which decimal digits stand for it, and how digits and an exponent are laid out.
The shortest digits are the fewest that read back as the same double, and of those the nearest to it; a fixed number of
significant digits is the other choice. `Double.Layout` records the second choice.
-/

namespace QueryFederation.Double

open Number

/-- Decimal digits, the first of them before the point and not zero, and the exponent of the first. -/
structure Digits where
  digits : Nat
  exponent : Int
  deriving DecidableEq, Repr

def dropZeros (digits : List Char) : List Char :=
  match (digits.reverse.dropWhile (· = '0')).reverse with
  | [] => ['0']
  | kept => kept

/-- The two numbers of `count` significant digits next to a positive number, each as digits and value. -/
def neighbours (q : Rat) (count : Nat) : List (Nat × Rat) :=
  let unit := power 10 (decimalExponent q - count + 1)
  let below := (q / unit).floor.toNat
  [below, below + 1].map fun n => (n, (n : Rat) * unit)

/-- Is the first closer to `q`, or as close and even? -/
def closer (q : Rat) (a b : Nat × Rat) : Bool :=
  let distance (x : Rat) := if x < q then q - x else x - q
  if distance a.2 = distance b.2 then a.1 % 2 = 0 else distance a.2 < distance b.2

/-- Of the numbers with `count` digits next to `q` that read back as it, the nearest. -/
def readBack? (q : Rat) (count : Nat) : Option (Nat × Rat) :=
  match (neighbours q count).filter fun n => ofRat n.2 = finite q with
  | [] => none
  | [a] => some a
  | a :: b :: _ => some (if closer q a b then a else b)

/-- The shortest decimal that reads back as the positive double `q`. Seventeen digits always suffice. -/
def shortest (q : Rat) : Digits :=
  match (List.range 17).findSome? fun n => readBack? q (n + 1) with
  | some (digits, value) => ⟨digits, decimalExponent value⟩
  | none => ⟨0, 0⟩

def significant (q : Rat) (count : Nat) : Digits :=
  let unit := power 10 (decimalExponent q - count + 1)
  let digits := (roundHalfEven (q / unit)).toNat
  ⟨digits, decimalExponent ((digits : Rat) * unit)⟩

structure Layout where
  positionalFrom : Int
  /-- Exponents below this are written positionally. -/
  positionalBelow : Int
  /-- A whole number in positional form ends in a point and a zero. -/
  pointInWhole : Bool
  /-- A single digit before an exponent is followed by a point and a zero. -/
  pointBeforeExponent : Bool

def twoDigits (n : Nat) : String := if n < 10 then "0" ++ toString n else toString n

def Layout.write (layout : Layout) (d : Digits) : String :=
  let digits := dropZeros (toString d.digits).toList
  if layout.positionalFrom ≤ d.exponent && d.exponent < layout.positionalBelow then
    if d.exponent < 0 then
      "0." ++ String.ofList (List.replicate ((-d.exponent).toNat - 1) '0' ++ digits)
    else
      let beforePoint := d.exponent.toNat + 1
      if digits.length ≤ beforePoint then
        String.ofList (digits ++ List.replicate (beforePoint - digits.length) '0')
          ++ (if layout.pointInWhole then ".0" else "")
      else String.ofList (digits.take beforePoint) ++ "." ++ String.ofList (digits.drop beforePoint)
  else
    let fraction := digits.drop 1
    String.ofList (digits.take 1)
      ++ (if fraction.isEmpty then (if layout.pointBeforeExponent then ".0" else "")
          else "." ++ String.ofList fraction)
      ++ "e" ++ (if d.exponent < 0 then "-" else "+") ++ twoDigits d.exponent.natAbs

/-- The text of a double from the digits of its absolute value; zero has the digit zero. -/
def write (digits : Rat → Digits) (layout : Layout) : Double → String
  | nan => "nan"
  | infinite negative => if negative then "-inf" else "inf"
  | negativeZero => "-" ++ layout.write ⟨0, 0⟩
  | finite q =>
    if q = 0 then layout.write ⟨0, 0⟩
    else if q < 0 then "-" ++ layout.write (digits (-q))
    else layout.write (digits q)

/-- Values are shown with the shortest digits; sixteen digits before the point are the most. -/
def valueLayout : Layout := ⟨-4, 16, true, false⟩

def toText (x : Double) : String := write shortest valueLayout x

/-- Durations in messages are shown with six significant digits at most. -/
def durationLayout : Layout := ⟨-4, 6, false, false⟩

def toDurationText (x : Double) : String := write (significant · 6) durationLayout x

/-- A table stores a number in a text column with fifteen significant digits. -/
def storedLayout : Layout := ⟨-4, 15, true, true⟩

def toStoredText (x : Double) : String := write (significant · 15) storedLayout x

end QueryFederation.Double

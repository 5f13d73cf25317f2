import QueryFederation.Number.Rounding
import QueryFederation.Text.Basic

/-!
# Decimals

A decimal keeps the digits it was written with: `1.50` and `1.5` are different decimals of equal value. Reading a
number text gives a decimal first, whatever the number becomes afterwards, because only the decimal holds exactly what
was written.
-/

namespace QueryFederation

structure Decimal where
  negative : Bool
  coefficient : Nat
  exponent : Int
  deriving DecidableEq, Repr, Inhabited

namespace Decimal

open Number Text

def toRat (d : Decimal) : Rat :=
  let size := (d.coefficient : Rat) * power 10 d.exponent
  if d.negative then -size else size

def isZero (d : Decimal) : Bool := d.coefficient = 0

def digitsOf (n : Nat) : List Char := (toString n).toList

/-- The written form: positional unless the exponent is positive or the number has six or more zeros after the point. -/
def toText (d : Decimal) : String :=
  let digits := digitsOf d.coefficient
  let sign := if d.negative then "-" else ""
  let beforePoint : Int := d.exponent + digits.length
  let positional := d.exponent ≤ 0 && -6 < beforePoint
  let point : Int := if positional then beforePoint else 1
  let body :=
    if point ≤ 0 then "0." ++ String.ofList (List.replicate (-point).toNat '0' ++ digits)
    else if digits.length ≤ point then
      String.ofList (digits ++ List.replicate (point.toNat - digits.length) '0')
    else String.ofList (digits.take point.toNat) ++ "." ++ String.ofList (digits.drop point.toNat)
  let power :=
    if beforePoint = point then ""
    else "E" ++ (if beforePoint - point < 0 then "-" else "+") ++ toString (beforePoint - point).natAbs
  sign ++ body ++ power

/-! ### Reading -/

/-- A sign, if there is one, and the rest; `true` stands for minus. -/
def readSign : List Char → Bool × List Char
  | '-' :: rest => (true, rest)
  | '+' :: rest => (false, rest)
  | rest => (false, rest)

/-- The exponent part `e±digits` up to the end of the text; no exponent part is the exponent zero. -/
def readExponent : List Char → Option Int
  | [] => some 0
  | c :: rest =>
    if c = 'e' || c = 'E' then
      let (negative, rest) := readSign rest
      match spanDigits rest with
      | ([], _) => none
      | (digits, []) =>
        let n : Int := ofDigits digits
        some (if negative then -n else n)
      | _ => none
    else none

/--
Reads a sign, digits with at most one point among them and an exponent, and nothing else: at least one digit has to
stand before or after the point.
-/
def ofChars? (cs : List Char) : Option Decimal :=
  let (negative, cs) := readSign cs
  let (whole, cs) := spanDigits cs
  let (fraction, cs) := match cs with
    | '.' :: rest => spanDigits rest
    | _ => ([], cs)
  if whole.isEmpty && fraction.isEmpty then none
  else do
    let exponent ← readExponent cs
    some ⟨negative, ofDigits (whole ++ fraction), exponent - fraction.length⟩

/-- Has the text a point or an exponent, or is it a sign and digits only? -/
def isWholeText (cs : List Char) : Bool :=
  match spanDigits (readSign cs).2 with
  | ([], _) => false
  | (_, rest) => rest.isEmpty

def ofText? (s : String) : Option Decimal := ofChars? s.toList

end Decimal

end QueryFederation

import QueryFederation.Number.Double
import QueryFederation.Text.Basic
import QueryFederation.Text.Case

/-!
# Reading numbers

Two readers for numbers in free text. Both ignore surrounding blanks, take digits of any writing system and allow single
underscores between digits; the reader of doubles also knows the names of the special values.
-/

namespace QueryFederation.Number

open Text

/-- The longest text of an integer that is read; longer ones are refused, because reading is quadratic in the length. -/
def integerDigitLimit : Nat := 4300

/-- Removes single underscores that stand between two digits; other underscores make the text unreadable. -/
def joinDigits (afterDigit : Bool) : List Char → Option (List Char)
  | [] => some []
  | '_' :: rest =>
    match rest with
    | c :: _ => if afterDigit && isDigit c then joinDigits false rest else none
    | [] => none
  | c :: rest => (joinDigits (isDigit c) rest).map (c :: ·)

def integerOfChars? (cs : List Char) : Option Int :=
  let (negative, digits) := Decimal.readSign cs
  match spanDigits digits with
  | ([], _) => none
  | (digits, []) =>
    if integerDigitLimit < digits.length then none
    else some (if negative then -(ofDigits digits : Int) else ofDigits digits)
  | _ => none

def readInteger? (s : String) : Option Int := do
  integerOfChars? (← joinDigits false (trimList s.toList))

def specialOfChars? (cs : List Char) : Option Double :=
  let (negative, name) := Decimal.readSign cs
  let name := String.ofList (name.map Char.toLower)
  if name = "inf" || name = "infinity" then some (.infinite negative)
  else if name = "nan" then some .nan
  else none

def readDouble? (s : String) : Option Double :=
  let cs := trimList s.toList
  match specialOfChars? cs with
  | some x => some x
  | none => do
    let d ← Decimal.ofChars? (← joinDigits false cs)
    some (Double.ofDecimal d)

end QueryFederation.Number

import QueryFederation.Text.Printable

/-!
# Quoted text

Messages show a text between single quotes, or between double quotes if it holds single quotes only. The backslash, the
quote and characters that cannot be printed are escaped.
-/

namespace QueryFederation.Text

/-- A number in lower-case hexadecimal digits, at least `width` of them. -/
def hex (width n : Nat) : List Char :=
  let digits := Nat.toDigits 16 n
  List.replicate (width - digits.length) '0' ++ digits

/-- The quote that needs fewer escapes. -/
def chooseQuote (cs : List Char) : Char :=
  if cs.contains '\'' && !cs.contains '"' then '"' else '\''

def escapeChar (quote c : Char) : List Char :=
  if c = '\\' || c = quote then ['\\', c]
  else if c = '\n' then ['\\', 'n']
  else if c = '\r' then ['\\', 'r']
  else if c = '\t' then ['\\', 't']
  else if isPrintable c then [c]
  else if c.toNat < 0x100 then ['\\', 'x'] ++ hex 2 c.toNat
  else if c.toNat < 0x10000 then ['\\', 'u'] ++ hex 4 c.toNat
  else ['\\', 'U'] ++ hex 8 c.toNat

def quoted (s : String) : String :=
  let cs := s.toList
  let quote := chooseQuote cs
  String.ofList (quote :: (cs.flatMap (escapeChar quote) ++ [quote]))

/-- Bytes are shown as the characters of their numbers, all above the first 127 escaped, after a letter b. -/
def quotedBytes (bs : List UInt8) : String :=
  let cs := bs.map fun b => Char.ofNat b.toNat
  let quote := chooseQuote cs
  let escape (c : Char) : List Char :=
    if 0x7F ≤ c.toNat then ['\\', 'x'] ++ hex 2 c.toNat else escapeChar quote c
  String.ofList ('b' :: quote :: (cs.flatMap escape ++ [quote]))

def hexText (bs : List UInt8) : String := String.ofList (bs.flatMap fun b => hex 2 b.toNat)

def hexDigit? (c : Char) : Option Nat :=
  if c.isDigit then some (c.toNat - '0'.toNat)
  else if 'a' ≤ c && c ≤ 'f' then some (c.toNat - 'a'.toNat + 10)
  else if 'A' ≤ c && c ≤ 'F' then some (c.toNat - 'A'.toNat + 10)
  else none

def bytesOfHex? : List Char → Option (List UInt8)
  | [] => some []
  | a :: b :: rest => do
    let high ← hexDigit? a
    let low ← hexDigit? b
    return UInt8.ofNat (16 * high + low) :: (← bytesOfHex? rest)
  | _ => none

end QueryFederation.Text

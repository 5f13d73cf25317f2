import QueryFederation.Number.Double
import QueryFederation.Text.Quoted
import QueryFederation.Value.Basic

/-!
# JSON text

Reads a JSON text into a value. Numbers with a point or an exponent are doubles, all others integers of any size. A key
that comes twice keeps its first place and its last value. Besides the numbers of the standard the three special doubles
are read by name.
-/

namespace QueryFederation.Json

variable {α : Type}

open Text

def isSpace (c : Char) : Bool := c = ' ' || c = '\t' || c = '\n' || c = '\r'

def skipSpace (cs : List Char) : List Char := cs.dropWhile isSpace

/-- What stands behind a given text, if the characters start with it. -/
def after? (expected : List Char) : List Char → Option (List Char)
  | cs => if expected.isPrefixOf cs then some (cs.drop expected.length) else none

/-! ### Texts -/

def codeUnit? : List Char → Option (Nat × List Char)
  | a :: b :: c :: d :: rest => do
    let a ← hexDigit? a
    let b ← hexDigit? b
    let c ← hexDigit? c
    let d ← hexDigit? d
    return (((a * 16 + b) * 16 + c) * 16 + d, rest)
  | _ => none

/-- A character written as one code unit or as a pair of them. -/
def escapedCharacter? (cs : List Char) : Option (Char × List Char) := do
  let (unit, rest) ← codeUnit? cs
  if 0xD800 ≤ unit && unit ≤ 0xDBFF then
    let (low, rest) ← codeUnit? (← after? ['\\', 'u'] rest)
    if 0xDC00 ≤ low && low ≤ 0xDFFF then
      some (Char.ofNat (0x10000 + (unit - 0xD800) * 0x400 + (low - 0xDC00)), rest)
    else none
  else if 0xDC00 ≤ unit && unit ≤ 0xDFFF then none
  else some (Char.ofNat unit, rest)

def shortEscapes : List (Char × Char) :=
  [('"', '"'), ('\\', '\\'), ('/', '/'), ('b', '\x08'), ('f', '\x0c'), ('n', '\n'), ('r', '\r'), ('t', '\t')]

/-- The rest of a text behind its opening quote, and what follows the closing one. -/
def textBody : Nat → List Char → Option (List Char × List Char)
  | 0, _ => none
  | _, [] => none
  | bound + 1, c :: rest =>
    if c = '"' then some ([], rest)
    else if c = '\\' then
      match rest with
      | 'u' :: rest => do
        let (d, rest) ← escapedCharacter? rest
        let (body, rest) ← textBody bound rest
        return (d :: body, rest)
      | letter :: rest => do
        let d ← shortEscapes.lookup letter
        let (body, rest) ← textBody bound rest
        return (d :: body, rest)
      | [] => none
    else if c.toNat < 0x20 then none
    else do
      let (body, rest) ← textBody bound rest
      return (c :: body, rest)

def text (cs : List Char) : Option (String × List Char) := do
  let (body, rest) ← textBody (cs.length + 1) cs
  return (String.ofList body, rest)

/-! ### Numbers -/

def digits? (cs : List Char) : Option (List Char × List Char) :=
  let digits := cs.takeWhile Char.isDigit
  if digits.isEmpty then none else some (digits, cs.dropWhile Char.isDigit)

/-- Digits without needless zeros before them. -/
def whole? (cs : List Char) : Option (List Char × List Char) := do
  let (digits, rest) ← digits? cs
  if digits.head? = some '0' && 1 < digits.length then none else some (digits, rest)

def fraction? (cs : List Char) : Option (List Char × List Char) :=
  match cs with
  | '.' :: rest => (digits? rest).map fun (digits, rest) => ('.' :: digits, rest)
  | _ => some ([], cs)

def exponent? (cs : List Char) : Option (List Char × List Char) :=
  match cs with
  | c :: rest =>
    if c = 'e' || c = 'E' then
      let (sign, rest) := match rest with
        | '+' :: rest => (['+'], rest)
        | '-' :: rest => (['-'], rest)
        | rest => ([], rest)
      (digits? rest).map fun (digits, rest) => ('e' :: (sign ++ digits), rest)
    else some ([], cs)
  | [] => some ([], [])

def number? (negative : Bool) (cs : List Char) : Option (Value × List Char) := do
  let (whole, rest) ← whole? cs
  let (fraction, rest) ← fraction? rest
  let (exponent, rest) ← exponent? rest
  if fraction.isEmpty && exponent.isEmpty then
    let n : Int := (String.ofList whole).toNat?.getD 0
    return (.integer (if negative then -n else n), rest)
  else
    let d ← Decimal.ofChars? (whole ++ fraction ++ exponent)
    return (.double (Double.ofDecimal { d with negative := negative }), rest)

/-! ### Values -/

def words : List (List Char × Value) :=
  [("null".toList, .null), ("true".toList, .boolean true), ("false".toList, .boolean false),
   ("NaN".toList, .double .nan), ("Infinity".toList, .double (.infinite false)),
   ("-Infinity".toList, .double (.infinite true))]

def word? (cs : List Char) : Option (Value × List Char) :=
  words.findSome? fun (name, v) => (after? name cs).map fun rest => (v, rest)

/-- Items between commas behind an opening bracket, of which there is one at least. -/
def itemsOf (item : List Char → Option (α × List Char)) (close : Char) :
    Nat → List Char → Option (List α × List Char)
  | 0, _ => none
  | bound + 1, cs => do
    let (first, rest) ← item cs
    match skipSpace rest with
    | ',' :: rest =>
      let (others, rest) ← itemsOf item close bound rest
      return (first :: others, rest)
    | c :: rest => if c = close then some ([first], rest) else none
    | [] => none

def items (item : List Char → Option (α × List Char)) (close : Char) (cs : List Char) : Option (List α × List Char) :=
  match skipSpace cs with
  | c :: rest => if c = close then some ([], rest) else itemsOf item close (cs.length + 1) cs
  | [] => none

/-- A value at the start of a text, nested at most so deep. -/
def value : Nat → List Char → Option (Value × List Char)
  | 0, _ => none
  | depth + 1, cs =>
    let cs := skipSpace cs
    match cs with
    | '"' :: rest => (text rest).map fun (s, rest) => (.text s, rest)
    | '[' :: rest => (items (value depth) ']' rest).map fun (vs, rest) => (.list vs, rest)
    | '\x7b' :: rest =>
      let field (cs : List Char) : Option ((String × Value) × List Char) :=
        match skipSpace cs with
        | '"' :: cs => do
          let (key, rest) ← text cs
          match skipSpace rest with
          | ':' :: rest =>
            let (v, rest) ← value depth rest
            return ((key, v), rest)
          | _ => none
        | _ => none
      (items field '\x7d' rest).map fun (fields, rest) => (.record (Entries.ofPairs fields), rest)
    | _ =>
      match word? cs with
      | some result => some result
      | none =>
        match cs with
        | '-' :: rest => number? true rest
        | cs => number? false cs

def depthLimit : Nat := 200

def ofText? (s : String) : Option Value :=
  match value (depthLimit + 1) s.toList with
  | some (v, rest) => if (skipSpace rest).isEmpty then some v else none
  | none => none

end QueryFederation.Json

import QueryFederation.Number.Decimal

/-!
# Dates and times

Calendar dates and points in time without a zone, in the order of the calendar, with their standard text.
-/

namespace QueryFederation

structure Date where
  year : Nat
  month : Nat
  day : Nat
  deriving DecidableEq, Repr, Inhabited

structure Timestamp where
  date : Date
  hour : Nat
  minute : Nat
  second : Nat
  microsecond : Nat
  deriving DecidableEq, Repr, Inhabited

def padded (width n : Nat) : String :=
  let digits := (toString n).toList
  String.ofList (List.replicate (width - digits.length) '0' ++ digits)

namespace Date

def toText (d : Date) : String := padded 4 d.year ++ "-" ++ padded 2 d.month ++ "-" ++ padded 2 d.day

def rank (d : Date) : Nat := (d.year * 100 + d.month) * 100 + d.day

def ofChars? (cs : List Char) : Option (Date × List Char) :=
  match cs.splitAt 10 with
  | ([y0, y1, y2, y3, '-', m0, m1, '-', d0, d1], rest) => do
    let number (digits : List Char) : Option Nat := (String.ofList digits).toNat?
    some (⟨← number [y0, y1, y2, y3], ← number [m0, m1], ← number [d0, d1]⟩, rest)
  | _ => none

def ofText? (s : String) : Option Date :=
  match ofChars? s.toList with
  | some (d, []) => some d
  | _ => none

end Date

namespace Timestamp

/-- The time of day; fractions of a second are written only if there are any. -/
def timeText (t : Timestamp) : String :=
  padded 2 t.hour ++ ":" ++ padded 2 t.minute ++ ":" ++ padded 2 t.second
    ++ (if t.microsecond = 0 then "" else "." ++ padded 6 t.microsecond)

def toText (t : Timestamp) : String := t.date.toText ++ "T" ++ t.timeText

def toSpacedText (t : Timestamp) : String := t.date.toText ++ " " ++ t.timeText

def rank (t : Timestamp) : Nat :=
  (((t.date.rank * 100 + t.hour) * 100 + t.minute) * 100 + t.second) * 1000000 + t.microsecond

def ofText? (s : String) : Option Timestamp := do
  let (date, rest) ← Date.ofChars? s.toList
  let number (digits : List Char) : Option Nat := (String.ofList digits).toNat?
  match rest with
  | [_, h0, h1, ':', m0, m1, ':', s0, s1] =>
    some ⟨date, ← number [h0, h1], ← number [m0, m1], ← number [s0, s1], 0⟩
  | _ :: h0 :: h1 :: ':' :: m0 :: m1 :: ':' :: s0 :: s1 :: '.' :: fraction =>
    let micro ← number (fraction ++ List.replicate (6 - fraction.length) '0')
    some ⟨date, ← number [h0, h1], ← number [m0, m1], ← number [s0, s1], micro⟩
  | _ => none

end Timestamp

end QueryFederation

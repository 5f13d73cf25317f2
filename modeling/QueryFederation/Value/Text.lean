import QueryFederation.Value.Basic
import QueryFederation.Number.Shortest
import QueryFederation.Text.Quoted

/-!
# The text of a value

A value has a plain text, which a cast to text gives, and a quoted form, which messages show. They differ where the
plain text does not tell which kind of value it came from.
-/

namespace QueryFederation.Value

/-- The fields of a date and time as far as the last that is not zero; hour and minute are always there. -/
def timestampFields (t : Timestamp) : List Nat :=
  [t.date.year, t.date.month, t.date.day, t.hour, t.minute]
    ++ (if t.microsecond = 0 then (if t.second = 0 then [] else [t.second]) else [t.second, t.microsecond])

def commaSeparated (items : List String) : String := ", ".intercalate items

mutual

def quoted : Value → String
  | null => "None"
  | boolean b => if b then "True" else "False"
  | integer n => toString n
  | double x => x.toText
  | decimal d => "Decimal('" ++ d.toText ++ "')"
  | text s => Text.quoted s
  | date d => "datetime.date(" ++ commaSeparated ([d.year, d.month, d.day].map toString) ++ ")"
  | timestamp t => "datetime.datetime(" ++ commaSeparated ((timestampFields t).map toString) ++ ")"
  | bytes bs => Text.quotedBytes bs
  | list items => "[" ++ commaSeparated (quotedItems items) ++ "]"
  | record fields => "\x7b" ++ commaSeparated (quotedFields fields) ++ "\x7d"

def quotedItems : List Value → List String
  | [] => []
  | v :: vs => quoted v :: quotedItems vs

def quotedFields : List (String × Value) → List String
  | [] => []
  | (key, v) :: fields => (Text.quoted key ++ ": " ++ quoted v) :: quotedFields fields

end

def toText : Value → String
  | text s => s
  | decimal d => d.toText
  | date d => d.toText
  | timestamp t => t.toSpacedText
  | v => v.quoted

/-- The name of a value's kind where a message or a key tells kinds apart. -/
def kindName : Value → String
  | null => "NoneType"
  | boolean _ => "bool"
  | integer _ => "int"
  | double _ => "float"
  | decimal _ => "Decimal"
  | text _ => "str"
  | date _ => "date"
  | timestamp _ => "datetime"
  | bytes _ => "bytes"
  | list _ => "list"
  | record _ => "dict"

end QueryFederation.Value

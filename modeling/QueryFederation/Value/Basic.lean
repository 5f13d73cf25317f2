import QueryFederation.Number.Extended
import QueryFederation.Calendar
import QueryFederation.Entries

/-!
# Values

The values that sources deliver, filters compare and documents hold. Records keep the order of their fields, because
that order shows in results. Equality is equality of meaning: booleans count as the numbers zero and one, all number
types are compared by exact value, and a number that is none equals nothing, itself included.
-/

namespace QueryFederation

inductive Value where
  | null
  | boolean (b : Bool)
  | integer (n : Int)
  | double (x : Double)
  | decimal (d : Decimal)
  | text (s : String)
  | date (d : Date)
  | timestamp (t : Timestamp)
  | bytes (bs : List UInt8)
  | list (items : List Value)
  | record (fields : List (String × Value))
  deriving Inhabited

namespace Value

def isNull : Value → Bool
  | null => true
  | _ => false

def ofBool (b : Bool) : Value := boolean b

/-- A truth value of three-valued logic; unknown is null. -/
def ofTruth : Option Bool → Value
  | none => null
  | some b => boolean b

def boolToInt (b : Bool) : Int := if b then 1 else 0

def number? : Value → Option Extended
  | boolean b => some (.finite (boolToInt b))
  | integer n => some (.finite n)
  | double x => some (.ofDouble x)
  | decimal d => some (.finite d.toRat)
  | _ => none

/-- Is the value a boolean or a number of any type? -/
def isNumber (v : Value) : Bool := v.number?.isSome

/-- Is the value empty, zero, false or null? -/
def isFalsy : Value → Bool
  | null => true
  | boolean b => !b
  | integer n => n = 0
  | double x => x.isZero
  | decimal d => d.isZero
  | text s => s.isEmpty
  | bytes bs => bs.isEmpty
  | list items => items.isEmpty
  | record fields => fields.isEmpty
  | date _ | timestamp _ => false

def isHashable : Value → Bool
  | list _ | record _ => false
  | _ => true

/-! ### Equality and order -/

mutual

def same : Value → Value → Bool
  | null, null => true
  | text a, text b => a = b
  | integer a, integer b => a = b
  | date a, date b => a = b
  | timestamp a, timestamp b => a = b
  | bytes a, bytes b => a = b
  | list as, list bs => sameItems as bs
  | record as, record bs => as.length = bs.length && sameFields as bs
  | a, b =>
    match a.number?, b.number? with
    | some x, some y => x.same y
    | _, _ => false

def sameItems : List Value → List Value → Bool
  | [], [] => true
  | a :: as, b :: bs => same a b && sameItems as bs
  | _, _ => false

/-- Has every field a namesake of the same value? -/
def sameFields : List (String × Value) → List (String × Value) → Bool
  | [], _ => true
  | (key, a) :: as, bs =>
    (match bs.lookup key with
      | some b => same a b
      | none => false) && sameFields as bs

end

/-- How two values are ordered: not at all, because their kinds do not match, or as `Extended.order?` tells. -/
abbrev Order := Option (Option Ordering)

mutual

/-- Lists are ordered by their first items that differ, and by length if there are none. -/
def order? : Value → Value → Order
  | text a, text b => some (some (compare a b))
  | integer a, integer b => some (some (compare a b))
  | date a, date b => some (some (compare a.rank b.rank))
  | timestamp a, timestamp b => some (some (compare a.rank b.rank))
  | bytes a, bytes b => some (some (compare (a.map UInt8.toNat) (b.map UInt8.toNat)))
  | list as, list bs => orderItems as bs
  | a, b =>
    match a.number?, b.number? with
    | some x, some y => some (x.order? y)
    | _, _ => none

def orderItems : List Value → List Value → Order
  | [], [] => some (some .eq)
  | [], _ :: _ => some (some .lt)
  | _ :: _, [] => some (some .gt)
  | a :: as, b :: bs => if same a b then orderItems as bs else order? a b

end

end Value

def isLess : Option Ordering → Bool
  | some .lt => true
  | _ => false

/-! ### Rows -/

/-- A row or document: values under distinct keys, in order. -/
abbrev Row := Entries Value

namespace Row

/-- The value under a key; null if there is none. -/
def get (row : Row) (key : String) : Value := (row.lookup key).getD .null

def nulls (keys : List String) : Row := Entries.ofPairs (keys.map (·, .null))

def project (keys : List String) (row : Row) : Row := Entries.ofPairs (keys.map fun key => (key, get row key))

end Row

end QueryFederation

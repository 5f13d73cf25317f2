import QueryFederation.Number.Reading
import QueryFederation.Value.Basic

/-!
# Reading data into types

Data from outside is read with some leniency: numbers may be written as texts, truth values as words. A reading goes
on after a problem, so that every problem of the data is found, in the order of the fields, each with the path to its
place.
-/

namespace QueryFederation

inductive PathStep where
  | field (name : String)
  | item (index : Nat)
  deriving DecidableEq, Repr

/-- Where data came from, which decides what lists and records are called. -/
inductive Origin where
  | values
  | text
  deriving DecidableEq, Repr

inductive ProblemKind where
  | missing
  | notText
  | notList
  /-- The data is no record; it should have been one of the named kind. -/
  | notRecord (kind : String)
  | notMapping
  | noItems
  | below (least : Nat)
  | notBelow (least : Nat)
  | above (most : Nat)
  | notInteger
  | unreadableInteger
  | fractionInInteger
  | notFinite
  | notNumber
  | unreadableNumber
  | notTruth
  | unreadableTruth
  | notOneOf (names : List String)
  | notWord (words : List String)
  | unreadableText
  | notDecoded
  deriving DecidableEq, Repr

def alternatives (names : List String) : String :=
  let quoted := names.map fun name => "'" ++ name ++ "'"
  match quoted.dropLast, quoted.getLast? with
  | [], some last => last
  | firsts, some last => ", ".intercalate firsts ++ " or " ++ last
  | _, none => ""

namespace ProblemKind

def name : ProblemKind → String
  | missing => "missing"
  | notText => "string_type"
  | notList => "list_type"
  | notRecord _ => "model_type"
  | notMapping => "dict_type"
  | noItems => "too_short"
  | below _ => "greater_than_equal"
  | notBelow _ => "greater_than"
  | above _ => "less_than_equal"
  | notInteger => "int_type"
  | unreadableInteger => "int_parsing"
  | fractionInInteger => "int_from_float"
  | notFinite => "finite_number"
  | notNumber => "float_type"
  | unreadableNumber => "float_parsing"
  | notTruth => "bool_type"
  | unreadableTruth => "bool_parsing"
  | notOneOf _ => "enum"
  | notWord _ => "literal_error"
  | unreadableText => "json_invalid"
  | notDecoded => "model_attributes_type"

/-- What a reader of the problem is told; the reason why a text is no JSON is not. -/
def message? (origin : Origin) : ProblemKind → Option String
  | missing => some "Field required"
  | notText => some "Input should be a valid string"
  | notList => some (if origin = .text then "Input should be a valid array" else "Input should be a valid list")
  | notRecord kind =>
    some (if origin = .text then "Input should be an object"
      else "Input should be a valid dictionary or instance of " ++ kind)
  | notMapping =>
    some (if origin = .text then "Input should be an object" else "Input should be a valid dictionary")
  | noItems => some "List should have at least 1 item after validation, not 0"
  | below least => some ("Input should be greater than or equal to " ++ toString least)
  | notBelow least => some ("Input should be greater than " ++ toString least)
  | above most => some ("Input should be less than or equal to " ++ toString most)
  | notInteger => some "Input should be a valid integer"
  | unreadableInteger => some "Input should be a valid integer, unable to parse string as an integer"
  | fractionInInteger => some "Input should be a valid integer, got a number with a fractional part"
  | notFinite => some "Input should be a finite number"
  | notNumber => some "Input should be a valid number"
  | unreadableNumber => some "Input should be a valid number, unable to parse string as a number"
  | notTruth => some "Input should be a valid boolean"
  | unreadableTruth => some "Input should be a valid boolean, unable to interpret input"
  | notOneOf names | notWord names => some ("Input should be " ++ alternatives names)
  | unreadableText => none
  | notDecoded => some "Input should be a valid dictionary or object to extract fields from"

end ProblemKind

structure Problem where
  kind : ProblemKind
  path : List PathStep := []
  deriving DecidableEq, Repr

structure Malformed where
  origin : Origin
  problems : List Problem
  deriving DecidableEq, Repr

/-! ### Readings that collect problems -/

inductive Checked (α : Type) where
  | ok (a : α)
  | bad (problems : List Problem)

namespace Checked

variable {α β : Type}

def map (f : α → β) : Checked α → Checked β
  | ok a => ok (f a)
  | bad problems => bad problems

/-- Both readings; the problems of the first come first. -/
def both : Checked (α → β) → Checked α → Checked β
  | ok f, ok a => ok (f a)
  | ok _, bad q => bad q
  | bad p, ok _ => bad p
  | bad p, bad q => bad (p ++ q)

instance : Functor Checked where
  map := map

instance : Applicative Checked where
  pure := ok
  seq f x := both f (x ())

def under (step : PathStep) : Checked α → Checked α
  | ok a => ok a
  | bad problems => bad (problems.map fun p => { p with path := step :: p.path })

def problem (kind : ProblemKind) : Checked α := bad [{ kind := kind }]

def andThen (checked : Checked α) (f : α → Checked β) : Checked β :=
  match checked with
  | ok a => f a
  | bad problems => bad problems

def toExcept (origin : Origin) : Checked α → Except Malformed α
  | ok a => .ok a
  | bad problems => .error ⟨origin, problems⟩

end Checked

namespace Read

variable {α : Type}

def any (v : Value) : Checked Value := .ok v

def text : Value → Checked String
  | .text s => .ok s
  | _ => .problem .notText

def optional (read : Value → Checked α) : Value → Checked (Option α)
  | .null => .ok none
  | v => (read v).map some

/-! ### Integers -/

/-- Drops a point and zeros at the end. -/
def dropZeroFraction (cs : List Char) : List Char :=
  if cs.contains '.' && ((cs.dropWhile (· ≠ '.')).drop 1).all (· = '0') then cs.takeWhile (· ≠ '.') else cs

/-- Underscores may stand between digits, one at a time. -/
def dropUnderscores (cs : List Char) : Option (List Char) :=
  if cs.head? = some '_' || cs.getLast? = some '_' then none
  else if (cs.zip (cs.drop 1)).any fun (a, b) => a = '_' && b = '_' then none
  else some (cs.filter (· ≠ '_'))

def integerOfText? (s : String) : Option Int := do
  let (negative, digits) := Decimal.readSign (dropZeroFraction (Text.trimList s.toList))
  let digits ← dropUnderscores digits
  if digits.isEmpty || !digits.all Char.isDigit || Number.integerDigitLimit < digits.length then none
  else
    let n : Int := (String.ofList digits).toNat?.getD 0
    some (if negative then -n else n)

def integer : Value → Checked Int
  | .boolean b => .ok (Value.boolToInt b)
  | .integer n => .ok n
  | .double x =>
    match x.truncate?, x.toInt? with
    | none, _ => .problem .notFinite
    | _, some n => .ok n
    | _, none => .problem .fractionInInteger
  | .decimal d => if d.toRat.den = 1 then .ok d.toRat.num else .problem .fractionInInteger
  | .text s =>
    match integerOfText? s with
    | some n => .ok n
    | none => .problem .unreadableInteger
  | _ => .problem .notInteger

def atLeast (least : Nat) (n : Int) : Checked Int := if n < least then .problem (.below least) else .ok n

def natural (v : Value) : Checked Nat := ((integer v).andThen (atLeast 0)).map Int.toNat

/-! ### Doubles -/

def double : Value → Checked Double
  | .boolean b => .ok (.finite (Value.boolToInt b))
  | .integer n =>
    match Double.ofInt? n with
    | some x => .ok x
    | none => .problem .notNumber
  | .double x => .ok x
  | .decimal d => .ok (.ofDecimal d)
  | .text s =>
    match Number.readDouble? s with
    | some x => .ok x
    | none => .problem .unreadableNumber
  | _ => .problem .notNumber

/-! ### Truth values -/

def falseWords : List String := ["0", "off", "f", "false", "n", "no"]

def trueWords : List String := ["1", "on", "t", "true", "y", "yes"]

def truthOfInteger (n : Int) : Checked Bool :=
  if n = 0 then .ok false else if n = 1 then .ok true else .problem .unreadableTruth

/-- Of doubles only those that are whole come into question. -/
def truthOfDouble (x : Double) : Checked Bool :=
  match x.toInt? with
  | some n => truthOfInteger n
  | none => .problem .notTruth

def truth : Value → Checked Bool
  | .boolean b => .ok b
  | .integer n => truthOfInteger n
  | .double x => truthOfDouble x
  | .decimal d => truthOfDouble (.ofDecimal d)
  | .text s =>
    let word := String.ofList (s.toList.map Char.toLower)
    if falseWords.contains word then .ok false
    else if trueWords.contains word then .ok true
    else .problem .unreadableTruth
  | _ => .problem .notTruth

/-! ### Choices, lists and records -/

def choice (all : List α) (name : α → String) (v : Value) : Checked α :=
  let found := match v with
    | .text s => all.find? fun a => name a = s
    | _ => none
  match found with
  | some a => .ok a
  | none => .problem (.notOneOf (all.map name))

def items (read : Value → Checked α) (index : Nat) : List Value → Checked (List α)
  | [] => .ok []
  | v :: vs => List.cons <$> (read v).under (.item index) <*> items read (index + 1) vs

def list (read : Value → Checked α) : Value → Checked (List α)
  | .list vs => items read 0 vs
  | _ => .problem .notList

def record (kind : String) (read : Row → Checked α) : Value → Checked α
  | .record fields => read fields
  | _ => .problem (.notRecord kind)

def required (row : Row) (name : String) (read : Value → Checked α) : Checked α :=
  match row.lookup name with
  | some v => (read v).under (.field name)
  | none => Checked.under (.field name) (.problem .missing)

def defaulted (row : Row) (name : String) (read : Value → Checked α) (default : α) : Checked α :=
  match row.lookup name with
  | some v => (read v).under (.field name)
  | none => .ok default

def entries (read : Value → Checked α) : Value → Checked (Entries α)
  | .record fields => go fields
  | _ => .problem .notMapping
where
  go : Row → Checked (Entries α)
    | [] => .ok []
    | (key, v) :: rest => (fun a others => (key, a) :: others) <$> (read v).under (.field key) <*> go rest

end Read

end QueryFederation

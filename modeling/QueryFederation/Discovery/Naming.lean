import QueryFederation.Source.Schema
import QueryFederation.Text.Basic
import QueryFederation.Text.Case

/-!
# What names say about joins

Columns that could be joined often tell so by their names: a column `customer_id` beside the `id` of `customers`, or
the same telling name in both tables. Names are compared in lower case and tables by the singular of their names. Only
columns of compatible types come into question.
-/

namespace QueryFederation.Discovery

/-! ### Words -/

def irregularPlurals : List (String × String) :=
  [("people", "person"), ("children", "child"), ("men", "man"), ("women", "woman")]

/-- A text without its last characters. -/
def dropEnd (n : Nat) (s : String) : String := String.ofList (s.toList.take (s.toList.length - n))

/-- The singular of a word, in lower case. -/
def singularize (word : String) : String :=
  let lower := Text.lower word
  match irregularPlurals.lookup lower with
  | some singular => singular
  | none =>
    if lower.endsWith "ies" && 3 < lower.toList.length then dropEnd 3 lower ++ "y"
    else if ["ses", "xes", "zes", "ches", "shes"].any (fun ending => lower.endsWith ending) then dropEnd 2 lower
    else if lower.endsWith "s" && !lower.endsWith "ss" then dropEnd 1 lower
    else lower

/-! ### Types -/

inductive TypeFamily where
  | int
  | numeric
  | text
  | temporal
  | uuid
  deriving DecidableEq, Repr, Inhabited

namespace TypeFamily

def name : TypeFamily → String
  | int => "int"
  | numeric => "numeric"
  | text => "text"
  | temporal => "temporal"
  | uuid => "uuid"

def marks : TypeFamily → List String
  | int => ["int", "serial"]
  | numeric => ["numeric", "decimal", "real", "double", "float", "money", "number"]
  | text => ["char", "text", "string", "clob"]
  | temporal => ["date", "time"]
  | uuid => ["uuid"]

def ofType? (type : String) : Option TypeFamily :=
  let lower := Text.lower type
  if Text.isPart "uuid" lower then some uuid
  else if Text.isPart "interval" lower then none
  else [int, numeric, text, temporal].find? fun family => family.marks.any fun mark => Text.isPart mark lower

def meets : TypeFamily → TypeFamily → Bool
  | int, numeric | numeric, int => true
  | a, b => a = b

end TypeFamily

def areCompatible (left right : String) : Bool :=
  !left.isEmpty && !right.isEmpty &&
    (Text.lower left = Text.lower right ||
      match TypeFamily.ofType? left, TypeFamily.ofType? right with
      | some a, some b => a.meets b
      | _, _ => false)

/-! ### Columns -/

/-- How the names of two columns show that they belong together, the most telling way first. -/
inductive NamePattern where
  | idOfTable
  | sameReference
  | sameName
  | mentionOfTable
  | sharedIdentifier
  deriving DecidableEq, Repr, Inhabited

namespace NamePattern

def name : NamePattern → String
  | idOfTable => "id_pattern"
  | sameReference => "matching_suffix"
  | sameName => "exact_name_match"
  | mentionOfTable => "table_reference"
  | sharedIdentifier => "common_identifier"

def hundredths : NamePattern → Nat
  | idOfTable => 80
  | sameReference => 75
  | sameName => 70
  | mentionOfTable => 65
  | sharedIdentifier => 60

end NamePattern

def genericNames : List String :=
  ["id", "name", "title", "description", "type", "status", "value", "label", "created", "updated", "created_at",
   "updated_at", "deleted_at", "created_on", "updated_on", "modified_at", "timestamp", "date"]

def identifierNames : List String := ["uuid", "code", "key", "reference", "ref"]

structure Place where
  table : TableSchema
  column : ColumnDescriptor
  deriving DecidableEq, Repr, Inhabited

namespace Place

def lowerName (p : Place) : String := Text.lower p.column.name

def lowerTable (p : Place) : String := Text.lower p.table.tableName

def singularTable (p : Place) : String := singularize p.lowerTable

def text (p : Place) : String := p.table.aliasName ++ "." ++ p.column.name

/-- Does the name of a column say that it refers to the table of another? -/
def namesTableOf (p q : Place) : Bool :=
  p.lowerName = q.singularTable ++ "_id" || p.lowerName = q.lowerTable ++ "_id"

end Place

/-- A shared identifier: of both, or of one that the other refers to by the name of the table. -/
def matchIdentifier (left right : Place) (name : String) : Option String :=
  if left.lowerName = name && right.lowerName = name then some ("shared identifier " ++ name)
  else if left.lowerName = right.singularTable ++ "_" ++ name && right.lowerName = name then
    some (left.text ++ " references " ++ right.table.aliasName ++ "." ++ name)
  else if right.lowerName = left.singularTable ++ "_" ++ name && left.lowerName = name then
    some (right.text ++ " references " ++ left.table.aliasName ++ "." ++ name)
  else none

/-- The most telling way in which two columns belong together, and the words for it. -/
def matchColumns (left right : Place) : Option (NamePattern × String) :=
  if !areCompatible left.column.type right.column.type then none
  else if left.lowerName = "id" && right.namesTableOf left then
    some (.idOfTable, right.text ++ " names " ++ left.table.aliasName ++ ".id")
  else if right.lowerName = "id" && left.namesTableOf right then
    some (.idOfTable, left.text ++ " names " ++ right.table.aliasName ++ ".id")
  else if left.lowerName.endsWith "_id" && left.lowerName = right.lowerName then
    some (.sameReference, "both tables carry " ++ left.column.name)
  else if left.lowerName = right.lowerName && !genericNames.contains left.lowerName then
    some (.sameName, "same column name " ++ left.column.name)
  else if right.lowerName = "id" && Text.isPart right.singularTable left.lowerName then
    some (.mentionOfTable, left.text ++ " mentions " ++ right.table.aliasName)
  else if left.lowerName = "id" && Text.isPart left.singularTable right.lowerName then
    some (.mentionOfTable, right.text ++ " mentions " ++ left.table.aliasName)
  else (identifierNames.findSome? (matchIdentifier left right)).map fun reason => (.sharedIdentifier, reason)

end QueryFederation.Discovery

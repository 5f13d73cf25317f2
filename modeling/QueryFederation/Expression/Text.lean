import QueryFederation.Expression.Basic
import QueryFederation.Sql.Dialect

/-!
# The text of an expression

An expression is written in a neutral form, which messages show and type names refer to, or in a dialect, which quotes
every name. Parentheses are written exactly where the expression has them. Two rules look at types: a dialect that
divides integers without fraction is given a double on the left, and PostgreSQL rounds to places only decimals.
-/

namespace QueryFederation

/-- Where a text is meant for: no dialect is the neutral form. -/
abbrev Target := Option Dialect

/-! ### Names and texts -/

def Identifier.text (i : Identifier) (target : Target) : String :=
  let inQuotes (quote : Char) := String.ofList (quote :: (Dialect.escapeEach quote quote i.name.toList ++ [quote]))
  match target with
  | some .mysql => inQuotes '\x60'
  | some _ => inQuotes '"'
  | none => if i.isQuoted then inQuotes '"' else i.name

def controlNames : List (Char × Char) :=
  [('\x07', 'a'), ('\x08', 'b'), ('\x0c', 'f'), ('\n', 'n'), ('\r', 'r'), ('\t', 't'), ('\x0b', 'v')]

def escaped (target : Target) (c : Char) : List Char :=
  let usesBackslash := match target with
    | some .mysql | some .snowflake | some .clickhouse => true
    | _ => false
  if c = '\'' then (if target = some .snowflake then ['\\', c] else [c, c])
  else if usesBackslash then
    if c = '\\' then ['\\', '\\']
    else if c = '\x00' && target = some .clickhouse then ['\\', '0']
    else match controlNames.lookup c with
      | some name => ['\\', name]
      | none => [c]
  else [c]

def quotedText (target : Target) (s : String) : String :=
  String.ofList ('\'' :: (s.toList.flatMap (escaped target) ++ ['\'']))

/-! ### Types -/

def CastTarget.typeName (type : CastTarget) (target : Target) : String :=
  match type with
  | .int => match target with
    | some .mysql => "SIGNED"
    | some .sqlite => "INTEGER"
    | some .clickhouse => "Int32"
    | _ => "INT"
  | .bigint => match target with
    | some .mysql => "SIGNED"
    | some .sqlite => "INTEGER"
    | some .clickhouse => "Int64"
    | _ => "BIGINT"
  | .smallint => match target with
    | some .mysql => "SIGNED"
    | some .sqlite => "INTEGER"
    | some .clickhouse => "Int16"
    | _ => "SMALLINT"
  | .tinyint => match target with
    | some .mysql => "SIGNED"
    | some .sqlite => "INTEGER"
    | some .clickhouse => "Int8"
    | some .postgres => "SMALLINT"
    | _ => "TINYINT"
  | .float => match target with
    | some .postgres | some .sqlite => "REAL"
    | some .clickhouse => "Float32"
    | _ => "FLOAT"
  | .double => match target with
    | some .postgres => "DOUBLE PRECISION"
    | some .sqlite => "REAL"
    | some .clickhouse => "Float64"
    | _ => "DOUBLE"
  | .decimal => match target with
    | some .sqlite => "REAL"
    | some .clickhouse => "Decimal"
    | _ => "DECIMAL"
  | .char => match target with
    | some .sqlite => "TEXT"
    | some .clickhouse => "String"
    | _ => "CHAR"
  | .varchar => match target with
    | some .mysql => "CHAR"
    | some .sqlite => "TEXT"
    | some .clickhouse => "String"
    | _ => "VARCHAR"
  | .text => match target with
    | some .mysql => "CHAR"
    | some .snowflake => "VARCHAR"
    | some .clickhouse => "String"
    | _ => "TEXT"
  | .boolean => match target with
    | some .mysql => "SIGNED"
    | some .sqlite => "INTEGER"
    | some .clickhouse => "Bool"
    | _ => "BOOLEAN"
  | .date => "DATE"
  | .timestamp => match target with
    | some .mysql | some .sqlite => "DATETIME"
    | some .clickhouse => "DateTime"
    | _ => "TIMESTAMP"
  | .named name => name

def CastTarget.isText : CastTarget → Bool
  | .char | .varchar | .text => true
  | _ => false

/-- A type with its parameters. ClickHouse types have to admit null, and its texts have no length. -/
def CastType.text (type : CastType) (target : Target) : String :=
  let name := type.target.typeName target
  let parameters :=
    if type.parameters.isEmpty || (target = some .clickhouse && type.target.isText) then ""
    else "(" ++ ", ".intercalate type.parameters ++ ")"
  if target = some .clickhouse then "Nullable(" ++ name ++ parameters ++ ")" else name ++ parameters

namespace Expression

def isRealCast : Expression → Bool
  | cast _ ⟨.float, _⟩ | cast _ ⟨.double, _⟩ | cast _ ⟨.decimal, _⟩ => true
  | _ => false

/-- Does the left operand of a division have to be made a double? -/
def needsRealDividend (target : Target) (left right : Expression) : Bool :=
  (target = some .postgres || target = some .sqlite) && !(isRealCast left || isRealCast right)

/-! ### The type of an expression, as far as rounding in PostgreSQL depends on it -/

inductive Kind where
  | null
  | unknown
  | other
  | text
  | int
  | bigint
  | decimal
  | float
  | double
  deriving DecidableEq, Repr

namespace Kind

/-- The place among the kinds that can stand for each other. -/
def width : Kind → Nat
  | null | unknown | other => 0
  | text => 1
  | int => 2
  | bigint => 3
  | decimal => 4
  | float => 5
  | double => 6

/-- The kind of a value that may be of either kind. -/
def join (a b : Kind) : Kind :=
  if a = null then b
  else if b = null then a
  else if a = unknown || b = unknown then unknown
  else if a = other || b = other then other
  else if a.width ≤ b.width then b
  else a

def ofTarget : CastTarget → Kind
  | .int | .smallint | .tinyint => int
  | .bigint => bigint
  | .float => float
  | .double => double
  | .decimal => decimal
  | .char | .varchar | .text => text
  | .boolean | .date | .timestamp => other
  | .named _ => unknown

end Kind

mutual

def kind : Expression → Kind
  | column .. | tableStar _ | star | construct .. => .unknown
  | text _ => .text
  | number s => if s.toList.all Char.isDigit then .int else .double
  | null => .null
  | boolean _ | not _ | is .. => .other
  | paren e | neg e | abs e => kind e
  | binary .div left right =>
    (if needsRealDividend (some .postgres) left right then .double else kind left).join (kind right)
  | binary op left right =>
    if op.isLogical || op.isComparison then .other else (kind left).join (kind right)
  | coalesce args | distinct args => joinedKind args
  | nullif left right => (kind left).join (kind right)
  | round _ => .double
  | aggregate .count _ => .bigint
  | aggregate .avg _ => .double
  | aggregate _ args => firstKind args
  | case _ branches otherwise => (branchKind branches).join (optionalKind otherwise)
  | conditional _ yes no => (kind yes).join (optionalKind no)
  | cast _ type => .ofTarget type.target

def joinedKind : List Expression → Kind
  | [] => .null
  | e :: es => (kind e).join (joinedKind es)

def firstKind : List Expression → Kind
  | [] => .unknown
  | e :: _ => kind e

def optionalKind : Option Expression → Kind
  | none => .null
  | some e => kind e

def branchKind : List (Expression × Expression) → Kind
  | [] => .null
  | (_, value) :: branches => (kind value).join (branchKind branches)

end

/-! ### Writing -/

def commaSeparated (texts : List String) : String := ", ".intercalate texts

def callText (name : String) (args : List String) : String := name ++ "(" ++ commaSeparated args ++ ")"

def caseText (subject : Option String) (branches : List (String × String)) (otherwise : Option String) : String :=
  "CASE" ++ (match subject with
    | some s => " " ++ s
    | none => "")
  ++ String.join (branches.map fun (condition, value) => " WHEN " ++ condition ++ " THEN " ++ value)
  ++ (match otherwise with
    | some s => " ELSE " ++ s
    | none => "")
  ++ " END"

def conditionalText (target : Target) (condition yes : String) (no : Option String) : String :=
  match target with
  | none | some .postgres | some .clickhouse => caseText none [(condition, yes)] no
  | some .mysql => callText "IF" [condition, yes, no.getD "NULL"]
  | some .snowflake => callText "IFF" [condition, yes, no.getD "NULL"]
  | some .sqlite => callText "IIF" ([condition, yes] ++ no.toList)

def castText (target : Target) (e : String) (type : CastType) : String :=
  match target, type.target with
  | some .sqlite, .date | some .sqlite, .timestamp => callText (type.target.typeName target) [e]
  | _, _ => "CAST(" ++ e ++ " AS " ++ type.text target ++ ")"

/-- The name of an aggregate; the smallest or largest of several arguments is a function of its own in some dialects. -/
def aggregateName (target : Target) (function : AggregateFunction) (arity : Nat) : String :=
  match target, function with
  | some .postgres, .min | some .mysql, .min | some .snowflake, .min => if 1 < arity then "LEAST" else "MIN"
  | some .postgres, .max | some .mysql, .max | some .snowflake, .max => if 1 < arity then "GREATEST" else "MAX"
  | _, function => function.keyword

/-- Distinct items; PostgreSQL takes only one, so several, each with whether it has to be enclosed, become a tuple. -/
def distinctText (target : Target) (items : List (String × Bool)) : String :=
  let texts := items.map (·.1)
  match items with
  | [] => "DISTINCT"
  | [(item, _)] => "DISTINCT " ++ item
  | _ =>
    if target = some .postgres then
      let isNull (item : String × Bool) := (if item.2 then "(" ++ item.1 ++ ")" else item.1) ++ " IS NULL"
      let branches := items.map fun item => (isNull item, "NULL")
      "DISTINCT " ++ caseText none branches (some ("(" ++ commaSeparated texts ++ ")"))
    else "DISTINCT " ++ commaSeparated texts

def negativeText (e : String) : String := if e.startsWith "-" then "- " ++ e else "-" ++ e

def constructText (target : Target) : Construct → List String → String
  | .operator symbol, [left, right] => left ++ " " ++ symbol ++ " " ++ right
  | .inList, e :: items => e ++ " IN (" ++ commaSeparated items ++ ")"
  | .between, [e, low, high] => e ++ " BETWEEN " ++ low ++ " AND " ++ high
  | .function name, args => if args.isEmpty then name else callText name args
  | .aggregate name, args => callText name args
  | .unknownFunction name, args => callText (Text.upper name) args
  | .window partitions, call :: rest =>
    let order := String.join (rest.drop partitions)
    let inside :=
      if partitions = 0 then String.ofList (order.toList.drop 1)
      else "PARTITION BY " ++ commaSeparated (rest.take partitions) ++ order
    call ++ " OVER (" ++ inside ++ ")"
  | .order, items => " ORDER BY " ++ commaSeparated items
  | .orderItem descending, [e] => e ++ (if descending then " DESC" else "")
  | .subquery, [query] => "(" ++ query ++ ")"
  | .select items, parts => "SELECT " ++ commaSeparated (parts.take items) ++ String.join (parts.drop items)
  | .fromClause, [table] => " FROM " ++ table
  | .table name, _ => name
  | .array, items => callText "ARRAY" items
  | .tuple, items => "(" ++ commaSeparated items ++ ")"
  | .named name, [e] => e ++ " AS " ++ name.text target
  | _, parts => commaSeparated parts

/-- A test against a constant; Snowflake has no tests against truth values. -/
def testText (target : Target) (left : String) (right : Expression) (rightText : String) : String :=
  match target, right with
  | some .snowflake, boolean true => left
  | some .snowflake, boolean false => "NOT " ++ left
  | _, _ => left ++ " IS " ++ rightText

mutual

def toText (target : Target) : Expression → String
  | column qualifiers name => ".".intercalate ((qualifiers ++ [name]).map (Identifier.text · target))
  | tableStar qualifiers => ".".intercalate (qualifiers.map (Identifier.text · target) ++ ["*"])
  | star => "*"
  | text s => quotedText target s
  | number s => s
  | null => "NULL"
  | boolean b => if b then "TRUE" else "FALSE"
  | paren e => "(" ++ toText target e ++ ")"
  | neg e => negativeText (toText target e)
  | not (is left right) =>
    let test := testText target (toText target left) right (toText target right)
    if target = some .clickhouse then "NOT (" ++ test ++ ")" else "NOT " ++ test
  | not e => "NOT " ++ toText target e
  | binary .div left right =>
    let dividend := toText target left
    (if needsRealDividend target left right then castText target dividend ⟨.double, []⟩ else dividend)
      ++ " / " ++ toText target right
  | binary op left right => toText target left ++ " " ++ op.text ++ " " ++ toText target right
  | is left right => testText target (toText target left) right (toText target right)
  | coalesce args => callText "COALESCE" (texts target args)
  | nullif left right =>
    callText (if target = some .clickhouse then "nullIf" else "NULLIF") [toText target left, toText target right]
  | round [] => callText "ROUND" []
  | round (e :: places) =>
    let value := toText target e
    let value :=
      if target = some .postgres && !places.isEmpty && kind e = .double then castText target value ⟨.decimal, []⟩
      else value
    callText "ROUND" (value :: texts target places)
  | abs e => callText "ABS" [toText target e]
  | aggregate function args => callText (aggregateName target function args.length) (texts target args)
  | distinct items => distinctText target ((texts target items).zip (items.map isBinary))
  | case subject branches otherwise =>
    caseText (optionalText target subject) (branchTexts target branches) (optionalText target otherwise)
  | conditional condition yes no =>
    conditionalText target (toText target condition) (toText target yes) (optionalText target no)
  | cast e type => castText target (toText target e) type
  | construct c args => constructText target c (texts target args)

def texts (target : Target) : List Expression → List String
  | [] => []
  | e :: es => toText target e :: texts target es

def optionalText (target : Target) : Option Expression → Option String
  | none => none
  | some e => some (toText target e)

def branchTexts (target : Target) : List (Expression × Expression) → List (String × String)
  | [] => []
  | (condition, value) :: branches => (toText target condition, toText target value) :: branchTexts target branches

end

/-- The neutral form, which messages show. -/
def shown (e : Expression) : String := e.toText none

def render (dialect : Dialect) (e : Expression) : String := e.toText (some dialect)

end Expression

end QueryFederation

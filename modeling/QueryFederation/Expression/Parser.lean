import QueryFederation.Expression.Basic
import QueryFederation.Expression.Token

/-!
# The grammar of aggregate expressions

Operators bind in nine strengths and associate to the left. The productions are written with the parser of operands as
an argument, `operand`, so that only the last definition recurses; it does so on a bound that every text meets,
because each token lets the parser descend at most once through all strengths.

Where an expression could stand there may be none, and many places take that: a missing item of a list is dropped, and
only an operator insists on its operands. A parser therefore tells "no expression here", with the tokens as they were,
from "the text cannot be read", which is `none`.
-/

namespace QueryFederation.Expression.Parser

/-- How strongly an operator binds, loosest first. -/
inductive Strength where
  | or
  | and
  | equality
  | comparison
  | range
  | bitwise
  | sum
  | product
  | unary
  deriving DecidableEq, Repr

def Strength.tighter : Strength → Strength
  | or => and
  | and => equality
  | equality => comparison
  | comparison => range
  | range => bitwise
  | bitwise => sum
  | sum => product
  | product | unary => unary

/-- A parser of expressions at each strength, which gives the expression, if there is one, and the tokens after it. -/
abbrev Operands := Strength → List Token → Option (Option Expression × List Token)

/-! ### Words -/

def reservedWords : List String :=
  ["ALTER", "AND", "AS", "BETWEEN", "CREATE", "CROSS", "DISTINCT", "DROP", "ELSE", "EXCEPT", "FETCH", "FOR", "FROM",
   "GLOB", "HAVING", "ILIKE", "IN", "INNER", "INSERT", "INTERSECT", "INTO", "JOIN", "LATERAL", "LIKE", "NOT", "NOTNULL",
   "NULL", "ON", "OR", "OUTER", "QUALIFY", "REGEXP", "RETURNING", "RLIKE", "SELECT", "STRAIGHT_JOIN", "THEN", "UNION",
   "USING", "VALUES", "WHEN", "WHERE", "WITH", "XOR"]

/-- Words that are reserved if `BY` follows. -/
def wordsBeforeBy : List String := ["GROUP", "ORDER", "PARTITION"]

/-- The name that can stand for itself at the start, quoted or not reserved. -/
def freeName? : List Token → Option (Identifier × List Token)
  | .quotedName s :: rest => some (⟨s, true⟩, rest)
  | .word s :: rest =>
    let followedByBy := match rest with
      | next :: _ => next.isKeyword "BY"
      | [] => false
    if reservedWords.contains (Text.upper s) || (wordsBeforeBy.contains (Text.upper s) && followedByBy) then none
    else some (⟨s, false⟩, rest)
  | _ => none

/-- The name after a point or `AS`, where nearly every word is a name. -/
def anyName? : List Token → Option (Identifier × List Token)
  | .quotedName s :: rest => some (⟨s, true⟩, rest)
  | .word s :: rest => if Text.upper s = "SELECT" then none else some (⟨s, false⟩, rest)
  | _ => none

def expect (symbol : String) : List Token → Option (List Token)
  | .symbol s :: rest => if s = symbol then some rest else none
  | _ => none

def expectKeyword (keyword : String) : List Token → Option (List Token)
  | token :: rest => if Token.isKeyword keyword token then some rest else none
  | [] => none

def required (step : Option (Option Expression × List Token)) : Option (Expression × List Token) :=
  match step with
  | some (some e, rest) => some (e, rest)
  | _ => none

/-! ### Lists and chains -/

/-- Items between commas; missing items are dropped. Tells also whether the last comma had no item after it. -/
def commaSeparated (item : List Token → Option (Option Expression × List Token)) :
    Nat → List Token → Option ((List Expression × Bool) × List Token)
  | 0, _ => none
  | bound + 1, tokens => do
    let (first, rest) ← item tokens
    match expect "," rest with
    | none => return ((first.toList, false), rest)
    | some rest =>
      let ((others, danglingComma), rest) ← commaSeparated item bound rest
      return ((first.toList ++ others, danglingComma || others.isEmpty), rest)

def items (item : List Token → Option (Option Expression × List Token)) (tokens : List Token) :
    Option (List Expression × List Token) := do
  let ((es, _), rest) ← commaSeparated item (tokens.length + 1) tokens
  return (es, rest)

/-- Further operators of one strength and their right operands, joined to what stands on the left. -/
def chain (operator? : Token → Option (Expression → Expression → Expression))
    (operand : List Token → Option (Option Expression × List Token)) :
    Nat → Option Expression → List Token → Option (Option Expression × List Token)
  | 0, _, _ => none
  | bound + 1, left, tokens =>
    match tokens with
    | [] => some (left, [])
    | token :: rest =>
      match operator? token with
      | none => some (left, tokens)
      | some combine => do
        let (right, rest) ← required (operand rest)
        chain operator? operand bound (some (combine (← left) right)) rest

def operator? : Strength → Token → Option (Expression → Expression → Expression)
  | .or, token => if token.isKeyword "OR" then some (binary .or) else none
  | .and, token => if token.isKeyword "AND" then some (binary .and) else none
  | .equality, .symbol s =>
    if s = "=" || s = "==" then some (binary .eq)
    else if s = "<>" || s = "!=" then some (binary .ne)
    else none
  | .comparison, .symbol s =>
    if s = "<" then some (binary .lt)
    else if s = "<=" then some (binary .le)
    else if s = ">" then some (binary .gt)
    else if s = ">=" then some (binary .ge)
    else none
  | .bitwise, .symbol s =>
    if ["|", "&", "^", "||"].contains s then some fun left right => construct (.operator s) [left, right] else none
  | .sum, .symbol s =>
    if s = "+" then some (binary .add) else if s = "-" then some (binary .sub) else none
  | .product, .symbol s =>
    if s = "*" then some (binary .mul)
    else if s = "/" then some (binary .div)
    else if s = "%" then some (binary .mod)
    else none
  | _, _ => none

/-! ### Types -/

def typeNames : List (String × CastTarget) :=
  [("INT", .int), ("INTEGER", .int), ("BIGINT", .bigint), ("SMALLINT", .smallint), ("TINYINT", .tinyint),
   ("FLOAT", .float), ("REAL", .float), ("DOUBLE", .double), ("DECIMAL", .decimal), ("NUMERIC", .decimal),
   ("CHAR", .char), ("VARCHAR", .varchar), ("TEXT", .text), ("STRING", .text), ("BOOLEAN", .boolean), ("DATE", .date),
   ("TIMESTAMP", .timestamp)]

def numbers : List Token → Option (List String × List Token)
  | .number s :: .symbol t :: rest =>
    if t = "," then (numbers rest).map fun (others, rest) => (s :: others, rest)
    else if t = ")" then some ([s], rest)
    else none
  | _ => none

def typeParameters (tokens : List Token) : Option (List String × List Token) :=
  match expect "(" tokens with
  | some rest => numbers rest
  | none => some ([], tokens)

def knownType? : List Token → Option (CastType × List Token)
  | .word s :: rest => do
    let target ← typeNames.lookup (Text.upper s)
    let rest := if target = .double then (expectKeyword "PRECISION" rest).getD rest else rest
    let (parameters, rest) ← typeParameters rest
    return (⟨target, parameters⟩, rest)
  | _ => none

/-- A type; a name that is not known is taken as it stands. -/
def castType (tokens : List Token) : Option (CastType × List Token) :=
  match knownType? tokens with
  | some step => some step
  | none => do
    let (name, rest) ← freeName? tokens
    return (⟨.named name.name, []⟩, rest)

def casts : Nat → Expression → List Token → Option (Expression × List Token)
  | 0, _, _ => none
  | bound + 1, e, tokens =>
    match expect "::" tokens with
    | none => some (e, tokens)
    | some rest => do
      let (type, rest) ← castType rest
      casts bound (cast e type) rest

/-! ### Function calls -/

def aggregateNamed? (name : String) : Option AggregateFunction :=
  AggregateFunction.all.find? fun function => function.keyword = name

def acceptsArguments : AggregateFunction → Nat → Bool
  | .sum, n | .avg, n => n = 1
  | .min, n | .max, n => 1 ≤ n
  | .count, _ => true

/-- Known functions that are not allowed: the least and the largest number of arguments, and whether they aggregate. -/
def knownFunctions : List (String × Nat × Option Nat × Bool) :=
  [("STDDEV", 1, some 1, true), ("VARIANCE", 1, some 1, true), ("MEDIAN", 1, some 1, true),
   ("ANY_VALUE", 1, some 1, true), ("ARRAY_AGG", 1, some 1, true), ("GROUP_CONCAT", 1, some 2, true),
   ("UPPER", 1, some 1, false), ("LOWER", 1, some 1, false), ("SQRT", 1, some 1, false), ("LENGTH", 1, some 3, false),
   ("CEIL", 1, some 3, false), ("FLOOR", 1, some 3, false), ("POWER", 2, some 2, false), ("CONCAT", 1, none, false),
   ("GREATEST", 1, none, false), ("LEAST", 1, none, false), ("CURRENT_DATE", 0, some 0, false)]

/-- An operand that keeps its extent beside another operator. -/
def enclosed (e : Expression) : Expression := if e.isBinary then paren e else e

/-- The call of a function with the given arguments; nothing if their number is wrong. -/
def call? (name : String) (args : List Expression) : Option Expression :=
  let key := Text.upper name
  match aggregateNamed? key with
  | some function => if acceptsArguments function args.length then some (aggregate function args) else none
  | none =>
    if key = "COALESCE" || key = "IFNULL" || key = "NVL" then
      if args.isEmpty then none else some (coalesce args)
    else if key = "ROUND" then
      if 1 ≤ args.length && args.length ≤ 3 then some (round args) else none
    else if key = "NULLIF" then
      match args with
      | [a, b] => some (nullif a b)
      | _ => none
    else if key = "MOD" then
      match args with
      | [a, b] => some (binary .mod (enclosed a) (enclosed b))
      | _ => none
    else if key = "ABS" then
      match args with
      | [a] => some (abs a)
      | _ => none
    else if key = "IF" then
      match args with
      | [c, a] => some (conditional c a none)
      | [c, a, b] => some (conditional c a (some b))
      | _ => none
    else match knownFunctions.lookup key with
      | some (least, most, aggregates) =>
        if least ≤ args.length && most.all (args.length ≤ ·) then
          some (construct (if aggregates then .aggregate key else .function key) args)
        else none
      | none => some (construct (.unknownFunction name) args)

/-- An expression with a name of its own, introduced by `AS` or not; a lone `AS` is dropped. -/
def named (step : Option (Option Expression × List Token)) : Option (Option Expression × List Token) := do
  let (e, rest) ← step
  match expectKeyword "AS" rest with
  | some rest =>
    match anyName? rest with
    | some (name, rest) => return (some (construct (.named name) [← e]), rest)
    | none => return (e, rest)
  | none =>
    match e, freeName? rest with
    | some e, some (name, rest) => return (some (construct (.named name) [e]), rest)
    | e, _ => return (e, rest)

def fromTable (tokens : List Token) : Option (List Expression × List Token) :=
  match expectKeyword "FROM" tokens with
  | none => some ([], tokens)
  | some rest => do
    let (name, rest) ← freeName? rest
    return ([construct .fromClause [construct (.table name.name) []]], rest)

section
variable (operand : Operands)

def expression (tokens : List Token) : Option (Option Expression × List Token) := named (operand .or tokens)

/-- A query inside an expression, from the word `SELECT` on; nothing if this word is not there. -/
def select? (tokens : List Token) : Option (Option (Expression × List Token)) :=
  (expectKeyword "SELECT" tokens).map fun rest => do
    let (es, rest) ← items (expression operand) rest
    let (source, rest) ← fromTable rest
    return (construct (.select es.length) (es ++ source), rest)

def argument (tokens : List Token) : Option (Option Expression × List Token) :=
  match expectKeyword "DISTINCT" tokens with
  | some rest => do
    let (es, rest) ← items (operand .or) rest
    return (some (distinct es), rest)
  | none =>
    match select? operand tokens with
    | some step => step.map fun (e, rest) => (some e, rest)
    | none => operand .or tokens

def partition (tokens : List Token) : Option (List Expression × List Token) :=
  match expectKeyword "PARTITION" tokens >>= expectKeyword "BY" with
  | some rest => items (operand .or) rest
  | none => some ([], tokens)

def orderItem (tokens : List Token) : Option (Option Expression × List Token) := do
  let (e, rest) ← operand .or tokens
  let (descending, rest) :=
    match expectKeyword "DESC" rest with
    | some rest => (true, rest)
    | none => (false, (expectKeyword "ASC" rest).getD rest)
  return (e.map fun e => construct (.orderItem descending) [e], rest)

def windowOrder (tokens : List Token) : Option (List Expression × List Token) :=
  match expectKeyword "ORDER" tokens >>= expectKeyword "BY" with
  | some rest => do
    let (es, rest) ← items (orderItem operand) rest
    return ([construct .order es], rest)
  | none => some ([], tokens)

def window (e : Expression) (tokens : List Token) : Option (Expression × List Token) :=
  match expectKeyword "OVER" tokens with
  | none => some (e, tokens)
  | some rest => do
    let rest ← expect "(" rest
    let (parts, rest) ← partition operand rest
    let (order, rest) ← windowOrder operand rest
    let rest ← expect ")" rest
    return (construct (.window parts.length) (e :: parts ++ order), rest)

def castCall (tokens : List Token) : Option (Expression × List Token) := do
  let (e, rest) ← required (operand .or tokens)
  let rest ← expectKeyword "AS" rest
  let (type, rest) ← castType rest
  let rest ← expect ")" rest
  return (cast e type, rest)

def call (name : String) (tokens : List Token) : Option (Expression × List Token) :=
  if Text.upper name = "CAST" then castCall operand tokens
  else do
    let (args, rest) ← items (argument operand) tokens
    let rest ← expect ")" rest
    window operand (← call? name args) rest

/-! ### Columns -/

/-- What follows the first name of a column: a point and a name, again and again, or a point and a star. -/
def columnParts : Nat → List Identifier → List Token → Option (Expression × List Token)
  | 0, _, _ => none
  | bound + 1, parts, tokens =>
    match expect "." tokens with
    | none =>
      match parts.getLast? with
      | some name => some (column parts.dropLast name, tokens)
      | none => none
    | some rest =>
      match expect "*" rest with
      | some rest => some (tableStar parts, rest)
      | none => do
        let (name, rest) ← anyName? rest
        columnParts bound (parts ++ [name]) rest

def nameOrCall (tokens : List Token) : Option (Expression × List Token) := do
  let (name, rest) ← freeName? tokens
  match expect "(" rest with
  | some rest => call operand name.name rest
  | none => columnParts (rest.length + 1) [name] rest

/-! ### Other primaries -/

/-- What stands between two parentheses, from the first on. -/
def parenthesised (tokens : List Token) : Option (Expression × List Token) :=
  match select? operand tokens with
  | some step => do
    let (query, rest) ← step
    let rest ← expect ")" rest
    return (construct .subquery [query], rest)
  | none => do
    let ((es, danglingComma), rest) ← commaSeparated (expression operand) (tokens.length + 1) tokens
    let rest ← expect ")" rest
    match es, danglingComma with
    | [e@(construct .subquery _)], _ => return (construct .subquery [e], rest)
    | [e], false => return (paren e, rest)
    | es, _ => return (construct .tuple es, rest)

def branches : Nat → List Token → Option ((List (Expression × Expression)) × List Token)
  | 0, _ => none
  | bound + 1, tokens =>
    match expectKeyword "WHEN" tokens with
    | none => some ([], tokens)
    | some rest => do
      let (condition, rest) ← required (operand .or rest)
      let rest := (expectKeyword "THEN" rest).getD rest
      let (value, rest) ← required (operand .or rest)
      let (others, rest) ← branches bound rest
      return ((condition, value) :: others, rest)

def caseExpression (tokens : List Token) : Option (Expression × List Token) := do
  let (subject, rest) ← operand .or tokens
  let (branches, rest) ← branches operand (rest.length + 1) rest
  let (otherwise, rest) ←
    match expectKeyword "ELSE" rest with
    | some rest => operand .or rest
    | none => some (none, rest)
  let rest ← expectKeyword "END" rest
  if branches.isEmpty then none else return (case subject branches otherwise, rest)

def spanTexts : List Token → List String × List Token
  | .text s :: rest => let (others, rest) := spanTexts rest; (s :: others, rest)
  | rest => ([], rest)

def constant? : List Token → Option (Expression × List Token)
  | .number s :: rest => some (number s, rest)
  | .symbol "." :: .number s :: rest => some (number ("0." ++ s), rest)
  | .text s :: rest =>
    match spanTexts rest with
    | ([], _) => some (text s, rest)
    | (others, rest) => some (construct (.function "CONCAT") ((s :: others).map text), rest)
  | token :: rest =>
    if token.isKeyword "NULL" then some (null, rest)
    else if token.isKeyword "TRUE" then some (boolean true, rest)
    else if token.isKeyword "FALSE" then some (boolean false, rest)
    else none
  | [] => none

def typedConstant? (tokens : List Token) : Option (Expression × List Token) := do
  let (type, rest) ← knownType? tokens
  match rest with
  | .number s :: rest => return (cast (number s) type, rest)
  | .text s :: rest => return (cast (text s) type, rest)
  | _ => none

/-- An expression without operators; there is none where no other rule applies. -/
def primary (tokens : List Token) : Option (Option Expression × List Token) :=
  let found (step : Option (Expression × List Token)) : Option (Option Expression × List Token) :=
    step.map fun (e, rest) => (some e, rest)
  match constant? tokens, typedConstant? tokens, tokens with
  | some step, _, _ | none, some step, _ => found (some step)
  | none, none, .symbol "*" :: rest => some (some star, rest)
  | none, none, .symbol "(" :: rest => found do
    let (e, rest) ← parenthesised operand rest
    window operand e rest
  | none, none, .symbol "[" :: rest => found do
    let (es, rest) ← items (expression operand) rest
    let rest ← expect "]" rest
    return (construct .array es, rest)
  | none, none, token :: rest =>
    if token.isKeyword "CASE" && (expect "." rest).isNone then found (caseExpression operand rest)
    else if token.isKeyword "CURRENT_DATE" && (expect "(" rest).isNone then
      some (some (construct (.function "CURRENT_DATE") []), rest)
    else if (freeName? tokens).isSome then found (nameOrCall operand tokens)
    else some (none, tokens)
  | none, none, [] => some (none, [])

/-- Signs and `NOT` before a primary, casts behind it. -/
def unary (tokens : List Token) : Option (Option Expression × List Token) :=
  match tokens with
  | .symbol "-" :: rest => do
    let (e, rest) ← required (operand .unary rest)
    return (some (neg e), rest)
  | .symbol "+" :: rest => operand .unary rest
  | tokens =>
    match expectKeyword "NOT" tokens with
    | some rest => do
      let (e, rest) ← required (operand .equality rest)
      return (some (not e), rest)
    | none => do
      let (e, rest) ← primary operand tokens
      match e with
      | none => return (none, rest)
      | some e =>
        let (e, rest) ← casts (rest.length + 1) e rest
        return (some e, rest)

/-- `IS` and what follows it, from the word behind it on. -/
def isTest (e : Expression) (tokens : List Token) : Option (Expression × List Token) := do
  let (negated, rest) :=
    match expectKeyword "NOT" tokens with
    | some rest => (true, rest)
    | none => (false, tokens)
  let (tested, rest) ←
    match expectKeyword "NULL" rest with
    | some rest => some (null, rest)
    | none => required (operand .bitwise rest)
  casts (rest.length + 1) (if negated then not (is e tested) else is e tested) rest

/-- The test of a range, a list or a pattern behind its operand; none if there is no such test. -/
def rangeTest? (e : Expression) (negated : Bool) (tokens : List Token) : Option (Option (Expression × List Token)) :=
  let negate (test : Expression) : Expression := if negated then not test else test
  match tokens with
  | token :: rest =>
    if token.isKeyword "IN" then some do
      let rest ← expect "(" rest
      let (es, rest) ← items (argument operand) rest
      let rest ← expect ")" rest
      return (negate (construct .inList (e :: es)), rest)
    else if token.isKeyword "BETWEEN" then some do
      let (low, rest) ← required (operand .bitwise rest)
      let rest := (expectKeyword "AND" rest).getD rest
      let (high, rest) ← required (operand .bitwise rest)
      return (negate (construct .between [e, low, high]), rest)
    else if token.isKeyword "LIKE" then some do
      let (pattern, rest) ← required (operand .bitwise rest)
      return (construct (.operator (if negated then "NOT LIKE" else "LIKE")) [e, pattern], rest)
    else if token.isKeyword "IS" then some ((isTest operand e rest).map fun (test, rest) => (negate test, rest))
    else none
  | [] => none

/-- An operand and at most one test of a range, and behind that at most one more `IS`. -/
def rangeStrength (tokens : List Token) : Option (Option Expression × List Token) := do
  let (e, rest) ← operand .bitwise tokens
  match e with
  | none => if (rangeTest? operand null false rest).isSome then none else return (none, rest)
  | some e =>
    let (negated, rest) :=
      match expectKeyword "NOT" rest with
      | some rest => (true, rest)
      | none => (false, rest)
    let (e, rest) ← (rangeTest? operand e negated rest).getD (some (if negated then not e else e, rest))
    match expectKeyword "IS" rest with
    | some rest => do
      let (e, rest) ← isTest operand e rest
      return (some e, rest)
    | none => return (some e, rest)

end

/-! ### The whole -/

def operands : Nat → Operands
  | 0, _, _ => none
  | bound + 1, strength, tokens =>
    match strength with
    | .unary => unary (operands bound) tokens
    | .range => rangeStrength (operands bound) tokens
    | strength => do
      let (left, rest) ← operands bound strength.tighter tokens
      chain (operator? strength) (operands bound strength.tighter) (rest.length + 1) left rest

/-- Each token lets the parser descend at most once through the nine strengths. -/
def boundFor (tokens : List Token) : Nat := 10 * (tokens.length + 1)

/-- A whole text between semicolons: an expression with or without a name of its own, a query, or nothing. -/
def statement? (tokens : List Token) : Option (Option Expression) := do
  let operand := operands (boundFor tokens)
  let (e, rest) ←
    match select? operand tokens with
    | some step => step.map fun (e, rest) => (some e, rest)
    | none => expression operand tokens
  if rest.isEmpty then some e else none

/-- Cuts at semicolons; nothing comes after the last one. -/
def statements : List Token → List (List Token)
  | [] => [[]]
  | [token] => if token = .symbol ";" then [[]] else [[token]]
  | token :: rest =>
    if token = .symbol ";" then [] :: statements rest
    else match statements rest with
      | first :: others => (token :: first) :: others
      | [] => [[token]]

end Parser

/-- Reads an expression. A semicolon ends it; what comes after has to be readable, too, but is dropped. -/
def ofTokens? (tokens : List Token) : Option Expression := do
  match ← (Parser.statements tokens).mapM Parser.statement? with
  | first :: _ => first
  | [] => none

def ofText? (s : String) : Option Expression := Token.ofText? s >>= ofTokens?

end QueryFederation.Expression

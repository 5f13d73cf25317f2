import QueryFederation.Expression.Parser
import QueryFederation.Sql.Select
import QueryFederation.Table.Basic

/-!
# Reading SQL

Reads statements over the expressions of aggregates: queries of tables, and what is needed to set tables up. Columns
of a query that have a name of their own are read as `Construct.named`. A text that is no statement is refused at the
first token that does not fit.
-/

namespace QueryFederation.Sql

inductive ReadingError where
  | unreadable (text : String)
  | unexpected (token : Token)
  | incomplete
  deriving DecidableEq, Repr

def tokenText : Token → String
  | .word s | .number s | .symbol s => s
  | .quotedName s => "\"" ++ s ++ "\""
  | .text s => "'" ++ s ++ "'"

def ReadingError.message : ReadingError → String
  | unreadable text => "unrecognized token: \"" ++ text ++ "\""
  | unexpected token => "near \"" ++ tokenText token ++ "\": syntax error"
  | incomplete => "incomplete input"

/-- A reference from columns of a table to another table, which may leave the columns there unnamed. -/
structure DeclaredKey where
  column : String
  table : String
  referenced : Option String
  deriving DecidableEq, Repr

inductive Command where
  | select (s : Select Expression)
  | createTable (name : String) (columns : List TableColumn) (keys : List DeclaredKey)
  | createView (name : String) (s : Select Expression)
  /-- Rows to be added; without names of columns they have a value for each of them. -/
  | insert (table : String) (columns : List String) (rows : List (List Expression))
  deriving Inhabited

namespace Reading

abbrev Reader (α : Type) := StateT (List Token) (Except ReadingError) α

variable {α : Type}

def refuse : Reader α := fun
  | [] => .error .incomplete
  | token :: _ => .error (.unexpected token)

/-- Takes a reader that may not apply; if it does not, the tokens are refused. -/
def required (read : List Token → Option (α × List Token)) : Reader α := fun tokens =>
  match read tokens with
  | some step => .ok step
  | none => refuse tokens

/-- Drops words that are there one after another, or none of them. -/
def hasWords (words : List String) : Reader Bool := fun tokens =>
  match words.foldlM (fun rest word => Expression.Parser.expectKeyword word rest) tokens with
  | some rest => .ok (true, rest)
  | none => .ok (false, tokens)

def word (s : String) : Reader Unit := do if !(← hasWords [s]) then refuse

def hasSymbol (s : String) : Reader Bool := fun tokens =>
  match Expression.Parser.expect s tokens with
  | some rest => .ok (true, rest)
  | none => .ok (false, tokens)

def symbol (s : String) : Reader Unit := do if !(← hasSymbol s) then refuse

/-- Items between commas, of which there is one at least and no more than the bound. -/
def separated (item : Reader α) : Nat → Reader (List α)
  | 0 => refuse
  | bound + 1 => do
    let first ← item
    if ← hasSymbol "," then return first :: (← separated item bound) else return [first]

def items (item : Reader α) : Reader (List α) := do separated item ((← get).length + 1)

def name : Reader String := do return (← required Expression.Parser.anyName?).name

def expression : Reader Expression :=
  required fun tokens =>
    Expression.Parser.required (Expression.Parser.operands (Expression.Parser.boundFor tokens) .or tokens)

def clauseWords : List String :=
  ["LIMIT", "OFFSET", "ORDER", "GROUP", "LEFT", "RIGHT", "FULL", "NATURAL", "WINDOW", "SET", "AS"]

/-- A name behind `AS`, or one that starts no clause. -/
def aliasName : Reader (Option String) := do
  if ← hasWords ["AS"] then return some (← name)
  fun tokens => match tokens, Expression.Parser.freeName? tokens with
    | token :: _, some (identifier, rest) =>
      if clauseWords.any fun word => token.isKeyword word then .ok (none, tokens)
      else .ok (some identifier.name, rest)
    | _, _ => .ok (none, tokens)

/-! ### Queries -/

def column : Reader Expression := do
  let e ← expression
  match ← aliasName with
  | some name => return .construct (.named ⟨name, false⟩) [e]
  | none => return e

def source : Reader Source := do
  let first ← name
  if ← hasSymbol "." then return { table := ← name, schema := some first, aliasName := ← aliasName }
  else return { table := first, aliasName := ← aliasName }

/-- What stands between two tables that are joined; nothing if no table follows. A cross join has no kind. -/
def joinWords : Reader (Option (Option JoinKind)) := do
  if ← hasSymbol "," then return some none
  if ← hasWords ["CROSS", "JOIN"] then return some none
  if ← hasWords ["JOIN"] then return some (some .inner)
  for kind in JoinKind.all do
    let word := Text.upper kind.name
    if ← hasWords [word, "JOIN"] then return some (some kind)
    if ← hasWords [word, "OUTER", "JOIN"] then return some (some kind)
  return none

/-- The joined tables, of which there are no more than the bound. -/
def joins : Nat → Reader (List (Join Expression))
  | 0 => return []
  | bound + 1 => do
    match ← joinWords with
    | none => return []
    | some kind =>
      let source ← source
      let condition ← if ← hasWords ["ON"] then some <$> expression else pure none
      return { kind, source, condition } :: (← joins bound)

def order : Reader (Order Expression) := do
  let term ← expression
  let isDescending ← hasWords ["DESC"]
  if !isDescending then let _ ← hasWords ["ASC"]
  if ← hasWords ["NULLS", "LAST"] then return { term, isDescending, nullsLast := some true }
  if ← hasWords ["NULLS", "FIRST"] then return { term, isDescending, nullsLast := some false }
  return { term, isDescending }

def clause (words : List String) (read : Reader α) : Reader (Option α) := do
  if ← hasWords words then some <$> read else return none

def wholeNumber : Reader Int := do
  let negative ← hasSymbol "-"
  required fun
    | .number s :: rest => (Number.readInteger? s).map fun n => (if negative then -n else n, rest)
    | _ => none

def select : Reader (Select Expression) := do
  let columns ← items column
  let source ← clause ["FROM"] source
  let joins ← joins (← get).length
  let condition ← clause ["WHERE"] expression
  let groupBy ← clause ["GROUP", "BY"] (items expression)
  let having ← clause ["HAVING"] expression
  let orderBy ← clause ["ORDER", "BY"] (items order)
  let limit ← clause ["LIMIT"] wholeNumber
  let offset ← clause ["OFFSET"] wholeNumber
  return {
    columns, source, joins, condition, having, limit, offset
    groupBy := groupBy.getD []
    orderBy := orderBy.getD [] }

/-! ### Setting up tables -/

/-- The tokens up to the closing parenthesis or a comma outside of inner ones; tells whether a comma ended them. -/
def definition (opened : Nat) : List Token → Option ((List Token × Bool) × List Token)
  | [] => none
  | token :: rest =>
    let more (opened : Nat) :=
      (definition opened rest).map fun ((tokens, goesOn), rest) => ((token :: tokens, goesOn), rest)
    if token = .symbol "(" then more (opened + 1)
    else if token = .symbol ")" then if opened = 0 then some (([], false), rest) else more (opened - 1)
    else if token = .symbol "," && opened = 0 then some (([], true), rest)
    else more opened

def definitions : Nat → Reader (List (List Token))
  | 0 => refuse
  | bound + 1 => do
    let (tokens, goesOn) ← required (definition 0)
    if goesOn then return tokens :: (← definitions bound) else return [tokens]

def constraintWords : List String :=
  ["PRIMARY", "NOT", "NULL", "UNIQUE", "DEFAULT", "REFERENCES", "CHECK", "COLLATE", "CONSTRAINT", "GENERATED", "AS"]

/-- The words of a type, and what follows them. -/
def typeWords : List Token → List String × List Token
  | .word s :: rest =>
    if constraintWords.contains (Text.upper s) then ([], .word s :: rest)
    else let (words, rest) := typeWords rest; (s :: words, rest)
  | rest => ([], rest)

def throughParenthesis (tokens : List Token) : List Token := tokens.takeWhile (· ≠ .symbol ")") ++ [.symbol ")"]

def declaredType (tokens : List Token) : String :=
  let (words, rest) := typeWords tokens
  " ".intercalate words ++ (match rest with
    | .symbol "(" :: _ => "".intercalate ((throughParenthesis rest).map tokenText)
    | _ => "")

def nameOf? : Token → Option String
  | .word s | .quotedName s => some s
  | _ => none

def namesInParentheses : List Token → List String
  | .symbol "(" :: rest => (rest.takeWhile (· ≠ .symbol ")")).filterMap nameOf?
  | _ => []

def reference? : List Token → Option (String × List String)
  | [] => none
  | token :: rest =>
    if token.isKeyword "REFERENCES" then
      match rest with
      | table :: rest => (nameOf? table).map fun name => (name, namesInParentheses rest)
      | [] => none
    else reference? rest

def keysOf (columns : List String) (tokens : List Token) : List DeclaredKey :=
  match reference? tokens with
  | none => []
  | some (table, referenced) => columns.zipIdx.map fun (column, place) => ⟨column, table, referenced[place]?⟩

/-- Words that start a definition of no column. -/
def tableConstraintWords : List String := ["PRIMARY", "UNIQUE", "FOREIGN", "CHECK", "CONSTRAINT"]

/-- The column that a definition is about, if it is about one, and its keys. -/
def columnDefinition? (tokens : List Token) : Option TableColumn × List DeclaredKey :=
  match tokens with
  | [] => (none, [])
  | first :: rest =>
    if tableConstraintWords.any fun word => first.isKeyword word then
      (none, if first.isKeyword "FOREIGN" then keysOf (namesInParentheses (rest.drop 1)) rest else [])
    else match nameOf? first with
      | none => (none, [])
      | some name => (some ⟨name, declaredType rest⟩, keysOf [name] rest)

def createTable : Reader Command := do
  let _ ← hasWords ["IF", "NOT", "EXISTS"]
  let name ← name
  symbol "("
  let parts := (← definitions (← get).length).map columnDefinition?
  return .createTable name (parts.filterMap (·.1)) (parts.flatMap (·.2))

def createView : Reader Command := do
  let _ ← hasWords ["IF", "NOT", "EXISTS"]
  let name ← name
  word "AS"
  word "SELECT"
  return .createView name (← select)

def inParentheses (item : Reader α) : Reader (List α) := do
  symbol "("
  let found ← items item
  symbol ")"
  return found

def insert : Reader Command := do
  word "INTO"
  let table ← name
  let columns ← if ← hasWords ["VALUES"] then pure [] else do
    let columns ← inParentheses name
    word "VALUES"
    pure columns
  return .insert table columns (← items (inParentheses expression))

/-! ### Statements -/

def command : Reader Command := do
  if ← hasWords ["SELECT"] then return .select (← select)
  if ← hasWords ["CREATE", "TABLE"] then return ← createTable
  if ← hasWords ["CREATE", "VIEW"] then return ← createView
  if ← hasWords ["INSERT"] then return ← insert
  refuse

def wholeCommand (tokens : List Token) : Except ReadingError Command :=
  match command tokens with
  | .error e => .error e
  | .ok (c, []) => .ok c
  | .ok (_, token :: _) => .error (.unexpected token)

end Reading

def readScript (s : String) : Except ReadingError (List Command) :=
  match Token.ofText? s with
  | none => .error (.unreadable s)
  | some tokens =>
    ((Expression.Parser.statements tokens).filter fun tokens => !tokens.isEmpty).mapM Reading.wholeCommand

end QueryFederation.Sql

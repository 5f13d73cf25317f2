import QueryFederation.Text.Case

/-!
# SQL dialects

The target languages of compilation and what sets them apart outside of expressions: how identifiers are quoted, which
joins and orderings they know, and how an offset without a limit is written.
-/

namespace QueryFederation

inductive Dialect where
  | clickhouse
  | mysql
  | postgres
  | snowflake
  | sqlite
  deriving DecidableEq, Repr, Inhabited

namespace Dialect

def all : List Dialect := [clickhouse, mysql, postgres, snowflake, sqlite]

def name : Dialect → String
  | clickhouse => "clickhouse"
  | mysql => "mysql"
  | postgres => "postgres"
  | snowflake => "snowflake"
  | sqlite => "sqlite"

def otherNames : List (String × Dialect) := [("mariadb", mysql), ("postgresql", postgres)]

def ofName? (s : String) : Option Dialect :=
  let key := Text.lower s
  match otherNames.lookup key with
  | some dialect => some dialect
  | none => all.find? fun dialect => dialect.name = key

/-- A name no dialect has. -/
structure Unsupported where
  requested : String
  deriving DecidableEq, Repr

def Unsupported.message (e : Unsupported) : String :=
  "Unsupported dialect '" ++ e.requested ++ "'. Available: " ++ ", ".intercalate (Dialect.all.map Dialect.name)

def ofName (s : String) : Except Unsupported Dialect :=
  match ofName? s with
  | some dialect => .ok dialect
  | none => .error ⟨s⟩

structure Capabilities where
  rightJoin : Bool := true
  fullJoin : Bool := true
  caselessLike : Bool := false
  nullsOrdering : Bool := true
  limitWithOffset : Bool := false
  deriving DecidableEq, Repr

def capabilities : Dialect → Capabilities
  | clickhouse | postgres | snowflake => { caselessLike := true }
  | mysql => { fullJoin := false, nullsOrdering := false, limitWithOffset := true }
  | sqlite => { limitWithOffset := true }

def unboundedLimit? : Dialect → Option String
  | mysql => some "18446744073709551615"
  | sqlite => some "-1"
  | _ => none

/-! ### Identifiers -/

def escapeEach (escape special : Char) : List Char → List Char
  | [] => []
  | c :: rest =>
    if c = special then escape :: c :: escapeEach escape special rest else c :: escapeEach escape special rest

/-- The character around quoted identifiers, and the one that escapes it inside. -/
def identifierQuote : Dialect → Char × Char
  | clickhouse => ('\x60', '\\')
  | mysql => ('\x60', '\x60')
  | postgres | snowflake | sqlite => ('"', '"')

def quoteIdentifier (dialect : Dialect) (name : String) : String :=
  let (quote, escape) := dialect.identifierQuote
  String.ofList (quote :: (escapeEach escape quote name.toList ++ [quote]))

/-- Is the schema written? An empty one is not, nor is the main database of SQLite. -/
def writesSchema (dialect : Dialect) (schema : String) : Bool :=
  !schema.isEmpty && !(dialect = sqlite && schema = "main")

def tableText (dialect : Dialect) (name : String) (schema : Option String) : String :=
  match schema with
  | some s =>
    if dialect.writesSchema s then dialect.quoteIdentifier s ++ "." ++ dialect.quoteIdentifier name
    else dialect.quoteIdentifier name
  | none => dialect.quoteIdentifier name

end Dialect

end QueryFederation

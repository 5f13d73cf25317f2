import QueryFederation.Description.Basic
import QueryFederation.Expression.Parser
import QueryFederation.Expression.Text

/-!
# What an aggregate expression depends on, and what is wrong with it

An aggregate expression may read columns only inside of aggregate calls and other aggregates only by their alias. The
analysis lists the columns and aliases that an expression mentions and every place where it leaves the allowed language.

Problems are reported from the outside in: those of outer expressions come first, and at one depth they are in the order
of the text. Each finding therefore carries the depth at which it was made.
-/

namespace QueryFederation

inductive ExpressionProblem where
  | nestedAggregate (call : Expression)
  | strayStar
  | tableStar
  | columnOutside (table name : String)
  | selfReference (aliasName : String)
  | unknownName (name : String)
  | unsupportedAggregate (call : Expression)
  | unsupportedFunction (name : String)
  | unsupportedConstruct (e : Expression)
  | query
  | noAggregate

def ExpressionProblem.message : ExpressionProblem → String
  | nestedAggregate call => "nested aggregate '" ++ call.shown ++ "' is not supported"
  | strayStar => "'*' is only allowed as COUNT(*)"
  | tableStar => "'<table>.*' is not supported in aggregates"
  | columnOutside table name => "column '" ++ table ++ "." ++ name ++ "' is used outside an aggregate function"
  | selfReference aliasName => "aggregate '" ++ aliasName ++ "' references itself"
  | unknownName name => "'" ++ name ++ "' is neither a '<table>.<column>' reference nor a known aggregate alias"
  | unsupportedAggregate call => "aggregate function '" ++ call.shown ++ "' is not supported"
  | unsupportedFunction name => "function '" ++ name ++ "' is not supported"
  | unsupportedConstruct e => "construct '" ++ e.shown ++ "' is not supported"
  | query => "subqueries and window functions are not supported"
  | noAggregate => "expression contains no aggregate function"

inductive ExpressionError where
  | unreadable (text : String)
  | named (text : String)
  /-- Aggregates refer to each other in a circle; the path ends where it starts. -/
  | circular (path : List String)
  deriving DecidableEq, Repr

def ExpressionError.message : ExpressionError → String
  | unreadable text => "cannot parse '" ++ text ++ "': <parser detail>"
  | named text => "'" ++ text ++ "' must not carry its own alias"
  | circular path => "circular aggregate references: " ++ " -> ".intercalate path

namespace Expression

/-- Reads the text of an aggregate, which must not name itself. -/
def read (text : String) : Except ExpressionError Expression :=
  match ofText? text with
  | none => .error (.unreadable text)
  | some (construct (.named _) _) => .error (.named text)
  | some e => .ok e

/-! ### Columns and aliases -/

inductive Reference where
  | column (table name : String)
  | aliasName (name : String)
  deriving DecidableEq, Repr

/-- A name without a table is an alias. -/
def Reference.ofNames (qualifiers : List Identifier) (name : Identifier) : Reference :=
  if tableName qualifiers = "" then .aliasName name.name else .column (tableName qualifiers) name.name

mutual

/-- The names an expression mentions, in the order of its text. -/
def references : Expression → List Reference
  | column qualifiers name => [.ofNames qualifiers name]
  | tableStar _ | star | text _ | number _ | null | boolean _ => []
  | paren e | neg e | not e | abs e | cast e _ => references e
  | binary _ left right | is left right | nullif left right => references left ++ references right
  | coalesce args | round args | aggregate _ args | distinct args | construct _ args => referencesOfAll args
  | case subject branches otherwise =>
    referencesOfOptional subject ++ referencesOfBranches branches ++ referencesOfOptional otherwise
  | conditional condition yes no => references condition ++ references yes ++ referencesOfOptional no

def referencesOfAll : List Expression → List Reference
  | [] => []
  | e :: es => references e ++ referencesOfAll es

def referencesOfOptional : Option Expression → List Reference
  | none => []
  | some e => references e

def referencesOfBranches : List (Expression × Expression) → List Reference
  | [] => []
  | (condition, value) :: branches => references condition ++ references value ++ referencesOfBranches branches

end

/-! ### Aggregate calls -/

mutual

def aggregateCount : Expression → Nat
  | column .. | tableStar _ | star | text _ | number _ | null | boolean _ => 0
  | paren e | neg e | not e | abs e | cast e _ => aggregateCount e
  | binary _ left right | is left right | nullif left right => aggregateCount left + aggregateCount right
  | coalesce args | round args | distinct args | construct _ args => aggregateCountOfAll args
  | aggregate _ args => aggregateCountOfAll args + 1
  | case subject branches otherwise =>
    aggregateCountOfOptional subject + aggregateCountOfBranches branches + aggregateCountOfOptional otherwise
  | conditional condition yes no => aggregateCount condition + aggregateCount yes + aggregateCountOfOptional no

def aggregateCountOfAll : List Expression → Nat
  | [] => 0
  | e :: es => aggregateCount e + aggregateCountOfAll es

def aggregateCountOfOptional : Option Expression → Nat
  | none => 0
  | some e => aggregateCount e

def aggregateCountOfBranches : List (Expression × Expression) → Nat
  | [] => 0
  | (condition, value) :: branches =>
    aggregateCount condition + aggregateCount value + aggregateCountOfBranches branches

end

/-- The call that a whole expression is, if it is one, whatever the number of parentheses around it. -/
def simpleAggregate? : Expression → Option (AggregateFunction × List Expression)
  | paren e => simpleAggregate? e
  | aggregate function args => some (function, args)
  | _ => none

/-! ### Problems -/

structure Place where
  depth : Nat := 0
  inAggregate : Bool := false
  /-- Is it the argument of COUNT itself? -/
  underCount : Bool := false

def Place.inside (place : Place) : Place := { depth := place.depth + 1, inAggregate := place.inAggregate }

def Place.argument (place : Place) (function : AggregateFunction) : Place :=
  { depth := place.depth + 1, inAggregate := true, underCount := function = .count }

structure Names where
  own : String
  known : List String

def referenceProblems (names : Names) (place : Place) : Reference → List ExpressionProblem
  | .column table name => if place.inAggregate then [] else [.columnOutside table name]
  | .aliasName name =>
    if !names.known.contains name then [.unknownName name]
    else if name = names.own then [.selfReference name]
    else []

def constructProblem (e : Expression) : Construct → ExpressionProblem
  | .aggregate _ => .unsupportedAggregate e
  | .unknownFunction name => .unsupportedFunction name
  | .subquery | .select _ | .window _ => .query
  | _ => .unsupportedConstruct e

def at_ (place : Place) (problems : List ExpressionProblem) : List (Nat × ExpressionProblem) :=
  problems.map fun problem => (place.depth, problem)

mutual

def findings (names : Names) (place : Place) : Expression → List (Nat × ExpressionProblem)
  | column qualifiers name => at_ place (referenceProblems names place (.ofNames qualifiers name))
  | tableStar _ => at_ place [.tableStar] ++ at_ place.inside [.strayStar]
  | star => if place.underCount then [] else at_ place [.strayStar]
  | text _ | number _ | null | boolean _ => []
  | paren e | neg e | not e | abs e | cast e _ => findings names place.inside e
  | binary _ left right | is left right | nullif left right =>
    findings names place.inside left ++ findings names place.inside right
  | coalesce args | round args | distinct args => findingsOfAll names place.inside args
  | aggregate function args =>
    (if place.inAggregate then at_ place [.nestedAggregate (aggregate function args)] else [])
      ++ findingsOfAll names (place.argument function) args
  | construct c args =>
    at_ place [constructProblem (construct c args) c] ++ findingsOfAll names place.inside args
  | case subject branches otherwise =>
    findingsOfOptional names place.inside subject ++ findingsOfBranches names place.inside.inside branches
      ++ findingsOfOptional names place.inside otherwise
  | conditional condition yes no =>
    findings names place.inside condition ++ findings names place.inside yes
      ++ findingsOfOptional names place.inside no

def findingsOfAll (names : Names) (place : Place) : List Expression → List (Nat × ExpressionProblem)
  | [] => []
  | e :: es => findings names place e ++ findingsOfAll names place es

def findingsOfOptional (names : Names) (place : Place) : Option Expression → List (Nat × ExpressionProblem)
  | none => []
  | some e => findings names place e

def findingsOfBranches (names : Names) (place : Place) :
    List (Expression × Expression) → List (Nat × ExpressionProblem)
  | [] => []
  | (condition, value) :: branches =>
    findings names place condition ++ findings names place value ++ findingsOfBranches names place branches

end

/-- The problems of an expression, outer ones first. -/
def problems (names : Names) (e : Expression) : List ExpressionProblem :=
  ((findings names {} e).mergeSort fun a b => a.1 ≤ b.1).map (·.2)

end Expression

/-! ### The analysis -/

structure AnalyzedAggregate where
  aliasName : String
  tree : Expression
  columns : List (String × String)
  aliasRefs : List String
  problems : List ExpressionProblem

namespace AnalyzedAggregate

def ofTree (aliasName : String) (known : List String) (tree : Expression) : AnalyzedAggregate :=
  let references := tree.references
  let columns := distinctItems (references.filterMap fun
    | .column table name => some (table, name)
    | .aliasName _ => none)
  let aliasRefs := distinctItems (references.filterMap fun
    | .column .. => none
    | .aliasName name => if known.contains name then some name else none)
  let problems := tree.problems ⟨aliasName, known⟩
  let lacking := if tree.aggregateCount = 0 && aliasRefs.isEmpty then [.noAggregate] else []
  ⟨aliasName, tree, columns, aliasRefs, problems ++ lacking⟩

def analyze (aliasName text : String) (known : List String) : Except ExpressionError AnalyzedAggregate :=
  (Expression.read text).map (ofTree aliasName known)

/-- The call that the whole aggregate is, if it is one. -/
def simpleAggregate? (a : AnalyzedAggregate) : Option (AggregateFunction × List Expression) := a.tree.simpleAggregate?

end AnalyzedAggregate

end QueryFederation

import QueryFederation.Entries
import QueryFederation.Expression.Analysis

/-!
# Aggregates that refer to each other

An aggregate may use others by their aliases. They are computed in an order in which every aggregate comes after those
it uses; of all such orders it is the first in the order of lists of names, so it always takes the smallest name that
is ready. If no name is ready some of them form a circle, and a depth-first search finds one.
-/

namespace QueryFederation

abbrev Aggregates := Entries AnalyzedAggregate

namespace Aggregates

def uses (aggregates : Aggregates) (aliasName : String) : List String :=
  match aggregates.lookup aliasName with
  | some a => a.aliasRefs.filter (· ≠ aliasName)
  | none => []

/-- All names in the order in which they come up: each alias, then those it uses. -/
def names (aggregates : Aggregates) : List String :=
  distinctItems (aggregates.flatMap fun (name, a) => name :: (a.aliasRefs.filter (· ≠ name)).mergeSort (· ≤ ·))

def usersOf (aggregates : Aggregates) (name : String) : List String :=
  aggregates.keys.filter fun aliasName => (aggregates.uses aliasName).contains name

/-! ### Order -/

def smallest? : List String → Option String
  | [] => none
  | name :: names => some (names.foldl (fun best other => if other < best then other else best) name)

/-- Puts the remaining names in order, the smallest ready one first; those that never become ready are left over. -/
def sorted (aggregates : Aggregates) : Nat → List String → List String × List String
  | 0, remaining => ([], remaining)
  | bound + 1, remaining =>
    let ready := remaining.filter fun name => (aggregates.uses name).all fun used => !remaining.contains used
    match smallest? ready with
    | none => ([], remaining)
    | some name =>
      let (others, left) := sorted aggregates bound (remaining.filter (· ≠ name))
      (name :: others, left)

/-! ### Circles -/

/--
Searches for a circle from a name on, along the names that use it. A circle found is an error; otherwise the names from
which there is none are added to `cleared`.
-/
def search (aggregates : Aggregates) : Nat → List String → List String → String → Except (List String) (List String)
  | 0, _, cleared, _ => .ok cleared
  | bound + 1, path, cleared, name => do
    let path := path ++ [name]
    let cleared ← (aggregates.usersOf name).foldlM (fun cleared next =>
      if path.contains next then .error (path.dropWhile (· ≠ next) ++ [next])
      else if cleared.contains next then .ok cleared
      else search aggregates bound path cleared next) cleared
    return name :: cleared

/-- A circle among all names, from its first name back to it; empty if there is none. -/
def circle (aggregates : Aggregates) : List String :=
  let names := aggregates.names
  let step (cleared : List String) (name : String) : Except (List String) (List String) :=
    if cleared.contains name then .ok cleared else aggregates.search (names.length + 1) [] cleared name
  match names.foldlM step [] with
  | .ok _ => []
  | .error path => path

/-- All names in an order in which they can be computed. -/
def dependencyOrder (aggregates : Aggregates) : Except ExpressionError (List String) :=
  let names := aggregates.names
  match aggregates.sorted names.length names with
  | (order, []) => .ok order
  | _ => .error (.circular aggregates.circle)

/-! ### Inlining -/

end Aggregates

namespace Expression

mutual

/-- Replaces every alias that has an expression by this expression in parentheses. -/
def inline (resolved : Entries Expression) : Expression → Expression
  | column qualifiers name =>
    match Reference.ofNames qualifiers name with
    | .column .. => column qualifiers name
    | .aliasName aliasName =>
      match resolved.lookup aliasName with
      | some e => paren e
      | none => column qualifiers name
  | tableStar qualifiers => tableStar qualifiers
  | star => star
  | text s => text s
  | number s => number s
  | null => null
  | boolean b => boolean b
  | paren e => paren (inline resolved e)
  | neg e => neg (inline resolved e)
  | not e => not (inline resolved e)
  | abs e => abs (inline resolved e)
  | cast e type => cast (inline resolved e) type
  | binary op left right => binary op (inline resolved left) (inline resolved right)
  | is left right => is (inline resolved left) (inline resolved right)
  | nullif left right => nullif (inline resolved left) (inline resolved right)
  | coalesce args => coalesce (inlineAll resolved args)
  | round args => round (inlineAll resolved args)
  | distinct args => distinct (inlineAll resolved args)
  | aggregate function args => aggregate function (inlineAll resolved args)
  | construct c args => construct c (inlineAll resolved args)
  | case subject branches otherwise =>
    case (inlineOptional resolved subject) (inlineBranches resolved branches) (inlineOptional resolved otherwise)
  | conditional condition yes no =>
    conditional (inline resolved condition) (inline resolved yes) (inlineOptional resolved no)

def inlineAll (resolved : Entries Expression) : List Expression → List Expression
  | [] => []
  | e :: es => inline resolved e :: inlineAll resolved es

def inlineOptional (resolved : Entries Expression) : Option Expression → Option Expression
  | none => none
  | some e => some (inline resolved e)

def inlineBranches (resolved : Entries Expression) : List (Expression × Expression) → List (Expression × Expression)
  | [] => []
  | (condition, value) :: branches =>
    (inline resolved condition, inline resolved value) :: inlineBranches resolved branches

end

end Expression

namespace Aggregates

/-- Every aggregate without aliases, in an order in which they can be computed. -/
def inlined (aggregates : Aggregates) : Except ExpressionError (Entries Expression) := do
  let order ← aggregates.dependencyOrder
  return order.foldl (fun resolved aliasName =>
    match aggregates.lookup aliasName with
    | some a => resolved.put aliasName (a.tree.inline resolved)
    | none => resolved) []

end Aggregates

end QueryFederation

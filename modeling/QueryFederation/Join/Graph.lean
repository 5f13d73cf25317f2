import QueryFederation.Description.Basic

/-!
# The join graph

The tables of a description are the nodes of its join graph; a join condition between two of them is an edge. Conditions
with an end that is no table are no edges. Nodes keep the order of the tables.

`spread` collects what can be reached: each round moves every node with an edge to a node found before, until a round
moves none.
-/

namespace QueryFederation

def lastOccurrences {α : Type} [BEq α] : List α → List α
  | [] => []
  | item :: rest => if rest.contains item then lastOccurrences rest else item :: lastOccurrences rest

namespace JoinCondition

/-- Is one end in the first list and the other in the second? -/
def links (j : JoinCondition) (left right : List String) : Bool :=
  (left.contains j.leftTable && right.contains j.rightTable)
    || (left.contains j.rightTable && right.contains j.leftTable)

def isWithin (j : JoinCondition) (tables : List String) : Bool :=
  tables.contains j.leftTable && tables.contains j.rightTable

end JoinCondition

/-- The conditions between two lists of tables, in the order of declaration. -/
def conditionsBetween (joins : List JoinCondition) (left right : List String) : List JoinCondition :=
  joins.filter (·.links left right)

def touches (joins : List JoinCondition) (tables : List String) (table : String) : Bool :=
  joins.any (·.links tables [table])

/-- The tables of `rest` that are linked to a found one. -/
def linked (joins : List JoinCondition) (found rest : List String) : List String := rest.filter (touches joins found)

/-- The tables of `rest` that are linked to no found one. -/
def unlinked (joins : List JoinCondition) (found rest : List String) : List String :=
  rest.filter fun table => !touches joins found table

def without (found rest : List String) : List String := rest.filter fun table => !found.contains table

theorem length_without_le (found rest : List String) : (without found rest).length ≤ rest.length :=
  List.length_filter_le _ _

theorem length_unlinked_lt (joins : List JoinCondition) (found rest : List String) (h : linked joins found rest ≠ []) :
    (unlinked joins found rest).length < rest.length := by
  obtain ⟨table, htable⟩ := List.exists_mem_of_ne_nil _ h
  obtain ⟨hmem, htouch⟩ := List.mem_filter.mp htable
  exact List.length_filter_lt_length_iff_exists.mpr ⟨table, hmem, by simp [htouch]⟩

/-- Moves tables from `rest` to `found` as long as one of them is linked to a found one. -/
def spread (joins : List JoinCondition) (found rest : List String) : List String :=
  if linked joins found rest = [] then found
  else spread joins (found ++ linked joins found rest) (unlinked joins found rest)
termination_by rest.length
decreasing_by exact length_unlinked_lt joins found rest ‹_›

/-- The connected parts of some tables, each in the order of the tables, in the order of their first tables. -/
def components (joins : List JoinCondition) : List String → List (List String)
  | [] => []
  | table :: rest =>
    let found := spread joins [table] rest
    (table :: rest.filter found.contains) :: components joins (without found rest)
termination_by tables => tables.length
decreasing_by exact Nat.lt_succ_of_le (length_without_le _ _)

namespace Description

def nodes (d : Description) : List String := lastOccurrences d.aliases

def edges (d : Description) : List JoinCondition := d.joins.filter (·.isWithin d.nodes)

def components (d : Description) : List (List String) := QueryFederation.components d.edges d.nodes

def reachableFrom (d : Description) (aliasName : String) : List String :=
  if d.nodes.contains aliasName then spread d.edges [aliasName] (d.nodes.filter (· ≠ aliasName)) else []

/-- The tables that no join leads to from the primary table. -/
def orphans (d : Description) : List String :=
  let reachable := d.reachableFrom d.primary
  without reachable d.aliases

end Description

end QueryFederation

import QueryFederation.Expression.Evaluation
import QueryFederation.Result.Grouping
import QueryFederation.Result.Sorting

/-!
# Materialization

What is done to joined rows until they are the rows of the result: filters that could not be applied earlier, grouping
and aggregates, filters on groups, order, paging. Joined rows carry the output names of columns, and so do the rows of
the result, in the order of the description.
-/

namespace QueryFederation

namespace Row

def passes (filters : List FilterPredicate) (row : Row) : Outcome Bool := do
  let results ← filters.mapM fun f => do
    return (f.connective, ← f.operator.holds (Row.get row f.outputName) f.value)
  return selects results

def passesHaving (having : List HavingPredicate) (row : Row) : Outcome Bool := do
  let results ← having.mapM fun h => do
    return (h.connective, ← h.operator.holds (Row.get row h.target) h.value)
  return selects results

end Row

def computeAggregates (aggregates : Aggregates) (order : List String) (members : List Row) : Outcome (Entries Value) :=
  order.foldlM (fun computed aliasName =>
    match aggregates.lookup aliasName with
    | none => pure computed
    | some a => do return Entries.put computed aliasName (← a.tree.evaluate (.group members computed))) []

namespace Description

/-- The row of a group: the columns grouped by and selected, as its first member has them, and the aggregates. -/
def groupRow (d : Description) (aggregates : Aggregates) (order : List String) (members : List Row) : Outcome Row := do
  let first := members.headD []
  let columns := d.groupBy.map (·.outputName) ++ d.selectedColumns.map (·.outputName)
  return Entries.merge (Row.project columns first) (← computeAggregates aggregates order members)

/-- One row a group; filters on results look at all of them. -/
def groupedRows (d : Description) (aggregates : Aggregates) (order : List String) (rows : List Row) :
    Outcome (List Row) := do
  let groups ← (groupRows (d.groupBy.map (·.outputName)) rows).mapM (d.groupRow aggregates order)
  if d.having.isEmpty then return groups else groups.filterM (Row.passesHaving d.having)

def sortColumns (d : Description) : List SortColumn := d.orderBy.map fun o => ⟨o.target, o.isDescending⟩

def page {α : Type} (d : Description) (rows : List α) : List α :=
  let rows := rows.drop (d.offset.getD 0)
  match d.limit with
  | some limit => rows.take limit
  | none => rows

/-- The rows of the result from joined rows; aggregates are computed in the given order. -/
def materialize (d : Description) (aggregates : Aggregates) (order : List String) (residual : List FilterPredicate)
    (rows : List Row) : Outcome (List Row) := do
  let rows ← if residual.isEmpty then pure rows else rows.filterM (Row.passes residual)
  let rows ← if d.isGrouped then d.groupedRows aggregates order rows else pure rows
  return (d.page (sortRows d.sortColumns rows)).map (Row.project d.outputNames)

end Description

end QueryFederation

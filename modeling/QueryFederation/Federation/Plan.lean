import QueryFederation.Expression.Dependencies
import QueryFederation.Federation.Partition
import QueryFederation.Join.Plan

/-!
# Federation plans

How a description over several sources is answered: one query to each partition, the join of their answers, and the
filters that have to wait until then. A filter is left to the source of its table unless it is an alternative to
another, or a join could make the columns of its table null.
-/

namespace QueryFederation

structure FederationPlan where
  partitions : List Partition
  join : JoinPlan
  residual : List FilterPredicate
  deriving Inhabited

namespace Description

/-- Are all filters conditions of the whole? The first connective joins nothing. -/
def isConjunctive (d : Description) : Bool := (d.filters.drop 1).all fun f => f.connective = .and

/-- The columns that are needed for the result and the join, in the order in which the need comes up. -/
def neededColumns (d : Description) (aggregates : Aggregates) (plan : JoinPlan) (residual : List FilterPredicate) :
    List ColumnRef :=
  let read := aggregates.flatMap fun (_, a) =>
    (a.columns.map fun (table, column) => ColumnRef.mk table column).mergeSort ColumnRef.le
  distinctItems (d.selectedColumns.map (·.toColumnRef) ++ d.groupBy ++ read
    ++ residual.map (fun f => ⟨f.table, f.column⟩)
    ++ plan.steps.flatMap fun step => step.pairs.flatMap fun pair => [pair.placed, pair.added])

/-- A partition with what is needed of its tables and the filters its source applies. -/
def fillPartition (needed : List ColumnRef) (pushed : List FilterPredicate) (p : Partition) : Partition :=
  { p with
    columns := p.aliases.flatMap fun aliasName => needed.filter fun c => c.table = aliasName
    filters := p.aliases.flatMap fun aliasName => pushed.filter fun f => f.table = aliasName }

/-- The plan of a description, given which sources can join; there is none if no partition has the primary table. -/
def federationPlan? (d : Description) (aggregates : Aggregates) (canJoin : String → Bool) : Option FederationPlan := do
  let partitions := d.partitions canJoin
  let position ← partitions.findIdx? fun p => p.aliases.contains d.primary
  let groups := partitions.map (·.aliases)
  let join := JoinPlan.ofGroups d.joins (← groups[position]?) (groups.eraseIdx position)
  let nullable := join.nullSupplying
  let isPushed (f : FilterPredicate) : Bool := d.isConjunctive && !nullable.contains f.table
  let residual := d.filters.filter fun f => !isPushed f
  let needed := d.neededColumns aggregates join residual
  some ⟨partitions.map (fillPartition needed (d.filters.filter isPushed)), join, residual⟩

end Description

namespace FederationPlan

def partitionOf? (plan : FederationPlan) (aliasName : String) : Option Partition :=
  plan.partitions.find? fun p => p.aliases.contains aliasName

end FederationPlan

end QueryFederation

import QueryFederation.Join.Graph

/-!
# Partitions

The tables of one source that are joined there make up a partition, which one query to the source answers. Tables of a
source that cannot join are partitions of their own. Partitions are in the order of their first tables.
-/

namespace QueryFederation

structure Partition where
  sourceId : String
  aliases : List String
  joins : List JoinCondition := []
  columns : List ColumnRef := []
  filters : List FilterPredicate := []
  deriving Inhabited

namespace Partition

def outputNames (p : Partition) : List String := p.columns.map (·.outputName)

def subDescription (p : Partition) (d : Description) : Description :=
  { tables := d.tables.filter fun t => p.aliases.contains t.aliasName
    primaryTable := p.aliases.head?
    columns := p.columns.map fun c => { toColumnRef := c }
    joins := p.joins
    filters := p.filters }

end Partition

namespace Description

def sourceGroups (d : Description) (canJoin : String → Bool) (sourceId : String) : List (List String) :=
  let members := (d.tables.filter fun t => t.sourceId = sourceId).map (·.aliasName)
  if canJoin sourceId then
    QueryFederation.components (d.joins.filter (·.isWithin members)) (d.nodes.filter members.contains)
  else members.map fun aliasName => [aliasName]

/-- The place of a group, which is that of its first table. -/
def groupPlace (d : Description) (group : List String) : Nat := d.nodes.idxOf (group.headD "")

/-- The partitions without what is needed of them, given which sources can join. -/
def partitions (d : Description) (canJoin : String → Bool) : List Partition :=
  let groups := d.sourceIds.flatMap fun sourceId => (d.sourceGroups canJoin sourceId).map fun group => (sourceId, group)
  let ordered := groups.mergeSort fun a b => d.groupPlace a.2 ≤ d.groupPlace b.2
  ordered.map fun (sourceId, aliases) => { sourceId, aliases, joins := d.joins.filter (·.isWithin aliases) }

end Description

end QueryFederation

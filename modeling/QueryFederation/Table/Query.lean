import QueryFederation.Groups
import QueryFederation.Result.Column
import QueryFederation.Table.Evaluation

/-!
# Queries of tables

The answer to a query: the rows of its tables are joined one table after another, those that meet the condition are
kept, put into groups if there are aggregates, ordered and cut to the page that is asked for. A join looks at every
pair of rows.

Every name of a query is looked up on a row of nulls before any row is read, so a query with a name that stands for
nothing fails whether there are rows or not.
-/

namespace QueryFederation

namespace Table

open Sql (Select Join Order Source)

structure Relation where
  fields : List Field
  rows : List (List Value)
  deriving Inhabited

abbrev Catalog := Source → Except QueryError Relation

namespace Relation

def nulls (fields : List Field) : List Value := fields.map fun _ => .null

def ofTable (t : Table) (aliasName : Option String) : Relation :=
  ⟨t.columns.map fun c => { c with owner := aliasName.getD t.name }, t.rows⟩

/-- One row without columns, which a query without a table reads. -/
def single : Relation := ⟨[], [[]]⟩

end Relation

/-- Does a condition hold of a frame? No condition always does. -/
def Frame.meets (frame : Frame) : Option Expression → Except QueryError Bool
  | none => .ok true
  | some e => do return Truth.isTrue (toTruth (← evaluate frame e).value)

/-! ### Joining -/

/-- The pairs of rows that a join puts together, and the rows of either side that it keeps without a partner. -/
def joined (left right : Relation) (kind : Option JoinKind) (condition : Option Expression) :
    Except QueryError Relation := do
  let fields := left.fields ++ right.fields
  let meets (l r : List Value) := ({ fields, row := l ++ r } : Frame).meets condition
  let fromLeft ← left.rows.mapM fun l => do
    let partners ← right.rows.filterM (meets l)
    if partners.isEmpty && kind.any JoinKind.keepsLeft then return [l ++ Relation.nulls right.fields]
    else return partners.map (l ++ ·)
  let alone ← right.rows.filterM fun r => do return !(← left.rows.anyM fun l => meets l r)
  let fromRight := if kind.any JoinKind.keepsRight then alone.map (Relation.nulls left.fields ++ ·) else []
  return ⟨fields, fromLeft.flatten ++ fromRight⟩

def joinedAll (tables : List (Join Expression × Relation)) (first : Relation) : Except QueryError Relation :=
  tables.foldlM (fun rows (join, right) => joined rows right join.kind join.condition) first

/-! ### Results -/

structure Output extends TableColumn where
  value : Frame → Except QueryError Value

namespace Output

def ofFields (fields : List Field) (test : Field → Bool) : List Output :=
  fields.zipIdx.filterMap fun (f, place) =>
    if test f then some { f.toTableColumn with value := fun frame => .ok ((frame.row[place]?).getD .null) } else none

/-- The column that an expression is before it is given a name; one that is computed has no type. -/
def columnOf (fields : List Field) (e : Expression) : TableColumn :=
  match e with
  | .column qualifiers name =>
    match ({ fields, row := [] } : Frame).place? qualifiers name with
    | .ok (some place) => (fields[place]?.map (·.toTableColumn)).getD { name := e.shown }
    | _ => { name := e.shown }
  | e => { name := e.shown }

def ofExpression (fields : List Field) : Expression → List Output
  | .star => ofFields fields fun _ => true
  | .tableStar qualifiers => ofFields fields fun f => sameName f.owner (Expression.tableName qualifiers)
  | .construct (.named name) [e] =>
    [{ columnOf fields e with name := name.name, value := fun frame => return (← evaluate frame e).value }]
  | e => [{ columnOf fields e with value := fun frame => return (← evaluate frame e).value }]

end Output

/-! ### Order -/

def keyAllows (orders : List (Order Expression)) : List Value → List Value → Bool
  | a :: as, b :: bs =>
    match orders with
    | [] => true
    | order :: orders =>
      let nullsLast := order.nullsLast.getD order.isDescending
      if a.isNull && b.isNull then keyAllows orders as bs
      else if a.isNull then !nullsLast
      else if b.isNull then nullsLast
      else match storedOrder a b with
        | .eq => keyAllows orders as bs
        | .lt => !order.isDescending
        | .gt => order.isDescending
  | _, _ => true

/-- The expression that an order stands for: that of a column of the result if it is the name or number of one. -/
def orderedBy (columns : List Expression) (e : Expression) : Expression :=
  match e with
  | .column [] name =>
    let named := columns.findSome? fun
      | .construct (.named aliasName) [e] => if sameName aliasName.name name.name then some e else none
      | _ => none
    named.getD e
  | .number s =>
    match s.toNat?.bind fun n => if n = 0 then none else columns[n - 1]? with
    | some (.construct (.named _) [e]) | some e => e
    | none => e
  | e => e

/-! ### Groups -/

/-- The frames of the groups of rows, in the order of the values they are grouped by. -/
def groupFrames (rows : Relation) (groupBy : List Expression) : Except QueryError (List Frame) := do
  let keyed ← rows.rows.mapM fun row => do
    return ((← evaluateAll { fields := rows.fields, row } groupBy).map (·.value), row)
  let same (a b : List Value) : Bool := (a.zip b).all fun (v, w) => storedOrder v w = .eq
  let groups := Groups.ofPairs same keyed
  let inOrder := groups.mergeSort fun a b => keyAllows (groupBy.map fun e => { term := e }) a.1 b.1
  let frames := inOrder.map fun (_, members) =>
    ({ fields := rows.fields, row := members.headD [], group := some members } : Frame)
  if groupBy.isEmpty && frames.isEmpty then
    return [{ fields := rows.fields, row := Relation.nulls rows.fields, group := some [] }]
  else return frames

/-! ### The whole -/

def isGrouped (s : Select Expression) : Bool :=
  !s.groupBy.isEmpty
    || (s.columns ++ s.having.toList ++ s.orderBy.map (·.term)).any callsAggregate

def checkNames (s : Select Expression) (outputs : List Output) (orders : List Expression) (fields : List Field) :
    Except QueryError Unit := do
  let row := Relation.nulls fields
  let frame : Frame := ⟨fields, row, if isGrouped s then some [row] else none⟩
  let ungrouped : Frame := { frame with group := none }
  outputs.forM fun output => discard (output.value frame)
  discard (evaluateAll frame s.having.toList)
  discard (evaluateAll ungrouped s.condition.toList)
  discard (evaluateAll ungrouped (s.joins.flatMap (·.condition.toList)))
  discard (evaluateAll frame orders)
  discard (evaluateAll ungrouped s.groupBy)

/-- The page of some items; a negative limit is none. -/
def page {α : Type} (limit offset : Option Int) (items : List α) : List α :=
  let items := items.drop (offset.getD 0).toNat
  match limit with
  | some n => if n < 0 then items else items.take n.toNat
  | none => items

def answer (catalog : Catalog) (s : Select Expression) : Except QueryError (List TableColumn × List (List Value)) := do
  let first ← match s.source with
    | some source => catalog source
    | none => pure Relation.single
  let others ← s.joins.mapM fun join => do return (join, ← catalog join.source)
  let fields := first.fields ++ others.flatMap fun (_, r) => r.fields
  let outputs := s.columns.flatMap (Output.ofExpression fields)
  let orders := s.orderBy.map fun order => orderedBy s.columns order.term
  checkNames s outputs orders fields
  if s.having.isSome && !isGrouped s then throw .noGroups
  let rows ← joinedAll others first
  let kept ← rows.rows.filterM fun row => ({ fields, row } : Frame).meets s.condition
  let frames ←
    if isGrouped s then groupFrames ⟨fields, kept⟩ s.groupBy
    else pure (kept.map fun row => { fields, row })
  let frames ← frames.filterM fun frame => frame.meets s.having
  let keyed ← frames.mapM fun frame => do return ((← evaluateAll frame orders).map (·.value), frame)
  let inOrder := keyed.mergeSort fun a b => keyAllows s.orderBy a.1 b.1
  let paged := page s.limit s.offset inOrder
  return (outputs.map (·.toTableColumn), ← paged.mapM fun (_, frame) => outputs.mapM fun output => output.value frame)

end Table

end QueryFederation

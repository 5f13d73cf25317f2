import QueryFederation.Groups
import QueryFederation.Join.Clock
import QueryFederation.Join.Key
import QueryFederation.Join.Kind

/-!
# Joining rows in memory

The rows of the smaller side go into buckets by their keys; the rows of the other side look for partners there. A row
without a key has no partner. Rows without a partner are kept where the kind of the join asks for it, with nulls in the
columns of the other side.
-/

namespace QueryFederation

structure KeyedRow where
  key : Option Key
  row : Row
  deriving Inhabited

namespace KeyedRow

def ofRow (columns : List String) (row : Row) : KeyedRow := ⟨Key.ofRow columns row, row⟩

def matched (a b : KeyedRow) : Bool :=
  match a.key, b.key with
  | some k, some l => Key.same k l
  | _, _ => false

end KeyedRow

abbrev Buckets := Groups Key Row

namespace Buckets

/-- The rows that have a key. -/
def ofRows (rows : List KeyedRow) : Buckets :=
  Groups.ofPairs Key.same (rows.filterMap fun r => r.key.map (·, r.row))

def partners (buckets : Buckets) (r : KeyedRow) : List Row :=
  match r.key with
  | some key => Groups.find Key.same buckets key
  | none => []

end Buckets

namespace Join

/-- One row of two; a side without a row gives its nulls. -/
def pair (leftNulls rightNulls : Row) (left right : Option Row) : Row :=
  Entries.merge (left.getD leftNulls) (right.getD rightNulls)

/-- The kinds of values at one place of the keys, in order. -/
def kindsAt (place : Nat) (rows : List KeyedRow) : List String :=
  let kinds := rows.filterMap fun r => do
    let v ← (← r.key)[place]?
    some v.keyKind
  kinds.eraseDups.mergeSort (· ≤ ·)

/-- Could a row of one side match a row of the other, from the kinds of their values at one place? -/
def kindsMeet (left right : List String) : Bool :=
  left.isEmpty || right.isEmpty || left.any right.contains

/-- Fails at the first place of the keys where no value of one side is of a kind of the other. -/
def checkKinds (left right : List KeyedRow) : Nat → List (String × String) → Outcome Unit
  | _, [] => .ok ()
  | place, (leftColumn, rightColumn) :: rest =>
    let leftKinds := kindsAt place left
    let rightKinds := kindsAt place right
    if kindsMeet leftKinds rightKinds then checkKinds left right (place + 1) rest
    else .error (.incompatibleKeys leftColumn rightColumn leftKinds rightKinds)

def probed (buckets : Buckets) (keeps : Bool) (pair : Option Row → Option Row → Row) (rows : List KeyedRow) :
    List Row :=
  rows.flatMap fun r =>
    match buckets.partners r with
    | [] => if keeps then [pair (some r.row) none] else []
    | partners => partners.map fun partner => pair (some r.row) (some partner)

/-- The rows of the buckets that no row looked for. -/
def leftOver (probe : List KeyedRow) (keeps : Bool) (pair : Option Row → Option Row → Row) (build : List KeyedRow) :
    List Row :=
  if keeps then
    (build.filter fun b => !(probe.any fun p => p.matched b)).map fun b => pair none (some b.row)
  else []

/-- The rows of a join: `build` are those in buckets, `probe` those that look for partners. -/
def rowsOf (probe build : List KeyedRow) (keepsProbe keepsBuild : Bool) (pair : Option Row → Option Row → Row) :
    List Row :=
  probed (Buckets.ofRows build) keepsProbe pair probe ++ leftOver probe keepsBuild pair build

end Join

open Join in
def hashJoin (left right : List Row) (pairs : List (String × String)) (kind : JoinKind)
    (leftColumns rightColumns : List String) : Timed (List Row) := do
  let leftRows := left.map (KeyedRow.ofRow (pairs.map (·.1)))
  let rightRows := right.map (KeyedRow.ofRow (pairs.map (·.2)))
  Clock.tickEach left
  Clock.tickEach right
  checkKinds leftRows rightRows 0 pairs
  let pair := pair (Row.nulls leftColumns) (Row.nulls rightColumns)
  let runs (probe build : List KeyedRow) (keepsProbe keepsBuild : Bool) (pair : Option Row → Option Row → Row) :
      Timed (List Row) := do
    Clock.visit Key.requireHashable (build.map (·.key))
    Clock.visit Key.requireHashable (probe.map (·.key))
    if keepsBuild then Clock.tickEach build
    return rowsOf probe build keepsProbe keepsBuild pair
  if right.length ≤ left.length then
    runs leftRows rightRows kind.keepsLeft kind.keepsRight pair
  else
    runs rightRows leftRows kind.keepsRight kind.keepsLeft fun r l => pair l r

def crossJoin (left right : List Row) : Timed (List Row) := do
  let rows := left.flatMap fun l => right.map fun r => Entries.merge l r
  Clock.tickEach rows
  return rows

end QueryFederation

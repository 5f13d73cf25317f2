import QueryFederation.Join.Graph

/-!
# Join plans

In which order groups of tables are joined. The plan starts with one group; each step adds the first remaining group
that a condition links to what is placed already. Only if there is none, the first remaining group is crossed with
what is placed. Conditions of a step are read from the placed side.
-/

namespace QueryFederation

/-- An equation between a column that is placed already and one that is added. -/
structure JoinPair where
  placed : ColumnRef
  added : ColumnRef
  deriving DecidableEq, Repr, Inhabited

structure JoinStep where
  nodes : List String
  /-- The kind with the placed side on the left; a cross join has none. -/
  kind : Option JoinKind
  pairs : List JoinPair := []
  conditions : List JoinCondition := []
  deriving DecidableEq, Repr, Inhabited

structure JoinPlan where
  root : List String
  steps : List JoinStep
  deriving DecidableEq, Repr, Inhabited

namespace JoinCondition

def toward (added : List String) (j : JoinCondition) : JoinCondition :=
  if added.contains j.rightTable then j else j.reversed

/-- The equation of a condition that is read from the placed side. -/
def pair (j : JoinCondition) : JoinPair := ⟨⟨j.leftTable, j.leftColumn⟩, ⟨j.rightTable, j.rightColumn⟩⟩

end JoinCondition

namespace JoinStep

def isCross (step : JoinStep) : Bool := step.kind.isNone

/-- The step that adds a group by the conditions that link it. The first of them decides on the kind. -/
def ofConditions (nodes : List String) : List JoinCondition → JoinStep
  | [] => { nodes, kind := none }
  | conditions@(lead :: _) =>
    { nodes, kind := some (lead.toward nodes).kind, pairs := conditions.map fun c => (c.toward nodes).pair, conditions }

end JoinStep

/-- The group to add next: the first that is linked to the placed tables, or else the first. -/
def nextGroup (joins : List JoinCondition) (placed first : List String) (others : List (List String)) : List String :=
  ((first :: others).find? fun group => !(conditionsBetween joins placed group).isEmpty).getD first

theorem nextGroup_mem (joins : List JoinCondition) (placed first : List String) (others : List (List String)) :
    nextGroup joins placed first others ∈ first :: others := by
  unfold nextGroup
  cases h : (first :: others).find? fun group => !(conditionsBetween joins placed group).isEmpty with
  | none => simp
  | some group => exact List.mem_of_find?_eq_some h

def joinSteps (joins : List JoinCondition) (placed : List String) : List (List String) → List JoinStep
  | [] => []
  | first :: others =>
    let group := nextGroup joins placed first others
    JoinStep.ofConditions group (conditionsBetween joins placed group)
      :: joinSteps joins (placed ++ group) ((first :: others).erase group)
termination_by groups => groups.length
decreasing_by
  have := List.length_erase_of_mem (nextGroup_mem joins placed first others)
  simp_all

namespace JoinPlan

def ofGroups (joins : List JoinCondition) (root : List String) (others : List (List String)) : JoinPlan :=
  ⟨root, joinSteps joins root others⟩

def hasCrossJoin (plan : JoinPlan) : Bool := plan.steps.any (·.isCross)

/-- The tables that a step extends with nulls. -/
def extendedBy (placed : List String) (step : JoinStep) : List String :=
  match step.kind with
  | none => []
  | some kind => (if kind.keepsRight then placed else []) ++ (if kind.keepsLeft then step.nodes else [])

def extendedFrom (placed : List String) : List JoinStep → List String
  | [] => []
  | step :: steps => extendedBy placed step ++ extendedFrom (placed ++ step.nodes) steps

/-- The tables whose columns may be null only because a row had no partner. -/
def nullSupplying (plan : JoinPlan) : List String := distinctItems (extendedFrom plan.root plan.steps)

end JoinPlan

namespace Description

/-- The plan for single tables; there is none if the primary table is not one of them. -/
def tablePlan? (d : Description) : Option JoinPlan := do
  let position ← d.aliases.idxOf? d.primary
  let groups := d.aliases.map fun aliasName => [aliasName]
  some (JoinPlan.ofGroups d.joins (← groups[position]?) (groups.eraseIdx position))

end Description

end QueryFederation

import QueryFederation.Join.HashJoin
import QueryFederation.Join.Plan

/-!
# Carrying out join plans

A plan is data; carrying it out is a fold over its steps. Every group of the plan stands for rows that are at hand,
and a step joins those of the group it adds with what has been joined so far.
-/

namespace QueryFederation

structure NamedRows where
  columns : List String
  rows : List Row := []
  deriving Inhabited

def JoinPair.names (pair : JoinPair) : String × String := (pair.placed.outputName, pair.added.outputName)

def JoinStep.rows (step : JoinStep) (placed added : NamedRows) : Timed (List Row) :=
  match step.kind with
  | none => crossJoin placed.rows added.rows
  | some kind => hashJoin placed.rows added.rows (step.pairs.map (·.names)) kind placed.columns added.columns

def JoinStep.attach (step : JoinStep) (placed added : NamedRows) : Timed NamedRows := do
  return ⟨placed.columns ++ added.columns, ← step.rows placed added⟩

def JoinPlan.execute (plan : JoinPlan) (relation : List String → NamedRows) : Timed NamedRows :=
  plan.steps.foldlM (fun placed step => step.attach placed (relation step.nodes)) (relation plan.root)

end QueryFederation

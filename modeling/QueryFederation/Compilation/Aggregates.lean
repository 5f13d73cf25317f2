import QueryFederation.Compilation.Error
import QueryFederation.Expression.Dependencies

/-!
# Aggregates to be compiled

The aggregates of a description, read again with the texts that validation put in place of theirs. The first that is
faulty fails.
-/

namespace QueryFederation.Description

def analyzeAggregate (known : List String) (aliasName text : String) : Except CompileError AnalyzedAggregate :=
  match AnalyzedAggregate.analyze aliasName text known with
  | .error cause => .error (.unreadableAggregate text cause)
  | .ok a =>
    match a.problems with
    | [] => .ok a
    | problem :: _ => .error (.problemOfAggregate text problem)

def analyzedAggregates (d : Description) (replacements : Entries String) : Except CompileError Aggregates := do
  let known := d.allAggregates.map (·.aliasName)
  d.allAggregates.foldlM (fun analyzed a => do
    let text := (replacements.lookup a.aliasName).getD a.expression
    return Entries.put analyzed a.aliasName (← analyzeAggregate known a.aliasName text)) []

def aggregateTexts (d : Description) (replacements : Entries String) : Entries String :=
  Entries.ofPairs (d.allAggregates.map fun a => (a.aliasName, (replacements.lookup a.aliasName).getD a.expression))

def resolvedAggregates (d : Description) (replacements : Entries String) :
    Except CompileError (Entries Expression) := do
  let analyzed ← d.analyzedAggregates replacements
  match analyzed.inlined with
  | .error cause => throw (.circularAggregates cause)
  | .ok resolved => return analyzed.keys.filterMap fun aliasName => (resolved.lookup aliasName).map (aliasName, ·)

end QueryFederation.Description

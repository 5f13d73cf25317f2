import QueryFederation.Engine.Basic
import QueryFederation.Proofs.Outcome

/-!
# Runs that come to an end

What compilation and execution have gone through if they return something. A query for one source is a pipeline or comes
from the plan for single tables. A result from several sources comes from partitions that were asked one after the
other, what became of each, and the rows of all.

So a query that an engine compiles, and a result that it returns, carry the mark of crossed rows exactly if the plan
they come from crosses. For one source that is the plan for single tables, for several the plan for partitions. A
pipeline comes from no plan; it is for one collection, so there is nothing to cross.
-/

namespace QueryFederation

variable {d : Description}

theorem EngineError.eq_ok_of_ofCompilation {α : Type} {x : Except CompileFailure α} {a : α}
    (h : ofCompilation x = .ok a) : x = .ok a := by
  cases x with
  | error e => cases h
  | ok b =>
    cases h
    rfl

theorem CompileFailure.eq_ok_of_ofCompile {α : Type} {x : Except CompileError α} {a : α} (h : ofCompile x = .ok a) :
    x = .ok a := by
  cases x with
  | error e => cases h
  | ok b =>
    cases h
    rfl

namespace Serving

variable {α β : Type} {s final : Session}

theorem exists_of_bind_eq_ok {x : Serving α} {f : α → Serving β} {b : β} (h : (x >>= f) s = (.ok b, final)) :
    ∃ a next, x s = (.ok a, next) ∧ f a next = (.ok b, final) := by
  change (ExceptT.bindCont f (x s).1) (x s).2 = (.ok b, final) at h
  cases hx : x s with
  | mk outcome next =>
    rw [hx] at h
    cases outcome with
    | error e => cases h
    | ok a => exact ⟨a, next, rfl, h⟩

theorem lift_eq_ok {x : Except EngineError α} {a : α} (h : (liftM x : Serving α) s = (.ok a, final)) : x = .ok a := by
  cases x with
  | error e => cases h
  | ok b =>
    cases h
    rfl

theorem ofOutcome_eq_ok {x : Outcome α} {a : α} (h : (ofOutcome x) s = (.ok a, final)) : x = .ok a := by
  cases x with
  | ok b =>
    cases h
    rfl
  | error fault => cases h

theorem observing_eq (x : Serving α) : observing x s = (.ok (x s).1, (x s).2) := by
  change ExceptT.tryCatch (x >>= fun a => pure (Except.ok a)) (fun e => pure (Except.error e)) s = _
  cases hx : x s with
  | mk outcome next =>
    cases outcome <;>
      simp only [ExceptT.tryCatch, ExceptT.mk, bind, ExceptT.bind, ExceptT.bindCont, StateT.bind, hx] <;> rfl

theorem forall₂_of_mapM_eq_ok {f : α → Serving β} {items : List α} {results : List β}
    (h : items.mapM f s = (.ok results, final)) :
    List.Forall₂ (fun item result => ∃ before after, f item before = (.ok result, after)) items results := by
  induction items generalizing s results with
  | nil =>
    cases h
    exact .nil
  | cons item items ih =>
    rw [List.mapM_cons] at h
    obtain ⟨result, next, hitem, h⟩ := exists_of_bind_eq_ok h
    obtain ⟨others, next', hitems, h⟩ := exists_of_bind_eq_ok h
    cases h
    exact .cons ⟨s, next, hitem⟩ (ih hitems)

end Serving

namespace Description

/-! ### Queries -/

/-- What a query for one source has been compiled from. -/
inductive CompiledFrom (d : Description) (replacements : Entries String) (q : SourceQuery) : Prop
  | pipeline (aggregates : Aggregates) (analyzed : d.analyzedAggregates replacements = .ok aggregates)
      (single : d.tables.length < 2) (columns : q.columns = d.outputColumns aggregates.keys) (flags : q.flags = []) :
      CompiledFrom d replacements q
  | tables (resolved : Entries Expression) (plan : JoinPlan) (written : d.resolvedAggregates replacements = .ok resolved)
      (planned : d.tablePlan? = some plan) (columns : q.columns = d.outputColumns resolved.keys)
      (marked : .crossJoin ∈ q.flags ↔ plan.hasCrossJoin = true) : CompiledFrom d replacements q

section

variable {language : String} {replacements : Entries String} {q : SourceQuery}

theorem compiledFrom_of_compilePipeline (h : d.compilePipeline replacements = .ok q) :
    d.CompiledFrom replacements q := by
  rw [compilePipeline] at h
  split at h
  · rename_i _ table heq
    obtain ⟨htables, -⟩ := Prod.mk.inj heq
    have hsingle : d.tables.length < 2 := by simp [htables]
    obtain ⟨_, -, h⟩ := exists_of_bind_eq_ok h
    obtain ⟨aggregates, hanalyzed, h⟩ := exists_of_bind_eq_ok h
    have hanalyzed := CompileFailure.eq_ok_of_ofCompile hanalyzed
    dsimp only at h
    split at h
    · obtain ⟨_, -, h⟩ := exists_of_bind_eq_ok h
      obtain ⟨_, -, h⟩ := exists_of_bind_eq_ok h
      cases h
      exact .pipeline aggregates hanalyzed hsingle rfl rfl
    · obtain ⟨_, -, h⟩ := exists_of_bind_eq_ok h
      obtain ⟨_, -, h⟩ := exists_of_bind_eq_ok h
      obtain ⟨_, -, h⟩ := exists_of_bind_eq_ok h
      cases h
      exact .pipeline aggregates hanalyzed hsingle rfl rfl
  · cases h

theorem compiledFrom_of_compileSql (h : d.compileSql language replacements = .ok q) :
    d.CompiledFrom replacements q := by
  rw [compileSql] at h
  split at h
  · cases hdialect : Dialect.ofName language with
    | error e =>
      rw [hdialect] at h
      cases h
    | ok dialect =>
      rw [hdialect] at h
      obtain ⟨_, -, h⟩ := exists_of_bind_eq_ok h
      obtain ⟨resolved, hwritten, h⟩ := exists_of_bind_eq_ok h
      have hwritten := CompileFailure.eq_ok_of_ofCompile hwritten
      dsimp only at h
      split at h
      · cases h
      · cases hplan : d.tablePlan? with
        | none =>
          rw [hplan] at h
          cases h
        | some plan =>
          rw [hplan] at h
          obtain ⟨_, -, h⟩ := exists_of_bind_eq_ok h
          cases h
          exact .tables resolved plan hwritten hplan rfl (by simp [JoinPlan.hasCrossJoin])
  · cases h

theorem compiledFrom_of_compileTo (h : d.compileTo language replacements = .ok q) : d.CompiledFrom replacements q := by
  rw [compileTo] at h
  split at h
  · exact compiledFrom_of_compilePipeline h
  · exact compiledFrom_of_compileSql h

end

/-! ### Results from several sources -/

variable {v : Validation} {r : Registry} {limits : TimeLimits} {time : Double} {s final : Session} {rows : List Row}
  {isCrossed : Bool}

theorem parts_of_federate {f : FederatedDescription} (h : d.federate v r = .ok f) :
    d.analyzedAggregates v.replacements = .ok f.aggregates
      ∧ d.federationPlan? f.aggregates r.canJoin = some f.plan := by
  rw [federate] at h
  obtain ⟨aggregates, hanalyzed, h⟩ := exists_of_bind_eq_ok h
  have hanalyzed := CompileFailure.eq_ok_of_ofCompile (EngineError.eq_ok_of_ofCompilation hanalyzed)
  obtain ⟨_, -, h⟩ := exists_of_bind_eq_ok h
  cases hplan : d.federationPlan? aggregates r.canJoin with
  | none =>
    rw [hplan] at h
    cases h
  | some plan =>
    rw [hplan] at h
    cases h
    exact ⟨hanalyzed, hplan⟩

/-- What answering from several sources goes through until it can join. -/
structure FederatedRun (d : Description) (v : Validation) (r : Registry) (limits : TimeLimits) (time : Double) where
  federated : FederatedDescription
  order : List String
  asked : List (Partition × SourceQuery)
  outcomes : List (Except EngineError (List Row))
  answers : List (List Row)
  federate_eq : d.federate v r = .ok federated
  dependencyOrder_eq : federated.aggregates.dependencyOrder = .ok order
  asks : List.Forall₂ (fun p ask =>
    (∃ before after, p.filled d r (limits.connector.smaller time) before = (.ok ask.1, after))
      ∧ ask.1.compile d r = .ok ask.2) federated.plan.partitions asked
  observes : List.Forall₂ (fun ask outcome =>
    ∃ before after, partitionRows r limits time ask.2 before = (outcome, after)) asked outcomes
  answers_eq : allAnswers outcomes = .ok answers

/-- Each partition, as it was asked, with its rows. -/
def FederatedRun.relations (run : FederatedRun d v r limits time) : List (Partition × List Row) :=
  (run.asked.map (·.1)).zip run.answers

theorem exists_run_of_executeFederated (h : d.executeFederated v r limits time s = (.ok (rows, isCrossed), final)) :
    ∃ run : FederatedRun d v r limits time, d.joinPartitions run.federated run.order run.relations = .ok rows
      ∧ isCrossed = run.federated.plan.join.hasCrossJoin := by
  rw [executeFederated] at h
  obtain ⟨f, s, hfederate, h⟩ := Serving.exists_of_bind_eq_ok h
  obtain ⟨_, s, -, h⟩ := Serving.exists_of_bind_eq_ok h
  obtain ⟨asked, s, hasked, h⟩ := Serving.exists_of_bind_eq_ok h
  obtain ⟨outcomes, s, houtcomes, h⟩ := Serving.exists_of_bind_eq_ok h
  obtain ⟨answers, s, hanswers, h⟩ := Serving.exists_of_bind_eq_ok h
  have asks : List.Forall₂ (fun p ask =>
      (∃ before after, p.filled d r (limits.connector.smaller time) before = (.ok ask.1, after))
        ∧ ask.1.compile d r = .ok ask.2) f.plan.partitions asked := by
    refine (Serving.forall₂_of_mapM_eq_ok hasked).imp fun p ask hask => ?_
    obtain ⟨before, after, hask⟩ := hask
    obtain ⟨filled, next, hfilled, hask⟩ := Serving.exists_of_bind_eq_ok hask
    obtain ⟨q, next', hq, hask⟩ := Serving.exists_of_bind_eq_ok hask
    cases hask
    exact ⟨⟨before, next, hfilled⟩, Serving.lift_eq_ok hq⟩
  have observes : List.Forall₂ (fun ask outcome =>
      ∃ before after, partitionRows r limits time ask.2 before = (outcome, after)) asked outcomes := by
    refine (Serving.forall₂_of_mapM_eq_ok houtcomes).imp fun ask outcome houtcome => ?_
    obtain ⟨before, after, houtcome⟩ := houtcome
    dsimp only at houtcome
    rw [Serving.observing_eq] at houtcome
    obtain ⟨hvalue, -⟩ := Prod.mk.inj houtcome
    exact ⟨before, _, Prod.ext (Except.ok.inj hvalue) rfl⟩
  dsimp only at h
  split at h
  · cases h
  · cases horder : f.aggregates.dependencyOrder with
    | error e =>
      rw [horder] at h
      cases h
    | ok order =>
      rw [horder] at h
      obtain ⟨result, s, hresult, h⟩ := Serving.exists_of_bind_eq_ok h
      cases h
      exact ⟨⟨f, order, asked, outcomes, answers, Serving.lift_eq_ok hfederate, horder, asks, observes,
        Serving.lift_eq_ok hanswers⟩, Serving.ofOutcome_eq_ok hresult, rfl⟩

end Description

end QueryFederation

/-! ### Marks of crossed rows -/

namespace QueryFederation

variable {d : Description}

/-- The marks of a compiled query. -/
def CompiledQuery.flags : CompiledQuery → List QueryFlag
  | single q => q.flags
  | federated q => q.flags

theorem Validation.crossJoin_mem_flags {v : Validation} {flags : List QueryFlag} :
    .crossJoin ∈ v.flags flags ↔ .crossJoin ∈ flags := by
  rw [Validation.flags]
  split <;> simp

theorem CompiledQuery.crossJoin_mem_flags_annotate {q : CompiledQuery} {v : Validation} :
    .crossJoin ∈ (q.annotate v).flags ↔ .crossJoin ∈ q.flags := by
  cases q with
  | single q => exact Validation.crossJoin_mem_flags
  | federated q => exact Validation.crossJoin_mem_flags

namespace Description

/-- Where the marks of what an engine makes of a description come from. -/
inductive MarkedBy (d : Description) (flags : List QueryFlag) : Prop
  | tables (plan : JoinPlan) (planned : d.tablePlan? = some plan)
      (marked : .crossJoin ∈ flags ↔ plan.hasCrossJoin = true) : MarkedBy d flags
  | partitions (aggregates : Aggregates) (canJoin : String → Bool) (plan : FederationPlan)
      (planned : d.federationPlan? aggregates canJoin = some plan)
      (marked : .crossJoin ∈ flags ↔ plan.join.hasCrossJoin = true) : MarkedBy d flags
  | collection (single : d.tables.length < 2) (unmarked : .crossJoin ∉ flags) : MarkedBy d flags

theorem MarkedBy.of_iff {flags marks : List QueryFlag} (h : d.MarkedBy flags)
    (hsame : .crossJoin ∈ marks ↔ .crossJoin ∈ flags) : d.MarkedBy marks := by
  cases h with
  | tables plan planned marked => exact .tables plan planned (hsame.trans marked)
  | partitions aggregates canJoin plan planned marked =>
    exact .partitions aggregates canJoin plan planned (hsame.trans marked)
  | collection single unmarked => exact .collection single fun hmem => unmarked (hsame.mp hmem)

theorem CompiledFrom.markedBy {replacements : Entries String} {q : SourceQuery} (h : d.CompiledFrom replacements q) :
    d.MarkedBy q.flags := by
  cases h with
  | pipeline _ _ single _ flags =>
    rw [flags]
    exact .collection single List.not_mem_nil
  | tables _ plan _ planned _ marked => exact .tables plan planned marked

theorem markedBy_of_compileTo {language : String} {replacements : Entries String} {q : SourceQuery}
    (h : d.compileTo language replacements = .ok q) : d.MarkedBy q.flags :=
  (compiledFrom_of_compileTo h).markedBy

theorem markedBy_of_compileFederated {v : Validation} {r : Registry} {q : FederatedQuery}
    (h : d.compileFederated v r = .ok q) : d.MarkedBy q.flags := by
  rw [compileFederated] at h
  obtain ⟨f, hfederate, h⟩ := exists_of_bind_eq_ok h
  obtain ⟨_, _, h⟩ := exists_of_bind_eq_ok h
  cases h
  exact .partitions f.aggregates r.canJoin f.plan (parts_of_federate hfederate).2 (by simp)

end Description

namespace Engine

open Description

variable {e : Engine}

/-- A query that an engine compiles is marked by the plan it comes from. -/
theorem markedBy_of_compile {language : Option String} {q : CompiledQuery} (h : e.compile d language = .ok q) :
    d.MarkedBy q.flags := by
  rw [compile] at h
  obtain ⟨v, _, h⟩ := exists_of_bind_eq_ok h
  dsimp only at h
  split at h
  · obtain ⟨q, hq, h⟩ := exists_of_bind_eq_ok h
    cases h
    exact (markedBy_of_compileFederated hq).of_iff CompiledQuery.crossJoin_mem_flags_annotate
  · obtain ⟨q, hq, h⟩ := exists_of_bind_eq_ok (EngineError.eq_ok_of_ofCompilation h)
    cases h
    exact (markedBy_of_compileTo hq).of_iff CompiledQuery.crossJoin_mem_flags_annotate

/-- A result that an engine returns is marked by the plan it comes from. -/
theorem markedBy_of_execute {time : Option Double} {s final : Session} {result : ExecutionResult}
    (h : e.execute d time s = (.ok result, final)) : d.MarkedBy result.flags := by
  rw [execute] at h
  obtain ⟨v, s, _, h⟩ := Serving.exists_of_bind_eq_ok h
  dsimp only at h
  split at h
  · rw [executeFederated] at h
    obtain ⟨⟨rows, isCrossed⟩, s, hrows, h⟩ := Serving.exists_of_bind_eq_ok h
    obtain ⟨run, -, rfl⟩ := exists_run_of_executeFederated hrows
    cases h
    exact .partitions _ _ run.federated.plan (parts_of_federate run.federate_eq).2
      (Validation.crossJoin_mem_flags.trans (by simp))
  · rw [executeSingle] at h
    obtain ⟨connector, s, _, h⟩ := Serving.exists_of_bind_eq_ok h
    obtain ⟨q, s, hq, h⟩ := Serving.exists_of_bind_eq_ok h
    obtain ⟨rows, s, _, h⟩ := Serving.exists_of_bind_eq_ok h
    cases h
    have hq := EngineError.eq_ok_of_ofCompilation (Serving.lift_eq_ok hq)
    exact (markedBy_of_compileTo hq).of_iff Validation.crossJoin_mem_flags

end Engine

end QueryFederation

import QueryFederation.Proofs.Engine.Runs
import QueryFederation.Proofs.Federation.Keys

/-!
# What an engine joins

An engine that has come to a result has asked each partition of its plan, in the order of the plan, for rows under the
names of the partition, and has joined and materialized exactly these rows.
-/

namespace QueryFederation

theorem forall₂_of_allAnswers {α : Type} {outcomes : List (Except EngineError α)} {answers : List α}
    (h : allAnswers outcomes = .ok answers) : List.Forall₂ (fun outcome answer => outcome = .ok answer) outcomes answers := by
  unfold allAnswers at h
  dsimp only at h
  split at h
  · cases h
  · exact Outcome.forall₂_of_mapM_eq_ok h

theorem exists_of_partitionRows {r : Registry} {limits : TimeLimits} {time : Double} {q : SourceQuery}
    {s final : Session} {rows : List Row} (h : partitionRows r limits time q s = (.ok rows, final)) :
    ∃ reply source, decodeRows reply source q.outputNames = .ok rows := by
  unfold partitionRows at h
  dsimp only at h
  split at h
  · cases h
  · rw [Registry.rows] at h
    obtain ⟨reply, next, -, h⟩ := Serving.exists_of_bind_eq_ok h
    exact ⟨reply, _, Serving.ofOutcome_eq_ok h⟩

namespace Description

theorem outputNames_of_compileTo {d : Description} {language : String} {q : SourceQuery} (hnone : d.allAggregates = [])
    (h : d.compileTo language [] = .ok q) : q.outputNames = d.selectedColumns.map (·.outputName) := by
  have hanalyzed : d.analyzedAggregates [] = .ok [] := by
    rw [analyzedAggregates, hnone]
    rfl
  have hwritten : d.resolvedAggregates [] = .ok [] := by
    rw [resolvedAggregates, hanalyzed]
    rfl
  have hnames : q.columns = d.outputColumns [] := by
    cases compiledFrom_of_compileTo h with
    | pipeline aggregates analyzed _ columns _ =>
      obtain rfl := Except.ok.inj (hanalyzed.symm.trans analyzed)
      exact columns
    | tables resolved _ written _ columns _ =>
      obtain rfl := Except.ok.inj (hwritten.symm.trans written)
      exact columns
  rw [SourceQuery.outputNames, hnames, outputColumns, List.map_nil, List.append_nil, List.map_map]
  rfl

end Description

namespace Partition

variable {d : Description} {r : Registry} {p asked : Partition}

/-- The query of a partition asks for the names of the partition. -/
theorem outputNames_of_compile {q : SourceQuery} (h : p.compile d r = .ok q) : q.outputNames = p.outputNames := by
  rw [compile] at h
  obtain ⟨connector, -, h⟩ := exists_of_bind_eq_ok h
  have hcompiled := EngineError.eq_ok_of_ofCompilation h
  have hselected : (p.subDescription d).selectedColumns = p.columns.map fun c => { toColumnRef := c } :=
    List.filter_eq_self.mpr (List.forall_mem_map.mpr fun _ _ => rfl)
  rw [Description.outputNames_of_compileTo rfl hcompiled, hselected, List.map_map]
  rfl

theorem isAskedAs_of_filled {time : Double} {s final : Session} (h : p.filled d r time s = (.ok asked, final)) :
    p.IsAskedAs asked := by
  rw [filled] at h
  split at h
  · cases h
    exact Or.inl rfl
  · rename_i hempty
    obtain ⟨columns, next, -, h⟩ := Serving.exists_of_bind_eq_ok h
    cases columns with
    | nil => cases h
    | cons column columns =>
      cases h
      exact Or.inr ⟨by simpa using hempty, column.name, rfl⟩

end Partition

namespace Description

variable {d : Description} {v : Validation} {r : Registry} {limits : TimeLimits} {time : Double}

/-- The rows that come to be joined are what the partitions of the plan have been answered with. -/
theorem FederatedRun.isAnsweredBy (run : FederatedRun d v r limits time) :
    run.federated.plan.IsAnsweredBy run.relations := by
  obtain ⟨f, order, asked, outcomes, answers, -, -, asks, observes, hanswers⟩ := run
  change List.Forall₂ _ f.plan.partitions ((asked.map (·.1)).zip answers)
  replace hanswers := forall₂_of_allAnswers hanswers
  generalize f.plan.partitions = partitions at asks ⊢
  -- Partitions, queries, outcomes and rows correspond one by one.
  induction asks generalizing outcomes answers with
  | nil => exact .nil
  | @cons p ask partitions asked hask asks ih =>
    obtain _ | ⟨hobserve, observes⟩ := observes
    obtain _ | ⟨houtcome, hanswers⟩ := hanswers
    obtain ⟨⟨before, after, hfilled⟩, hcompiled⟩ := hask
    obtain ⟨before', after', hrows⟩ := hobserve
    rw [houtcome] at hrows
    obtain ⟨reply, source, hdecoded⟩ := exists_of_partitionRows hrows
    rw [Partition.outputNames_of_compile hcompiled] at hdecoded
    exact .cons ⟨Partition.isAskedAs_of_filled hfilled, reply, source, hdecoded⟩ (ih _ _ observes hanswers)

/--
An engine that has come to a result has looked up no name in vain: each step of its join has found its keys, and the
result is materialized from joined rows that have all names that this asks for.
-/
theorem finds_of_executeFederated {cleanup : Cleanup} {s final : Session} {rows : List Row} {isCrossed : Bool}
    (hvalid : (d.validate cleanup).isValid = true)
    (h : d.executeFederated (d.validate cleanup) r limits time s = (.ok (rows, isCrossed), final)) :
    ∃ (run : FederatedRun d (d.validate cleanup) r limits time) (joined : NamedRows),
      run.federated.plan.FindsKeys (rowsOfGroup run.relations)
        ∧ (run.federated.plan.join.execute (rowsOfGroup run.relations)).answer false = .ok joined
        ∧ d.FindsNames run.federated.aggregates run.order run.federated.plan.residual joined.rows
        ∧ d.materialize run.federated.aggregates run.order run.federated.plan.residual joined.rows = .ok rows := by
  obtain ⟨run, hrows, -⟩ := exists_run_of_executeFederated h
  rw [joinPartitions] at hrows
  obtain ⟨joined, hjoined, hrows⟩ := exists_of_bind_eq_ok hrows
  obtain ⟨hanalyzed, hplan⟩ := parts_of_federate run.federate_eq
  obtain ⟨-, hfinds⟩ := finds_of_federationPlan? hvalid hanalyzed hplan run.dependencyOrder_eq
  obtain ⟨hkeys, hnames⟩ := hfinds _ run.isAnsweredBy
  exact ⟨run, joined, hkeys, hjoined, hnames false joined hjoined, hrows⟩

end Description

end QueryFederation

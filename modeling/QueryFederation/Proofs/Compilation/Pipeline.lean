import QueryFederation.Compilation.Document
import QueryFederation.Proofs.Compilation.Sql

/-!
# Pipelines for plain selections

Pipelines write filters in their own way. What validation accepts as the value of a filter can be written in a condition
on documents, but for the texts of patterns: a pattern has to be a text, and validation accepts any single value. So a
selection of columns of one collection becomes a pipeline exactly if its patterns have texts.
-/

namespace QueryFederation

/-- Does the filter look for a pattern? -/
def FilterOperator.isPattern (operator : FilterOperator) : Bool := operator = .like || operator = .notLike

namespace Document

variable {α : Type} {operator : FilterOperator} {v : Value}

theorem exists_operators_iff (h : operator.valueProblem? v = none) :
    (∃ row, operators operator v = .ok row) ↔ (operator.isPattern = true → ∃ text, patternText v = .ok text) := by
  cases operator with
  | like | notLike =>
    simp only [operators]
    cases patternText v with
    | ok text => exact iff_of_true ⟨_, rfl⟩ fun _ => ⟨text, rfl⟩
    | error fault => exact iff_of_false nofun fun hall => nomatch hall rfl
  | between =>
    obtain ⟨low, high, rfl⟩ := FilterOperator.exists_bounds_of_valueProblem? h
    exact iff_of_true ⟨_, rfl⟩ nofun
  | notIn =>
    obtain ⟨items, rfl⟩ := FilterOperator.exists_items_of_valueProblem? (Or.inr rfl) h
    exact iff_of_true ⟨_, rfl⟩ nofun
  | _ => exact iff_of_true ⟨_, rfl⟩ nofun

/-- A condition can be written unless it looks for a pattern that has no text. -/
theorem exists_condition_iff {field : String} (h : operator.valueProblem? v = none) :
    (∃ row, condition field operator v = .ok row) ↔ (operator.isPattern = true → ∃ text, patternText v = .ok text) := by
  rw [← exists_operators_iff h, condition]
  cases operators operator v with
  | ok row => exact iff_of_true ⟨_, rfl⟩ ⟨row, rfl⟩
  | error fault => exact iff_of_false nofun nofun

theorem exists_folded_iff {read : α → Outcome (Connective × Row)} {filters : List α} :
    (∃ condition, folded read filters = .ok condition) ↔ ∀ f ∈ filters, ∃ next, read f = .ok next := by
  constructor
  · rintro ⟨condition, h⟩
    rw [folded] at h
    generalize (none : Option Row) = before at h
    induction filters generalizing before with
    | nil => exact List.forall_mem_nil _
    | cons f filters ih =>
      rw [List.foldlM_cons] at h
      obtain ⟨after, hstep, h⟩ := exists_of_bind_eq_ok h
      obtain ⟨next, hnext, -⟩ := exists_of_bind_eq_ok hstep
      exact List.forall_mem_cons.mpr ⟨⟨next, hnext⟩, ih after h⟩
  · intro h
    refine exists_foldlM_eq_ok (fun f hf before => ?_) none
    obtain ⟨next, hnext⟩ := h f hf
    rw [hnext]
    exact ⟨_, rfl⟩

end Document

namespace Description

variable {d : Description} {table : TableReference}

/-- A description that only selects columns of one collection. -/
structure IsSelectionOf (d : Description) (table : TableReference) : Prop where
  tables : d.tables = [table]
  joins : d.joins = []
  groupBy : d.groupBy = []
  aggregates : d.allAggregates = []
  having : d.having = []

/-- A selection becomes a pipeline, without a mark and with the columns selected, if the patterns it looks for have texts. -/
theorem IsSelectionOf.exists_pipeline_iff (h : d.IsSelectionOf table)
    (hvalues : ∀ f ∈ d.filters, f.operator.valueProblem? f.value = none) :
    (∃ q, d.compilePipeline [] = .ok q ∧ q.flags = [] ∧ q.outputNames = d.selectedColumns.map (·.outputName))
      ↔ ∀ f ∈ d.filters, f.operator.isPattern = true → ∃ text, Document.patternText f.value = .ok text := by
  have hanalyzed : d.analyzedAggregates [] = .ok [] := by
    rw [analyzedAggregates, h.aggregates]
    rfl
  have hfolded : (∃ condition, Document.folded (fun f : FilterPredicate => do
        return (f.connective, ← Document.condition f.column f.operator f.value)) d.filters = .ok condition)
      ↔ ∀ f ∈ d.filters, f.operator.isPattern = true → ∃ text, Document.patternText f.value = .ok text := by
    rw [Document.exists_folded_iff]
    refine forall₂_congr fun f hf => ?_
    have hiff : (∃ row, Document.condition f.column f.operator f.value = .ok row) ↔ _ :=
      Document.exists_condition_iff (hvalues f hf)
    rw [← hiff]
    cases Document.condition f.column f.operator f.value with
    | ok row => exact iff_of_true ⟨_, rfl⟩ ⟨row, rfl⟩
    | error fault =>
      refine iff_of_false ?_ ?_
      · rintro ⟨_, hread⟩
        cases hread
      · rintro ⟨_, hread⟩
        cases hread
  rw [← hfolded, compilePipeline, h.tables, h.joins, hanalyzed, h.groupBy, h.having]
  generalize Document.folded _ d.filters = condition
  cases condition with
  | error fault =>
    refine iff_of_false ?_ ?_
    · rintro ⟨_, hcompiled, -⟩
      cases hcompiled
    · rintro ⟨_, hread⟩
      cases hread
  | ok condition =>
    refine iff_of_true ⟨_, rfl, rfl, ?_⟩ ⟨condition, rfl⟩
    rw [SourceQuery.outputNames, outputColumns, Entries.keys, List.map_nil, List.map_nil, List.append_nil, List.map_map]
    rfl

end Description

end QueryFederation

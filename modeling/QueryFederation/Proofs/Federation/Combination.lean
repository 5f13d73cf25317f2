import Mathlib.Data.List.Lattice
import Mathlib.Data.List.Perm.Basic
import Mathlib.Logic.Function.Basic
import QueryFederation.Proofs.Federation.Filters
import QueryFederation.Proofs.Join.NestedLoop
import QueryFederation.Proofs.Outcome
import QueryFederation.Proofs.Row.Merge
import QueryFederation.Result.Materialization

/-!
# Combinations of rows

What a description means without any plan. A combination is one row for each of some tables; it is wanted if it meets
the join conditions and the filters, and the result shows some of its columns under their output names. Combinations of
more tables are made of those of fewer, and it does not matter in which order tables come.
-/

namespace QueryFederation

/-- One row for each table. -/
abbrev Combination := String → Row

/-- All combinations of the rows of the given tables. Other tables have an empty row. -/
def combinations (tables : String → List Row) : List String → List Combination
  | [] => [fun _ => []]
  | aliasName :: rest =>
    (tables aliasName).flatMap fun row => (combinations tables rest).map fun c => Function.update c aliasName row

namespace Combination

def value (c : Combination) (column : ColumnRef) : Value := Row.get (c column.table) column.column

/-- Are the two ends of the condition equal as keys? -/
def joins (c : Combination) (j : JoinCondition) : Bool :=
  (c.value ⟨j.leftTable, j.leftColumn⟩).sameKey (c.value ⟨j.rightTable, j.rightColumn⟩)

/-- What a filter comes to. -/
def outcome (c : Combination) (f : FilterPredicate) : Outcome Truth :=
  f.operator.holds (c.value ⟨f.table, f.column⟩) f.value

/-- Do the filters select the combination? -/
def passes (c : Combination) (filters : List FilterPredicate) : Outcome Bool := do
  let results ← filters.mapM fun f => do
    return (f.connective, ← c.outcome f)
  return selects results

/-- Does the combination meet all conditions, and do the filters select it? -/
def meets (conditions : List JoinCondition) (filters : List FilterPredicate) (c : Combination) : Bool :=
  conditions.all c.joins && (c.passes filters).toOption == some true

/-- The row that shows some columns. -/
def project (columns : List ColumnRef) (c : Combination) : Row :=
  Entries.ofPairs (columns.map fun column => (column.outputName, c.value column))

/-- The rows of the placed tables from one combination and those of all others from another. -/
def combine (placed : List String) (c added : Combination) : Combination := fun aliasName =>
  if aliasName ∈ placed then c aliasName else added aliasName

/-! ### What combinations show -/

section

variable {c added : Combination} {placed : List String} {columns others : List ColumnRef} {column : ColumnRef}

theorem project_eq (h : (columns.map (·.outputName)).Nodup) :
    c.project columns = columns.map fun column => (column.outputName, c.value column) := by
  apply Entries.ofPairs_eq_self
  rw [List.map_map]
  exact h

theorem keys_project (h : (columns.map (·.outputName)).Nodup) : (c.project columns).keys = columns.map (·.outputName) := by
  rw [project_eq h, Entries.keys, List.map_map]
  rfl

theorem get_project (h : (columns.map (·.outputName)).Nodup) (hcolumn : column ∈ columns) :
    Row.get (c.project columns) column.outputName = c.value column := by
  have hmem : (column.outputName, c.value column) ∈ c.project columns := by
    rw [project_eq h]
    exact List.mem_map_of_mem hcolumn
  have hkeys : (c.project columns).keys.Nodup := Entries.nodup_keys_ofPairs _
  rw [Row.get, Entries.lookup_of_mem hkeys hmem, Option.getD_some]

theorem value_combine_of_mem (h : column.table ∈ placed) : (c.combine placed added).value column = c.value column := by
  rw [value, combine, if_pos h, value]

theorem value_combine_of_notMem (h : column.table ∉ placed) :
    (c.combine placed added).value column = added.value column := by
  rw [value, combine, if_neg h, value]

/-- Rows of different tables are merged into what their combination shows. -/
theorem merge_project (hnodup : ((columns ++ others).map (·.outputName)).Nodup)
    (hcolumns : ∀ column ∈ columns, column.table ∈ placed) (hothers : ∀ column ∈ others, column.table ∉ placed) :
    Entries.merge (c.project columns) (added.project others) = (c.combine placed added).project (columns ++ others) := by
  have happend := hnodup
  rw [List.map_append, List.nodup_append'] at happend
  obtain ⟨hleft, hright, hdisjoint⟩ := happend
  rw [Entries.merge_eq_append (by rw [keys_project hright]; exact hright)
    (by rw [keys_project hleft, keys_project hright]; exact hdisjoint), project_eq hleft, project_eq hright,
    project_eq hnodup, List.map_append]
  congr 1
  · exact List.map_congr_left fun column hcolumn => by rw [value_combine_of_mem (hcolumns column hcolumn)]
  · exact List.map_congr_left fun column hcolumn => by rw [value_combine_of_notMem (hothers column hcolumn)]

end

/-! ### Which combinations pass -/

section

open FilterPredicate (selectBy)

variable {c : Combination} {filters : List FilterPredicate}

/-- What a filter comes to, unknown if it fails. -/
def truth (c : Combination) (f : FilterPredicate) : Truth := (c.outcome f).toOption.join

theorem passes_eq_ok_true_iff : c.passes filters = .ok true
    ↔ (∀ f ∈ filters, ∃ t, c.outcome f = .ok t) ∧ selectBy c.truth filters = true := by
  have hresults : (∀ f ∈ filters, ∃ t, c.outcome f = .ok t) → c.passes filters = .ok (selectBy c.truth filters) := by
    intro h
    have hall : ∀ f ∈ filters, (do return (f.connective, ← c.outcome f)) = Except.ok (f.connective, c.truth f) := by
      intro f hf
      obtain ⟨t, ht⟩ := h f hf
      rw [truth, ht]
      rfl
    rw [passes, Outcome.mapM_of_forall hall]
    rfl
  constructor
  · intro h
    have hall : ∀ f ∈ filters, ∃ t, c.outcome f = .ok t := by
      rw [passes] at h
      cases hmap : filters.mapM fun f => do return (f.connective, ← c.outcome f) with
      | error fault =>
        rw [hmap] at h
        cases h
      | ok results =>
        intro f hf
        obtain ⟨result, hresult⟩ := Outcome.exists_of_mapM_eq_ok hmap f hf
        cases ht : c.outcome f with
        | error fault =>
          rw [ht] at hresult
          cases hresult
        | ok t => exact ⟨t, rfl⟩
    rw [hresults hall] at h
    exact ⟨hall, Except.ok.inj h⟩
  · rintro ⟨hall, hselect⟩
    rw [hresults hall, hselect]

theorem passes_of_conjunction (h : ∀ f ∈ filters.tail, f.connective = .and) :
    c.passes filters = .ok true ↔ ∀ f ∈ filters, c.outcome f = .ok (some true) := by
  rw [passes_eq_ok_true_iff, FilterPredicate.selectBy_of_conjunction h]
  constructor
  · rintro ⟨hall, htrue⟩ f hf
    obtain ⟨t, ht⟩ := hall f hf
    have := htrue f hf
    rw [truth, ht] at this
    rw [ht]
    exact congrArg _ this
  · intro hall
    refine ⟨fun f hf => ⟨_, hall f hf⟩, fun f hf => ?_⟩
    rw [truth, hall f hf]
    rfl

/-- Filters pass on a row as on the combination it shows, if it shows their columns. -/
theorem passes_project {columns : List ColumnRef} (hnodup : (columns.map (·.outputName)).Nodup)
    (hcolumns : ∀ f ∈ filters, ⟨f.table, f.column⟩ ∈ columns) :
    Row.passes filters (c.project columns) = c.passes filters := by
  rw [Row.passes, passes]
  congr 1
  apply Outcome.mapM_congr
  intro f hf
  rw [outcome, ← get_project hnodup (hcolumns f hf)]
  rfl

theorem meets_iff {conditions : List JoinCondition} : c.meets conditions filters = true
    ↔ (∀ j ∈ conditions, c.joins j = true) ∧ c.passes filters = .ok true := by
  rw [meets, Bool.and_eq_true, List.all_eq_true, Outcome.toOption_beq_some]

end

end Combination

/-! ### Combinations of more tables -/

theorem combinations_append (tables : String → List Row) (placed added : List String) :
    combinations tables (placed ++ added)
      = (combinations tables placed).flatMap fun c => (combinations tables added).map (c.combine placed) := by
  induction placed with
  | nil =>
    have hnone : Combination.combine [] (fun _ => []) = id := by
      funext added other
      simp [Combination.combine]
    simp [combinations, hnone]
  | cons aliasName placed ih =>
    rw [List.cons_append, combinations, combinations, List.flatMap_assoc]
    apply List.flatMap_congr
    intro row _
    rw [ih, List.map_flatMap, List.flatMap_map]
    apply List.flatMap_congr
    intro c _
    rw [List.map_map]
    apply List.map_congr_left
    intro c' _
    funext other
    by_cases h : other = aliasName
    · subst h
      simp [Combination.combine]
    · simp [Combination.combine, h]

theorem combinations_perm (tables : String → List Row) {aliases others : List String} (h : aliases.Perm others)
    (hnodup : aliases.Nodup) : (combinations tables aliases).Perm (combinations tables others) := by
  induction h with
  | nil => exact .refl _
  | cons aliasName _ ih => exact List.Perm.flatMap_left _ fun row _ => (ih hnodup.of_cons).map _
  | swap aliasName other rest =>
    simp only [combinations, List.map_flatMap, List.map_map]
    refine (flatMap_perm_comm _ _ _).trans (List.Perm.of_eq ?_)
    have hne : aliasName ≠ other := by
      rintro rfl
      exact (List.nodup_cons.mp hnodup).1 List.mem_cons_self
    apply List.flatMap_congr
    intro row _
    apply List.flatMap_congr
    intro row' _
    apply List.map_congr_left
    intro c _
    exact Function.update_comm hne _ _ _
  | trans h _ ih ih' => exact (ih hnodup).trans (ih' (h.nodup_iff.mp hnodup))

end QueryFederation

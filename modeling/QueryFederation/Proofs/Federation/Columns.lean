import QueryFederation.Proofs.Federation.Plan
import QueryFederation.Proofs.Validation.Consistency

/-!
# Columns that are needed

A partition is asked for the needed columns of its tables, so the columns of some partitions are those of their tables
taken together. All of them are mentioned by the description: validation has made sure that they have names of their
own, and no row that is joined from those of partitions loses a value to another.
-/

namespace QueryFederation

variable {joins : List JoinCondition} {needed : List ColumnRef} {placed group : List String}

/-- The needed columns of some tables. -/
def columnsOf (needed : List ColumnRef) (placed : List String) : List ColumnRef :=
  placed.flatMap fun aliasName => needed.filter fun c => c.table = aliasName

theorem mem_columnsOf {c : ColumnRef} : c ∈ columnsOf needed placed ↔ c ∈ needed ∧ c.table ∈ placed := by
  rw [columnsOf, List.mem_flatMap]
  constructor
  · rintro ⟨aliasName, halias, hc⟩
    obtain ⟨hmem, htable⟩ := List.mem_filter.mp hc
    exact ⟨hmem, of_decide_eq_true htable ▸ halias⟩
  · rintro ⟨hmem, htable⟩
    exact ⟨c.table, htable, List.mem_filter.mpr ⟨hmem, decide_eq_true rfl⟩⟩

theorem columnsOf_append : columnsOf needed (placed ++ group) = columnsOf needed placed ++ columnsOf needed group :=
  List.flatMap_append

/-- Columns of which each has a name of its own. -/
structure NamesApart (needed : List ColumnRef) : Prop where
  nodup : needed.Nodup
  eq_of_name : ∀ c ∈ needed, ∀ c' ∈ needed, c.outputName = c'.outputName → c = c'

theorem NamesApart.nodup_names (h : NamesApart needed) (hplaced : placed.Nodup) :
    ((columnsOf needed placed).map (·.outputName)).Nodup := by
  apply List.Nodup.map_on
  · intro c hc c' hc' hname
    exact h.eq_of_name c (mem_columnsOf.mp hc).1 c' (mem_columnsOf.mp hc').1 hname
  · rw [columnsOf, List.nodup_flatMap]
    refine ⟨fun aliasName _ => h.nodup.filter _, hplaced.imp ?_⟩
    intro aliasName other hne c hc hc'
    rw [List.mem_filter, decide_eq_true_iff] at hc hc'
    exact hne (hc.2.symm.trans hc'.2)

/-- The columns that steps join on are ends of conditions. -/
theorem PlanFrom.exists_of_mem {groups : List (List String)} {steps : List JoinStep}
    (plan : PlanFrom joins placed groups steps) {step : JoinStep} (hstep : step ∈ steps) {pair : JoinPair}
    (hpair : pair ∈ step.pairs) : ∃ j ∈ joins, pair = j.pair ∨ pair = j.reversed.pair := by
  induction plan with
  | nil => cases hstep
  | cons perm tail ih =>
    rcases List.mem_cons.mp hstep with rfl | hstep
    · rw [JoinStep.pairs_ofConditions] at hpair
      obtain ⟨j, hj, rfl⟩ := List.mem_map.mp hpair
      refine ⟨j, (mem_conditionsBetween.mp hj).1, ?_⟩
      rw [JoinCondition.toward]
      split
      · exact Or.inl rfl
      · exact Or.inr rfl
    · exact ih hstep

namespace Description

variable {d : Description} {aggregates : Aggregates} {canJoin : String → Bool} {plan : FederationPlan}

theorem mem_neededColumns_of_step {join : JoinPlan} {residual : List FilterPredicate} {step : JoinStep}
    (hstep : step ∈ join.steps) {pair : JoinPair} (hpair : pair ∈ step.pairs) :
    pair.placed ∈ d.neededColumns aggregates join residual ∧ pair.added ∈ d.neededColumns aggregates join residual := by
  have hmem : ∀ c ∈ [pair.placed, pair.added], c ∈ d.neededColumns aggregates join residual := by
    intro c hc
    rw [neededColumns, mem_distinctItems]
    exact List.mem_append_right _ (List.mem_flatMap.mpr ⟨step, hstep, List.mem_flatMap.mpr ⟨pair, hpair, hc⟩⟩)
  exact ⟨hmem _ List.mem_cons_self, hmem _ (List.mem_cons_of_mem _ List.mem_cons_self)⟩

theorem mem_neededColumns_of_residual {join : JoinPlan} {residual : List FilterPredicate} {f : FilterPredicate}
    (hf : f ∈ residual) : ⟨f.table, f.column⟩ ∈ d.neededColumns aggregates join residual := by
  rw [neededColumns, mem_distinctItems]
  exact List.mem_append_left _ (List.mem_append_right _ (List.mem_map.mpr ⟨f, hf, rfl⟩))

namespace PlannedAs

variable {root : List String} {others : List (List String)} (h : d.PlannedAs aggregates canJoin plan root others)

include h

theorem neededColumns_subset :
    d.neededColumns aggregates plan.join plan.residual ⊆ d.mentionedColumns aggregates := by
  intro c hc
  rw [neededColumns, mem_distinctItems] at hc
  simp only [List.mem_append] at hc
  simp only [mentionedColumns, referredColumns, List.mem_append]
  rcases hc with (((hc | hc) | hc) | hc) | hc
  · obtain ⟨selected, hselected, rfl⟩ := List.mem_map.mp hc
    exact Or.inl (Or.inl (Or.inl (Or.inl (List.mem_map_of_mem (List.mem_of_mem_filter hselected)))))
  · exact Or.inl (Or.inl (Or.inl (Or.inr hc)))
  · refine Or.inr ?_
    obtain ⟨entry, hentry, hc⟩ := List.mem_flatMap.mp hc
    exact List.mem_flatMap.mpr ⟨entry, hentry, List.mem_mergeSort.mp hc⟩
  · obtain ⟨f, hf, rfl⟩ := List.mem_map.mp hc
    rw [h.residual] at hf
    exact Or.inl (Or.inl (Or.inr (List.mem_map.mpr ⟨f, List.mem_of_mem_filter hf, rfl⟩)))
  · obtain ⟨step, hstep, hc⟩ := List.mem_flatMap.mp hc
    obtain ⟨pair, hpair, hc⟩ := List.mem_flatMap.mp hc
    obtain ⟨j, hj, hends⟩ := h.planFrom.exists_of_mem hstep hpair
    refine Or.inl (Or.inr (List.mem_flatMap.mpr ⟨j, hj, ?_⟩))
    rcases hends with rfl | rfl
    · exact hc
    · exact (List.Perm.swap _ _ []).mem_iff.mp hc

theorem namesApart (hconsistent : d.IsConsistent aggregates) :
    NamesApart (d.neededColumns aggregates plan.join plan.residual) where
  nodup := nodup_distinctItems _
  eq_of_name c hc c' hc' :=
    hconsistent.eq_of_name c (h.neededColumns_subset hc) c' (h.neededColumns_subset hc')

/-- All tables together have all columns. -/
theorem columnsOf_perm (hconsistent : d.IsConsistent aggregates) {all : List String} (hall : all.Perm d.aliases) :
    (columnsOf (d.neededColumns aggregates plan.join plan.residual) all).Perm
      (d.neededColumns aggregates plan.join plan.residual) := by
  refine flatMap_filter_perm ColumnRef.table (hall.nodup_iff.mpr hconsistent.nodup_aliases) _ fun c hc => ?_
  exact hall.mem_iff.mpr (hconsistent.declared c (h.neededColumns_subset hc))

end PlannedAs

end Description

end QueryFederation

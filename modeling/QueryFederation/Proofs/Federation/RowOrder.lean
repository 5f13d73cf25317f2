import QueryFederation.Proofs.Federation.Failures
import QueryFederation.Proofs.Join.BuildSide
import QueryFederation.Proofs.Result.Rearrangement

/-!
# Results do not depend on the order of rows

Where a description has aggregates and is not cut into pages, and the values that it counts with are exact, nobody can
tell from its result in which order its rows came. So it does not show which side of a join was put into buckets, and in
which order sources have returned their rows: both only change the order of the joined rows.
-/

namespace QueryFederation

open Outcome

/-- Are these answers of the same partitions, each with its rows in some order? -/
def AreRearranged (answers answers' : List (Partition × List Row)) : Prop :=
  List.Forall₂ (fun answer answer' => answer.1 = answer'.1 ∧ answer.2.Perm answer'.2) answers answers'

variable {answers answers' : List (Partition × List Row)}

theorem AreRearranged.rowsOfGroup (h : AreRearranged answers answers') (group : List String) :
    (rowsOfGroup answers group).IsRearranged (rowsOfGroup answers' group) := by
  induction h with
  | nil => exact ⟨rfl, .nil⟩
  | @cons answer answer' _ _ hfirst _ ih =>
    obtain ⟨p, rows⟩ := answer
    obtain ⟨p', rows'⟩ := answer'
    obtain ⟨rfl, hperm⟩ := hfirst
    simp only [QueryFederation.rowsOfGroup, List.find?_cons] at ih ⊢
    cases p.aliases.contains (group.headD "") with
    | true => exact ⟨rfl, hperm⟩
    | false => exact ih

namespace Description

variable {d : Description} {cleanup : Cleanup}

/-- The step in memory, with the given side of every join in the buckets. -/
def joinPartitionsOn (side : BuildSide) (d : Description) (f : FederatedDescription) (order : List String)
    (answers : List (Partition × List Row)) : Outcome (List Row) := do
  let joined ← (f.plan.join.executeOn side (rowsOfGroup answers)).answer false
  d.materialize f.aggregates order f.plan.residual joined.rows

theorem joinPartitions_eq_joinPartitionsOn : joinPartitions = joinPartitionsOn .smaller := by
  funext d f order answers
  rw [joinPartitions, JoinPlan.execute_eq_executeOn]
  rfl

/--
A description with aggregates that is not cut into pages has the same rows as its result, in some order, for joined rows
in any order, provided that the arguments of its calls are integers or null, and the columns it groups by integers,
texts or null; or it fails for all of them. So it does, too, whichever sides of joins are put into buckets, and in
whatever order partitions answer with their rows.
-/
theorem row_order_does_not_show (h : (d.validate cleanup).isValid = true) (haggregates : d.hasAggregates = true)
    (hlimit : d.limit = none) (hoffset : d.offset = none) :
    ∃ aggregates order, d.analyzedAggregates (d.validate cleanup).replacements = .ok aggregates
      ∧ aggregates.dependencyOrder = .ok order
      ∧ (∀ residual rows rows', d.HasExactValues aggregates rows → rows.Perm rows' →
        Alike List.Perm (d.materialize aggregates order residual rows) (d.materialize aggregates order residual rows'))
      ∧ ∀ plan side answers answers', AreRearranged answers answers' →
        (∀ joined, (plan.join.execute (rowsOfGroup answers)).answer false = .ok joined →
          d.HasExactValues aggregates joined.rows) →
        Alike List.Perm (d.joinPartitions ⟨aggregates, plan⟩ order answers)
          (d.joinPartitionsOn side ⟨aggregates, plan⟩ order answers') := by
  obtain ⟨-, -, -, -, -, -, -, hgroups, -⟩ := isValid_iff.mp h
  obtain ⟨order, horder⟩ := exists_dependencyOrder_of_isValid h
  have hgrouped : d.isGrouped = true := by rw [isGrouped, haggregates, Bool.true_or]
  have hselected : ∀ c ∈ d.selectedColumns, c.outputName ∈ d.groupedNames := fun c hc =>
    groupErrors_eq_nil_iff.mp hgroups haggregates _ (List.mem_map_of_mem hc)
  refine ⟨_, order, analyzedAggregates_of_isValid h, horder, fun residual rows rows' hexact hperm => ?_, ?_⟩
  · exact materialize_perm hgrouped hselected hlimit hoffset residual hexact hperm
  · intro plan side answers answers' hanswers hexact
    rw [joinPartitions_eq_joinPartitionsOn, joinPartitionsOn, joinPartitionsOn]
    rw [JoinPlan.execute_eq_executeOn] at hexact
    have hjoined := ((plan.join.executeOn_alike .smaller side hanswers.rowsOfGroup).answer).and_left hexact
    exact hjoined.bind fun joined joined' hrows =>
      materialize_perm hgrouped hselected hlimit hoffset plan.residual hrows.2 hrows.1.rows

/-- Amounts that buyers have spent, where one is not known. -/
def spentAmounts : List (Partition × List Row) :=
  wholeTotalsPlan.partitions.zip [
    [[("o_amount", .integer 50), ("o_buyer", .integer 7)], [("o_amount", .null), ("o_buyer", .integer 8)],
      [("o_amount", .integer 20), ("o_buyer", .text "7")]],
    [[("b_name", .text "A"), ("b_id", .integer 7)], [("b_name", .null), ("b_id", .integer 8)]]]

/-- The same amounts, from sources that return their rows the other way round. -/
def spentAmountsReversed : List (Partition × List Row) := spentAmounts.map fun (p, rows) => (p, rows.reverse)

theorem areRearranged_spentAmounts : AreRearranged spentAmounts spentAmountsReversed := by
  rw [AreRearranged, spentAmountsReversed, List.forall₂_map_right_iff]
  exact List.forall₂_same.mpr fun answer _ => ⟨rfl, (List.reverse_perm _).symm⟩

/-- The rows of these answers, joined. -/
def spentRows : List Row :=
  [[("o_amount", .integer 50), ("o_buyer", .integer 7), ("b_name", .text "A"), ("b_id", .integer 7)],
    [("o_amount", .null), ("o_buyer", .integer 8), ("b_name", .null), ("b_id", .integer 8)],
    [("o_amount", .integer 20), ("o_buyer", .text "7"), ("b_name", .text "A"), ("b_id", .integer 7)]]

theorem hasExactValues_spentRows : wholeTotals.HasExactValues wholeTotalsAggregates spentRows where
  arguments := by
    have hamounts : ∀ row ∈ spentRows, ∃ v,
        Expression.evaluateFirst (.row row) [.column [⟨"o", false⟩] ⟨"amount", false⟩] = .ok v ∧ v.IsIntegerOrNull := by
      simp only [spentRows, List.forall_mem_cons]
      exact ⟨⟨_, by cbv, .integer 50⟩, ⟨_, by cbv, .null⟩, ⟨_, by cbv, .integer 20⟩, List.forall_mem_nil _⟩
    intro entry hentry call hcall _
    obtain rfl := List.mem_singleton.mp hentry
    obtain rfl := List.mem_singleton.mp hcall
    exact hamounts
  grouped := by
    have hnames : ∀ row ∈ spentRows, (Row.get row "b_name").IsElementary := by
      simp only [spentRows, List.forall_mem_cons]
      exact ⟨.text "A", .null, .text "A", List.forall_mem_nil _⟩
    exact fun row hrow => List.forall_mem_singleton.mpr (hnames row hrow)

/-- Totals of buyers are the same for rows the other way round, and with the larger side of the join in the buckets. -/
theorem row_order_of_spentAmounts :
    (wholeTotals.validate .strip).isValid = true ∧ wholeTotals.hasAggregates = true ∧ wholeTotals.limit = none
      ∧ wholeTotals.offset = none ∧ wholeTotals.HasExactValues wholeTotalsAggregates spentRows
      ∧ wholeTotals.materialize wholeTotalsAggregates ["total"] [] spentRows
        = .ok [[("b_name", .text "A"), ("total", .integer 70)], [("b_name", .null), ("total", .null)]]
      ∧ Alike List.Perm (wholeTotals.materialize wholeTotalsAggregates ["total"] [] spentRows)
        (wholeTotals.materialize wholeTotalsAggregates ["total"] [] spentRows.reverse)
      ∧ Alike List.Perm (wholeTotals.joinPartitions ⟨wholeTotalsAggregates, wholeTotalsPlan⟩ ["total"] spentAmounts)
        (wholeTotals.joinPartitionsOn (fun left right => left.length < right.length)
          ⟨wholeTotalsAggregates, wholeTotalsPlan⟩ ["total"] spentAmountsReversed) := by
  obtain ⟨hvalid, hanalyzed⟩ := isValid_wholeTotals
  obtain ⟨aggregates, order, hread, horder, hrows, hanswers⟩ := row_order_does_not_show hvalid rfl rfl rfl
  obtain rfl := Except.ok.inj (hanalyzed.symm.trans hread)
  have horder' : wholeTotalsAggregates.dependencyOrder = .ok ["total"] := by cbv
  obtain rfl := Except.ok.inj (horder'.symm.trans horder)
  have hjoined : (wholeTotalsPlan.join.execute (rowsOfGroup spentAmounts)).answer false
      = .ok ⟨["o_amount", "o_buyer", "b_name", "b_id"], spentRows⟩ := by
    cbv
  have hexact : ∀ joined, (wholeTotalsPlan.join.execute (rowsOfGroup spentAmounts)).answer false = .ok joined →
      wholeTotals.HasExactValues wholeTotalsAggregates joined.rows := by
    intro joined h
    obtain rfl := Except.ok.inj (hjoined.symm.trans h)
    exact hasExactValues_spentRows
  refine ⟨hvalid, rfl, rfl, rfl, hasExactValues_spentRows, by cbv, ?_, ?_⟩
  · exact hrows [] _ _ hasExactValues_spentRows (List.reverse_perm _).symm
  · exact hanswers _ _ _ _ areRearranged_spentAmounts hexact

end Description

end QueryFederation

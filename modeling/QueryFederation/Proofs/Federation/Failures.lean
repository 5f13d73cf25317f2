import QueryFederation.Proofs.Expression.Lanes
import QueryFederation.Proofs.Federation.Keys
import QueryFederation.Proofs.Join.Failures

/-!
# What fails without words once partitions have answered

Joined rows are filtered, grouped, aggregated, sorted and paged. A valid description has filters whose values their
operators can use, so these fail in words, and grouping, sorting and paging do not fail. What is left are two causes:
a row with a list or a record in its key, and an aggregate that meets an operand that it is not made for. The second
does not come up where arithmetic stays in its lane.
-/

namespace QueryFederation

open Outcome Value

/-! ### Filters -/

namespace Row

theorem tells_passes {filters : List FilterPredicate} (h : ∀ f ∈ filters, f.operator.valueProblem? f.value = none)
    (row : Row) : Tells (fun _ => True) (Row.passes filters row) := by
  have hresults : ∀ f ∈ filters, Tells (fun _ => True) (do
      return (f.connective, ← f.operator.holds (Row.get row f.outputName) f.value) : Outcome (Connective × Truth)) :=
    fun f hf => (FilterOperator.tells_holds_of_valueProblem? (h f hf) _).bind fun _ _ => trivial
  exact (Yields.mapM hresults).bind fun _ _ => trivial

theorem tells_passesHaving {having : List HavingPredicate}
    (h : ∀ p ∈ having, p.operator.valueProblem? p.value = none) (row : Row) :
    Tells (fun _ => True) (Row.passesHaving having row) := by
  have hresults : ∀ p ∈ having, Tells (fun _ => True) (do
      return (p.connective, ← p.operator.holds (Row.get row p.target) p.value) : Outcome (Connective × Truth)) :=
    fun p hp => (FilterOperator.tells_holds_of_valueProblem? (h p hp) _).bind fun _ _ => trivial
  exact (Yields.mapM hresults).bind fun _ _ => trivial

end Row

/-- Has the computation failed because a number is beyond a range? -/
def Outcome.hasOverflown {α : Type} : Outcome α → Bool
  | .error .overflow => true
  | _ => false

theorem Outcome.eq_error_of_hasOverflown {α : Type} {x : Outcome α} (h : x.hasOverflown = true) :
    x = .error .overflow := by
  unfold hasOverflown at h
  split at h
  · rfl
  · cases h

/-! ### Aggregates of groups -/

/-- Is there an aggregate of the group, the first in the order that has no value, whose evaluation has the fault? -/
def Aggregates.StopAt (aggregates : Aggregates) (order : List String) (members : List Row) (fault : Fault) : Prop :=
  ∃ before aliasName after computed a, order = before ++ aliasName :: after
    ∧ computeAggregates aggregates before members = .ok computed
    ∧ aggregates.lookup aliasName = some a ∧ a.tree.evaluate (.group members computed) = .error fault

section

variable {aggregates : Aggregates} {order : List String} {members : List Row} {fault : Fault}

theorem computeAggregates_eq_error_iff :
    computeAggregates aggregates order members = .error fault ↔ aggregates.StopAt order members fault := by
  rw [computeAggregates_eq, foldlM_eq_error_iff]
  constructor
  · rintro ⟨before, aliasName, after, computed, horder, hbefore, hstep⟩
    rw [computeStep] at hstep
    cases hlookup : aggregates.lookup aliasName with
    | none =>
      rw [hlookup] at hstep
      cases hstep
    | some a =>
      rw [hlookup] at hstep
      obtain hevaluate | ⟨_, -, hput⟩ := bind_eq_error_iff.mp hstep
      · exact ⟨before, aliasName, after, computed, a, horder, hbefore, hlookup, hevaluate⟩
      · cases hput
  · rintro ⟨before, aliasName, after, computed, a, horder, hbefore, hlookup, hevaluate⟩
    refine ⟨before, aliasName, after, computed, horder, hbefore, ?_⟩
    rw [computeStep, hlookup]
    exact bind_eq_error_iff.mpr (Or.inl hevaluate)

/-- Has every aggregate values in the lane of its alias, if the names in it have? -/
def Aggregates.HaveLanes (lanes : String → Lane) (aggregates : Aggregates) : Prop :=
  ∀ entry ∈ aggregates, entry.2.tree.HasLane lanes (lanes entry.1)

variable {lanes : String → Lane} {computed : Entries Value}

theorem tells_computeStep (haggregates : aggregates.HaveLanes lanes)
    (hmembers : ∀ row ∈ members, Entries.InLanes lanes row) (hcomputed : computed.InLanes lanes) (aliasName : String) :
    Tells (Entries.InLanes lanes) (computeStep aggregates members computed aliasName) := by
  rw [computeStep]
  cases hlookup : aggregates.lookup aliasName with
  | none => exact hcomputed
  | some a =>
    have hlane := haggregates _ (Entries.mem_of_lookup_eq_some hlookup)
    have hscope : (Scope.group members computed).InLanes lanes := ⟨hmembers, hcomputed⟩
    refine (hlane.tells_evaluate hscope).bind fun v hv entry hentry => ?_
    obtain rfl | hearlier := Entries.mem_of_mem_put hentry
    · exact hv
    · exact hcomputed entry hearlier

/-- Aggregates that have lanes stop a group in words only. -/
theorem tells_computeAggregates (haggregates : aggregates.HaveLanes lanes)
    (hmembers : ∀ row ∈ members, Entries.InLanes lanes row) :
    Tells (Entries.InLanes lanes) (computeAggregates aggregates order members) := by
  rw [computeAggregates_eq]
  refine Yields.foldlM (fun aliasName _ computed hcomputed => ?_) fun entry hentry => absurd hentry List.not_mem_nil
  exact tells_computeStep haggregates hmembers hcomputed aliasName

end

namespace Description

variable {d : Description} {aggregates : Aggregates} {order : List String} {rows members : List Row} {fault : Fault}

/-- Is there a group, the first that has no row, whose aggregates stop at the fault? -/
def StopsAt (d : Description) (aggregates : Aggregates) (order : List String) (rows : List Row) (fault : Fault) :
    Prop :=
  ∃ before members after, groupRows (d.groupBy.map (·.outputName)) rows = before ++ members :: after
    ∧ (∀ group ∈ before, ∃ computed, computeAggregates aggregates order group = .ok computed)
    ∧ aggregates.StopAt order members fault

theorem groupRow_eq_error_iff :
    d.groupRow aggregates order members = .error fault ↔ computeAggregates aggregates order members = .error fault := by
  rw [groupRow, bind_eq_error_iff]
  constructor
  · rintro (h | ⟨_, -, h⟩)
    · exact h
    · cases h
  · exact Or.inl

theorem exists_groupRow_iff : (∃ row, d.groupRow aggregates order members = .ok row)
    ↔ ∃ computed, computeAggregates aggregates order members = .ok computed := by
  rw [groupRow]
  constructor
  · rintro ⟨_, h⟩
    obtain ⟨computed, hcomputed, -⟩ := exists_of_bind_eq_ok h
    exact ⟨computed, hcomputed⟩
  · rintro ⟨computed, hcomputed⟩
    rw [hcomputed]
    exact ⟨_, rfl⟩

/-- Groups have no rows exactly where an aggregate stops, as far as failures without words go. -/
theorem groupedRows_eq_error_iff (hhaving : ∀ p ∈ d.having, p.operator.valueProblem? p.value = none)
    (hfault : fault.isOperandFailure = true) :
    d.groupedRows aggregates order rows = .error fault ↔ d.StopsAt aggregates order rows fault := by
  have htells : ∀ groups : List Row, Tells (fun _ => True)
      (if d.having.isEmpty then return groups
        else groups.filterM (Row.passesHaving d.having) : Outcome (List Row)) := by
    intro groups
    split
    · trivial
    · exact .filterM fun row _ => Row.tells_passesHaving hhaving row
  rw [groupedRows, bind_eq_error_iff, mapM_eq_error_iff]
  simp only [exists_groupRow_iff, groupRow_eq_error_iff, computeAggregates_eq_error_iff]
  constructor
  · rintro (h | ⟨groups, -, h⟩)
    · exact h
    · rw [(htells groups).of_eq_error h] at hfault
      cases hfault
  · exact Or.inl

theorem materialize_eq_error_iff {residual : List FilterPredicate}
    (hresidual : ∀ f ∈ residual, f.operator.valueProblem? f.value = none)
    (hhaving : ∀ p ∈ d.having, p.operator.valueProblem? p.value = none) (hfault : fault.isOperandFailure = true) :
    d.materialize aggregates order residual rows = .error fault
      ↔ ∃ kept, rows.filterM (Row.passes residual) = .ok kept ∧ d.isGrouped = true
        ∧ d.StopsAt aggregates order kept fault := by
  have htells : Tells (fun _ => True) (rows.filterM (Row.passes residual)) :=
    .filterM fun row _ => Row.tells_passes hresidual row
  rw [materialize_eq_bind, bind_eq_error_iff]
  constructor
  · rintro (h | ⟨kept, hkept, h⟩)
    · rw [htells.of_eq_error h] at hfault
      cases hfault
    · obtain h | ⟨_, -, h⟩ := bind_eq_error_iff.mp h
      · split at h
        · rename_i hgrouped
          exact ⟨kept, hkept, hgrouped, (groupedRows_eq_error_iff hhaving hfault).mp h⟩
        · cases h
      · cases h
  · rintro ⟨kept, hkept, hgrouped, hstops⟩
    refine Or.inr ⟨kept, hkept, bind_eq_error_iff.mpr (Or.inl ?_)⟩
    rw [if_pos hgrouped]
    exact (groupedRows_eq_error_iff hhaving hfault).mpr hstops

/-! ### The step in memory -/

/-- The rows of a result, where the deadline of the join may have passed. -/
def joinWithin (isExpired : Bool) (d : Description) (f : FederatedDescription) (order : List String)
    (answers : List (Partition × List Row)) : Outcome (List Row) := do
  let joined ← (f.plan.join.execute (rowsOfGroup answers)).answer isExpired
  d.materialize f.aggregates order f.plan.residual joined.rows

theorem joinPartitions_eq_joinWithin : joinPartitions = joinWithin false := rfl

/-- Why the step in memory fails without words: a key, or an aggregate. -/
def FailsWithoutWords (isExpired : Bool) (d : Description) (f : FederatedDescription) (order : List String)
    (answers : List (Partition × List Row)) (fault : Fault) : Prop :=
  fault = .operandType ∧ f.plan.join.MeetsUnhashableKey (rowsOfGroup answers) isExpired
    ∨ ∃ joined kept, (f.plan.join.execute (rowsOfGroup answers)).answer isExpired = .ok joined
      ∧ joined.rows.filterM (Row.passes f.plan.residual) = .ok kept ∧ d.isGrouped = true
      ∧ d.StopsAt f.aggregates order kept fault

variable {canJoin : String → Bool} {plan : FederationPlan} {cleanup : Cleanup} {f : FederatedDescription}
  {answers : List (Partition × List Row)} {isExpired : Bool}

theorem failsWithoutWords_of_joinWithin (hresidual : ∀ p ∈ f.plan.residual, p.operator.valueProblem? p.value = none)
    (hhaving : ∀ p ∈ d.having, p.operator.valueProblem? p.value = none) (hfault : fault.isOperandFailure = true)
    (h : d.joinWithin isExpired f order answers = .error fault) :
    d.FailsWithoutWords isExpired f order answers fault := by
  rw [joinWithin] at h
  obtain h | ⟨joined, hjoined, h⟩ := bind_eq_error_iff.mp h
  · exact Or.inl (JoinPlan.execute_eq_error h hfault)
  · obtain ⟨kept, hkept, hstops⟩ := (materialize_eq_error_iff hresidual hhaving hfault).mp h
    exact Or.inr ⟨joined, kept, hjoined, hkept, hstops⟩

theorem joinPartitions_eq_error_iff (hresidual : ∀ p ∈ f.plan.residual, p.operator.valueProblem? p.value = none)
    (hhaving : ∀ p ∈ d.having, p.operator.valueProblem? p.value = none) (hfault : fault.isOperandFailure = true) :
    d.joinPartitions f order answers = .error fault ↔ d.FailsWithoutWords false f order answers fault := by
  rw [joinPartitions_eq_joinWithin]
  refine ⟨failsWithoutWords_of_joinWithin hresidual hhaving hfault, ?_⟩
  rw [joinWithin]
  rintro (hkey | ⟨joined, kept, hjoined, hkept, hstops⟩)
  · exact bind_eq_error_iff.mpr (Or.inl ((JoinPlan.execute_eq_error_iff hfault).mpr hkey))
  · refine bind_eq_error_iff.mpr (Or.inr ⟨joined, hjoined, ?_⟩)
    exact (materialize_eq_error_iff hresidual hhaving hfault).mpr ⟨kept, hkept, hstops⟩

/-- The filters that a plan leaves until rows are joined are filters of the description. -/
theorem residual_subset (h : d.federationPlan? aggregates canJoin = some plan) : plan.residual ⊆ d.filters := by
  obtain ⟨root, others, hparts⟩ := federationPlan?_eq_some h
  rw [hparts.residual]
  exact fun f hf => List.mem_of_mem_filter hf

/-- The rows of groups are rows that partitions have answered with. -/
theorem forall_rowsOfGroup {P : Row → Prop} (h : ∀ answer ∈ answers, ∀ row ∈ answer.2, P row) (group : List String) :
    ∀ row ∈ (rowsOfGroup answers group).rows, P row := by
  intro row hrow
  rw [rowsOfGroup] at hrow
  split at hrow
  · rename_i p rows hfound
    exact h _ (List.mem_of_find?_eq_some hfound) row hrow
  · cases hrow

/-- Groups of rows that are in lanes have aggregates in lanes. -/
theorem StopsAt.isOperandFailure_eq_false (h : d.StopsAt aggregates order rows fault) {lanes : String → Lane}
    (haggregates : aggregates.HaveLanes lanes) (hrows : ∀ row ∈ rows, Entries.InLanes lanes row) :
    fault.isOperandFailure = false := by
  obtain ⟨before, members, after, hgroups, -, hstop⟩ := h
  have hmem : members ∈ groupRows (d.groupBy.map (·.outputName)) rows :=
    hgroups ▸ List.mem_append_right _ List.mem_cons_self
  have hmembers : ∀ row ∈ members, Entries.InLanes lanes row := fun row hrow => hrows row ((mem_groupRows hmem).1 hrow)
  exact (tells_computeAggregates haggregates hmembers).of_eq_error (computeAggregates_eq_error_iff.mpr hstop)

theorem FailsWithoutWords.isOperandFailure_eq_false (h : d.FailsWithoutWords isExpired f order answers fault)
    (hkeys : ∀ answer ∈ answers, ∀ row ∈ answer.2, row.HashableAt f.plan.join.keyNames) {lanes : String → Lane}
    (hrows : ∀ answer ∈ answers, ∀ row ∈ answer.2, Entries.InLanes lanes row)
    (haggregates : f.aggregates.HaveLanes lanes) : fault.isOperandFailure = false := by
  obtain ⟨-, hmeets⟩ | ⟨joined, kept, hjoined, hkept, -, hstops⟩ := h
  · exact absurd hmeets (JoinPlan.not_meetsUnhashableKey (forall_rowsOfGroup hkeys) isExpired)
  · have hvalues : ∀ row ∈ joined.rows, Entries.InLanes lanes row :=
      (JoinRun.of_execute hjoined).forall_entries (P := fun name v => (lanes name).Has v) (fun _ => .null)
        (forall_rowsOfGroup hrows _) (forall_rowsOfGroup hrows)
    refine hstops.isOperandFailure_eq_false haggregates fun row hrow => hvalues row ?_
    rw [filterM_eq_ok hkept] at hrow
    exact List.mem_of_mem_filter hrow

/-- The sums that buyers have spent, as whole numbers; the buyers are in another source than their orders. -/
def wholeTotals : Description where
  tables := [⟨"o", "shop", "orders", none⟩, ⟨"b", "crm", "buyers", none⟩]
  columns := [{ table := "b", column := "name" }]
  joins := [⟨"o", "buyer", "b", "id", .inner⟩]
  groupBy := [⟨"b", "name"⟩]
  aggregates := [⟨"CAST(SUM(o.amount) AS INT)", "total"⟩]

open Expression in
/-- The aggregates of `wholeTotals`. -/
def wholeTotalsAggregates : Aggregates :=
  [("total", .ofTree "total" ["total"]
    (cast (aggregate .sum [column [⟨"o", false⟩] ⟨"amount", false⟩]) ⟨.int, []⟩))]

/-- The plan of `wholeTotals`, if its sources can join. -/
def wholeTotalsPlan : FederationPlan where
  partitions := [
    { sourceId := "shop", aliases := ["o"], columns := [⟨"o", "amount"⟩, ⟨"o", "buyer"⟩] },
    { sourceId := "crm", aliases := ["b"], columns := [⟨"b", "name"⟩, ⟨"b", "id"⟩] }]
  join := ⟨["o"], [⟨["b"], some .inner, [⟨⟨"o", "buyer"⟩, ⟨"b", "id"⟩⟩], [⟨"o", "buyer", "b", "id", .inner⟩]⟩]⟩
  residual := []

/-- Two orders by one buyer, both of the same amount. -/
def wholeTotalsAnswers (amount : Value) : List (Partition × List Row) :=
  let order : Row := [("o_amount", amount), ("o_buyer", .integer 7)]
  wholeTotalsPlan.partitions.zip [[order, order], [[("b_name", .text "A"), ("b_id", .integer 7)]]]

/-- An amount that a double can be, though twice as much is beyond them. -/
def largeAmount : Value := .double (.finite (2 ^ 1023 : Nat))

theorem isValid_wholeTotals : (wholeTotals.validate .strip).isValid = true
    ∧ wholeTotals.analyzedAggregates (wholeTotals.validate .strip).replacements = .ok wholeTotalsAggregates := by
  have htokens : Token.ofText? "CAST(SUM(o.amount) AS INT)"
      = some [.word "CAST", .symbol "(", .word "SUM", .symbol "(", .word "o", .symbol ".", .word "amount", .symbol ")",
        .word "AS", .word "INT", .symbol ")"] := by decide +kernel
  have haccepts : AggregateFindings.Accepts ["total"] ["o", "b"] "total" "CAST(SUM(o.amount) AS INT)"
      (.ofTree "total" ["total"] (.cast (.aggregate .sum [.column [⟨"o", false⟩] ⟨"amount", false⟩]) ⟨.int, []⟩)) := by
    refine ⟨analyze_of_tokens htokens rfl nofun, by cbv, fun c hc => ?_⟩
    obtain rfl : c = ("o", "amount") := List.mem_singleton.mp hc
    decide
  have hfold : wholeTotals.allAggregates.zipIdx.foldl (AggregateFindings.check .strip
      (wholeTotals.allAggregates.map (·.aliasName)) wholeTotals.aliases) {}
        = { analyzed := wholeTotalsAggregates } := by
    change AggregateFindings.check .strip ["total"] ["o", "b"] {} (⟨"CAST(SUM(o.amount) AS INT)", "total"⟩, 0) = _
    rw [AggregateFindings.check_of_accepts _ (by decide) (by decide +kernel) haccepts]
    rfl
  have horder : wholeTotalsAggregates.dependencyOrder = .ok ["total"] := by cbv
  have hfindings : wholeTotals.aggregateFindings .strip = { analyzed := wholeTotalsAggregates } := by
    rw [aggregateFindings]
    simp only [hfold, horder]
  have hnames : wholeTotals.nameErrors wholeTotalsAggregates = [] :=
    nameErrors_eq_nil_iff.mpr ⟨by decide +kernel, by decide⟩
  have hvalid : (wholeTotals.validate .strip).isValid = true := by
    rw [isValid_iff, hfindings]
    exact ⟨by cbv, by cbv, by cbv, by cbv, rfl, by cbv, hnames, by cbv, by cbv, by cbv⟩
  refine ⟨hvalid, ?_⟩
  rw [analyzedAggregates_of_isValid hvalid, hfindings]

/-- The amounts and their sums are whole numbers. -/
def wholeTotalsLanes (name : String) : Lane := if name = "o_amount" ∨ name = "total" then .whole else .any

theorem haveLanes_wholeTotalsAggregates : wholeTotalsAggregates.HaveLanes wholeTotalsLanes := by
  have hamount : (Expression.column [⟨"o", false⟩] ⟨"amount", false⟩).HasLane wholeTotalsLanes .whole := .column _ _
  exact List.forall_mem_singleton.mpr (.castInteger (by cbv) (.sum (.first nofun) (by decide) hamount))

/-- The sum is infinite, and no whole number. -/
theorem joinPartitions_largeAmount :
    wholeTotals.joinPartitions ⟨wholeTotalsAggregates, wholeTotalsPlan⟩ ["total"] (wholeTotalsAnswers largeAmount)
      = .error .overflow := by
  have hoverflows : (wholeTotals.joinPartitions ⟨wholeTotalsAggregates, wholeTotalsPlan⟩ ["total"]
      (wholeTotalsAnswers largeAmount)).hasOverflown = true := by
    decide +kernel
  exact eq_error_of_hasOverflown hoverflows

end Description

end QueryFederation

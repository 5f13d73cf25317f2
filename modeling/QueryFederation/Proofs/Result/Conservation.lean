import QueryFederation.Proofs.Compilation.Aggregates
import QueryFederation.Proofs.Expression.ColumnCalls
import QueryFederation.Proofs.Result.Places
import QueryFederation.Proofs.Value.Sum

/-!
# What groups keep of the rows

A group stands for its rows: its row has what the first of them has in the columns grouped by, unless an aggregate goes
by the name of such a column, which validation does not let through. Over all groups nothing is lost: the numbers of
their rows add up to the number of all rows, and their sums of integers to the sum over all rows.
-/

namespace QueryFederation

open Expression

namespace Value

/-- The number of an integer; null counts as zero. -/
def integerOrZero (v : Value) : Int := v.integer?.getD 0

/-- What is not null among integers and nulls are integers, and together they make as much. -/
theorem exists_integers {vs : List Value} (h : ∀ v ∈ vs, v.IsIntegerOrNull) :
    ∃ ns : List Int, vs.filter (!·.isNull) = ns.map .integer ∧ ns.sum = (vs.map integerOrZero).sum := by
  induction vs with
  | nil => exact ⟨[], rfl, rfl⟩
  | cons v vs ih =>
    obtain ⟨hv, hvs⟩ := List.forall_mem_cons.mp h
    obtain ⟨ns, hns, hsum⟩ := ih hvs
    cases hv with
    | null => exact ⟨ns, hns, by rw [hsum, List.map_cons, List.sum_cons]; exact (Int.zero_add _).symm⟩
    | integer n => exact ⟨n :: ns, congrArg (Value.integer n :: ·) hns, congrArg (n + ·) hsum⟩

end Value

/-! ### Calls over the rows of a group -/

/-- Have all rows an integer or null under the key? -/
def Row.HaveIntegers (key : String) (rows : List Row) : Prop :=
  ∀ row ∈ rows, ∃ v, row.lookup key = some v ∧ v.IsIntegerOrNull

/-- The call that counts rows. -/
def Expression.countRows : Expression := .aggregate .count [.star]

section

variable {t c key : String} {rows members : List Row}

theorem Row.HaveIntegers.of_subset (h : Row.HaveIntegers key rows) (hmembers : members ⊆ rows) :
    Row.HaveIntegers key members := fun row hrow => h row (hmembers hrow)

theorem evaluate_countRows (rows : List Row) (computed : Entries Value) :
    evaluate (.group rows computed) countRows = .ok (.integer rows.length) := by
  rw [countRows, evaluate]
  rfl

/-- The sum over a column of integers and nulls is their sum, or null if there is no integer. -/
theorem exists_evaluate_sum (h : Row.HaveIntegers (columnKey t c) rows) :
    ∃ total : Value, total.IsIntegerOrNull
      ∧ (∀ computed, evaluate (.group rows computed) (columnCall .sum false t c) = .ok total)
      ∧ total.integerOrZero = (rows.map fun row => (Row.get row (columnKey t c)).integerOrZero).sum := by
  have hvalues : ∀ v ∈ rows.map fun row => Row.get row (columnKey t c), v.IsIntegerOrNull :=
    List.forall_mem_map.mpr fun row hrow => Row.get_of_exists_lookup (h row hrow)
  obtain ⟨ns, hns, hsum⟩ := Value.exists_integers hvalues
  rw [List.map_map] at hsum
  have hcall := evaluate_columnCall .sum false fun row hrow => (h row hrow).imp fun _ => And.left
  simp only [presentUnder, if_neg Bool.false_ne_true, hns] at hcall
  cases ns with
  | nil => exact ⟨.null, .null, hcall, hsum⟩
  | cons n ns =>
    refine ⟨.integer (n :: ns).sum, .integer _, fun computed => (hcall computed).trans ?_, hsum⟩
    have hnumbers : ((n :: ns).map Value.integer).map Value.asNumber = (n :: ns).map .integer := by
      rw [List.map_map]
      rfl
    exact (congrArg Value.sum hnumbers).trans (Value.sum_integers _)

end

/-- Is the aggregate with the alias the expression, and is it computed? -/
def Aggregates.Computes (aggregates : Aggregates) (order : List String) (aliasName : String) (e : Expression) : Prop :=
  aliasName ∈ order ∧ ∃ a, aggregates.lookup aliasName = some a ∧ a.tree = e

/-- Does every aggregate count rows, or add up a column of integers and nulls? -/
def Aggregates.CountOrSum (aggregates : Aggregates) (rows : List Row) : Prop :=
  ∀ entry ∈ aggregates, entry.2.tree = countRows
    ∨ ∃ t c, entry.2.tree = columnCall .sum false t c ∧ Row.HaveIntegers (columnKey t c) rows

/-! ### Rows of groups -/

namespace Description

variable {d : Description} {aggregates : Aggregates} {order : List String} {residual : List FilterPredicate}
  {rows kept members out : List Row} {group : Row} {aliasName : String} {e : Expression}

/-- The rows of the groups of those rows that pass the filters. -/
def aggregated (d : Description) (aggregates : Aggregates) (order : List String) (residual : List FilterPredicate)
    (rows : List Row) : Outcome (List Row) := do
  let kept ← rows.filterM (Row.passes residual)
  (groupRows d.groupedNames kept).mapM (d.groupRow aggregates order)

/-- The result is made of them: it has those that pass the filters on results, in order and cut into a page. -/
theorem materialize_of_isGrouped (h : d.isGrouped = true) (aggregates : Aggregates) (order : List String)
    (residual : List FilterPredicate) (rows : List Row) : d.materialize aggregates order residual rows = (do
      let groups ← d.aggregated aggregates order residual rows
      let groups ← (if d.having.isEmpty then pure groups else groups.filterM (Row.passesHaving d.having) :
        Outcome (List Row))
      return (d.page (sortRows d.sortColumns groups)).map (Row.project d.outputNames)) := by
  rw [materialize_eq_bind, aggregated, h]
  cases rows.filterM (Row.passes residual) with
  | error fault => rfl
  | ok kept => exact bind_assoc ((groupRows d.groupedNames kept).mapM (d.groupRow aggregates order)) _ _

/-- Do the rows of groups keep of all rows what they should? -/
structure KeepsRows (d : Description) (aggregates : Aggregates) (order : List String) (rows out : List Row) : Prop where
  /-- Every row is in one group with exactly one first row. -/
  divided : ∀ place < rows.length,
    ∃! first, first ∈ firstPlaces d.groupedNames rows ∧ Together d.groupedNames rows first place
  /-- There is one row for each of the first rows, in their order, with what that has in the columns grouped by. -/
  firsts : List.Forall₂ (fun first row => ∀ name ∈ d.groupedNames, name ∉ aggregates.keys →
    Row.get row name = Row.get (rows.getD first []) name) (firstPlaces d.groupedNames rows) out
  /-- A number of rows is that of the rows that are in one group with the first. -/
  counts : ∀ aliasName, aggregates.Computes order aliasName countRows →
    List.Forall₂ (fun first row => Row.get row aliasName = .integer (membersAt d.groupedNames rows first).length)
      (firstPlaces d.groupedNames rows) out
    ∧ (out.map fun row => (Row.get row aliasName).integerOrZero).sum = rows.length
  /-- Sums of integers are those over the groups, and add up to the sum over all rows. -/
  sums : ∀ aliasName t c, aggregates.Computes order aliasName (columnCall .sum false t c) →
    Row.HaveIntegers (columnKey t c) rows →
      List.Forall₂ (fun first row => (Row.get row aliasName).IsIntegerOrNull ∧ ∀ computed,
        evaluate (.group (membersAt d.groupedNames rows first) computed) (columnCall .sum false t c)
          = .ok (Row.get row aliasName)) (firstPlaces d.groupedNames rows) out
      ∧ ∃ total : Value, total.IsIntegerOrNull
        ∧ (∀ computed, evaluate (.group rows computed) (columnCall .sum false t c) = .ok total)
        ∧ (out.map fun row => (Row.get row aliasName).integerOrZero).sum = total.integerOrZero

/-- Under its alias the row of a group has the value of an aggregate, which may depend on those computed before. -/
theorem exists_evaluate_of_groupRow (h : d.groupRow aggregates order members = .ok group)
    (hcomputes : aggregates.Computes order aliasName e) :
    ∃ before, evaluate (.group members before) e = .ok (Row.get group aliasName) := by
  obtain ⟨horder, a, ha, rfl⟩ := hcomputes
  obtain ⟨computed, hcomputed, hget, -⟩ := exists_computed_of_groupRow h
  obtain ⟨before, v, hv, hlookup⟩ := exists_lookup_computeAggregates hcomputed ha horder
  exact ⟨before, (hget _ _ hlookup).symm ▸ hv⟩

/-- A column that is grouped by is as the first member has it, unless an aggregate goes by its name. -/
theorem get_groupRow_of_notMem (h : d.groupRow aggregates order members = .ok group) {name : String}
    (hname : name ∈ d.groupedNames) (hnot : name ∉ aggregates.keys) :
    Row.get group name = Row.get (members.headD []) name := by
  obtain ⟨g, hg, rfl⟩ := List.mem_map.mp hname
  obtain ⟨computed, hcomputed, -, hget⟩ := exists_computed_of_groupRow h
  exact hget g hg (Entries.lookup_eq_none_iff.mpr fun hmem => hnot ((mem_keys_computeAggregates hcomputed).mp hmem).2)

theorem get_groupRow_countRows (h : d.groupRow aggregates order members = .ok group)
    (hcomputes : aggregates.Computes order aliasName countRows) :
    Row.get group aliasName = .integer members.length := by
  obtain ⟨before, hevaluate⟩ := exists_evaluate_of_groupRow h hcomputes
  exact Except.ok.inj (hevaluate.symm.trans (evaluate_countRows members before))

theorem get_groupRow_sum {t c : String} (h : d.groupRow aggregates order members = .ok group)
    (hcomputes : aggregates.Computes order aliasName (columnCall .sum false t c))
    (hintegers : Row.HaveIntegers (columnKey t c) members) : ((Row.get group aliasName).IsIntegerOrNull
      ∧ ∀ computed, evaluate (.group members computed) (columnCall .sum false t c) = .ok (Row.get group aliasName))
    ∧ (Row.get group aliasName).integerOrZero
      = (members.map fun row => (Row.get row (columnKey t c)).integerOrZero).sum := by
  obtain ⟨before, hevaluate⟩ := exists_evaluate_of_groupRow h hcomputes
  obtain ⟨total, hinteger, htotal, hsum⟩ := exists_evaluate_sum hintegers
  obtain rfl : total = Row.get group aliasName := Except.ok.inj ((htotal before).symm.trans hevaluate)
  exact ⟨⟨hinteger, htotal⟩, hsum⟩

/-- The rows of groups keep of the rows what they should. -/
theorem keepsRows (hgrouped : d.groupBy ≠ [])
    (hout : (groupRows d.groupedNames rows).mapM (d.groupRow aggregates order) = .ok out) :
    d.KeepsRows aggregates order rows out := by
  have hnames : d.groupedNames ≠ [] := fun hnil => hgrouped (List.map_eq_nil_iff.mp hnil)
  have hgroups : List.Forall₂
      (fun first row => d.groupRow aggregates order (membersAt d.groupedNames rows first) = .ok row)
      (firstPlaces d.groupedNames rows) out := by
    have hall := Outcome.forall₂_of_mapM_eq_ok hout
    rwa [groupRows_eq hnames, List.forall₂_map_left_iff] at hall
  refine ⟨fun place hplace => existsUnique_firstPlace hplace, ?_, fun aliasName hcomputes => ?_,
    fun aliasName t c hcomputes hintegers => ?_⟩
  · exact forall₂_imp_of_mem hgroups fun first hfirst row hrow name hname hnot =>
      (get_groupRow_of_notMem hrow hname hnot).trans (by rw [headD_membersAt hfirst])
  · have hcounts := hgroups.imp fun _ _ hrow => get_groupRow_countRows hrow hcomputes
    have hones : List.Forall₂ (fun first row => (Row.get row aliasName).integerOrZero
        = ((membersAt d.groupedNames rows first).map fun _ => (1 : Int)).sum) (firstPlaces d.groupedNames rows) out :=
      hcounts.imp fun first row hrow => by simp [hrow, Value.integerOrZero, Value.integer?]
    exact ⟨hcounts, (sum_groups hnames hones).trans (by simp)⟩
  · have hsums := hgroups.imp fun _ _ hrow =>
      get_groupRow_sum hrow hcomputes (hintegers.of_subset membersAt_subset)
    obtain ⟨total, hinteger, htotal, hsum⟩ := exists_evaluate_sum hintegers
    exact ⟨hsums.imp fun _ _ => And.left, total, hinteger, htotal,
      (sum_groups hnames (hsums.imp fun _ _ => And.right)).trans hsum.symm⟩

/-- There are such rows if the aggregates have values for every group. -/
theorem exists_aggregated (hkept : rows.filterM (Row.passes residual) = .ok kept)
    (h : ∀ members ∈ groupRows d.groupedNames kept,
      ∃ computed, computeAggregates aggregates order members = .ok computed) :
    ∃ out, d.aggregated aggregates order residual rows = .ok out := by
  rw [aggregated, hkept]
  refine exists_mapM_eq_ok fun members hmembers => ?_
  obtain ⟨computed, hcomputed⟩ := h members hmembers
  rw [groupRow, hcomputed]
  exact ⟨_, rfl⟩

theorem exists_computed_of_countOrSum (h : aggregates.CountOrSum rows) (hmembers : members ⊆ rows)
    (order : List String) : ∃ computed, computeAggregates aggregates order members = .ok computed := by
  refine exists_computeAggregates order fun entry hentry before => ?_
  obtain htree | ⟨t, c, htree, hintegers⟩ := h entry hentry
  · exact ⟨_, htree ▸ evaluate_countRows members before⟩
  · obtain ⟨total, -, htotal, -⟩ := exists_evaluate_sum (hintegers.of_subset hmembers)
    exact ⟨total, htree ▸ htotal before⟩

/-- No aggregate of a valid description goes by the name of a column that is grouped by. -/
theorem ne_alias_of_isValid {cleanup : Cleanup} (h : (d.validate cleanup).isValid = true) {name : String}
    (hname : name ∈ d.groupedNames) : name ∉ d.allAggregates.map (·.aliasName) := by
  obtain ⟨-, -, -, -, -, houtput, hnames, -⟩ := isValid_iff.mp h
  have hnodup := nodup_of_repeated_eq_nil (List.map_eq_nil_iff.mp houtput)
  rw [outputNames, List.nodup_append] at hnodup
  intro halias
  obtain ⟨a, ha, rfl⟩ := List.mem_map.mp halias
  have hmentioned : d.groupBy ⊆ d.mentionedColumns (d.aggregateFindings cleanup).analyzed := by
    intro c hc
    simp [mentionedColumns, referredColumns, hc]
  have hselected := (nameErrors_eq_nil_iff.mp hnames).2 a ha (List.map_subset _ hmentioned hname)
  exact hnodup.2.2 _ hselected _ halias rfl

/--
Grouping loses and duplicates no row, whatever the description is: the rows of groups keep of the rows that pass the
filters what they should, and they are there if all aggregates count rows or add up integers; grouped by no column the
rows are one group. A column that is grouped by is only overwritten by an aggregate with its name, which no valid
description has.
-/
theorem grouping_conserves_rows (hgrouped : d.groupBy ≠ []) (aggregates : Aggregates) (order : List String)
    (hkept : rows.filterM (Row.passes residual) = .ok kept) :
    (∀ out, d.aggregated aggregates order residual rows = .ok out → d.KeepsRows aggregates order kept out)
      ∧ (aggregates.CountOrSum kept → ∃ out, d.aggregated aggregates order residual rows = .ok out)
      ∧ groupRows [] kept = [kept]
      ∧ ∀ cleanup, (d.validate cleanup).isValid = true →
        d.analyzedAggregates (d.validate cleanup).replacements = .ok aggregates →
          ∀ name ∈ d.groupedNames, name ∉ aggregates.keys := by
  refine ⟨fun out hout => ?_, fun hcalls => ?_, groupRows_nil kept, fun cleanup hvalid hanalyzed name hname => ?_⟩
  · rw [aggregated, hkept] at hout
    exact keepsRows hgrouped hout
  · exact exists_aggregated hkept fun members hmembers =>
      exists_computed_of_countOrSum hcalls (mem_groupRows hmembers).1 order
  · obtain ⟨-, -, -, -, -, houtput, -⟩ := isValid_iff.mp hvalid
    rw [keys_of_analyzedAggregates (nodup_of_outputErrors_eq_nil houtput) hanalyzed]
    exact ne_alias_of_isValid hvalid hname

/-- How many orders buyers have made, and for how much. -/
def ordersOfBuyers : Description where
  tables := [⟨"o", "shop", "orders", none⟩]
  columns := [{ table := "o", column := "by" }]
  groupBy := [⟨"o", "by"⟩]
  aggregates := [⟨"COUNT(*)", "n"⟩, ⟨"SUM(o.amount)", "total"⟩]

/-- The aggregates of `ordersOfBuyers`. -/
def ordersOfBuyersAggregates : Aggregates :=
  [("n", .ofTree "n" ["n", "total"] countRows),
    ("total", .ofTree "total" ["n", "total"] (columnCall .sum false "o" "amount"))]

/-- Orders under numbers for buyers, of which two are equal and two are none, and one under a truth value. -/
def ordersOfOddBuyers : List Row :=
  [[("o_id", .integer 1), ("o_by", .integer 1), ("o_amount", .integer 5)],
    [("o_id", .integer 2), ("o_by", .boolean true), ("o_amount", .null)],
    [("o_id", .integer 3), ("o_by", .double (.finite 1)), ("o_amount", .integer 3)],
    [("o_id", .integer 4), ("o_by", .double .nan), ("o_amount", .integer (-2))],
    [("o_id", .integer 5), ("o_by", .double .nan), ("o_amount", .null)],
    [("o_id", .null), ("o_by", .integer 1), ("o_amount", .integer 9)]]

/-- The equal numbers are one buyer, and the others are one each; an order without a number is no order. -/
theorem ordersOfOddBuyers_conserved : ordersOfBuyers.groupBy ≠ []
    ∧ ordersOfOddBuyers.filterM (Row.passes [⟨"o", "id", .isNotNull, .null, .and⟩])
      = .ok (ordersOfOddBuyers.take 5)
    ∧ firstPlaces ["o_by"] (ordersOfOddBuyers.take 5) = [0, 1, 3, 4]
    ∧ ∃ out, ordersOfBuyers.aggregated ordersOfBuyersAggregates ["n", "total"]
        [⟨"o", "id", .isNotNull, .null, .and⟩] ordersOfOddBuyers = .ok out
      ∧ ordersOfBuyers.KeepsRows ordersOfBuyersAggregates ["n", "total"] (ordersOfOddBuyers.take 5) out := by
  have hkept : ordersOfOddBuyers.filterM (Row.passes [⟨"o", "id", .isNotNull, .null, .and⟩])
      = .ok (ordersOfOddBuyers.take 5) := rfl
  have hgrouped : ordersOfBuyers.groupBy ≠ [] := List.cons_ne_nil _ _
  obtain ⟨hkeeps, hsome, -⟩ := grouping_conserves_rows hgrouped ordersOfBuyersAggregates ["n", "total"] hkept
  obtain ⟨out, hout⟩ := hsome <| by
    refine List.forall_mem_cons.mpr ⟨Or.inl rfl, List.forall_mem_singleton.mpr (Or.inr ⟨"o", "amount", rfl, ?_⟩)⟩
    simp only [Row.HaveIntegers, ordersOfOddBuyers, List.take_succ_cons, List.take_zero, List.forall_mem_cons]
    exact ⟨⟨_, rfl, .integer _⟩, ⟨_, rfl, .null⟩, ⟨_, rfl, .integer _⟩, ⟨_, rfl, .integer _⟩, ⟨_, rfl, .null⟩,
      List.forall_mem_nil _⟩
  exact ⟨hgrouped, hkept, by decide +kernel, out, hout, hkeeps out hout⟩

/-- The greatest amounts that buyers have spent, under the name of the buyers. -/
def amountsNamedAsBuyers : Description where
  tables := [⟨"o", "shop", "orders", none⟩]
  groupBy := [⟨"o", "by"⟩]
  aggregates := [⟨"MAX(o.amount)", "o_by"⟩]

/-- The aggregate of `amountsNamedAsBuyers`. -/
def greatestAmount : AnalyzedAggregate := .ofTree "o_by" ["o_by"] (columnCall .max false "o" "amount")

theorem analyzedAggregates_amountsNamedAsBuyers :
    amountsNamedAsBuyers.analyzedAggregates [] = .ok [("o_by", greatestAmount)] := by
  have htokens : Token.ofText? "MAX(o.amount)"
      = some [.word "MAX", .symbol "(", .word "o", .symbol ".", .word "amount", .symbol ")"] := by decide +kernel
  have hanalyze : AnalyzedAggregate.analyze "o_by" "MAX(o.amount)" ["o_by"] = .ok greatestAmount :=
    analyze_of_tokens htokens rfl nofun
  have hproblems : greatestAmount.problems = [] := by cbv
  have hone : analyzeAggregate ["o_by"] "o_by" "MAX(o.amount)" = .ok greatestAmount := by
    simp only [analyzeAggregate, hanalyze, hproblems]
  change [AggregateExpression.mk "MAX(o.amount)" "o_by"].foldlM (fun analyzed a =>
    analyzeAggregate ["o_by"] a.aliasName a.expression >>= fun b => .ok (Entries.put analyzed a.aliasName b)) [] = _
  rw [List.foldlM_cons, hone]
  rfl

/-- The amount takes the place of the buyer; validation does not let such a description through. -/
theorem amountsNamedAsBuyers_overwrite : amountsNamedAsBuyers.groupBy ≠ []
    ∧ amountsNamedAsBuyers.analyzedAggregates [] = .ok [("o_by", greatestAmount)]
    ∧ amountsNamedAsBuyers.aggregated [("o_by", greatestAmount)] ["o_by"] []
        [[("o_by", .integer 7), ("o_amount", .integer 5)], [("o_by", .integer 7), ("o_amount", .integer 9)]]
      = .ok [[("o_by", .integer 9)]]
    ∧ Row.get [("o_by", .integer 9)] "o_by" ≠ Row.get [("o_by", .integer 7), ("o_amount", .integer 5)] "o_by"
    ∧ ∀ cleanup, (amountsNamedAsBuyers.validate cleanup).isValid = false := by
  refine ⟨List.cons_ne_nil _ _, analyzedAggregates_amountsNamedAsBuyers, by cbv, by simp [Row.get], fun cleanup => ?_⟩
  have hgrouped : "o_by" ∈ amountsNamedAsBuyers.groupedNames := by decide
  rw [← Bool.not_eq_true]
  exact fun hvalid => ne_alias_of_isValid hvalid hgrouped (by decide)

end Description

end QueryFederation

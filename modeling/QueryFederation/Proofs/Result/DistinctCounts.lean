import QueryFederation.Proofs.Result.Conservation
import QueryFederation.Proofs.Value.Order

/-!
# Distinct values and groups

A count of distinct values compares each value with those before it, and grouping compares the key of each row with
those of the groups before it. Among nulls, numbers and texts a key is told apart from others as its value is. So the
groups by a column are its distinct values, in the same order, and there are as many with a value as the call counts.
-/

namespace QueryFederation

open Expression

/-! ### Values -/

namespace Value

/-- The values that keys of groups keep as they are, and that are the same as themselves. -/
inductive IsOrdinary : Value → Prop
  | null : IsOrdinary .null
  | number {v : Value} (h : v.IsQuantity) : IsOrdinary v
  | text (s : String) : IsOrdinary (.text s)

variable {v w : Value}

theorem IsOrdinary.isHashable (h : v.IsOrdinary) : v.isHashable = true := by
  cases h with
  | number h => exact h.isHashable
  | null | text => rfl

theorem IsOrdinary.ofValue_eq (h : v.IsOrdinary) : GroupKey.ofValue v = .value v := by
  cases h with
  | number h => cases h <;> rfl
  | null | text => rfl

theorem isNull_eq_of_same (h : same v w = true) : v.isNull = w.isNull := by
  cases v <;> cases w <;> simp_all [same, isNull, number?]

end Value

namespace Expression

theorem distinctValues_append_singleton (vs : List Value) (v : Value) : distinctValues (vs ++ [v])
    = if (distinctValues vs).any (Value.same v) then distinctValues vs else distinctValues vs ++ [v] := by
  rw [distinctValues, List.foldl_append]
  rfl

/-- Values that are not null are distinct whether or not there are nulls among them. -/
theorem distinctValues_present (vs : List Value) :
    distinctValues (vs.filter (!·.isNull)) = (distinctValues vs).filter (!·.isNull) := by
  induction vs using List.reverseRecOn with
  | nil => rfl
  | append_singleton vs v ih =>
    rw [List.filter_append, distinctValues_append_singleton]
    cases hnull : v.isNull with
    | true =>
      rw [List.filter_cons_of_neg (by simp [hnull]), List.filter_nil, List.append_nil, ih]
      split
      · rfl
      · simp [hnull]
    | false =>
      have hany : ((distinctValues vs).filter (!·.isNull)).any (Value.same v)
          = (distinctValues vs).any (Value.same v) := by
        rw [List.any_filter]
        refine List.any_congr rfl fun w => ?_
        cases hsame : Value.same v w with
        | false => rw [Bool.and_false]
        | true => rw [Bool.and_true, ← Value.isNull_eq_of_same hsame, hnull, Bool.not_false]
      rw [List.filter_cons_of_pos (by simp [hnull]), List.filter_nil, distinctValues_append_singleton, ih, hany]
      split
      · rfl
      · simp [hnull]

end Expression

/-! ### Groups -/

namespace Groups

variable {κ α β : Type} {same : κ → κ → Bool} {key : κ} {item : α} {groups : Groups κ α}

/-- What is read off the first items of groups stays, and a new group brings what is read off its item. -/
theorem map_firsts_add (firstOf : List α → β) (h : ∀ g ∈ groups, firstOf (g.2 ++ [item]) = firstOf g.2) :
    (add same key item groups).map (fun g => firstOf g.2)
      = if groups.any (fun g => same g.1 key) then groups.map (fun g => firstOf g.2)
        else groups.map (fun g => firstOf g.2) ++ [firstOf [item]] := by
  induction groups with
  | nil => rfl
  | cons group rest ih =>
    obtain ⟨k, items⟩ := group
    obtain ⟨hfirst, hrest⟩ := List.forall_mem_cons.mp h
    rw [add, List.any_cons]
    cases hsame : same k key with
    | true => simpa using hfirst
    | false =>
      rw [if_neg Bool.false_ne_true, List.map_cons, ih hrest, Bool.false_or]
      split <;> rfl

end Groups

section

variable {name : String} {rows : List Row}

/-- Rows are told apart by one column as their values are. -/
theorem sameList_ofRow_eq_same {row other : Row} (hrow : (Row.get row name).IsOrdinary)
    (hother : (Row.get other name).IsOrdinary) :
    GroupKey.sameList (GroupKey.ofRow [name] row) (GroupKey.ofRow [name] other)
      = Value.same (Row.get other name) (Row.get row name) := by
  rw [GroupKey.sameList_ofRow, List.all_cons, List.all_nil, Bool.and_true, hrow.ofValue_eq, hother.ofValue_eq,
    Value.same_comm hother.isHashable hrow.isHashable]
  rfl

/-- The value of the first of some rows. -/
def Row.firstValue (name : String) (members : List Row) : Value := Row.get (members.headD []) name

/-- A row brings a group with its value, unless a group has the same. -/
theorem map_firstValue_add {groups : Groups (List GroupKey) Row} {row : Row} (hrow : (Row.get row name).IsOrdinary)
    (hgroups : ∀ g ∈ groups, ∃ first others, g.2 = first :: others ∧ g.1 = GroupKey.ofRow [name] first
      ∧ (Row.get first name).IsOrdinary) :
    (Groups.add GroupKey.sameList (GroupKey.ofRow [name] row) row groups).map (fun g => Row.firstValue name g.2)
      = if (groups.map fun g => Row.firstValue name g.2).any (Value.same (Row.get row name)) then
          groups.map fun g => Row.firstValue name g.2
        else (groups.map fun g => Row.firstValue name g.2) ++ [Row.get row name] := by
  have hkept : ∀ g ∈ groups, Row.firstValue name (g.2 ++ [row]) = Row.firstValue name g.2 := by
    intro g hg
    obtain ⟨first, others, hitems, -⟩ := hgroups g hg
    rw [hitems]
    rfl
  have hseen : groups.any (fun g => GroupKey.sameList g.1 (GroupKey.ofRow [name] row))
      = (groups.map fun g => Row.firstValue name g.2).any (Value.same (Row.get row name)) := by
    rw [List.any_map, Bool.eq_iff_iff, List.any_eq_true, List.any_eq_true]
    refine exists_congr fun g => and_congr_right fun hg => ?_
    obtain ⟨first, others, hitems, hkey, hfirst⟩ := hgroups g hg
    rw [hkey, sameList_ofRow_eq_same hfirst hrow, Function.comp_apply, hitems]
    rfl
  rw [Groups.map_firsts_add (Row.firstValue name) hkept, hseen]
  rfl

/-- The first members of the groups by a column have its distinct values. -/
theorem map_firstValue_groupRows (h : ∀ row ∈ rows, (Row.get row name).IsOrdinary) :
    (groupRows [name] rows).map (Row.firstValue name) = distinctValues (rows.map fun row => Row.get row name) := by
  rw [groupRows_of_ne_nil (List.cons_ne_nil _ _), List.map_map]
  -- A row is compared with the groups of the rows before it, so the induction takes rows away at the end.
  induction rows using List.reverseRecOn with
  | nil => rfl
  | append_singleton rows row ih =>
    obtain ⟨hrows, hrow⟩ := List.forall_mem_append.mp h
    have hgroups : ∀ g ∈ Groups.ofPairs GroupKey.sameList (rows.map fun row => (GroupKey.ofRow [name] row, row)),
        ∃ first others, g.2 = first :: others ∧ g.1 = GroupKey.ofRow [name] first ∧ (Row.get first name).IsOrdinary :=
      Groups.exists_first_ofPairs (Q := fun key row => key = GroupKey.ofRow [name] row ∧ (Row.get row name).IsOrdinary)
        (List.forall_mem_map.mpr fun row hrow => ⟨rfl, hrows row hrow⟩)
    rw [List.map_append, List.map_append, List.map_singleton, List.map_singleton, distinctValues_append_singleton,
      ← ih hrows, Groups.ofPairs, List.foldl_append]
    exact map_firstValue_add (hrow row List.mem_cons_self) hgroups

end

/-! ### Results -/

namespace Description

variable {d : Description} {g : ColumnRef} {aggregates : Aggregates} {order : List String} {rows out : List Row}

/-- The rows of groups by a column have its distinct values. -/
theorem map_get_aggregated (hgroupBy : d.groupBy = [g]) (halias : g.outputName ∉ aggregates.keys)
    (h : ∀ row ∈ rows, (Row.get row g.outputName).IsOrdinary)
    (hout : d.aggregated aggregates order [] rows = .ok out) :
    out.map (fun row => Row.get row g.outputName) = distinctValues (rows.map fun row => Row.get row g.outputName) := by
  rw [aggregated, Row.filterM_passes_nil, groupedNames, hgroupBy] at hout
  rw [← map_firstValue_groupRows h, eq_comm, ← List.forall₂_eq_eq_eq, List.forall₂_map_left_iff,
    List.forall₂_map_right_iff]
  refine (Outcome.forall₂_of_mapM_eq_ok hout).imp fun members row hrow => ?_
  exact (get_groupRow_of_notMem hrow (by simp [groupedNames, hgroupBy]) halias).symm

/-- A result that is not filtered or cut has the values of the rows of groups, in its order. -/
theorem map_get_materialize (hgroupBy : d.groupBy = [g]) (hselected : g.outputName ∈ d.outputNames)
    (hhaving : d.having = []) (hlimit : d.limit = none) (hoffset : d.offset.getD 0 = 0)
    (hout : d.aggregated aggregates order [] rows = .ok out) :
    ∃ result, d.materialize aggregates order [] rows = .ok result
      ∧ (result.map fun row => Row.get row g.outputName).Perm (out.map fun row => Row.get row g.outputName) := by
  have hgrouped : d.isGrouped = true := by
    rw [isGrouped, hgroupBy, List.isEmpty_cons, Bool.not_false, Bool.or_true]
  refine ⟨(sortRows d.sortColumns out).map (Row.project d.outputNames), ?_, ?_⟩
  · rw [materialize_of_isGrouped hgrouped, hout, hhaving]
    simp [page, hlimit, hoffset]
  · have hvalues : ((sortRows d.sortColumns out).map (Row.project d.outputNames)).map
          (fun row => Row.get row g.outputName)
        = (sortRows d.sortColumns out).map fun row => Row.get row g.outputName := by
      rw [List.map_map]
      exact List.map_congr_left fun row _ => Row.get_project hselected row
    rw [hvalues]
    exact (sortRows_perm d.sortColumns out).map _

/--
A count of the distinct values of a column is the number of rows with a value of the column in the result of grouping
the same rows by it. The values are nulls, numbers and texts; the result is neither filtered nor cut, and reports the
column, and what else it computes for the groups can be computed.
-/
theorem countDistinct_counts_groups {t c : String} (hgroupBy : d.groupBy = [g]) (hkey : columnKey t c = g.outputName)
    (hselected : g.outputName ∈ d.outputNames) (halias : g.outputName ∉ aggregates.keys) (hhaving : d.having = [])
    (hlimit : d.limit = none) (hoffset : d.offset.getD 0 = 0)
    (hvalues : ∀ row ∈ rows, ∃ v, row.lookup g.outputName = some v ∧ v.IsOrdinary)
    (hcomputed : ∀ members ∈ groupRows [g.outputName] rows,
      ∃ computed, computeAggregates aggregates order members = .ok computed) :
    ∃ result, d.materialize aggregates order [] rows = .ok result
      ∧ ∀ computed, evaluate (.group rows computed) (columnCall .count true t c)
        = .ok (.integer (result.filter fun row => !(Row.get row g.outputName).isNull).length) := by
  have hordinary : ∀ row ∈ rows, (Row.get row g.outputName).IsOrdinary := fun row hrow =>
    Row.get_of_exists_lookup (hvalues row hrow)
  have hnames : d.groupedNames = [g.outputName] := by rw [groupedNames, hgroupBy, List.map_singleton]
  obtain ⟨out, hout⟩ := exists_aggregated (Row.filterM_passes_nil rows) (hnames ▸ hcomputed)
  obtain ⟨result, hresult, hperm⟩ := map_get_materialize hgroupBy hselected hhaving hlimit hoffset hout
  rw [map_get_aggregated hgroupBy halias hordinary hout] at hperm
  have hcount : (result.filter fun row => !(Row.get row g.outputName).isNull).length
      = (distinctValues (presentUnder g.outputName rows)).length := by
    calc (result.filter fun row => !(Row.get row g.outputName).isNull).length
        = ((result.map fun row => Row.get row g.outputName).filter (!·.isNull)).length := by
          rw [List.filter_map, List.length_map]
          rfl
      _ = ((distinctValues (rows.map fun row => Row.get row g.outputName)).filter (!·.isNull)).length :=
          (hperm.filter _).length_eq
      _ = (distinctValues (presentUnder g.outputName rows)).length := by rw [presentUnder, distinctValues_present]
  refine ⟨result, hresult, fun computed => ?_⟩
  rw [hcount, ← hkey]
  exact evaluate_columnCall .count true (fun row hrow => hkey ▸ (hvalues row hrow).imp fun _ => And.left) computed

/-- The codes of orders, each of them once. -/
def orderCodes : Description where
  tables := [⟨"o", "shop", "orders", none⟩]
  columns := [{ table := "o", column := "code" }]
  groupBy := [⟨"o", "code"⟩]
  orderBy := [⟨"o_code", true⟩]

/-- Orders with codes of several types, some of which are the same, and two without. -/
def codedOrders : List Row :=
  [[("o_code", .integer 1)], [("o_code", .text "1")], [("o_code", .null)], [("o_code", .double (.finite 1))],
    [("o_code", .decimal ⟨false, 10, -1⟩)], [("o_code", .integer 2)], [("o_code", .text "1")], [("o_code", .null)]]

/-- Two of the codes are numbers and one is a text, which are the rows with a code. -/
theorem codedOrders_counted : (∀ row ∈ codedOrders, ∃ v, row.lookup "o_code" = some v ∧ v.IsOrdinary)
    ∧ orderCodes.materialize [] [] [] codedOrders
      = .ok [[("o_code", .text "1")], [("o_code", .integer 2)], [("o_code", .integer 1)], [("o_code", .null)]]
    ∧ ∀ computed, evaluate (.group codedOrders computed) (columnCall .count true "o" "code") = .ok (.integer 3) := by
  have hvalues : ∀ row ∈ codedOrders, ∃ v, row.lookup "o_code" = some v ∧ v.IsOrdinary := by
    simp only [codedOrders, List.forall_mem_cons]
    exact ⟨⟨_, rfl, .number (.integer _)⟩, ⟨_, rfl, .text _⟩, ⟨_, rfl, .null⟩,
      ⟨_, rfl, .number (.double _ Double.noConfusion)⟩, ⟨_, rfl, .number (.decimal _)⟩, ⟨_, rfl, .number (.integer _)⟩,
      ⟨_, rfl, .text _⟩, ⟨_, rfl, .null⟩, List.forall_mem_nil _⟩
  have hresult : orderCodes.materialize [] [] [] codedOrders
      = .ok [[("o_code", .text "1")], [("o_code", .integer 2)], [("o_code", .integer 1)], [("o_code", .null)]] := by
    cbv
  have hcomputed : ∀ members ∈ groupRows ["o_code"] codedOrders,
      ∃ computed, computeAggregates [] [] members = .ok computed := fun _ _ => ⟨[], rfl⟩
  obtain ⟨result, hmaterialize, hcount⟩ := countDistinct_counts_groups (d := orderCodes) (g := ⟨"o", "code"⟩)
    (t := "o") (c := "code") rfl rfl (by decide) List.not_mem_nil rfl rfl rfl hvalues hcomputed
  obtain rfl := Except.ok.inj (hresult.symm.trans hmaterialize)
  exact ⟨hvalues, hresult, hcount⟩

end Description

end QueryFederation

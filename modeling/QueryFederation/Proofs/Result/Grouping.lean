import QueryFederation.Proofs.Compilation.Sql
import QueryFederation.Proofs.Result.Materialization
import QueryFederation.Proofs.Value.Equality

/-!
# What the members of a group agree in

The row of a group has its columns from the first member, whichever that is. This is no choice for a column that is
grouped by, because all members agree in it as far as groups tell values apart. Validation asks for the other columns
to be grouped by as well, though only beside aggregates: without them a group may have members that differ in a selected
column, and then it is reported as its first member has it.
-/

namespace QueryFederation

namespace GroupKey

/-- Is it a key that a value can have? -/
def IsPlain : GroupKey → Prop
  | value v => v.isHashable = true
  | _ => True

theorem isPlain_ofValue (v : Value) : (ofValue v).IsPlain := by
  cases v <;> trivial

/-- What is told apart from the same key by nothing is not told apart. -/
theorem same_of_same {key a b : GroupKey} (hkey : key.IsPlain) (ha : a.IsPlain) (hb : b.IsPlain)
    (hfirst : same key a = true) (hsecond : same key b = true) : same a b = true := by
  cases key with
  | value v =>
    cases a with
    | value w =>
      cases b with
      | value x => exact Value.same_trans ha hkey hb (Value.same_comm ha hkey ▸ hfirst) hsecond
      | _ => cases hsecond
    | _ => cases hfirst
  | truth | shown => cases a <;> cases b <;> simp_all [same]

theorem same_comm {a b : GroupKey} (ha : a.IsPlain) (hb : b.IsPlain) : same a b = same b a := by
  cases a with
  | value v =>
    cases b with
    | value w => exact Value.same_comm ha hb
    | _ => rfl
  | truth | shown => cases b <;> simp [same, eq_comm]

theorem sameList_ofRow (names : List String) (row other : Row) :
    sameList (ofRow names row) (ofRow names other)
      = names.all fun name => same (ofValue (Row.get row name)) (ofValue (Row.get other name)) := by
  induction names with
  | nil => rfl
  | cons name names ih =>
    rw [List.all_cons, ← ih]
    rfl

end GroupKey

/-- Have two rows the same under a name, as far as groups tell values apart? -/
def Row.Agree (name : String) (row other : Row) : Prop :=
  GroupKey.same (.ofValue (Row.get row name)) (.ofValue (Row.get other name)) = true

instance (name : String) (row other : Row) : Decidable (Row.Agree name row other) :=
  inferInstanceAs (Decidable (GroupKey.same _ _ = true))

instance (name : String) : Std.Symm (Row.Agree name) where
  symm _ _ h := by rwa [Row.Agree, GroupKey.same_comm (GroupKey.isPlain_ofValue _) (GroupKey.isPlain_ofValue _)]

namespace Groups

variable {κ α : Type} {same : κ → κ → Bool} {keyOf : α → κ}

/-- Has the group the key of its first item, and are the keys of its other items equal to that? -/
def IsKeyed (same : κ → κ → Bool) (keyOf : α → κ) (g : κ × List α) : Prop :=
  ∃ first others, g.2 = first :: others ∧ g.1 = keyOf first ∧ ∀ a ∈ others, same g.1 (keyOf a) = true

theorem isKeyed_add {item : α} {groups : Groups κ α} (h : ∀ g ∈ groups, IsKeyed same keyOf g) :
    ∀ g ∈ add same (keyOf item) item groups, IsKeyed same keyOf g := by
  induction groups with
  | nil => exact List.forall_mem_singleton.mpr ⟨item, [], rfl, rfl, List.forall_mem_nil _⟩
  | cons group rest ih =>
    obtain ⟨k, items⟩ := group
    obtain ⟨⟨first, others, hitems, hfirst, hothers⟩, hrest⟩ := List.forall_mem_cons.mp h
    rw [add]
    split
    · rename_i hsame
      refine List.forall_mem_cons.mpr ⟨⟨first, others ++ [item], congrArg (· ++ [item]) hitems, hfirst, ?_⟩, hrest⟩
      exact List.forall_mem_append.mpr ⟨hothers, List.forall_mem_singleton.mpr hsame⟩
    · exact List.forall_mem_cons.mpr ⟨h _ List.mem_cons_self, ih hrest⟩

theorem isKeyed_ofPairs (items : List α) :
    ∀ g ∈ ofPairs same (items.map fun item => (keyOf item, item)), IsKeyed same keyOf g := by
  induction items using List.reverseRecOn with
  | nil => exact List.forall_mem_nil _
  | append_singleton items item ih =>
    rw [List.map_append, ofPairs, List.foldl_append]
    exact isKeyed_add ih

end Groups

section

variable {columns : List String} {rows members : List Row} {name : String}

/-- The members of a group agree in what rows are grouped by. -/
theorem pairwise_agree_of_mem_groupRows (h : members ∈ groupRows columns rows) (hname : name ∈ columns) :
    members.Pairwise (Row.Agree name) := by
  rw [groupRows] at h
  split at h
  · rw [List.mem_singleton.mp h]
    exact .nil
  · obtain ⟨g, hg, rfl⟩ := List.mem_map.mp h
    obtain ⟨first, others, hitems, hfirst, hothers⟩ : Groups.IsKeyed GroupKey.sameList (GroupKey.ofRow columns) g :=
      Groups.isKeyed_ofPairs rows g hg
    have hagree : ∀ row ∈ others, Row.Agree name first row := by
      intro row hrow
      have hsame := hothers row hrow
      rw [hfirst, GroupKey.sameList_ofRow] at hsame
      exact List.all_eq_true.mp hsame name hname
    rw [hitems]
    refine List.pairwise_cons.mpr ⟨hagree, List.pairwise_of_forall_mem_list fun row hrow other hother => ?_⟩
    exact GroupKey.same_of_same (GroupKey.isPlain_ofValue _) (GroupKey.isPlain_ofValue _) (GroupKey.isPlain_ofValue _)
      (hagree row hrow) (hagree other hother)

/-- Members in another order may have another first one, which is a member all the same. -/
theorem headD_eq_or_mem {members arranged : List Row} (h : arranged.Perm members) :
    arranged.headD [] = members.headD [] ∨ arranged.headD [] ∈ members ∧ members.headD [] ∈ members := by
  cases arranged with
  | nil => exact Or.inl (by rw [List.nil_perm.mp h])
  | cons first others =>
    cases members with
    | nil => exact absurd h.eq_nil (List.cons_ne_nil _ _)
    | cons first' others' => exact Or.inr ⟨h.mem_iff.mp List.mem_cons_self, List.mem_cons_self⟩

/-- Rows that differ in a column that is not grouped by can be in one group. -/
theorem exists_differing_of_notMem (hname : name ∉ columns) :
    ∃ row other, groupRows columns [row, other] = [[row, other]] ∧ ¬Row.Agree name row other := by
  let row (n : Int) : Row := [(name, .integer n)]
  have hother : ∀ n, ∀ column ∈ columns, Row.get (row n) column = .null := by
    intro n column hcolumn
    have hne : (column == name) = false := beq_eq_false_iff_ne.mpr fun heq => hname (heq ▸ hcolumn)
    rw [Row.get, List.lookup_cons, hne]
    rfl
  have hown : ∀ n, Row.get (row n) name = .integer n := fun n => by simp [row, Row.get]
  have hsame : GroupKey.sameList (GroupKey.ofRow columns (row 0)) (GroupKey.ofRow columns (row 1)) = true := by
    rw [GroupKey.sameList_ofRow, List.all_eq_true]
    intro column hcolumn
    rw [hother 0 column hcolumn, hother 1 column hcolumn]
    rfl
  refine ⟨row 0, row 1, ?_, ?_⟩
  · simp only [groupRows, List.map_cons, List.map_nil, Groups.ofPairs, List.foldl_cons, List.foldl_nil, Groups.add,
      hsame, if_true, List.isEmpty_cons, Bool.and_false, if_neg Bool.false_ne_true]
    rfl
  · rw [Row.Agree, hown, hown]
    decide

end

namespace Description

variable {d : Description} {cleanup : Cleanup} {aggregates : Aggregates} {order : List String}
  {rows members arranged : List Row} {group group' : Row} {replacements : Entries String}

/-- A selected column is reported as the first member has it. -/
theorem get_groupRow_of_selected (houtput : d.outputErrors = [])
    (hanalyzed : d.analyzedAggregates replacements = .ok aggregates)
    (h : d.groupRow aggregates order members = .ok group) {c : SelectedColumn} (hc : c ∈ d.selectedColumns) :
    Row.get group c.outputName = Row.get (members.headD []) c.outputName := by
  have hnames := nodup_of_repeated_eq_nil (List.map_eq_nil_iff.mp houtput)
  rw [outputNames, List.nodup_append] at hnames
  obtain ⟨computed, hcomputed, hgroup⟩ := exists_of_bind_eq_ok h
  obtain rfl := Except.ok.inj hgroup
  have hnone : computed.lookup c.outputName = none := by
    refine Entries.lookup_eq_none_iff.mpr fun hmem => ?_
    have halias := ((mem_keys_computeAggregates hcomputed).mp hmem).2
    rw [keys_of_analyzedAggregates hnames.2.1 hanalyzed] at halias
    exact hnames.2.2 _ (List.mem_map_of_mem hc) _ halias rfl
  rw [Row.get, Entries.lookup_merge _ (nodup_keys_computeAggregates hcomputed), hnone, Option.none_or]
  have hcolumn : c.outputName ∈ d.selectedColumns.map (·.outputName) := List.mem_map_of_mem hc
  exact Row.get_project (List.mem_append_right _ hcolumn) _

/--
The members of a group, whatever the rows are, agree in a selected column if and only if it is grouped by, which beside
aggregates every one is. Then it does not matter which of the members comes first: the column is reported with the same
value, as far as groups tell values apart.
-/
theorem members_agree_iff_grouped (h : (d.validate cleanup).isValid = true) :
    ∃ aggregates, d.analyzedAggregates (d.validate cleanup).replacements = .ok aggregates
      ∧ ∀ c ∈ d.selectedColumns, (d.hasAggregates = true → c.outputName ∈ d.groupedNames)
        ∧ ((∀ rows, ∀ members ∈ groupRows d.groupedNames rows, members.Pairwise (Row.Agree c.outputName))
          ↔ c.outputName ∈ d.groupedNames)
        ∧ (c.outputName ∈ d.groupedNames → ∀ rows, ∀ members ∈ groupRows d.groupedNames rows,
          ∀ arranged, arranged.Perm members → ∀ order group group', d.groupRow aggregates order members = .ok group →
            d.groupRow aggregates order arranged = .ok group' →
              Row.get group' c.outputName = Row.get group c.outputName ∨ Row.Agree c.outputName group' group) := by
  obtain ⟨-, -, -, -, -, houtput, -, hgroups, -⟩ := isValid_iff.mp h
  have hanalyzed := analyzedAggregates_of_isValid h
  refine ⟨_, hanalyzed, fun c hc => ⟨?_, ⟨?_, ?_⟩, ?_⟩⟩
  · exact fun haggregates => groupErrors_eq_nil_iff.mp hgroups haggregates _ (List.mem_map_of_mem hc)
  · intro hagree
    by_contra hnot
    obtain ⟨row, other, hgroup, hdiffer⟩ := exists_differing_of_notMem hnot
    have hpair := hagree [row, other] [row, other] (hgroup ▸ List.mem_singleton.mpr rfl)
    exact hdiffer (List.pairwise_pair.mp hpair)
  · exact fun hgrouped rows members hmembers => pairwise_agree_of_mem_groupRows hmembers hgrouped
  · intro hgrouped rows members hmembers arranged hperm order group group' hgroup hgroup'
    have hagree := pairwise_agree_of_mem_groupRows hmembers hgrouped
    rw [Row.Agree, get_groupRow_of_selected houtput hanalyzed hgroup hc,
      get_groupRow_of_selected houtput hanalyzed hgroup' hc]
    by_cases heq : arranged.headD [] = members.headD []
    · exact Or.inl (by rw [heq])
    · obtain ⟨hfirst', hfirst⟩ := (headD_eq_or_mem hperm).resolve_left heq
      exact Or.inr (hagree.forall hfirst' hfirst heq)

/-- Orders by their buyers, one of each. -/
def orderOfBuyer : Description where
  tables := [⟨"o", "shop", "orders", none⟩]
  columns := [{ table := "o", column := "by" }, { table := "o", column := "id" }]
  groupBy := [⟨"o", "by"⟩]

/-- Two orders of one buyer. -/
def ordersOfOneBuyer : List Row :=
  [[("o_by", .integer 7), ("o_id", .integer 1)], [("o_by", .integer 7), ("o_id", .integer 2)]]

theorem isValid_orderOfBuyer : (orderOfBuyer.validate .strip).isValid = true := by
  rw [isValid_iff]
  exact ⟨by cbv, by cbv, by cbv, by cbv, by cbv, by cbv, nameErrors_eq_nil_iff.mpr ⟨by decide +kernel, by decide⟩,
    by cbv, by cbv, by cbv⟩

/-- The buyer is the same for all members of a group, and the number of the order is not. -/
theorem orderOfBuyer_agree : (orderOfBuyer.validate .strip).isValid = true
    ∧ (∀ rows, ∀ members ∈ groupRows ["o_by"] rows, members.Pairwise (Row.Agree "o_by"))
    ∧ ¬∀ rows, ∀ members ∈ groupRows ["o_by"] rows, members.Pairwise (Row.Agree "o_id") := by
  obtain ⟨aggregates, -, hselected⟩ := members_agree_iff_grouped isValid_orderOfBuyer
  have hnames : orderOfBuyer.groupedNames = ["o_by"] := by decide
  rw [hnames] at hselected
  obtain ⟨-, hby, -⟩ := hselected { table := "o", column := "by" } (by decide)
  obtain ⟨-, hid, -⟩ := hselected { table := "o", column := "id" } (by decide)
  exact ⟨isValid_orderOfBuyer, hby.mpr (by decide), hid.not.mpr (by decide)⟩

/-- Two orders of one buyer are a group, and whichever comes first is reported. -/
theorem orderOfBuyer_differs : (orderOfBuyer.validate .strip).isValid = true ∧ orderOfBuyer.isGrouped = true
    ∧ groupRows orderOfBuyer.groupedNames ordersOfOneBuyer = [ordersOfOneBuyer]
    ∧ ¬ordersOfOneBuyer.Pairwise (Row.Agree "o_id")
    ∧ orderOfBuyer.materialize [] [] [] ordersOfOneBuyer = .ok [[("o_by", .integer 7), ("o_id", .integer 1)]]
    ∧ orderOfBuyer.materialize [] [] [] ordersOfOneBuyer.reverse
      = .ok [[("o_by", .integer 7), ("o_id", .integer 2)]] :=
  ⟨isValid_orderOfBuyer, rfl, by cbv, by decide, by cbv, by cbv⟩

end Description

end QueryFederation

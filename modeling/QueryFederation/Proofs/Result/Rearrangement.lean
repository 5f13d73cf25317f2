import QueryFederation.Proofs.Expression.Calls
import QueryFederation.Proofs.Result.Grouping

/-!
# Rows in another order

Aggregates do not depend on the order of joined rows, where the arguments of calls are integers or null, and columns
that are grouped by hold integers, texts or null. Keys of groups are then equal or differ, so a group consists of the
rows that have its key. Rows in another order give the same groups in another order, and their members in another order.
-/

namespace QueryFederation

/-- The values among which equality of meaning is equality. -/
inductive Value.IsElementary : Value → Prop
  | null : IsElementary .null
  | integer (n : Int) : IsElementary (.integer n)
  | text (s : String) : IsElementary (.text s)

namespace GroupKey

variable {v w : Value}

theorem same_ofValue_iff (hv : v.IsElementary) (hw : w.IsElementary) : same (ofValue v) (ofValue w) = true ↔ v = w := by
  cases hv <;> cases hw <;> simp [ofValue, same, Value.same, Value.number?]

theorem ofValue_eq_iff (hv : v.IsElementary) (hw : w.IsElementary) : ofValue v = ofValue w ↔ v = w := by
  cases hv <;> cases hw <;> simp [ofValue]

end GroupKey

/-! ### Groups -/

namespace Groups

variable {κ α : Type} [BEq κ] [LawfulBEq κ] {same : κ → κ → Bool} {keyOf : α → κ}

/-- An item is added to the members under its key, of which there are none if the key is new. -/
theorem add_map {key : κ} (item : α) {keys : List κ} (members : κ → List α)
    (hsame : ∀ k ∈ keys, same k key = (k == key)) (hnodup : keys.Nodup) (hnew : key ∉ keys → members key = []) :
    add same key item (keys.map fun k => (k, members k))
      = (if keys.contains key then keys else keys ++ [key]).map fun k =>
        (k, members k ++ if k == key then [item] else []) := by
  induction keys with
  | nil => simp [add, hnew List.not_mem_nil]
  | cons k keys ih =>
    obtain ⟨hfirst, hothers⟩ := List.forall_mem_cons.mp hsame
    obtain ⟨hk, hkeys⟩ := List.nodup_cons.mp hnodup
    rw [List.map_cons, add, hfirst]
    by_cases heq : k = key
    · subst heq
      have hrest : ∀ l ∈ keys, (l == k) = false := fun l hl => beq_eq_false_iff_ne.mpr fun h => hk (h ▸ hl)
      have hkept : keys.map (fun l => (l, members l ++ if l == k then [item] else []))
          = keys.map fun l => (l, members l) :=
        List.map_congr_left fun l hl => by rw [hrest l hl, if_neg Bool.false_ne_true, List.append_nil]
      simp [hkept]
    · have hmem : key ∈ k :: keys ↔ key ∈ keys := by simp [Ne.symm heq]
      rw [if_neg (by simpa using heq), ih hothers hkeys fun hnot => hnew (hmem.not.mpr hnot)]
      by_cases hin : key ∈ keys <;> simp [hin, heq, Ne.symm heq]

/-- Where keys are told apart as they are, a group is the items that have its key. -/
theorem ofPairs_eq_map (items : List α)
    (hsame : ∀ a ∈ items, ∀ b ∈ items, same (keyOf a) (keyOf b) = (keyOf a == keyOf b)) :
    ofPairs same (items.map fun item => (keyOf item, item))
      = (distinctItems (items.map keyOf)).map fun key => (key, items.filter fun item => key == keyOf item) := by
  -- Keys come up in the order of their first items, so a new item is added behind all others.
  induction items using List.reverseRecOn with
  | nil => rfl
  | append_singleton items item ih =>
    simp only [List.forall_mem_append, List.forall_mem_singleton] at hsame
    have hkeys : ∀ k ∈ distinctItems (items.map keyOf), same k (keyOf item) = (k == keyOf item) := by
      intro k hk
      obtain ⟨a, ha, rfl⟩ := List.mem_map.mp (mem_distinctItems.mp hk)
      exact (hsame.1 a ha).2
    have hnew : keyOf item ∉ distinctItems (items.map keyOf) → items.filter (fun a => keyOf item == keyOf a) = [] := by
      intro hnot
      refine List.filter_eq_nil_iff.mpr fun a ha heq => hnot (mem_distinctItems.mpr ?_)
      exact eq_of_beq heq ▸ List.mem_map_of_mem ha
    have hstep : distinctItems ((items ++ [item]).map keyOf)
        = if (distinctItems (items.map keyOf)).contains (keyOf item) then distinctItems (items.map keyOf)
          else distinctItems (items.map keyOf) ++ [keyOf item] := by
      rw [distinctItems, List.map_append, List.foldl_append]
      rfl
    rw [List.map_append, ofPairs, List.foldl_append]
    change add same (keyOf item) item (ofPairs same _) = _
    have hadd := add_map item (fun key => items.filter fun a => key == keyOf a) hkeys (nodup_distinctItems _) hnew
    rw [ih fun a ha b hb => (hsame.1 a ha).1 b hb, hadd, hstep]
    refine List.map_congr_left fun k _ => ?_
    rw [List.filter_append, List.filter_cons, List.filter_nil]

end Groups

section

variable {columns : List String} {rows rows' members : List Row}

/-- Have the columns of all rows values among which equality of meaning is equality? -/
def Row.AreElementary (columns : List String) (rows : List Row) : Prop :=
  ∀ row ∈ rows, ∀ column ∈ columns, (Row.get row column).IsElementary

theorem groupRows_perm (hperm : rows.Perm rows') (h : Row.AreElementary columns rows) :
    ∃ groups, (groupRows columns rows).Perm groups ∧ List.Forall₂ List.Perm groups (groupRows columns rows') := by
  classical
  have hsame : ∀ a ∈ rows, ∀ b ∈ rows, GroupKey.sameList (GroupKey.ofRow columns a) (GroupKey.ofRow columns b)
      = (GroupKey.ofRow columns a == GroupKey.ofRow columns b) := by
    intro a ha b hb
    rw [Bool.eq_iff_iff, GroupKey.sameList_ofRow, List.all_eq_true, beq_iff_eq, GroupKey.ofRow, GroupKey.ofRow,
      List.map_inj_left]
    refine forall₂_congr fun column hcolumn => ?_
    rw [GroupKey.same_ofValue_iff (h a ha column hcolumn) (h b hb column hcolumn),
      GroupKey.ofValue_eq_iff (h a ha column hcolumn) (h b hb column hcolumn)]
  have hsame' : ∀ a ∈ rows', ∀ b ∈ rows', GroupKey.sameList (GroupKey.ofRow columns a) (GroupKey.ofRow columns b)
      = (GroupKey.ofRow columns a == GroupKey.ofRow columns b) :=
    fun a ha b hb => hsame a (hperm.mem_iff.mpr ha) b (hperm.mem_iff.mpr hb)
  have hkeys := distinctItems_perm (hperm.map (GroupKey.ofRow columns))
  simp only [groupRows, Groups.ofPairs_eq_map rows hsame, Groups.ofPairs_eq_map rows' hsame', List.isEmpty_map,
    hkeys.isEmpty_eq, List.map_map]
  split
  · exact ⟨[[]], .refl _, .cons .nil .nil⟩
  -- In between are the groups of the first rows, in the order in which the others have their keys.
  · refine ⟨_, hkeys.map _, ?_⟩
    rw [List.forall₂_map_left_iff, List.forall₂_map_right_iff]
    exact List.forall₂_same.mpr fun key _ => hperm.filter _

/-- The members of a group have the same in the columns that are grouped by. -/
theorem get_eq_of_mem_groupRows (h : Row.AreElementary columns rows) (hmembers : members ∈ groupRows columns rows)
    {column : String} (hcolumn : column ∈ columns) {row other : Row} (hrow : row ∈ members) (hother : other ∈ members) :
    Row.get row column = Row.get other column := by
  by_cases heq : row = other
  · rw [heq]
  · have hagree : Row.Agree column row other :=
      (pairwise_agree_of_mem_groupRows hmembers hcolumn).forall hrow hother heq
    have hsubset := (mem_groupRows hmembers).1
    exact (GroupKey.same_ofValue_iff (h row (hsubset hrow) column hcolumn) (h other (hsubset hother) column hcolumn)).mp
      hagree

end

/-! ### Results -/

namespace Description

variable {d : Description} {aggregates : Aggregates} {order : List String} {rows rows' members members' : List Row}

/-- Are all arguments of calls integers or null, and all columns grouped by integers, texts or null? -/
structure HasExactValues (d : Description) (aggregates : Aggregates) (rows : List Row) : Prop where
  arguments : ∀ entry ∈ aggregates, ∀ call ∈ entry.2.tree.calls, Expression.countsRows call.1 call.2 = false →
    ∀ row ∈ rows, ∃ v, Expression.evaluateFirst (.row row) call.2 = .ok v ∧ v.IsIntegerOrNull
  grouped : Row.AreElementary d.groupedNames rows

theorem HasExactValues.of_subset (h : d.HasExactValues aggregates rows) (hmembers : members ⊆ rows) :
    d.HasExactValues aggregates members where
  arguments entry hentry call hcall hcounts row hrow := h.arguments entry hentry call hcall hcounts row (hmembers hrow)
  grouped row hrow := h.grouped row (hmembers hrow)

theorem computeAggregates_perm (h : d.HasExactValues aggregates members) (hperm : members.Perm members')
    (order : List String) :
    computeAggregates aggregates order members = computeAggregates aggregates order members' := by
  rw [computeAggregates_eq, computeAggregates_eq]
  refine Outcome.foldlM_congr (fun aliasName _ computed => ?_) []
  rw [computeStep, computeStep]
  cases hlookup : aggregates.lookup aliasName with
  | none => rfl
  | some a =>
    have hcalls := h.arguments _ (Entries.mem_of_lookup_eq_some hlookup)
    have hsame : ∀ call ∈ a.tree.calls, Expression.SameCall members members' computed call := fun call hcall =>
      Expression.sameCall_of_perm hperm (hcalls call hcall) computed
    dsimp only
    rw [Expression.evaluate_congr a.tree hsame]

/-- Any member can come first, since all of them have the same in the columns that are reported. -/
theorem groupRow_perm (hselected : ∀ c ∈ d.selectedColumns, c.outputName ∈ d.groupedNames)
    (h : d.HasExactValues aggregates rows) (hmembers : members ∈ groupRows d.groupedNames rows)
    (hperm : members.Perm members') : d.groupRow aggregates order members = d.groupRow aggregates order members' := by
  have hcomputed := computeAggregates_perm (h.of_subset (mem_groupRows hmembers).1) hperm order
  have hfirst : ∀ column ∈ d.groupBy.map (·.outputName) ++ d.selectedColumns.map (·.outputName),
      Row.get (members.headD []) column = Row.get (members'.headD []) column := by
    intro column hcolumn
    have hgrouped : column ∈ d.groupedNames := by
      obtain hcolumn | hcolumn := List.mem_append.mp hcolumn
      · exact hcolumn
      · obtain ⟨c, hc, rfl⟩ := List.mem_map.mp hcolumn
        exact hselected c hc
    obtain heq | ⟨hfirst', hfirst⟩ := headD_eq_or_mem hperm.symm
    · rw [heq]
    · exact get_eq_of_mem_groupRows h.grouped hmembers hgrouped hfirst hfirst'
  have hproject : Row.project (d.groupBy.map (·.outputName) ++ d.selectedColumns.map (·.outputName)) (members.headD [])
      = Row.project (d.groupBy.map (·.outputName) ++ d.selectedColumns.map (·.outputName)) (members'.headD []) :=
    congrArg Entries.ofPairs (List.map_congr_left fun column hcolumn => by rw [hfirst column hcolumn])
  rw [groupRow, groupRow, hcomputed, hproject]

theorem groupedRows_perm (hselected : ∀ c ∈ d.selectedColumns, c.outputName ∈ d.groupedNames)
    (h : d.HasExactValues aggregates rows) (hperm : rows.Perm rows') :
    Outcome.Alike List.Perm (d.groupedRows aggregates order rows) (d.groupedRows aggregates order rows') := by
  obtain ⟨groups, hgroups, hmembers⟩ := groupRows_perm hperm h.grouped
  have hrows : groups.mapM (d.groupRow aggregates order)
      = (groupRows d.groupedNames rows').mapM (d.groupRow aggregates order) :=
    Outcome.mapM_eq_of_forall₂ (forall₂_imp_of_mem hmembers fun members hmem members' =>
      groupRow_perm hselected h (hgroups.mem_iff.mpr hmem))
  have halike : Outcome.Alike List.Perm ((groupRows d.groupedNames rows).mapM (d.groupRow aggregates order))
      ((groupRows d.groupedNames rows').mapM (d.groupRow aggregates order)) :=
    hrows ▸ Outcome.Alike.mapM_perm _ hgroups
  rw [groupedRows, groupedRows]
  refine halike.bind fun out out' hout => ?_
  split
  · exact .ok hout
  · exact .filterM_perm _ hout

/-- Rows in another order have the same result, in another order, unless it is cut into pages. -/
theorem materialize_perm (hgrouped : d.isGrouped = true)
    (hselected : ∀ c ∈ d.selectedColumns, c.outputName ∈ d.groupedNames) (hlimit : d.limit = none)
    (hoffset : d.offset = none) (residual : List FilterPredicate) (h : d.HasExactValues aggregates rows)
    (hperm : rows.Perm rows') : Outcome.Alike List.Perm (d.materialize aggregates order residual rows)
      (d.materialize aggregates order residual rows') := by
  have hpage : ∀ out : List Row, (d.page (sortRows d.sortColumns out)).Perm out := by
    intro out
    rw [page, hlimit, hoffset]
    exact sortRows_perm d.sortColumns out
  have hkept : Outcome.Alike (fun kept kept' => List.Perm kept kept' ∧ kept ⊆ rows)
      (rows.filterM (Row.passes residual)) (rows'.filterM (Row.passes residual)) :=
    (Outcome.Alike.filterM_perm _ hperm).and_left fun kept hkept =>
      Outcome.filterM_eq_ok hkept ▸ List.filter_subset_self _
  rw [materialize_eq_bind, materialize_eq_bind, hgrouped]
  refine hkept.bind fun kept kept' hrows => ?_
  refine (groupedRows_perm hselected (h.of_subset hrows.2) hrows.1).bind fun out out' hout => .ok ?_
  exact ((hpage out).trans (hout.trans (hpage out').symm)).map _

end Description

end QueryFederation

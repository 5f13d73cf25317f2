import Mathlib.Algebra.Order.Ring.Nat
import Mathlib.Tactic.Ring
import QueryFederation.Proofs.Federation.OuterRuns
import QueryFederation.Proofs.Join.Uniform

/-!
# Tables of like rows

If one way of joining fills a set of tables that another way does not fill, there are rows on which they differ: many
like rows in each table of the set, and none elsewhere. All of them join, so the first way yields every choice of a row
from each table. The other way can only yield choices that leave a table out, and of these there are fewer if there are
enough rows.
-/

namespace QueryFederation

variable {columns : List ColumnRef} {joins : List JoinCondition} {s : Finset String} {sets sets' : Finset (Finset String)}
  {placed : List String} {n : Nat} {c : PartialCombination}

/-- A row with the number one in all columns. -/
def likeRow (columns : List ColumnRef) : Row := Entries.ofPairs (columns.map fun c => (c.column, .integer 1))

/-- So many like rows in each table of a set, and none elsewhere. -/
def likeRows (columns : List ColumnRef) (s : Finset String) (n : Nat) (aliasName : String) : List Row :=
  if aliasName ∈ s then List.replicate n (likeRow columns) else []

theorem eq_of_mem_likeRows {aliasName : String} {row : Row} (h : row ∈ likeRows columns s n aliasName) :
    aliasName ∈ s ∧ row = likeRow columns := by
  rw [likeRows] at h
  split at h
  · exact ⟨‹_›, List.eq_of_mem_replicate h⟩
  · cases h

theorem isUniform_likeRow (columns : List ColumnRef) : (likeRow columns).IsUniform := by
  refine .ofPairs fun p hp => ?_
  obtain ⟨_, -, rfl⟩ := List.mem_map.mp hp
  exact Or.inr rfl

theorem get_likeRow {column : ColumnRef} (h : column ∈ columns) : Row.get (likeRow columns) column.column = .integer 1 := by
  have hkey : column.column ∈ (likeRow columns).keys := by
    rw [likeRow, Entries.mem_keys_ofPairs, List.map_map]
    exact List.mem_map_of_mem h
  rw [Row.get]
  cases hlookup : (likeRow columns).lookup column.column with
  | none => exact absurd hkey (Entries.lookup_eq_none_iff.mp hlookup)
  | some v =>
    have hentry := Entries.mem_of_lookup_eq_some hlookup
    rw [likeRow, Entries.ofPairs_eq_merge] at hentry
    rcases Entries.mem_of_mem_merge hentry with hnone | hmem
    · cases hnone
    · obtain ⟨_, -, heq⟩ := List.mem_map.mp hmem
      exact (Prod.mk.inj heq).2.symm

/-! ### All of them join -/

/-- Of like rows, whatever fills one of the sets is formed. -/
theorem isFormed_iff_of_likeRows (hcolumns : Description.HasEnds columns joins) (hc : c.IsOf (likeRows columns s n) placed) :
    c.IsFormed joins sets ↔ ∃ t ∈ sets, c.Fills t := by
  refine ⟨fun h => h.filled, fun h => ⟨h, fun j hj hl hr => ?_⟩⟩
  have hvalue : ∀ column ∈ columns, (c column.table).isSome = true → c.rows.value column = .integer 1 := by
    intro column hcolumn hsome
    obtain ⟨row, hrow⟩ := Option.isSome_iff_exists.mp hsome
    obtain ⟨-, rfl⟩ := eq_of_mem_likeRows (hc _ _ hrow).2
    rw [Combination.value, PartialCombination.rows, hrow, Option.getD_some, get_likeRow hcolumn]
  obtain ⟨hleft, hright⟩ := hcolumns j hj
  rw [Combination.joins, hvalue _ hleft hl, hvalue _ hright hr]
  rfl

/-- Is there a row for each table of a set? -/
def PartialCombination.isFull (s : Finset String) (placed : List String) (c : PartialCombination) : Bool :=
  placed.all fun a => decide (a ∈ s → (c a).isSome = true)

theorem isFull_iff (hs : ∀ a ∈ s, a ∈ placed) (hc : c.IsOf (likeRows columns s n) placed) :
    c.isFull s placed = true ↔ c.Fills s := by
  rw [PartialCombination.isFull, List.all_eq_true]
  simp only [decide_eq_true_iff]
  constructor
  · intro h a
    refine ⟨fun hsome => ?_, fun ha => h a (hs a ha) ha⟩
    obtain ⟨row, hrow⟩ := Option.isSome_iff_exists.mp hsome
    exact (eq_of_mem_likeRows (hc a row hrow).2).1
  · exact fun h a _ ha => (h a).mpr ha

theorem isMaximal_of_isFull (hcolumns : Description.HasEnds columns joins) (hs : ∀ a ∈ s, a ∈ placed) (hmem : s ∈ sets)
    (hc : c.IsOf (likeRows columns s n) placed) (hfull : c.isFull s placed = true) :
    c.IsMaximal (likeRows columns s n) joins sets placed := by
  have hfills := (isFull_iff hs hc).mp hfull
  refine ⟨(isFormed_iff_of_likeRows hcolumns hc).mpr ⟨s, hmem, hfills⟩, fun c' hc' _ hextends a row hrow => ?_⟩
  obtain ⟨row', hrow'⟩ := Option.isSome_iff_exists.mp ((hfills a).mpr (eq_of_mem_likeRows (hc' a row hrow).2).1)
  rw [hextends a row' hrow', Option.some.injEq] at hrow
  rw [hrow', hrow]

theorem not_isFull_of_isMaximal (hs : ∀ a ∈ s, a ∈ placed) (hmem : s ∉ sets)
    (hc : c.IsOf (likeRows columns s n) placed) (hmaximal : c.IsMaximal (likeRows columns s n) joins sets placed) :
    c.isFull s placed = false := by
  by_contra hfull
  obtain ⟨t, ht, hfills⟩ := hmaximal.formed.filled
  have hfills' := (isFull_iff hs hc).mp (eq_true_of_ne_false hfull)
  have heq : s = t := Finset.ext fun a => (hfills' a).symm.trans (hfills a)
  exact hmem (heq ▸ ht)

/-! ### How many there are -/

theorem length_partialCombinations (columns : List ColumnRef) (s : Finset String) (n : Nat) (placed : List String) :
    (partialCombinations (likeRows columns s n) placed).length = (n + 1) ^ placed.countP fun a => decide (a ∈ s) := by
  induction placed with
  | nil => rfl
  | cons first rest ih =>
    rw [partialCombinations, List.length_flatMap]
    simp only [List.length_map, ih, List.map_const', List.sum_replicate, List.length_cons]
    by_cases hfirst : first ∈ s
    · simp [likeRows, hfirst, pow_succ, mul_comm]
    · simp [likeRows, hfirst]

theorem PartialCombination.isFull_update {first : String} {rest : List String} (hfirst : first ∉ rest) (row : Option Row)
    (c : PartialCombination) : isFull s (first :: rest) (Function.update c first row)
      = (decide (first ∈ s → row.isSome = true) && c.isFull s rest) := by
  rw [isFull, List.all_cons, Function.update_self, isFull]
  refine congrArg _ ?_
  rw [Bool.eq_iff_iff, List.all_eq_true, List.all_eq_true]
  refine forall₂_congr fun a ha => ?_
  have hne : a ≠ first := ne_of_mem_of_not_mem ha hfirst
  rw [Function.update_of_ne hne]

theorem length_filter_isFull (columns : List ColumnRef) (s : Finset String) (n : Nat) (hnodup : placed.Nodup) :
    ((partialCombinations (likeRows columns s n) placed).filter (PartialCombination.isFull s placed)).length
      = n ^ placed.countP fun a => decide (a ∈ s) := by
  induction placed with
  | nil => rfl
  | cons first rest ih =>
    obtain ⟨hfirst, hnodup⟩ := List.nodup_cons.mp hnodup
    have ih := ih hnodup
    have hrow : ∀ row : Option Row, ((((partialCombinations (likeRows columns s n) rest).map fun c =>
        Function.update c first row).filter (PartialCombination.isFull s (first :: rest))).length
          = if first ∈ s → row.isSome = true then n ^ rest.countP fun a => decide (a ∈ s) else 0) := by
      intro row
      rw [List.filter_map, List.length_map]
      simp only [Function.comp_def, PartialCombination.isFull_update hfirst]
      by_cases h : first ∈ s → row.isSome = true
      · simp only [decide_eq_true h, Bool.true_and, if_pos h]
        exact ih
      · simp only [decide_eq_false h, Bool.false_and, List.filter_false, List.length_nil, if_neg h]
    rw [partialCombinations, List.filter_flatMap, List.length_flatMap]
    simp only [hrow]
    by_cases hmem : first ∈ s
    · simp [likeRows, hmem, pow_succ, mul_comm]
    · simp [likeRows, hmem]

/-- At least the full ones are maximal if the set is filled. -/
theorem le_length_maximalCombinations (n : Nat) (hcolumns : Description.HasEnds columns joins) (hnodup : placed.Nodup)
    (hs : ∀ a ∈ s, a ∈ placed) (hmem : s ∈ sets) : (n ^ placed.countP fun a => decide (a ∈ s))
      ≤ (maximalCombinations (likeRows columns s n) joins sets placed).length := by
  classical
  rw [← length_filter_isFull columns s n hnodup, maximalCombinations, ← List.countP_eq_length_filter,
    ← List.countP_eq_length_filter]
  refine List.countP_mono_left fun c hc hfull => decide_eq_true ?_
  exact isMaximal_of_isFull hcolumns hs hmem ((PartialCombination.mem_partialCombinations hnodup).mp hc) hfull

/-- At most the others are maximal if it is not. -/
theorem length_maximalCombinations_add_le (columns : List ColumnRef) (joins : List JoinCondition) (n : Nat)
    (hnodup : placed.Nodup) (hs : ∀ a ∈ s, a ∈ placed) (hmem : s ∉ sets) :
    (maximalCombinations (likeRows columns s n) joins sets placed).length + (n ^ placed.countP fun a => decide (a ∈ s))
      ≤ (n + 1) ^ placed.countP fun a => decide (a ∈ s) := by
  classical
  rw [← length_filter_isFull columns s n hnodup, ← length_partialCombinations columns, maximalCombinations,
    ← List.countP_eq_length_filter, ← List.countP_eq_length_filter, Nat.add_comm,
    List.length_eq_countP_add_countP (PartialCombination.isFull s placed)]
  refine Nat.add_le_add_left (List.countP_mono_left fun c hc hmaximal => decide_eq_true ?_) _
  rw [not_isFull_of_isMaximal hs hmem ((PartialCombination.mem_partialCombinations hnodup).mp hc)
    (decide_eq_true_iff.mp hmaximal)]
  exact Bool.false_ne_true

theorem pow_succ_mul_le (n m : Nat) : (n + 1) ^ m * (n + 1) ≤ n ^ m * (n + 1) + m * (n + 1) ^ m := by
  induction m with
  | zero => simp
  | succ m ih =>
    have hmono : n ^ m ≤ (n + 1) ^ m := Nat.pow_le_pow_left (Nat.le_succ n) m
    calc (n + 1) ^ (m + 1) * (n + 1) = (n + 1) ^ m * (n + 1) * (n + 1) := by ring
      _ ≤ (n ^ m * (n + 1) + m * (n + 1) ^ m) * (n + 1) := Nat.mul_le_mul_right _ ih
      _ = n ^ (m + 1) * (n + 1) + n ^ m * (n + 1) + m * (n + 1) ^ (m + 1) := by ring
      _ ≤ n ^ (m + 1) * (n + 1) + (n + 1) ^ m * (n + 1) + m * (n + 1) ^ (m + 1) := by gcongr
      _ = n ^ (m + 1) * (n + 1) + (m + 1) * (n + 1) ^ (m + 1) := by ring

/-- Twice as many rows as tables are enough for more than half of all choices to be full. -/
theorem pow_succ_lt (m : Nat) : (2 * m + 1) ^ m < 2 * (2 * m) ^ m := by
  have hpos : 0 < (2 * m) ^ m := by
    rcases Nat.eq_zero_or_pos m with rfl | hm
    · exact Nat.one_pos
    · exact Nat.pow_pos (Nat.mul_pos Nat.two_pos hm)
  have hle := pow_succ_mul_le (2 * m) m
  refine Nat.lt_of_mul_lt_mul_right (a := m + 1) ?_
  calc (2 * m + 1) ^ m * (m + 1) ≤ (2 * m) ^ m * (2 * m + 1) := by linarith
    _ < (2 * m) ^ m * (2 * m + 2) := Nat.mul_lt_mul_of_pos_left (Nat.lt_succ_self _) hpos
    _ = 2 * (2 * m) ^ m * (m + 1) := by ring

/-- With enough like rows there are more maximal combinations if a set is filled than if it is not. -/
theorem exists_length_maximalCombinations_lt (hcolumns : Description.HasEnds columns joins) (hnodup : placed.Nodup)
    (hs : ∀ a ∈ s, a ∈ placed) (hmem : s ∈ sets) (hmem' : s ∉ sets') :
    ∃ n, (maximalCombinations (likeRows columns s n) joins sets' placed).length
      < (maximalCombinations (likeRows columns s n) joins sets placed).length := by
  obtain ⟨m, hm⟩ : ∃ m, m = placed.countP fun a => decide (a ∈ s) := ⟨_, rfl⟩
  have hmany := le_length_maximalCombinations (2 * m) hcolumns hnodup hs hmem
  have hfew := length_maximalCombinations_add_le columns joins (2 * m) hnodup hs hmem'
  rw [← hm] at hmany hfew
  have hlt := pow_succ_lt m
  exact ⟨2 * m, by omega⟩

/-! ### They can be joined -/

theorem isUniform_of_mem_combinations {tables : String → List Row} (h : ∀ a, ∀ row ∈ tables a, row.IsUniform)
    {group : List String} {c : Combination} (hc : c ∈ combinations tables group) (a : String) : (c a).IsUniform := by
  induction group generalizing c with
  | nil =>
    rw [List.mem_singleton.mp hc]
    exact List.forall_mem_nil _
  | cons first rest ih =>
    obtain ⟨row, hrow, hmem⟩ := List.mem_flatMap.mp hc
    obtain ⟨c, hchosen, rfl⟩ := List.mem_map.mp hmem
    by_cases heq : a = first
    · subst heq
      rw [Function.update_self]
      exact h a row hrow
    · rw [Function.update_of_ne heq]
      exact ih hchosen

theorem isUniform_tableRows {tables : String → List Row} (h : ∀ a, ∀ row ∈ tables a, row.IsUniform)
    (columns : List ColumnRef) (group : List String) : (tableRows columns tables group).IsUniform := by
  intro row hrow
  obtain ⟨c, hc, rfl⟩ := List.mem_map.mp hrow
  refine .ofPairs fun p hp => ?_
  obtain ⟨column, -, rfl⟩ := List.mem_map.mp hp
  exact (isUniform_of_mem_combinations h hc column.table).get column.column

theorem isUniform_of_mem_likeRows : ∀ a, ∀ row ∈ likeRows columns s n a, row.IsUniform := by
  intro a row hrow
  rw [(eq_of_mem_likeRows hrow).2]
  exact isUniform_likeRow columns

namespace Description

variable {d e : Description} {tables : String → List Row} {aggregates : Aggregates} {canJoin : String → Bool}
  {plan : FederationPlan}

theorem HasGraph.exists_joinsTables (h : e.HasGraph) (htables : ∀ a, ∀ row ∈ tables a, row.IsUniform) :
    ∃ rows, e.JoinsTables columns tables rows ∧ ∀ row ∈ rows, row.IsUniform := by
  obtain ⟨plan, hplan, -⟩ := h.exists_tablePlan?
  obtain ⟨joined, hjoined, huniform⟩ := plan.exists_execute_of_isUniform (isUniform_tableRows htables columns)
  exact ⟨joined.rows, ⟨plan, false, joined, hplan, hjoined, rfl⟩, huniform⟩

theorem PlannedAs.exists_joinsPartitions {root : List String} {others : List (List String)}
    (h : d.PlannedAs aggregates canJoin plan root others) (hconsistent : d.IsConsistent aggregates)
    (hidentifiers : d.aliasErrors = []) (htables : ∀ a, ∀ row ∈ tables a, row.IsUniform) :
    ∃ rows, plan.JoinsPartitions d columns tables rows := by
  have hrows : ∀ p : Partition, ∃ rows, p ∈ plan.partitions →
      (p.subDescription d).JoinsTables columns tables rows ∧ ∀ row ∈ rows, row.IsUniform := by
    intro p
    by_cases hp : p ∈ plan.partitions
    · obtain ⟨rows, hrows⟩ := ((h.hasPart hconsistent hp).hasGraph_subDescription hidentifiers).exists_joinsTables htables
      exact ⟨rows, fun _ => hrows⟩
    · exact ⟨[], fun hmem => absurd hmem hp⟩
  choose answer hanswer using hrows
  have huniform : ∀ group, (rowsOfGroup (plan.partitions.map fun p =>
      (p, (answer p).map (Row.project p.outputNames))) group).IsUniform := by
    intro group row hrow
    rw [rowsOfGroup] at hrow
    split at hrow
    · rename_i p rows hfound
      obtain ⟨p', hp', heq⟩ := List.mem_map.mp (List.mem_of_find?_eq_some hfound)
      obtain ⟨rfl, rfl⟩ := Prod.mk.inj heq
      obtain ⟨row, hmem, rfl⟩ := List.mem_map.mp hrow
      exact ((hanswer p' hp').2 row hmem).project _
    · cases hrow
  obtain ⟨joined, hjoined, -⟩ := plan.join.exists_execute_of_isUniform huniform
  exact ⟨joined.rows, fun p => (answer p).map (Row.project p.outputNames), false, joined,
    fun p hp => ⟨answer p, (hanswer p hp).1, .refl _⟩, hjoined, rfl⟩

end Description

end QueryFederation

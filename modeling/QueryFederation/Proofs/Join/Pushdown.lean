import QueryFederation.Proofs.Join.Run
import QueryFederation.Proofs.Row.Merge

/-!
# Filtering before joining

A test that reads only the columns of one table can be applied to the rows of that table before they are joined, if no
step of the plan extends the table with nulls. Until the table is placed, nothing changes; the step that places it and
all later ones drop exactly those rows that the test would drop from what they join. The steps that keep rows of the
other side are harmless, since a row that lost its partner is then dropped with its nulls or was never kept.
-/

namespace QueryFederation

/-- Does the test depend on nothing but what is under the given names? -/
def Row.ReadsOnly (names : List String) (test : Row → Bool) : Prop :=
  ∀ row other : Row, (∀ name ∈ names, row.lookup name = other.lookup name) → test row = test other

/-- The names that a relation uses: its columns, and whatever else its rows have. -/
def NamedRows.names (relation : NamedRows) : List String := relation.columns ++ relation.rows.flatMap (·.keys)

/-- No row has two values under one name. -/
def NamedRows.IsKeyed (relation : NamedRows) : Prop := ∀ row ∈ relation.rows, row.keys.Nodup

instance (relation : NamedRows) : Decidable relation.IsKeyed :=
  inferInstanceAs (Decidable (∀ row ∈ relation.rows, row.keys.Nodup))

namespace NamedRows

variable {relation : NamedRows} {row : Row} {name : String}

theorem mem_names : name ∈ relation.names ↔ name ∈ relation.columns ∨ ∃ row ∈ relation.rows, name ∈ row.keys := by
  rw [names, List.mem_append, List.mem_flatMap]

theorem columns_subset_names : relation.columns ⊆ relation.names := List.subset_append_left ..

theorem keys_subset_names (h : row ∈ relation.rows) : row.keys ⊆ relation.names := fun _ hname =>
  mem_names.mpr (.inr ⟨row, h, hname⟩)

end NamedRows

/-- The rows that pass a test. -/
def NamedRows.filter (relation : NamedRows) (test : Row → Bool) : NamedRows :=
  { relation with rows := relation.rows.filter test }

namespace Row.ReadsOnly

variable {names : List String} {test : Row → Bool}

theorem merge_left (h : ReadsOnly names test) {left right : Row} (hnodup : right.keys.Nodup)
    (hright : names.Disjoint right.keys) : test (Entries.merge left right) = test left := by
  apply h
  intro name hname
  rw [Entries.lookup_merge left hnodup, Entries.lookup_eq_none_of_notMem_keys (hright hname), Option.none_or]

theorem merge_right (h : ReadsOnly names test) {left right : Row} (hnodup : right.keys.Nodup)
    (hleft : names.Disjoint left.keys) : test (Entries.merge left right) = test right := by
  apply h
  intro name hname
  rw [Entries.lookup_merge left hnodup, Entries.lookup_eq_none_of_notMem_keys (hleft hname), Option.or_none]

end Row.ReadsOnly

/-! ### One join -/

namespace NestedLoop

variable {agree : Row → Row → Bool} {nulls : Row} {test : Row → Bool} {left right : List Row}

theorem filter_pairsOf_left (h : ∀ l ∈ left, ∀ r ∈ right, test (Entries.merge l r) = test l) :
    (pairsOf agree left right).filter test = pairsOf agree (left.filter test) right := by
  rw [pairsOf, pairsOf, List.filter_flatMap, flatMap_filter_eq]
  apply List.flatMap_congr
  intro l hl
  have hmerge : ∀ r ∈ right.filter (agree l), test (Entries.merge l r) = test l := fun r hr =>
    h l hl r (List.mem_of_mem_filter hr)
  -- The test is the same for all pairs of one left row.
  split
  · rename_i htest
    simp only [htest] at hmerge
    exact List.filter_eq_self.mpr (List.forall_mem_map.mpr hmerge)
  · rename_i htest
    simp only [htest] at hmerge
    exact List.filter_eq_nil_iff.mpr (List.forall_mem_map.mpr fun r hr => by simp [hmerge r hr])

theorem filter_pairsOf_right (h : ∀ l ∈ left, ∀ r ∈ right, test (Entries.merge l r) = test r) :
    (pairsOf agree left right).filter test = pairsOf agree left (right.filter test) := by
  rw [pairsOf, pairsOf, List.filter_flatMap]
  apply List.flatMap_congr
  intro l hl
  rw [List.filter_map, List.filter_filter, List.filter_filter]
  congr 1
  apply List.filter_congr
  intro r hr
  rw [Function.comp_apply, h l hl r hr, Bool.and_comm]

theorem filter_leftAlone (h : ∀ l ∈ left, test (Entries.merge l nulls) = test l) :
    (leftAlone agree nulls left right).filter test = leftAlone agree nulls (left.filter test) right := by
  rw [leftAlone, leftAlone, List.filter_map, List.filter_filter, List.filter_filter]
  congr 1
  apply List.filter_congr
  intro l hl
  rw [Function.comp_apply, h l hl, Bool.and_comm]

theorem filter_rightAlone (h : ∀ r ∈ right, test (Entries.merge nulls r) = test r) :
    (rightAlone agree nulls left right).filter test = rightAlone agree nulls left (right.filter test) := by
  rw [rightAlone, rightAlone, List.filter_map, List.filter_filter, List.filter_filter]
  congr 1
  apply List.filter_congr
  intro r hr
  rw [Function.comp_apply, h r hr, Bool.and_comm]

end NestedLoop

theorem crossProduct_eq_pairsOf (left right : List Row) :
    crossProduct left right = NestedLoop.pairsOf (fun _ _ => true) left right := by
  simp [crossProduct, NestedLoop.pairsOf]

namespace JoinStep

variable {step : JoinStep} {placed added : NamedRows} {names : List String} {test : Row → Bool}

/-- A step that keeps no added rows for themselves drops the rows of the placed side that a test on it drops. -/
theorem filter_expected_of_placed (hreads : Row.ReadsOnly names test) (hnames : names.Disjoint added.names)
    (hadded : added.IsKeyed) (hkind : ∀ kind, step.kind = some kind → kind.keepsRight = false) :
    (step.expected placed added).filter test = step.expected (placed.filter test) added := by
  have hmerge : ∀ l ∈ placed.rows, ∀ r ∈ added.rows, test (Entries.merge l r) = test l := fun l _ r hr =>
    hreads.merge_left (hadded r hr) fun _ hname hkey => hnames hname (NamedRows.keys_subset_names hr hkey)
  have hnulls : ∀ l ∈ placed.rows, test (Entries.merge l (Row.nulls added.columns)) = test l := fun l _ =>
    hreads.merge_left (Row.nodup_keys_nulls _) fun _ hname hkey =>
      hnames hname (NamedRows.columns_subset_names (Row.mem_keys_nulls.mp hkey))
  rw [expected, expected]
  cases hstep : step.kind with
  | none =>
    simp only [crossProduct_eq_pairsOf]
    exact NestedLoop.filter_pairsOf_left hmerge
  | some kind =>
    simp only [nestedLoop, hkind kind hstep, Bool.false_eq_true, if_false, List.append_nil, List.filter_append]
    rw [NestedLoop.filter_pairsOf_left hmerge]
    split
    · rw [NestedLoop.filter_leftAlone hnulls]
      rfl
    · rfl

/-- A step that keeps no placed rows for themselves drops the rows of the added side that a test on it drops. -/
theorem filter_expected_of_added (hreads : Row.ReadsOnly names test) (hnames : names.Disjoint placed.names)
    (hadded : added.IsKeyed) (hkind : ∀ kind, step.kind = some kind → kind.keepsLeft = false) :
    (step.expected placed added).filter test = step.expected placed (added.filter test) := by
  have hmerge : ∀ l ∈ placed.rows, ∀ r ∈ added.rows, test (Entries.merge l r) = test r := fun l hl r hr =>
    hreads.merge_right (hadded r hr) fun _ hname hkey => hnames hname (NamedRows.keys_subset_names hl hkey)
  have hnulls : ∀ r ∈ added.rows, test (Entries.merge (Row.nulls placed.columns) r) = test r := fun r hr =>
    hreads.merge_right (hadded r hr) fun _ hname hkey =>
      hnames hname (NamedRows.columns_subset_names (Row.mem_keys_nulls.mp hkey))
  rw [expected, expected]
  cases hstep : step.kind with
  | none =>
    simp only [crossProduct_eq_pairsOf]
    exact NestedLoop.filter_pairsOf_right hmerge
  | some kind =>
    simp only [nestedLoop, hkind kind hstep, Bool.false_eq_true, if_false, List.append_nil, List.filter_append]
    rw [NestedLoop.filter_pairsOf_right hmerge]
    split
    · rw [NestedLoop.filter_rightAlone hnulls]
      rfl
    · rfl

theorem expected_perm (step : JoinStep) {placed placed' added added' : NamedRows}
    (hplacedColumns : placed'.columns = placed.columns) (hplaced : placed'.rows.Perm placed.rows)
    (haddedColumns : added'.columns = added.columns) (hadded : added'.rows.Perm added.rows) :
    (step.expected placed' added').Perm (step.expected placed added) := by
  rw [expected, expected]
  cases step.kind with
  | none => exact crossProduct_perm hplaced hadded
  | some kind =>
    rw [hplacedColumns, haddedColumns]
    exact nestedLoop_perm hplaced hadded _ _ _ _

/-- The names in the rows of a step are those of its sides. -/
theorem keys_of_mem_expected {row : Row} (hrow : row ∈ step.expected placed added) :
    row.keys ⊆ placed.names ++ added.names := by
  have hside : ∀ {relation : NamedRows} {part : Row}, part ∈ relation.rows ∨ part = Row.nulls relation.columns →
      part.keys ⊆ relation.names := by
    rintro relation part (hpart | rfl)
    · exact NamedRows.keys_subset_names hpart
    · exact fun _ hkey => NamedRows.columns_subset_names (Row.mem_keys_nulls.mp hkey)
  obtain ⟨l, r, rfl, hl, hr⟩ := exists_of_mem_expected hrow
  intro key hkey
  rw [List.mem_append]
  exact (Entries.mem_keys_merge.mp hkey).imp (fun h => hside hl h) fun h => hside hr h

theorem Attaches.names_subset {next : NamedRows} (h : step.Attaches placed added next) :
    next.names ⊆ placed.names ++ added.names := by
  intro name hname
  rcases NamedRows.mem_names.mp hname with hcolumn | ⟨row, hrow, hkey⟩
  · rw [h.columns, List.mem_append] at hcolumn
    exact List.mem_append.mpr (hcolumn.imp (fun h => NamedRows.columns_subset_names h) fun h =>
      NamedRows.columns_subset_names h)
  · exact keys_of_mem_expected (h.rows.mem_iff.mp hrow) hkey

end JoinStep

/-! ### All joins of a plan -/

section

variable {joins : List JoinCondition} {aliases : List String} {groups : List (List String)} {steps : List JoinStep}
  {relation filtered : List String → NamedRows} {placed placed' joined joined' : NamedRows} {names : List String}
  {test : Row → Bool} {aliasName : String}

private theorem keepsRight_eq_false {step : JoinStep} (hplaced : aliasName ∈ aliases)
    (h : aliasName ∉ JoinPlan.extendedBy aliases step) (kind : JoinKind) (hkind : step.kind = some kind) :
    kind.keepsRight = false := by
  rw [← Bool.not_eq_true]
  intro hkeeps
  exact h (by simp [JoinPlan.extendedBy, hkind, hkeeps, hplaced])

private theorem keepsLeft_eq_false {step : JoinStep} (hadded : aliasName ∈ step.nodes)
    (h : aliasName ∉ JoinPlan.extendedBy aliases step) (kind : JoinKind) (hkind : step.kind = some kind) :
    kind.keepsLeft = false := by
  rw [← Bool.not_eq_true]
  intro hkeeps
  exact h (by simp [JoinPlan.extendedBy, hkind, hkeeps, hadded])

/-- Once the table is placed, steps that never extend it with nulls keep what was dropped of it dropped. -/
theorem PlanFrom.filter_of_placed (plan : PlanFrom joins aliases groups steps) (hreads : Row.ReadsOnly names test)
    (hkeyed : ∀ g ∈ groups, (relation g).IsKeyed) (hsame : ∀ g ∈ groups, filtered g = relation g)
    (hnames : ∀ g ∈ groups, names.Disjoint (relation g).names) (hplaced : aliasName ∈ aliases)
    (hextended : aliasName ∉ JoinPlan.extendedFrom aliases steps) (hcolumns : placed'.columns = placed.columns)
    (hrows : placed'.rows.Perm (placed.rows.filter test)) (run : JoinRun relation placed steps joined)
    (run' : JoinRun filtered placed' steps joined') : joined'.rows.Perm (joined.rows.filter test) := by
  induction plan generalizing placed placed' with
  | nil =>
    cases run
    cases run'
    exact hrows
  | @cons aliases group groups rest steps perm tail ih =>
    have hgroup : group ∈ groups := perm.mem_iff.mpr List.mem_cons_self
    have hrest : ∀ g ∈ rest, g ∈ groups := fun g hg => perm.mem_iff.mpr (List.mem_cons_of_mem _ hg)
    rw [JoinPlan.extendedFrom, List.mem_append, not_or, JoinStep.nodes_ofConditions] at hextended
    obtain _ | ⟨attaches, run⟩ := run
    obtain _ | ⟨attaches', run'⟩ := run'
    rw [JoinStep.nodes_ofConditions] at attaches attaches'
    rw [hsame group hgroup] at attaches'
    refine ih (fun g hg => hkeyed g (hrest g hg)) (fun g hg => hsame g (hrest g hg)) (fun g hg => hnames g (hrest g hg))
      (List.mem_append_left _ hplaced) hextended.2 ?_ ?_ run run'
    · rw [attaches'.columns, attaches.columns, hcolumns]
    · have hperm := JoinStep.expected_perm (JoinStep.ofConditions group (conditionsBetween joins aliases group))
        (show placed'.columns = (placed.filter test).columns from hcolumns) hrows (rfl : (relation group).columns = _)
        (.refl _)
      rw [← JoinStep.filter_expected_of_placed hreads (hnames group hgroup) (hkeyed group hgroup)
        (keepsRight_eq_false hplaced hextended.1)] at hperm
      exact (attaches'.rows.trans hperm).trans (attaches.rows.filter test).symm

/-- Until the table is placed nothing changes, and the step that places it drops what was dropped of it. -/
theorem PlanFrom.filter_of_home (plan : PlanFrom joins aliases groups steps) {home : List String} (hhome : home ∈ groups)
    (hnodup : groups.Nodup) (hreads : Row.ReadsOnly names test)
    (hkeyed : ∀ g ∈ groups, (relation g).IsKeyed) (hfiltered : filtered home = (relation home).filter test)
    (hsame : ∀ g ∈ groups, g ≠ home → filtered g = relation g)
    (hnames : ∀ g ∈ groups, g ≠ home → names.Disjoint (relation g).names) (hplaced : names.Disjoint placed.names)
    (halias : aliasName ∈ home) (hextended : aliasName ∉ JoinPlan.extendedFrom aliases steps)
    (hcolumns : placed'.columns = placed.columns) (hrows : placed'.rows.Perm placed.rows)
    (run : JoinRun relation placed steps joined) (run' : JoinRun filtered placed' steps joined') :
    joined'.rows.Perm (joined.rows.filter test) := by
  induction plan generalizing placed placed' with
  | nil => cases hhome
  | @cons aliases group groups rest steps perm tail ih =>
    have hgroup : group ∈ groups := perm.mem_iff.mpr List.mem_cons_self
    have hrest : ∀ g ∈ rest, g ∈ groups := fun g hg => perm.mem_iff.mpr (List.mem_cons_of_mem _ hg)
    obtain ⟨hnotin, hnodup⟩ := List.nodup_cons.mp (perm.nodup_iff.mp hnodup)
    rw [JoinPlan.extendedFrom, List.mem_append, not_or, JoinStep.nodes_ofConditions] at hextended
    obtain _ | ⟨attaches, run⟩ := run
    obtain _ | ⟨attaches', run'⟩ := run'
    rw [JoinStep.nodes_ofConditions] at attaches attaches'
    -- The table is placed by this step, or by a later one.
    by_cases heq : group = home
    · subst heq
      have hne : ∀ g ∈ rest, g ≠ group := fun g hg he => hnotin (he ▸ hg)
      rw [hfiltered] at attaches'
      refine tail.filter_of_placed hreads (fun g hg => hkeyed g (hrest g hg))
        (fun g hg => hsame g (hrest g hg) (hne g hg)) (fun g hg => hnames g (hrest g hg) (hne g hg))
        (List.mem_append_right _ halias) hextended.2 ?_ ?_ run run'
      · rw [attaches'.columns, attaches.columns, hcolumns]
        rfl
      · have hperm := JoinStep.expected_perm (JoinStep.ofConditions group (conditionsBetween joins aliases group))
          hcolumns hrows (rfl : ((relation group).filter test).columns = _) (.refl _)
        rw [← JoinStep.filter_expected_of_added hreads hplaced (hkeyed group hgroup)
          (keepsLeft_eq_false (by simpa using halias) hextended.1)] at hperm
        exact (attaches'.rows.trans hperm).trans (attaches.rows.filter test).symm
    · have hin : home ∈ rest := (List.mem_cons.mp (perm.mem_iff.mp hhome)).resolve_left (Ne.symm heq)
      rw [hsame group hgroup heq] at attaches'
      refine ih hin hnodup (fun g hg => hkeyed g (hrest g hg)) (fun g hg => hsame g (hrest g hg))
        (fun g hg => hnames g (hrest g hg)) ?_ hextended.2 ?_ ?_ run run'
      · have happend := List.disjoint_append_right.mpr ⟨hplaced, hnames group hgroup heq⟩
        exact fun name hname hnext => happend hname (attaches.names_subset hnext)
      · rw [attaches'.columns, attaches.columns, hcolumns]
      · exact attaches'.rows.trans ((JoinStep.expected_perm _ hcolumns hrows rfl (.refl _)).trans attaches.rows.symm)

end

end QueryFederation

import QueryFederation.Proofs.Federation.Columns
import QueryFederation.Proofs.Federation.Combination
import QueryFederation.Proofs.Join.Pushdown

/-!
# Steps of inner joins

What is kept along a plan is said of the tables that have been placed: the rows joined so far show exactly those of
their combinations that meet every condition among these tables and pass every filter that was left to a source. A step
adds the tables of a group; a condition among placed and added tables is one among the former, among the latter, or one
the step joins on. Since a condition between them may be written either way round, the step has to look up its rows by
keys, which compare alike in both directions.
-/

namespace QueryFederation

variable {tables : String → List Row} {joins : List JoinCondition} {pushed : List FilterPredicate}
  {needed : List ColumnRef} {placed group : List String}

namespace Combination

/-- Does the combination meet the conditions among the placed tables and pass the filters on them? -/
def fits (joins : List JoinCondition) (pushed : List FilterPredicate) (placed : List String) (c : Combination) : Bool :=
  ((joins.filter (·.isWithin placed)).all c.joins)
    && (pushed.filter fun f => placed.contains f.table).all fun f => (c.outcome f).toOption == some (some true)

variable {c added : Combination}

theorem fits_iff : c.fits joins pushed placed = true
    ↔ (∀ j ∈ joins, j.leftTable ∈ placed → j.rightTable ∈ placed → c.joins j = true)
      ∧ ∀ f ∈ pushed, f.table ∈ placed → c.outcome f = .ok (some true) := by
  simp only [fits, Bool.and_eq_true, List.all_eq_true, List.mem_filter, JoinCondition.isWithin_iff,
    List.contains_iff_mem, Outcome.toOption_beq_some, and_imp]

theorem joins_combine_of_mem {j : JoinCondition} (hleft : j.leftTable ∈ placed) (hright : j.rightTable ∈ placed) :
    (c.combine placed added).joins j = c.joins j := by
  rw [Combination.joins, Combination.joins, value_combine_of_mem (by exact hleft), value_combine_of_mem (by exact hright)]

theorem joins_combine_of_notMem {j : JoinCondition} (hleft : j.leftTable ∉ placed) (hright : j.rightTable ∉ placed) :
    (c.combine placed added).joins j = added.joins j := by
  rw [Combination.joins, Combination.joins, value_combine_of_notMem (by exact hleft),
    value_combine_of_notMem (by exact hright)]

theorem outcome_combine_of_mem {f : FilterPredicate} (h : f.table ∈ placed) :
    (c.combine placed added).outcome f = c.outcome f := by
  rw [outcome, outcome, value_combine_of_mem (by exact h)]

theorem outcome_combine_of_notMem {f : FilterPredicate} (h : f.table ∉ placed) :
    (c.combine placed added).outcome f = added.outcome f := by
  rw [outcome, outcome, value_combine_of_notMem (by exact h)]

/-- Conditions among placed and added tables are those of either side and those between them. -/
theorem fits_combine (hdisjoint : placed.Disjoint group) : (c.combine placed added).fits joins pushed (placed ++ group)
    = (c.fits joins pushed placed && (added.fits joins pushed group
      && (conditionsBetween joins placed group).all (c.combine placed added).joins)) := by
  have hout : ∀ {aliasName}, aliasName ∈ group → aliasName ∉ placed := fun hgroup hplaced => hdisjoint hplaced hgroup
  rw [Bool.eq_iff_iff, Bool.and_eq_true, Bool.and_eq_true, fits_iff, fits_iff, fits_iff, List.all_eq_true]
  constructor
  · rintro ⟨hjoins, hfilters⟩
    refine ⟨⟨fun j hj hl hr => ?_, fun f hf ht => ?_⟩, ⟨fun j hj hl hr => ?_, fun f hf ht => ?_⟩, fun j hj => ?_⟩
    · rw [← joins_combine_of_mem hl hr]
      exact hjoins j hj (List.mem_append_left _ hl) (List.mem_append_left _ hr)
    · rw [← outcome_combine_of_mem ht]
      exact hfilters f hf (List.mem_append_left _ ht)
    · rw [← joins_combine_of_notMem (hout hl) (hout hr)]
      exact hjoins j hj (List.mem_append_right _ hl) (List.mem_append_right _ hr)
    · rw [← outcome_combine_of_notMem (hout ht)]
      exact hfilters f hf (List.mem_append_right _ ht)
    · obtain ⟨hmem, ⟨hl, hr⟩ | ⟨hr, hl⟩⟩ := mem_conditionsBetween.mp hj
      · exact hjoins j hmem (List.mem_append_left _ hl) (List.mem_append_right _ hr)
      · exact hjoins j hmem (List.mem_append_right _ hl) (List.mem_append_left _ hr)
  · rintro ⟨⟨hplaced, hplacedFilters⟩, ⟨hgroup, hgroupFilters⟩, hbetween⟩
    refine ⟨fun j hj hl hr => ?_, fun f hf ht => ?_⟩
    · rcases List.mem_append.mp hl with hl | hl <;> rcases List.mem_append.mp hr with hr | hr
      · rw [joins_combine_of_mem hl hr]
        exact hplaced j hj hl hr
      · exact hbetween j (mem_conditionsBetween.mpr ⟨hj, Or.inl ⟨hl, hr⟩⟩)
      · exact hbetween j (mem_conditionsBetween.mpr ⟨hj, Or.inr ⟨hr, hl⟩⟩)
      · rw [joins_combine_of_notMem (hout hl) (hout hr)]
        exact hgroup j hj hl hr
    · rcases List.mem_append.mp ht with ht | ht
      · rw [outcome_combine_of_mem ht]
        exact hplacedFilters f hf ht
      · rw [outcome_combine_of_notMem (hout ht)]
        exact hgroupFilters f hf ht

end Combination

/-! ### One step -/

/-- Do joined rows show the combinations of the placed tables that fit? -/
structure Shows (tables : String → List Row) (joins : List JoinCondition) (pushed : List FilterPredicate)
    (needed : List ColumnRef) (placed : List String) (joined : NamedRows) : Prop where
  columns : joined.columns = (columnsOf needed placed).map (·.outputName)
  rows : joined.rows.Perm
    (((combinations tables placed).filter (Combination.fits joins pushed placed)).map
      (Combination.project (columnsOf needed placed)))

/-- By inner conditions, or by none, a step joins the rows that agree. -/
theorem JoinStep.expected_ofConditions {nodes : List String} {conditions : List JoinCondition}
    (h : ∀ j ∈ conditions, j.kind = .inner) (left right : NamedRows) :
    (ofConditions nodes conditions).expected left right
      = NestedLoop.pairsOf (Row.agree (conditions.map fun j => (j.toward nodes).pair.names)) left.rows right.rows := by
  cases conditions with
  | nil => exact crossProduct_eq_pairsOf _ _
  | cons lead conditions =>
    have hkind : (lead.toward nodes).kind = .inner := by
      rw [JoinCondition.toward]
      split
      · exact h lead List.mem_cons_self
      · rw [JoinCondition.reversed, h lead List.mem_cons_self]
        rfl
    simp only [expected, ofConditions, nestedLoop, hkind, JoinKind.keepsLeft, JoinKind.keepsRight, Bool.false_eq_true,
      if_false, List.append_nil, List.map_map]
    rfl

/-- Rows that show combinations agree if the combination of both meets the conditions between them. -/
theorem Combination.agree_project {c added : Combination} (hnames : NamesApart needed) (hnodup : (placed ++ group).Nodup)
    (hneeded : ∀ j ∈ conditionsBetween joins placed group,
      ⟨j.leftTable, j.leftColumn⟩ ∈ needed ∧ ⟨j.rightTable, j.rightColumn⟩ ∈ needed)
    (hleft : (KeyedRow.ofRow ((conditionsBetween joins placed group).map fun j => (j.toward group).pair.names.1)
      (c.project (columnsOf needed placed))).IsHashable)
    (hright : (KeyedRow.ofRow ((conditionsBetween joins placed group).map fun j => (j.toward group).pair.names.2)
      (added.project (columnsOf needed group))).IsHashable) :
    Row.agree ((conditionsBetween joins placed group).map fun j => (j.toward group).pair.names)
        (c.project (columnsOf needed placed)) (added.project (columnsOf needed group))
      = (conditionsBetween joins placed group).all (c.combine placed added).joins := by
  obtain ⟨hplaced, hgroup, hdisjoint⟩ := List.nodup_append'.mp hnodup
  refine Row.agree_map_eq_all hleft hright fun j hj => ?_
  obtain ⟨hl, hr⟩ := hneeded j hj
  obtain ⟨-, ⟨hltable, hrtable⟩ | ⟨hrtable, hltable⟩⟩ := mem_conditionsBetween.mp hj
  · have htoward : j.toward group = j := if_pos (by simpa using hrtable)
    left
    rw [htoward, Combination.joins, Combination.value_combine_of_mem (by exact hltable),
      Combination.value_combine_of_notMem (by exact fun hmem => hdisjoint hmem hrtable),
      ← Combination.get_project (hnames.nodup_names hplaced) (mem_columnsOf.mpr ⟨hl, hltable⟩),
      ← Combination.get_project (hnames.nodup_names hgroup) (mem_columnsOf.mpr ⟨hr, hrtable⟩)]
    rfl
  · have htoward : j.toward group = j.reversed := if_neg (by simpa using fun hmem => hdisjoint hrtable hmem)
    right
    rw [htoward, Combination.joins,
      Combination.value_combine_of_notMem (by exact fun hmem => hdisjoint hmem hltable),
      Combination.value_combine_of_mem (by exact hrtable),
      ← Combination.get_project (hnames.nodup_names hplaced) (mem_columnsOf.mpr ⟨hr, hrtable⟩),
      ← Combination.get_project (hnames.nodup_names hgroup) (mem_columnsOf.mpr ⟨hl, hltable⟩)]
    rfl

theorem Combination.merge_columnsOf (hnames : NamesApart needed) (hnodup : (placed ++ group).Nodup)
    (c added : Combination) :
    Entries.merge (c.project (columnsOf needed placed)) (added.project (columnsOf needed group))
      = (c.combine placed added).project (columnsOf needed (placed ++ group)) := by
  have hdisjoint := List.disjoint_of_nodup_append hnodup
  have hall := hnames.nodup_names hnodup
  rw [columnsOf_append] at hall ⊢
  exact Combination.merge_project hall (fun _ hcolumn => (mem_columnsOf.mp hcolumn).2)
    fun _ hcolumn hmem => hdisjoint hmem (mem_columnsOf.mp hcolumn).2

/-- The rows that a step has joined are those whose combination meets the conditions of the step. -/
theorem JoinStep.Attaches.agree_eq {left right next : NamedRows} (hnames : NamesApart needed)
    (hnodup : (placed ++ group).Nodup)
    (hneeded : ∀ j ∈ conditionsBetween joins placed group,
      ⟨j.leftTable, j.leftColumn⟩ ∈ needed ∧ ⟨j.rightTable, j.rightColumn⟩ ∈ needed)
    (attaches : (JoinStep.ofConditions group (conditionsBetween joins placed group)).Attaches left right next)
    {c added : Combination} (hleft : c.project (columnsOf needed placed) ∈ left.rows)
    (hright : added.project (columnsOf needed group) ∈ right.rows) :
    Row.agree ((conditionsBetween joins placed group).map fun j => (j.toward group).pair.names)
        (c.project (columnsOf needed placed)) (added.project (columnsOf needed group))
      = (conditionsBetween joins placed group).all (c.combine placed added).joins := by
  by_cases hnone : conditionsBetween joins placed group = []
  · rw [hnone]
    rfl
  · have hsome : (JoinStep.ofConditions group (conditionsBetween joins placed group)).kind.isSome = true :=
      Option.isSome_iff_ne_none.mpr (mt JoinStep.kind_ofConditions_eq_none.mp hnone)
    -- Only a step that is no cross join has looked up its rows, so only then are keys known to be hashable.
    obtain ⟨hl, hr⟩ := attaches.hashable hsome
    rw [JoinStep.pairs_ofConditions, List.map_map] at hl hr
    exact Combination.agree_project hnames hnodup hneeded (hl _ hleft) (hr _ hright)

/-- A step joins what shows the combinations of its two sides to what shows those of all their tables. -/
theorem Shows.attach {left right next : NamedRows} (hleft : Shows tables joins pushed needed placed left)
    (hright : Shows tables joins pushed needed group right) (hnames : NamesApart needed)
    (hnodup : (placed ++ group).Nodup) (hinner : ∀ j ∈ joins, j.kind = .inner)
    (hneeded : ∀ j ∈ conditionsBetween joins placed group,
      ⟨j.leftTable, j.leftColumn⟩ ∈ needed ∧ ⟨j.rightTable, j.rightColumn⟩ ∈ needed)
    (attaches : (JoinStep.ofConditions group (conditionsBetween joins placed group)).Attaches left right next) :
    Shows tables joins pushed needed (placed ++ group) next := by
  have hdisjoint := List.disjoint_of_nodup_append hnodup
  constructor
  · rw [attaches.columns, hleft.columns, hright.columns, columnsOf_append, List.map_append]
  · refine attaches.rows.trans ?_
    rw [JoinStep.expected_ofConditions fun j hj => hinner j (mem_conditionsBetween.mp hj).1]
    refine (NestedLoop.pairsOf_perm hleft.rows hright.rows).trans (List.Perm.of_eq ?_)
    rw [NestedLoop.pairsOf, List.flatMap_map, flatMap_filter_eq, combinations_append, List.filter_flatMap,
      List.map_flatMap]
    apply List.flatMap_congr
    intro c hc
    by_cases hfits : c.fits joins pushed placed = true
    · rw [if_pos hfits]
      simp only [List.filter_map, List.map_map, List.filter_filter]
      have hrow : c.project (columnsOf needed placed) ∈ left.rows :=
        hleft.rows.mem_iff.mpr (List.mem_map_of_mem (List.mem_filter.mpr ⟨hc, hfits⟩))
      have hagree : ∀ added ∈ combinations tables group, added.fits joins pushed group = true →
          Row.agree ((conditionsBetween joins placed group).map fun j => (j.toward group).pair.names)
              (c.project (columnsOf needed placed)) (added.project (columnsOf needed group))
            = (conditionsBetween joins placed group).all (c.combine placed added).joins := by
        intro added hadded hfits
        exact attaches.agree_eq hnames hnodup hneeded hrow
          (hright.rows.mem_iff.mpr (List.mem_map_of_mem (List.mem_filter.mpr ⟨hadded, hfits⟩)))
      rw [show Entries.merge (c.project (columnsOf needed placed)) ∘ Combination.project (columnsOf needed group)
        = Combination.project (columnsOf needed (placed ++ group)) ∘ c.combine placed from
        funext (Combination.merge_columnsOf hnames hnodup c)]
      congr 1
      apply List.filter_congr
      intro added hadded
      rw [Function.comp_apply, Function.comp_apply, Combination.fits_combine hdisjoint, hfits, Bool.true_and]
      cases hadds : added.fits joins pushed group with
      | true => rw [hagree added hadded hadds, Bool.and_true, Bool.true_and]
      | false => rw [Bool.and_false, Bool.false_and]
    · -- What does not fit alone does not fit with anything added to it.
      rw [if_neg hfits, List.filter_eq_nil_iff.mpr, List.map_nil]
      intro combined hcombined
      obtain ⟨added, -, rfl⟩ := List.mem_map.mp hcombined
      rw [Combination.fits_combine hdisjoint, Bool.eq_false_iff.mpr hfits, Bool.false_and]
      exact Bool.false_ne_true

/-! ### All steps -/

/-- A step that is given the columns of its pairs is given the ends of its conditions. -/
theorem JoinStep.ends_of_pairs {conditions : List JoinCondition}
    (h : ∀ pair ∈ (ofConditions group conditions).pairs, pair.placed ∈ needed ∧ pair.added ∈ needed) :
    ∀ j ∈ conditions, ⟨j.leftTable, j.leftColumn⟩ ∈ needed ∧ ⟨j.rightTable, j.rightColumn⟩ ∈ needed := by
  intro j hj
  rw [pairs_ofConditions] at h
  have hmem := h _ (List.mem_map_of_mem hj)
  rw [JoinCondition.toward] at hmem
  split at hmem
  · exact hmem
  · exact hmem.symm

theorem JoinRun.shows {relation : List String → NamedRows} {groups : List (List String)} {steps : List JoinStep}
    {start joined : NamedRows} (plan : PlanFrom joins placed groups steps) (run : JoinRun relation start steps joined)
    (hstart : Shows tables joins pushed needed placed start)
    (hgroups : ∀ g ∈ groups, Shows tables joins pushed needed g (relation g)) (hnames : NamesApart needed)
    (hnodup : (placed ++ groups.flatten).Nodup) (hinner : ∀ j ∈ joins, j.kind = .inner)
    (hneeded : ∀ step ∈ steps, ∀ pair ∈ step.pairs, pair.placed ∈ needed ∧ pair.added ∈ needed) :
    ∃ all, all.Perm (placed ++ groups.flatten) ∧ Shows tables joins pushed needed all joined := by
  obtain ⟨all, hall, hshows, -⟩ := plan.exists_of_run (motive := fun steps placed rows =>
    Shows tables joins pushed needed placed rows
      ∧ ∀ step ∈ steps, ∀ pair ∈ step.pairs, pair.placed ∈ needed ∧ pair.added ∈ needed) run hnodup ⟨hstart, hneeded⟩
    fun hgroup hnodup attaches ⟨hstart, hneeded⟩ => by
      obtain ⟨hneeded, hlater⟩ := List.forall_mem_cons.mp hneeded
      have hends := JoinStep.ends_of_pairs hneeded
      exact ⟨hstart.attach (hgroups _ hgroup) hnames hnodup hinner hends attaches, hlater⟩
  exact ⟨all, hall, hshows⟩

end QueryFederation

import QueryFederation.Proofs.Federation.PartialCombination

/-!
# Steps of outer joins

Joined rows show the maximal partial combinations of the tables that have been placed. A step of any kind goes on from
those of its two sides to those of all their tables, so in the end the rows of a run depend on nothing but the sets of
tables that its plan can fill.
-/

namespace QueryFederation

variable {tables : String → List Row} {joins : List JoinCondition} {needed : List ColumnRef} {placed group : List String}
  {sets sets' : Finset (Finset String)}

/-! ### All choices of rows -/

/-- What passes one of two tests that exclude each other passes the one or the other. -/
theorem filter_or_perm {α : Type} (p q : α → Bool) (items : List α) (h : ∀ a ∈ items, p a = true → q a = false) :
    (items.filter fun a => p a || q a).Perm (items.filter p ++ items.filter q) := by
  refine (List.filter_append_perm p _).symm.trans (List.Perm.of_eq ?_)
  rw [List.filter_filter, List.filter_filter]
  congr 1
  · exact List.filter_congr fun a _ => by cases p a <;> simp
  · refine List.filter_congr fun a ha => ?_
    cases hp : p a with
    | true => rw [h a ha hp]; rfl
    | false => simp

theorem any_congr_of_mem {α : Type} {items : List α} {p q : α → Bool} (h : ∀ a ∈ items, p a = q a) :
    items.any p = items.any q := by
  rw [Bool.eq_iff_iff, List.any_eq_true, List.any_eq_true]
  exact exists_congr fun a => and_congr_right fun ha => by rw [h a ha]

theorem partialCombinations_append (hnodup : (placed ++ group).Nodup) : partialCombinations tables (placed ++ group)
    = (partialCombinations tables placed).flatMap fun c => (partialCombinations tables group).map c.combine := by
  induction placed with
  | nil =>
    rw [List.nil_append, partialCombinations, List.flatMap_singleton]
    exact (List.map_id'' (fun c => PartialCombination.empty_combine c) _).symm
  | cons first placed ih =>
    obtain ⟨hfirst, hrest⟩ := List.nodup_cons.mp hnodup
    rw [List.cons_append, partialCombinations, partialCombinations, List.flatMap_assoc, ih hrest]
    refine List.flatMap_congr fun row _ => ?_
    rw [List.map_flatMap, List.flatMap_map]
    refine List.flatMap_congr fun c _ => ?_
    rw [List.map_map]
    refine List.map_congr_left fun added hadded => ?_
    have hof := (PartialCombination.mem_partialCombinations (List.nodup_append.mp hrest).2.1).mp hadded
    have hnone : added first = none := hof.eq_none fun hmem => hfirst (List.mem_append_right _ hmem)
    funext other
    by_cases heq : other = first
    · subst heq
      rw [Function.comp_apply, Function.update_self, PartialCombination.combine, Function.update_self, hnone, Option.or_none]
    · rw [Function.comp_apply, Function.update_of_ne heq, PartialCombination.combine, PartialCombination.combine,
        Function.update_of_ne heq]

theorem partialCombinations_perm (tables : String → List Row) {aliases others : List String} (h : aliases.Perm others)
    (hnodup : aliases.Nodup) : (partialCombinations tables aliases).Perm (partialCombinations tables others) := by
  induction h with
  | nil => exact .refl _
  | cons aliasName _ ih => exact List.Perm.flatMap_left _ fun row _ => (ih hnodup.of_cons).map _
  | swap aliasName other rest =>
    simp only [partialCombinations, List.map_flatMap, List.map_map]
    refine (flatMap_perm_comm _ _ _).trans (List.Perm.of_eq ?_)
    have hne : aliasName ≠ other := by
      rintro rfl
      exact (List.nodup_cons.mp hnodup).1 List.mem_cons_self
    refine List.flatMap_congr fun row _ => List.flatMap_congr fun row' _ => List.map_congr_left fun c _ => ?_
    exact Function.update_comm hne _ _ _
  | trans h _ ih ih' => exact (ih hnodup).trans (ih' (h.nodup_iff.mp hnodup))

open scoped Classical in
/-- There is one way to choose no row at all. -/
theorem filter_eq_empty (hnodup : placed.Nodup) :
    ((partialCombinations tables placed).filter fun c => c = fun _ => none) = [fun _ => none] := by
  induction placed with
  | nil => exact List.filter_cons_of_pos (decide_eq_true rfl)
  | cons first rest ih =>
    obtain ⟨hfirst, hnodup⟩ := List.nodup_cons.mp hnodup
    have hnone : ∀ c ∈ partialCombinations tables rest, Function.update c first none = c := by
      intro c hc
      rw [← ((PartialCombination.mem_partialCombinations hnodup).mp hc).eq_none hfirst, Function.update_eq_self]
    rw [partialCombinations, List.flatMap_cons, List.map_congr_left hnone, List.map_id', List.filter_append, ih hnodup,
      List.filter_eq_nil_iff.mpr, List.append_nil]
    intro c hc
    rw [decide_eq_true_iff]
    rintro rfl
    obtain ⟨_, hrow, hc⟩ := List.mem_flatMap.mp hc
    obtain ⟨row, -, rfl⟩ := List.mem_map.mp hrow
    obtain ⟨c, -, hc⟩ := List.mem_map.mp hc
    have hfilled := congrFun hc first
    rw [Function.update_self] at hfilled
    cases hfilled

open scoped Classical in
/-- All maximal combinations of the rows of some tables. -/
noncomputable def maximalCombinations (tables : String → List Row) (joins : List JoinCondition)
    (sets : Finset (Finset String)) (placed : List String) : List PartialCombination :=
  (partialCombinations tables placed).filter fun c => c.IsMaximal tables joins sets placed

open scoped Classical in
theorem mem_maximalCombinations (hnodup : placed.Nodup) {c : PartialCombination} :
    c ∈ maximalCombinations tables joins sets placed ↔ c.IsOf tables placed ∧ c.IsMaximal tables joins sets placed := by
  rw [maximalCombinations, List.mem_filter, decide_eq_true_iff, PartialCombination.mem_partialCombinations hnodup]

open scoped Classical in
theorem filter_kept_isMaximal (kept : Bool) (p : PartialCombination → Bool) :
    ((partialCombinations tables placed).filter fun c => kept && decide (c.IsMaximal tables joins sets placed) && p c)
      = if kept then (maximalCombinations tables joins sets placed).filter p else [] := by
  cases kept with
  | false => simp
  | true => simp only [Bool.true_and, if_true, maximalCombinations, List.filter_filter, Bool.and_comm]

open scoped Classical in
/-- Choices of the placed tables, with no row of the others. -/
theorem flatMap_combine_empty (hgroup : group.Nodup) (alone : PartialCombination → Bool) :
    ((partialCombinations tables placed).flatMap fun c =>
        ((partialCombinations tables group).filter fun added => alone c && decide (added = fun _ => none)).map c.combine)
      = (partialCombinations tables placed).filter alone := by
  rw [← List.map_id ((partialCombinations tables placed).filter alone), map_filter_eq_flatMap]
  refine List.flatMap_congr fun c _ => ?_
  cases alone c with
  | false => simp
  | true => simp [filter_eq_empty hgroup, PartialCombination.combine_empty]

open scoped Classical in
/-- Choices of the others, with no row of the placed tables. -/
theorem flatMap_empty_combine (hplaced : placed.Nodup) (alone : PartialCombination → Bool) :
    ((partialCombinations tables placed).flatMap fun c =>
        ((partialCombinations tables group).filter fun added =>
          decide (c = fun _ => none) && alone added).map (PartialCombination.combine c))
      = (partialCombinations tables group).filter alone := by
  have hone := flatMap_filter_eq (fun c => decide (c = fun _ => none))
    (fun c => ((partialCombinations tables group).filter alone).map (PartialCombination.combine c))
    (partialCombinations tables placed)
  rw [filter_eq_empty hplaced, List.flatMap_singleton,
    List.map_id'' fun added => PartialCombination.empty_combine added] at hone
  rw [hone]
  refine List.flatMap_congr fun c _ => ?_
  by_cases hnone : c = fun _ => none
  · simp [hnone]
  · simp [hnone]

/-! ### One step -/

section

variable (hwithin : AreWithin placed sets) (hwithin' : AreWithin group sets') (hnodup : (placed ++ group).Nodup)

include hwithin hwithin' hnodup

omit hwithin hwithin' in
open scoped Classical in
theorem any_links_eq_false_iff {c : PartialCombination} :
    (maximalCombinations tables joins sets' group).any (PartialCombination.links joins placed group c) = false
      ↔ ∀ other : PartialCombination, other.IsOf tables group → other.IsMaximal tables joins sets' group →
        PartialCombination.links joins placed group c other = false := by
  simp only [List.any_eq_false, mem_maximalCombinations (List.nodup_append.mp hnodup).2.1, Bool.not_eq_true, and_imp]

omit hwithin hwithin' in
open scoped Classical in
theorem any_links_eq_false_iff' {added : PartialCombination} :
    (maximalCombinations tables joins sets placed).any (PartialCombination.links joins placed group · added) = false
      ↔ ∀ other : PartialCombination, other.IsOf tables placed → other.IsMaximal tables joins sets placed →
        PartialCombination.links joins placed group other added = false := by
  simp only [List.any_eq_false, mem_maximalCombinations (List.nodup_append.mp hnodup).1, Bool.not_eq_true, and_imp]

open scoped Classical in
/-- The three ways in which a step makes a maximal combination exclude each other. -/
theorem filter_isMaximal_combine_perm {c : PartialCombination} (hc : c.IsOf tables placed) :
    ((partialCombinations tables group).filter fun added => (c.combine added).IsMaximal tables joins
        ((JoinStep.between joins placed group).fills sets sets') (placed ++ group)).Perm
      (((partialCombinations tables group).filter fun added => decide (c.IsMaximal tables joins sets placed)
            && (decide (added.IsMaximal tables joins sets' group) && PartialCombination.links joins placed group c added))
        ++ ((partialCombinations tables group).filter fun added =>
          ((JoinStep.between joins placed group).keepsPlaced
            && decide (c.IsMaximal tables joins sets placed)
            && !(maximalCombinations tables joins sets' group).any (PartialCombination.links joins placed group c))
          && decide (added = fun _ => none))
        ++ ((partialCombinations tables group).filter fun added => decide (c = fun _ => none)
          && ((JoinStep.between joins placed group).keepsAdded
            && decide (added.IsMaximal tables joins sets' group)
            && !(maximalCombinations tables joins sets placed).any
              (PartialCombination.links joins placed group · added)))) := by
  have hdisjoint := List.disjoint_of_nodup_append hnodup
  have hempty : ∀ {sets : Finset (Finset String)} {placed : List String}, AreWithin placed sets →
      ¬PartialCombination.IsMaximal tables joins sets placed fun _ => none :=
    fun hwithin h => h.formed.not_extends hwithin (.refl _)
  refine .trans (.of_eq (List.filter_congr fun added hadded => ?_))
    ((filter_or_perm _ _ _ ?_).trans ((filter_or_perm _ _ _ ?_).append_right _))
  · have hadded := (PartialCombination.mem_partialCombinations (List.nodup_append.mp hnodup).2.1).mp hadded
    rw [Bool.eq_iff_iff]
    simp only [Bool.or_eq_true, Bool.and_eq_true, decide_eq_true_iff, Bool.not_eq_true',
      any_links_eq_false_iff hnodup, any_links_eq_false_iff' hnodup]
    constructor
    · intro h
      rcases h.of_combine hwithin hwithin' hdisjoint hc hadded with ⟨h, h', hlinks⟩ | ⟨hkeeps, h, hnone, halone⟩
        | ⟨hkeeps, hnone, h', halone⟩
      · exact Or.inl (Or.inl ⟨h, h', hlinks⟩)
      · exact Or.inl (Or.inr ⟨⟨⟨hkeeps, h⟩, halone⟩, hnone⟩)
      · exact Or.inr ⟨hnone, ⟨hkeeps, h'⟩, halone⟩
    · rintro ((⟨h, h', hlinks⟩ | ⟨⟨⟨hkeeps, h⟩, halone⟩, rfl⟩) | ⟨rfl, ⟨hkeeps, h'⟩, halone⟩)
      · exact h.combine hwithin hwithin' hdisjoint hc hadded h' hlinks
      · rw [PartialCombination.combine_empty]
        exact h.alone_left hwithin hwithin' hdisjoint hc hkeeps halone
      · rw [PartialCombination.empty_combine]
        exact h'.alone_right hwithin hwithin' hdisjoint hadded hkeeps halone
  · intro added _ hplaced
    simp only [Bool.or_eq_true, Bool.and_eq_true, decide_eq_true_iff] at hplaced
    have hmaximal : c.IsMaximal tables joins sets placed := hplaced.elim And.left fun h => h.1.1.2
    rw [Bool.and_eq_false_iff, decide_eq_false_iff_not]
    exact Or.inl fun hnone => hempty hwithin (hnone ▸ hmaximal)
  · intro added _ hboth
    simp only [Bool.and_eq_true, decide_eq_true_iff] at hboth
    rw [Bool.and_eq_false_iff, decide_eq_false_iff_not]
    exact Or.inr fun hnone => hempty hwithin' (hnone ▸ hboth.2.1)

/-- What a step makes of the maximal combinations of its two sides. -/
theorem maximalCombinations_append_perm : (maximalCombinations tables joins
      ((JoinStep.between joins placed group).fills sets sets') (placed ++ group)).Perm
    (((maximalCombinations tables joins sets placed).flatMap fun c =>
        ((maximalCombinations tables joins sets' group).filter (PartialCombination.links joins placed group c)).map
          c.combine)
      ++ (if (JoinStep.between joins placed group).keepsPlaced then
          (maximalCombinations tables joins sets placed).filter fun c =>
            !(maximalCombinations tables joins sets' group).any (PartialCombination.links joins placed group c) else [])
      ++ (if (JoinStep.between joins placed group).keepsAdded then
          (maximalCombinations tables joins sets' group).filter fun added =>
            !(maximalCombinations tables joins sets placed).any (PartialCombination.links joins placed group · added)
        else [])) := by
  classical
  obtain ⟨hplaced, hgroup, -⟩ := List.nodup_append'.mp hnodup
  rw [maximalCombinations, partialCombinations_append hnodup, List.filter_flatMap]
  simp only [List.filter_map, Function.comp_def]
  refine (List.Perm.flatMap_left _ fun c hc => (filter_isMaximal_combine_perm hwithin hwithin' hnodup
    ((PartialCombination.mem_partialCombinations hplaced).mp hc)).map c.combine).trans ?_
  simp only [List.map_append]
  refine (List.flatMap_append_perm _ _ _).symm.trans ((List.flatMap_append_perm _ _ _).symm.append_right _ |>.trans ?_)
  refine ((List.Perm.of_eq ?_).append (List.Perm.of_eq ?_)).append (List.Perm.of_eq ?_)
  · simp only [maximalCombinations]
    rw [flatMap_filter_eq]
    refine List.flatMap_congr fun c _ => ?_
    by_cases hmaximal : c.IsMaximal tables joins sets placed
    · simp only [hmaximal, decide_true, Bool.true_and, if_true, List.filter_filter, Bool.and_comm]
    · simp [hmaximal]
  · rw [flatMap_combine_empty hgroup, filter_kept_isMaximal]
  · rw [flatMap_empty_combine hplaced, filter_kept_isMaximal]

end

namespace NestedLoop

variable {α β : Type} {agree : Row → Row → Bool} {test : α → β → Bool} {f : α → Row} {g : β → Row} {nulls : Row}
  {as : List α} {bs : List β} (h : ∀ a ∈ as, ∀ b ∈ bs, agree (f a) (g b) = test a b)

include h

theorem pairsOf_map : pairsOf agree (as.map f) (bs.map g)
    = as.flatMap fun a => (bs.filter (test a)).map fun b => Entries.merge (f a) (g b) := by
  rw [pairsOf, List.flatMap_map]
  refine List.flatMap_congr fun a ha => ?_
  rw [List.filter_map, List.map_map]
  exact congrArg _ (List.filter_congr (h a ha))

theorem leftAlone_map : leftAlone agree nulls (as.map f) (bs.map g)
    = (as.filter fun a => !bs.any (test a)).map fun a => Entries.merge (f a) nulls := by
  rw [leftAlone, List.filter_map, List.map_map]
  refine congrArg _ (List.filter_congr fun a ha => ?_)
  rw [Function.comp_apply, List.any_map]
  exact congrArg not (any_congr_of_mem (h a ha))

theorem rightAlone_map : rightAlone agree nulls (as.map f) (bs.map g)
    = (bs.filter fun b => !as.any (test · b)).map fun b => Entries.merge nulls (g b) := by
  rw [rightAlone, List.filter_map, List.map_map]
  refine congrArg _ (List.filter_congr fun b hb => ?_)
  rw [Function.comp_apply, List.any_map]
  exact congrArg not (any_congr_of_mem fun a ha => h a ha b hb)

end NestedLoop

/-- Do joined rows show the maximal combinations of the placed tables? -/
structure ShowsMaximal (tables : String → List Row) (joins : List JoinCondition) (needed : List ColumnRef)
    (sets : Finset (Finset String)) (placed : List String) (joined : NamedRows) : Prop where
  within : AreWithin placed sets
  columns : joined.columns = (columnsOf needed placed).map (·.outputName)
  rows : joined.rows.Perm
    ((maximalCombinations tables joins sets placed).map fun c => c.rows.project (columnsOf needed placed))

/-- What a step joins, by what it keeps. -/
theorem JoinStep.expected_eq (nodes : List String) (conditions : List JoinCondition) (left right : NamedRows) :
    (ofConditions nodes conditions).expected left right
      = NestedLoop.pairsOf (Row.agree (conditions.map fun j => (j.toward nodes).pair.names)) left.rows right.rows
        ++ (if (ofConditions nodes conditions).keepsPlaced then
            NestedLoop.leftAlone (Row.agree (conditions.map fun j => (j.toward nodes).pair.names))
              (Row.nulls right.columns) left.rows right.rows else [])
        ++ (if (ofConditions nodes conditions).keepsAdded then
            NestedLoop.rightAlone (Row.agree (conditions.map fun j => (j.toward nodes).pair.names))
              (Row.nulls left.columns) left.rows right.rows else []) := by
  cases conditions with
  | nil => exact (crossProduct_eq_pairsOf _ _).trans (by rw [keepsPlaced, keepsAdded]; simp [ofConditions]; rfl)
  | cons lead conditions =>
    simp only [expected, ofConditions, nestedLoop, keepsPlaced, keepsAdded, Option.any_some, List.map_map]
    rfl

/-- Where there is no row, nulls are shown. -/
theorem PartialCombination.project_empty (columns : List ColumnRef) :
    (rows fun _ => none).project columns = Row.nulls (columns.map (·.outputName)) := by
  rw [Combination.project, Row.nulls, List.map_map]
  rfl

theorem ShowsMaximal.attach {left right next : NamedRows} (hleft : ShowsMaximal tables joins needed sets placed left)
    (hright : ShowsMaximal tables joins needed sets' group right) (hnames : NamesApart needed)
    (hnodup : (placed ++ group).Nodup)
    (hneeded : ∀ j ∈ conditionsBetween joins placed group,
      ⟨j.leftTable, j.leftColumn⟩ ∈ needed ∧ ⟨j.rightTable, j.rightColumn⟩ ∈ needed)
    (attaches : (JoinStep.between joins placed group).Attaches left right next) :
    ShowsMaximal tables joins needed
      ((JoinStep.between joins placed group).fills sets sets') (placed ++ group) next := by
  obtain ⟨hplaced, hgroup, hdisjoint⟩ := List.nodup_append'.mp hnodup
  refine ⟨JoinStep.areWithin_fills hleft.within hright.within, ?_, ?_⟩
  · rw [attaches.columns, hleft.columns, hright.columns, columnsOf_append, List.map_append]
  have hof : ∀ c ∈ maximalCombinations tables joins sets placed, c.IsOf tables placed := fun c hc =>
    ((mem_maximalCombinations hplaced).mp hc).1
  have hof' : ∀ added ∈ maximalCombinations tables joins sets' group, added.IsOf tables group := fun added hadded =>
    ((mem_maximalCombinations hgroup).mp hadded).1
  have hmerge : ∀ {c added : PartialCombination}, c.IsOf tables placed → added.IsOf tables group →
      Entries.merge (c.rows.project (columnsOf needed placed)) (added.rows.project (columnsOf needed group))
        = (c.combine added).rows.project (columnsOf needed (placed ++ group)) := fun hc hadded => by
    rw [Combination.merge_columnsOf hnames hnodup, PartialCombination.rows_combine hdisjoint hc hadded]
  have hagree : ∀ c ∈ maximalCombinations tables joins sets placed, ∀ added ∈ maximalCombinations tables joins sets' group,
      Row.agree ((conditionsBetween joins placed group).map fun j => (j.toward group).pair.names)
          (c.rows.project (columnsOf needed placed)) (added.rows.project (columnsOf needed group))
        = PartialCombination.links joins placed group c added := by
    intro c hc added hadded
    rw [attaches.agree_eq hnames hnodup hneeded (hleft.rows.mem_iff.mpr (List.mem_map_of_mem hc))
      (hright.rows.mem_iff.mpr (List.mem_map_of_mem hadded)), PartialCombination.links,
      PartialCombination.rows_combine hdisjoint (hof c hc) (hof' added hadded)]
  refine attaches.rows.trans (.trans ?_ ((maximalCombinations_append_perm hleft.within hright.within hnodup).map _).symm)
  rw [JoinStep.expected_eq, List.map_append, List.map_append, hleft.columns, hright.columns,
    ← PartialCombination.project_empty, ← PartialCombination.project_empty]
  refine (List.Perm.append ?_ ?_).append ?_
  · refine (NestedLoop.pairsOf_perm hleft.rows hright.rows).trans (.of_eq ?_)
    rw [NestedLoop.pairsOf_map hagree, List.map_flatMap]
    refine List.flatMap_congr fun c hc => ?_
    rw [List.map_map]
    exact List.map_congr_left fun added hadded => hmerge (hof c hc) (hof' added (List.mem_of_mem_filter hadded))
  · cases (JoinStep.between joins placed group).keepsPlaced with
    | false => exact .nil
    | true =>
      refine (NestedLoop.leftAlone_perm hleft.rows hright.rows).trans (.of_eq ?_)
      rw [NestedLoop.leftAlone_map hagree]
      refine List.map_congr_left fun c hc => (hmerge (hof c (List.mem_of_mem_filter hc)) (PartialCombination.isOf_empty _ _)).trans ?_
      rw [PartialCombination.combine_empty]
  · cases (JoinStep.between joins placed group).keepsAdded with
    | false => exact .nil
    | true =>
      refine (NestedLoop.rightAlone_perm hleft.rows hright.rows).trans (.of_eq ?_)
      rw [NestedLoop.rightAlone_map hagree]
      refine List.map_congr_left fun c hc => (hmerge (PartialCombination.isOf_empty _ _) (hof' c (List.mem_of_mem_filter hc))).trans ?_
      rw [PartialCombination.empty_combine]

/-! ### All steps -/

/-- A run of a plan shows the maximal combinations for the sets of tables that the plan fills. -/
theorem JoinRun.showsMaximal {relation : List String → NamedRows} (given : List String → Finset (Finset String))
    {groups : List (List String)} {steps : List JoinStep} {start joined : NamedRows}
    (plan : PlanFrom joins placed groups steps) (run : JoinRun relation start steps joined)
    (hstart : ShowsMaximal tables joins needed sets placed start)
    (hgroups : ∀ g ∈ groups, ShowsMaximal tables joins needed (given g) g (relation g)) (hnames : NamesApart needed)
    (hnodup : (placed ++ groups.flatten).Nodup)
    (hneeded : ∀ step ∈ steps, ∀ pair ∈ step.pairs, pair.placed ∈ needed ∧ pair.added ∈ needed) :
    ∃ all, all.Perm (placed ++ groups.flatten)
      ∧ ShowsMaximal tables joins needed (fillsFrom given sets steps) all joined := by
  -- What the steps that are left will fill stays the same from step to step.
  obtain ⟨all, hall, ⟨final, hfinal, hshows⟩, -⟩ := plan.exists_of_run (motive := fun left placed rows =>
    (∃ filled, fillsFrom given filled left = fillsFrom given sets steps
      ∧ ShowsMaximal tables joins needed filled placed rows)
      ∧ ∀ step ∈ left, ∀ pair ∈ step.pairs, pair.placed ∈ needed ∧ pair.added ∈ needed) run hnodup
    ⟨⟨sets, rfl, hstart⟩, hneeded⟩ fun hgroup hnodup attaches ⟨⟨filled, hfilled, hstart⟩, hneeded⟩ => by
      obtain ⟨hneeded, hlater⟩ := List.forall_mem_cons.mp hneeded
      have hends := JoinStep.ends_of_pairs hneeded
      refine ⟨⟨_, ?_, hstart.attach (hgroups _ hgroup) hnames hnodup hends attaches⟩, hlater⟩
      rw [← hfilled, fillsFrom, JoinStep.nodes_ofConditions]
  rw [← hfinal]
  exact ⟨all, hall, hshows⟩

end QueryFederation

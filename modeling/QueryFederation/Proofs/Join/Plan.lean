import Mathlib.Data.Finset.Prod
import QueryFederation.Proofs.Join.Graph
import QueryFederation.Proofs.Join.Run
import QueryFederation.Proofs.Outcome

/-!
# Join plans follow the join graph

A plan places its groups one after the other. `JoinStep.Follows` says what a step does by what is placed before it: it
has all conditions between that and its own tables, reads them from the placed side, and crosses only if there are none.
`Follow` says it of all steps of a plan, and that a step that crosses does so because no group that is left is linked to
what is placed.

From this the crossings of a plan are counted. A step that does not cross adds tables of connected parts that were
touched before; a step that crosses adds tables of a part that was not, because what is placed is closed then. So up to
the first crossing a plan places what the first group reaches, and later it crosses once for every other part.

A row that was joined need not have a part from every table: an outer join keeps rows without a partner, and leaves the
tables of the other side empty. The sets of tables that a row can fill are found by going along the plan. A step fills
what its two sides fill together, as far as they fill all tables it joins on, and what one side fills alone if its kind
keeps the rows of this side. No rows are needed for this.
-/

namespace QueryFederation

variable {joins : List JoinCondition} {placed group : List String} {groups parts : List (List String)}
  {steps before after : List JoinStep} {step : JoinStep} {aliasName : String}

/-- Does the pair state a condition with a placed table first and an added one second? -/
def JoinPair.Reads (placed added : List String) (j : JoinCondition) (pair : JoinPair) : Prop :=
  (pair = j.pair ∨ pair = j.reversed.pair) ∧ pair.placed.table ∈ placed ∧ pair.added.table ∈ added

/-- What a step does by the tables that are placed before it. -/
structure JoinStep.Follows (joins : List JoinCondition) (placed : List String) (step : JoinStep) : Prop where
  conditions : step.conditions = conditionsBetween joins placed step.nodes
  pairs : List.Forall₂ (JoinPair.Reads placed step.nodes) step.conditions step.pairs
  isCross_iff : step.isCross = true ↔ ∀ a ∈ placed, ∀ b ∈ step.nodes, ¬Joined joins a b

/-- Steps that follow the conditions, and that cross only when no later group is linked to what is placed. -/
inductive Follow (joins : List JoinCondition) : List String → List JoinStep → Prop
  | nil (placed : List String) : Follow joins placed []
  | cons {placed : List String} {step : JoinStep} {steps : List JoinStep} (follows : step.Follows joins placed)
      (last : step.isCross = true → ∀ later ∈ steps, ∀ a ∈ placed, ∀ b ∈ later.nodes, ¬Joined joins a b)
      (rest : Follow joins (placed ++ step.nodes) steps) : Follow joins placed (step :: steps)

/-! ### Plans follow -/

theorem JoinStep.conditions_ofConditions (nodes : List String) (conditions : List JoinCondition) :
    (ofConditions nodes conditions).conditions = conditions := by
  cases conditions <;> rfl

theorem JoinPair.reads_toward (hdisjoint : placed.Disjoint group) {j : JoinCondition}
    (hj : j ∈ conditionsBetween joins placed group) : JoinPair.Reads placed group j (j.toward group).pair := by
  obtain ⟨-, ⟨hleft, hright⟩ | ⟨hright, hleft⟩⟩ := mem_conditionsBetween.mp hj
  · have htoward : j.toward group = j := if_pos (List.contains_iff_mem.mpr hright)
    rw [htoward]
    exact ⟨Or.inl rfl, hleft, hright⟩
  · have hout : ¬group.contains j.rightTable = true := fun hmem => hdisjoint hright (List.contains_iff_mem.mp hmem)
    have htoward : j.toward group = j.reversed := if_neg hout
    rw [htoward]
    exact ⟨Or.inr rfl, hright, hleft⟩

theorem JoinStep.follows_ofConditions (hdisjoint : placed.Disjoint group) :
    (ofConditions group (conditionsBetween joins placed group)).Follows joins placed where
  conditions := by rw [conditions_ofConditions, nodes_ofConditions]
  pairs := by
    rw [conditions_ofConditions, nodes_ofConditions, pairs_ofConditions, List.forall₂_map_right_iff, List.forall₂_same]
    exact fun j hj => JoinPair.reads_toward hdisjoint hj
  isCross_iff := by
    rw [isCross, Option.isNone_iff_eq_none, kind_ofConditions_eq_none, conditionsBetween_eq_nil_iff, nodes_ofConditions]

theorem JoinStep.Follows.tables_of_mem (h : step.Follows joins placed) {pair : JoinPair} (hpair : pair ∈ step.pairs) :
    pair.placed.table ∈ placed ∧ pair.added.table ∈ step.nodes := by
  obtain ⟨_, -, -, htables⟩ := exists_left_of_forall₂ h.pairs hpair
  exact htables

/-- The next group is linked to what is placed, if any of the groups is. -/
theorem conditionsBetween_nextGroup_eq_nil {first : List String} {others : List (List String)}
    (h : conditionsBetween joins placed (nextGroup joins placed first others) = []) :
    ∀ g ∈ first :: others, conditionsBetween joins placed g = [] := by
  rw [nextGroup] at h
  cases hfind : (first :: others).find? fun group => !(conditionsBetween joins placed group).isEmpty with
  | none =>
    intro g hg
    simpa using List.find?_eq_none.mp hfind g hg
  | some found =>
    rw [hfind, Option.getD_some] at h
    have hlinked := List.find?_some hfind
    rw [h] at hlinked
    cases hlinked

theorem PlanFrom.nodes_perm (plan : PlanFrom joins placed groups steps) : (steps.map (·.nodes)).Perm groups := by
  induction plan with
  | nil => exact .nil
  | cons perm tail ih =>
    rw [List.map_cons, JoinStep.nodes_ofConditions]
    exact (ih.cons _).trans perm.symm

theorem nodes_joinSteps_perm (joins : List JoinCondition) (placed : List String) (groups : List (List String)) :
    ((joinSteps joins placed groups).map (·.nodes)).Perm groups :=
  (planFrom_joinSteps joins placed groups).nodes_perm

theorem follow_joinSteps (hnodup : (placed ++ groups.flatten).Nodup) : Follow joins placed (joinSteps joins placed groups) := by
  fun_induction joinSteps joins placed groups with
  | case1 placed => exact .nil placed
  | case2 placed first others group ih =>
    have hnext := List.perm_cons_erase (nextGroup_mem joins placed first others)
    have hnodup := (append_flatten_perm placed hnext).nodup_iff.mp hnodup
    refine .cons (JoinStep.follows_ofConditions ?_) ?_ ?_
    · exact List.disjoint_of_nodup_append (hnodup.sublist (List.sublist_append_left _ _))
    · intro hcross later hlater
      rw [JoinStep.isCross, Option.isNone_iff_eq_none, JoinStep.kind_ofConditions_eq_none] at hcross
      have hnodes := (nodes_joinSteps_perm joins (placed ++ group) _).mem_iff.mp (List.mem_map_of_mem hlater)
      exact conditionsBetween_eq_nil_iff.mp (conditionsBetween_nextGroup_eq_nil hcross _ (List.mem_of_mem_erase hnodes))
    · rw [JoinStep.nodes_ofConditions]
      exact ih hnodup

theorem Follow.follows (h : Follow joins placed (before ++ step :: after)) :
    step.Follows joins (placed ++ before.flatMap (·.nodes)) := by
  induction before generalizing placed with
  | nil =>
    obtain _ | ⟨follows, -, -⟩ := h
    simpa using follows
  | cons first before ih =>
    obtain _ | ⟨-, -, rest⟩ := h
    rw [List.flatMap_cons, ← List.append_assoc]
    exact ih rest

/-! ### Every condition is in one step -/

/-- Is it a condition between two of the groups? -/
def JoinCondition.connects (groups : List (List String)) (j : JoinCondition) : Bool :=
  j.isWithin groups.flatten && !groups.any j.isWithin

theorem JoinCondition.connects_iff {j : JoinCondition} : j.connects groups = true
    ↔ (j.leftTable ∈ groups.flatten ∧ j.rightTable ∈ groups.flatten)
      ∧ ¬∃ g ∈ groups, j.leftTable ∈ g ∧ j.rightTable ∈ g := by
  simp only [connects, Bool.and_eq_true, Bool.not_eq_true', isWithin_iff, ← Bool.not_eq_true, List.any_eq_true]

theorem JoinCondition.connects_perm {groups' : List (List String)} (h : groups.Perm groups') (j : JoinCondition) :
    j.connects groups = j.connects groups' := by
  rw [Bool.eq_iff_iff, connects_iff, connects_iff, h.flatten.mem_iff, h.flatten.mem_iff]
  simp only [h.mem_iff]

/-- A condition between groups is one between the first two, or one between the groups with these two taken together. -/
theorem JoinCondition.connects_cons_cons (hnodup : (placed ++ group ++ groups.flatten).Nodup) (j : JoinCondition) :
    (j.connects (placed :: group :: groups) = true
        ↔ j.links placed group = true ∨ j.connects ((placed ++ group) :: groups) = true)
      ∧ ¬(j.links placed group = true ∧ j.connects ((placed ++ group) :: groups) = true) := by
  obtain ⟨hboth, -, hothers⟩ := List.nodup_append.mp hnodup
  have hapart : ∀ a, a ∈ placed → a ∉ group := fun a ha hgroup => List.disjoint_of_nodup_append hboth ha hgroup
  have hout : ∀ a, a ∈ placed ∨ a ∈ group → a ∉ groups.flatten := fun a ha hmem =>
    hothers a (List.mem_append.mpr ha) a hmem rfl
  have hwithin : (∃ g ∈ groups, j.leftTable ∈ g ∧ j.rightTable ∈ g)
      → j.leftTable ∈ groups.flatten ∧ j.rightTable ∈ groups.flatten := fun ⟨g, hg, hleft, hright⟩ =>
    ⟨List.mem_flatten.mpr ⟨g, hg, hleft⟩, List.mem_flatten.mpr ⟨g, hg, hright⟩⟩
  have hleft := hapart j.leftTable
  have hright := hapart j.rightTable
  have hleftOut := hout j.leftTable
  have hrightOut := hout j.rightTable
  rw [connects_iff, connects_iff]
  simp only [links, Bool.or_eq_true, Bool.and_eq_true, List.contains_iff_mem, List.flatten_cons, List.mem_append,
    List.exists_mem_cons_iff]
  generalize (∃ g ∈ groups, j.leftTable ∈ g ∧ j.rightTable ∈ g) = within at hwithin ⊢
  grind only

/-- What passes one of two tests that exclude each other is what passes the first and what passes the second. -/
theorem filter_perm_append {α : Type} {items : List α} {test first second : α → Bool}
    (h : ∀ item ∈ items, (test item = true ↔ first item = true ∨ second item = true)
      ∧ ¬(first item = true ∧ second item = true)) :
    (items.filter test).Perm (items.filter first ++ items.filter second) := by
  refine ((List.filter_append_perm first (items.filter test)).symm).trans (List.Perm.of_eq ?_)
  rw [List.filter_filter, List.filter_filter]
  congr 1 <;>
  · apply List.filter_congr
    intro item hitem
    obtain ⟨hiff, hnot⟩ := h item hitem
    clear h
    cases hfirst : first item <;> cases hsecond : second item <;> simp_all

theorem Follow.conditions_perm (h : Follow joins placed steps) (hnodup : (placed ++ steps.flatMap (·.nodes)).Nodup) :
    (steps.flatMap (·.conditions)).Perm (joins.filter (JoinCondition.connects (placed :: steps.map (·.nodes)))) := by
  induction h with
  | nil placed =>
    refine List.Perm.of_eq (List.filter_eq_nil_iff.mpr fun j _ hconnects => ?_).symm
    obtain ⟨⟨hleft, hright⟩, hwithin⟩ := JoinCondition.connects_iff.mp hconnects
    simp only [List.map_nil, List.flatten_singleton] at hleft hright
    exact hwithin ⟨placed, List.mem_singleton.mpr rfl, hleft, hright⟩
  | @cons placed step steps follows last rest ih =>
    rw [List.flatMap_cons, ← List.append_assoc] at hnodup
    have hsplit := filter_perm_append fun j (_ : j ∈ joins) => JoinCondition.connects_cons_cons
      (show (placed ++ step.nodes ++ (steps.map (·.nodes)).flatten).Nodup by rwa [← List.flatMap_def]) j
    rw [List.flatMap_cons, List.map_cons, follows.conditions]
    exact (List.Perm.append_left _ (ih hnodup)).trans hsplit.symm

/-! ### Crossings -/

/-- Steps whose groups divide connected tables: conditions lead to no other tables, and every group is connected. -/
structure Divides (joins : List JoinCondition) (placed : List String) (steps : List JoinStep) : Prop where
  nodup : (placed ++ steps.flatMap (·.nodes)).Nodup
  closed : ∀ a ∈ placed ++ steps.flatMap (·.nodes), ∀ b, Joined joins a b → b ∈ placed ++ steps.flatMap (·.nodes)
  ne_nil : ∀ step ∈ steps, step.nodes ≠ []
  reaches : ∀ step ∈ steps, ∀ a ∈ step.nodes, ∀ b ∈ step.nodes, Reaches joins a b

theorem Divides.tail (h : Divides joins placed (step :: steps)) : Divides joins (placed ++ step.nodes) steps := by
  obtain ⟨hnodup, hclosed, hne, hreaches⟩ := h
  rw [List.flatMap_cons, ← List.append_assoc] at hnodup hclosed
  exact ⟨hnodup, hclosed, fun s hs => hne s (List.mem_cons_of_mem _ hs),
    fun s hs => hreaches s (List.mem_cons_of_mem _ hs)⟩

/-- When a plan crosses, no condition leads out of what is placed. -/
theorem Divides.closed_of_isCross (h : Divides joins placed (step :: steps)) (follows : step.Follows joins placed)
    (last : step.isCross = true → ∀ later ∈ steps, ∀ a ∈ placed, ∀ b ∈ later.nodes, ¬Joined joins a b)
    (hcross : step.isCross = true) : ∀ a ∈ placed, ∀ b, Joined joins a b → b ∈ placed := by
  intro a ha b hjoined
  have hb := h.closed a (List.mem_append_left _ ha) b hjoined
  rw [List.flatMap_cons, List.mem_append, List.mem_append] at hb
  rcases hb with hb | hb | hb
  · exact hb
  · exact absurd hjoined (follows.isCross_iff.mp hcross a ha b hb)
  · obtain ⟨later, hlater, hb⟩ := List.mem_flatMap.mp hb
    exact absurd hjoined (last hcross later hlater a ha b hb)

/-- A step that does not cross adds tables that are reached from what is placed. -/
theorem Divides.exists_reaches (h : Divides joins placed (step :: steps)) (follows : step.Follows joins placed)
    (hcross : step.isCross = false) (haliasName : aliasName ∈ step.nodes) :
    ∃ a ∈ placed, Reaches joins a aliasName := by
  have hlinked : ¬∀ a ∈ placed, ∀ b ∈ step.nodes, ¬Joined joins a b := fun hnone => by
    rw [follows.isCross_iff.mpr hnone] at hcross
    cases hcross
  push Not at hlinked
  obtain ⟨a, ha, b, hb, hjoined⟩ := hlinked
  exact ⟨a, ha, .head hjoined (h.reaches step List.mem_cons_self b hb aliasName haliasName)⟩

/-- Up to its first crossing a plan places what is reached from where it starts. -/
theorem Follow.mem_placed_iff (h : Follow joins placed steps) (hdivides : Divides joins placed steps) :
    aliasName ∈ placed ++ (steps.takeWhile (!·.isCross)).flatMap (·.nodes)
      ↔ ∃ a ∈ placed, Reaches joins a aliasName := by
  induction h with
  | nil placed =>
    have hclosed := hdivides.closed
    simp only [List.flatMap_nil, List.append_nil] at hclosed
    rw [List.takeWhile_nil, List.flatMap_nil, List.append_nil]
    exact ⟨fun hmem => ⟨aliasName, hmem, .refl⟩, fun ⟨a, ha, hreaches⟩ => hreaches.mem_of_closed hclosed ha⟩
  | @cons placed step steps follows last rest ih =>
    cases hcross : step.isCross with
    | true =>
      rw [List.takeWhile_cons_of_neg (by simp [hcross]), List.flatMap_nil, List.append_nil]
      have hclosed := hdivides.closed_of_isCross follows last hcross
      exact ⟨fun hmem => ⟨aliasName, hmem, .refl⟩, fun ⟨a, ha, hreaches⟩ => hreaches.mem_of_closed hclosed ha⟩
    | false =>
      rw [List.takeWhile_cons_of_pos (by simp [hcross]), List.flatMap_cons, ← List.append_assoc, ih hdivides.tail]
      constructor
      · rintro ⟨b, hb, hreaches⟩
        rcases List.mem_append.mp hb with hb | hb
        · exact ⟨b, hb, hreaches⟩
        · obtain ⟨a, ha, hab⟩ := hdivides.exists_reaches follows hcross hb
          exact ⟨a, ha, hab.trans hreaches⟩
      · rintro ⟨a, ha, hreaches⟩
        exact ⟨a, List.mem_append_left _ ha, hreaches⟩

/-- Is no table of the part placed? -/
def isUntouched (placed part : List String) : Bool := part.all fun aliasName => !placed.contains aliasName

theorem isUntouched_iff {part : List String} : isUntouched placed part = true ↔ ∀ a ∈ part, a ∉ placed := by
  simp [isUntouched]

theorem isUntouched_append {added part : List String} :
    isUntouched (placed ++ added) part = (isUntouched placed part && isUntouched added part) := by
  rw [Bool.eq_iff_iff, Bool.and_eq_true, isUntouched_iff, isUntouched_iff, isUntouched_iff, ← forall₂_and]
  simp only [List.mem_append, not_or]

/-- Adding tables that are reached already touches no other part. -/
theorem filter_isUntouched_of_reaches {added : List String}
    (hparts : ∀ part ∈ parts, ∀ a ∈ part, ∀ b, b ∈ part ↔ Reaches joins a b)
    (hadded : ∀ b ∈ added, ∃ a ∈ placed, Reaches joins a b) :
    parts.filter (isUntouched (placed ++ added)) = parts.filter (isUntouched placed) := by
  apply List.filter_congr
  intro part hpart
  rw [isUntouched_append, Bool.eq_iff_iff, Bool.and_eq_true, and_iff_left_iff_imp, isUntouched_iff, isUntouched_iff]
  intro huntouched b hb hmem
  obtain ⟨a, ha, hreaches⟩ := hadded b hmem
  exact huntouched a ((hparts part hpart b hb a).mpr hreaches.symm) ha

/-- Adding connected tables that are not reached from what is placed touches one more part. -/
theorem length_filter_isUntouched_of_closed {added : List String}
    (hparts : ∀ part ∈ parts, ∀ a ∈ part, ∀ b, b ∈ part ↔ Reaches joins a b) (hnodup : parts.flatten.Nodup)
    (hclosed : ∀ a ∈ placed, ∀ b, Joined joins a b → b ∈ placed) (hdisjoint : placed.Disjoint added)
    (hadded : ∀ a ∈ added, ∀ b ∈ added, Reaches joins a b) {home : String} (hhome : home ∈ added)
    (hmem : home ∈ parts.flatten) :
    (parts.filter (isUntouched placed)).length = (parts.filter (isUntouched (placed ++ added))).length + 1 := by
  obtain ⟨part, hpart, hin⟩ := List.mem_flatten.mp hmem
  obtain ⟨firsts, lasts, rfl⟩ := List.append_of_mem hpart
  have huntouched : isUntouched placed part = true := isUntouched_iff.mpr fun a ha hplaced =>
    hdisjoint (((hparts part hpart a ha home).mp hin).mem_of_closed hclosed hplaced) hhome
  have htouched : isUntouched (placed ++ added) part = false := by
    rw [← Bool.not_eq_true, isUntouched_iff]
    exact fun hall => hall home hin (List.mem_append_right _ hhome)
  have hsame : ∀ other ∈ firsts ++ lasts, other.Disjoint part →
      isUntouched (placed ++ added) other = isUntouched placed other := by
    intro other _ hapart
    rw [isUntouched_append, Bool.and_eq_left_iff_imp, isUntouched_iff, isUntouched_iff]
    exact fun _ b hb hmem => hapart hb ((hparts part hpart home hin b).mpr (hadded home hhome b hmem))
  obtain ⟨-, hpairwise⟩ := List.nodup_flatten.mp hnodup
  obtain ⟨-, hlasts, hbetween⟩ := List.pairwise_append.mp hpairwise
  have hfirsts : firsts.filter (isUntouched (placed ++ added)) = firsts.filter (isUntouched placed) :=
    List.filter_congr fun other hother =>
      hsame other (List.mem_append_left _ hother) (hbetween other hother part List.mem_cons_self)
  have hlasts : lasts.filter (isUntouched (placed ++ added)) = lasts.filter (isUntouched placed) :=
    List.filter_congr fun other hother =>
      hsame other (List.mem_append_right _ hother) ((List.pairwise_cons.mp hlasts).1 other hother).symm
  rw [List.filter_append, List.filter_append, List.filter_cons_of_pos huntouched,
    List.filter_cons_of_neg (by simp [htouched]), hfirsts, hlasts]
  simp only [List.length_append, List.length_cons]
  omega

/-- A plan crosses once for every connected part that is not touched where it starts. -/
theorem Follow.length_crossings (h : Follow joins placed steps) (hdivides : Divides joins placed steps)
    (hparts : ∀ part ∈ parts, ∀ a ∈ part, ∀ b, b ∈ part ↔ Reaches joins a b) (hne : ∀ part ∈ parts, part ≠ [])
    (hperm : parts.flatten.Perm (placed ++ steps.flatMap (·.nodes))) :
    (steps.filter (·.isCross)).length = (parts.filter (isUntouched placed)).length := by
  induction h with
  | nil placed =>
    rw [List.flatMap_nil, List.append_nil] at hperm
    rw [List.filter_nil, List.length_nil, eq_comm, List.length_eq_zero_iff, List.filter_eq_nil_iff]
    intro part hpart huntouched
    obtain ⟨a, ha⟩ := List.exists_mem_of_ne_nil _ (hne part hpart)
    exact isUntouched_iff.mp huntouched a ha (hperm.mem_iff.mp (List.mem_flatten.mpr ⟨part, hpart, ha⟩))
  | @cons placed step steps follows last rest ih =>
    have hnodup := hperm.nodup_iff.mpr hdivides.nodup
    have ih := ih hdivides.tail (by rw [List.append_assoc, ← List.flatMap_cons]; exact hperm)
    cases hcross : step.isCross with
    | true =>
      obtain ⟨home, hhome⟩ := List.exists_mem_of_ne_nil _ (hdivides.ne_nil step List.mem_cons_self)
      have hin : home ∈ (step :: steps).flatMap (·.nodes) := List.mem_flatMap.mpr ⟨step, List.mem_cons_self, hhome⟩
      have hdisjoint : placed.Disjoint step.nodes := fun a ha hmem =>
        List.disjoint_of_nodup_append hdivides.nodup ha (List.mem_flatMap.mpr ⟨step, List.mem_cons_self, hmem⟩)
      rw [List.filter_cons_of_pos hcross, List.length_cons, ih]
      exact (length_filter_isUntouched_of_closed hparts hnodup (hdivides.closed_of_isCross follows last hcross) hdisjoint
        (hdivides.reaches step List.mem_cons_self) hhome (hperm.mem_iff.mpr (List.mem_append_right _ hin))).symm
    | false =>
      rw [List.filter_cons_of_neg (by simp [hcross]), ih,
        filter_isUntouched_of_reaches hparts fun b hb => hdivides.exists_reaches follows hcross hb]

end QueryFederation

/-! ### Which tables a plan fills -/

namespace QueryFederation

namespace JoinStep

/-- Does the step keep what is placed if it has no partner? -/
def keepsPlaced (step : JoinStep) : Bool := step.kind.any (·.keepsLeft)

/-- Does the step keep what it adds if it has no partner? -/
def keepsAdded (step : JoinStep) : Bool := step.kind.any (·.keepsRight)

/-- Are all tables filled that the step joins on? -/
def spans (step : JoinStep) (s t : Finset String) : Bool :=
  step.pairs.all fun pair => pair.placed.table ∈ s && pair.added.table ∈ t

/-- What a step fills, from what its two sides fill. -/
def fills (step : JoinStep) (placed added : Finset (Finset String)) : Finset (Finset String) :=
  ((placed ×ˢ added).filter fun p => step.spans p.1 p.2).image (fun p => p.1 ∪ p.2)
    ∪ (if step.keepsPlaced then placed else ∅) ∪ (if step.keepsAdded then added else ∅)

variable {step : JoinStep} {placed added : Finset (Finset String)} {s : Finset String}

theorem mem_fills : s ∈ step.fills placed added
    ↔ (∃ t ∈ placed, ∃ u ∈ added, step.spans t u = true ∧ t ∪ u = s)
      ∨ (step.keepsPlaced = true ∧ s ∈ placed) ∨ (step.keepsAdded = true ∧ s ∈ added) := by
  have hkept : ∀ (kept : Bool) (sets : Finset (Finset String)),
      s ∈ (if kept then sets else ∅) ↔ kept = true ∧ s ∈ sets := by
    intro kept sets
    cases kept <;> simp
  simp only [fills, Finset.mem_union, Finset.mem_image, Finset.mem_filter, Finset.mem_product, Prod.exists, hkept,
    or_assoc]
  refine or_congr_left ⟨?_, ?_⟩
  · rintro ⟨t, u, ⟨⟨ht, hu⟩, hspans⟩, rfl⟩
    exact ⟨t, ht, u, hu, hspans, rfl⟩
  · rintro ⟨t, ht, u, hu, hspans, rfl⟩
    exact ⟨t, u, ⟨⟨ht, hu⟩, hspans⟩, rfl⟩

end JoinStep

/-- Are these sets of some tables, none of which is empty? -/
def AreWithin (placed : List String) (sets : Finset (Finset String)) : Prop :=
  ∀ s ∈ sets, s.Nonempty ∧ ∀ a ∈ s, a ∈ placed

theorem areWithin_singleton (aliasName : String) : AreWithin [aliasName] {{aliasName}} := by
  intro s hs
  rw [Finset.mem_singleton.mp hs]
  exact ⟨Finset.singleton_nonempty _, fun a ha => List.mem_singleton.mpr (Finset.mem_singleton.mp ha)⟩

theorem AreWithin.of_perm {placed others : List String} {sets : Finset (Finset String)} (h : AreWithin placed sets)
    (hperm : placed.Perm others) : AreWithin others sets :=
  fun s hs => ⟨(h s hs).1, fun a ha => hperm.mem_iff.mp ((h s hs).2 a ha)⟩

theorem JoinStep.areWithin_fills {step : JoinStep} {placed group : List String} {sets sets' : Finset (Finset String)}
    (h : AreWithin placed sets) (h' : AreWithin group sets') : AreWithin (placed ++ group) (step.fills sets sets') := by
  intro s hs
  rcases mem_fills.mp hs with ⟨t, ht, u, hu, -, rfl⟩ | ⟨-, hs⟩ | ⟨-, hs⟩
  · obtain ⟨hne, hsubset⟩ := h t ht
    obtain ⟨-, hsubset'⟩ := h' u hu
    refine ⟨hne.mono Finset.subset_union_left, fun a ha => ?_⟩
    exact List.mem_append.mpr ((Finset.mem_union.mp ha).imp (hsubset a) (hsubset' a))
  · exact ⟨(h s hs).1, fun a ha => List.mem_append_left _ ((h s hs).2 a ha)⟩
  · exact ⟨(h' s hs).1, fun a ha => List.mem_append_right _ ((h' s hs).2 a ha)⟩

/-- What steps fill one after the other, if groups fill what is given. -/
def fillsFrom (given : List String → Finset (Finset String)) (placed : Finset (Finset String)) :
    List JoinStep → Finset (Finset String)
  | [] => placed
  | step :: steps => fillsFrom given (step.fills placed (given step.nodes)) steps

/-- The sets of tables that a row of a plan can fill. -/
def JoinPlan.fills (plan : JoinPlan) (given : List String → Finset (Finset String)) : Finset (Finset String) :=
  fillsFrom given (given plan.root) plan.steps

namespace JoinStep

variable {joins : List JoinCondition} {placed group : List String} {s t : Finset String}

/-- The step that attaches a group to placed tables, by all conditions between the two. -/
abbrev between (joins : List JoinCondition) (placed group : List String) : JoinStep :=
  ofConditions group (conditionsBetween joins placed group)

/-- A step from one set of tables to another spans them if they have the ends of all conditions between the two. -/
theorem spans_ofConditions (hdisjoint : placed.Disjoint group) (hs : ∀ a ∈ s, a ∈ placed) (ht : ∀ a ∈ t, a ∈ group) :
    (between joins placed group).spans s t = true
      ↔ ∀ j ∈ conditionsBetween joins placed group, j.leftTable ∈ s ∪ t ∧ j.rightTable ∈ s ∪ t := by
  have hleft : ∀ {a}, a ∈ placed → (a ∈ s ∪ t ↔ a ∈ s) := fun ha => by
    rw [Finset.mem_union, or_iff_left fun hmem => hdisjoint ha (ht _ hmem)]
  have hright : ∀ {a}, a ∈ group → (a ∈ s ∪ t ↔ a ∈ t) := fun ha => by
    rw [Finset.mem_union, or_iff_right fun hmem => hdisjoint (hs _ hmem) ha]
  rw [spans, pairs_ofConditions, List.all_map, List.all_eq_true]
  refine forall₂_congr fun j hj => ?_
  rw [Function.comp_apply, Bool.and_eq_true, decide_eq_true_iff, decide_eq_true_iff]
  obtain ⟨-, ⟨hl, hr⟩ | ⟨hr, hl⟩⟩ := mem_conditionsBetween.mp hj
  · have htoward : j.toward group = j := if_pos (List.contains_iff_mem.mpr hr)
    rw [htoward, hleft hl, hright hr]
    rfl
  · have hout : ¬group.contains j.rightTable = true := fun hmem => hdisjoint hr (List.contains_iff_mem.mp hmem)
    have htoward : j.toward group = j.reversed := if_neg hout
    rw [htoward, hright hl, hleft hr, and_comm]
    rfl

end JoinStep

end QueryFederation

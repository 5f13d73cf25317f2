import QueryFederation.Proofs.Compilation.Sql
import QueryFederation.Proofs.Federation.JoinGraph
import QueryFederation.Proofs.Federation.Keys

/-!
# Partitions are the largest groups that a source can join

A partition is what one query to a source can answer, and partitions are as large as that allows: two tables are in one
partition exactly if they are of the same source, this source can join, and conditions between its own tables lead from
one to the other. A way over the tables of another source does not count. Partitions stand in the order of their first
tables, and so do the tables in each of them; the place of a partition in the list is its number.

A condition is asked of a source if both of its ends are in one partition, and else it belongs to the step of the plan
that attaches the later of its ends. So every condition has one place, which the counts of `countP_isWithin` and
`Follow.countP_conditions` show, and there it stands as often as it was declared.
-/

namespace QueryFederation

variable {joins : List JoinCondition} {placed tables part : List String} {groups : List (List String)}
  {steps : List JoinStep} {j : JoinCondition}

/-! ### Connected parts keep the order of the tables -/

theorem sublist_of_mem_components (h : part ∈ components joins tables) : part.Sublist tables := by
  fun_induction components joins tables with
  | case1 => cases h
  | case2 table rest found ih =>
    rcases List.mem_cons.mp h with rfl | h
    · exact List.filter_sublist.cons_cons table
    · exact (ih h).trans (List.filter_sublist.cons table)

/-! ### The one place of a condition -/

/-- Of groups without common tables at most one has both ends of a condition. -/
theorem countP_isWithin (hnodup : groups.flatten.Nodup) :
    groups.countP j.isWithin = if groups.any j.isWithin then 1 else 0 := by
  induction groups with
  | nil => rfl
  | cons group groups ih =>
    rw [List.flatten_cons] at hnodup
    rw [List.countP_cons, List.any_cons, ih hnodup.of_append_right]
    cases hwithin : j.isWithin group with
    | false => simp
    | true =>
      have hothers : groups.any j.isWithin = false := by
        rw [JoinCondition.isWithin_iff] at hwithin
        rw [List.any_eq_false]
        intro other hother hends
        rw [JoinCondition.isWithin_iff] at hends
        exact List.disjoint_of_nodup_append hnodup hwithin.1 (List.mem_flatten.mpr ⟨other, hother, hends.1⟩)
      simp [hothers]

/-- A condition between the groups of a plan is in one of its steps, and any other in none. -/
theorem Follow.countP_conditions (h : Follow joins placed steps) (hj : j ∈ joins)
    (hnodup : (placed ++ steps.flatMap (·.nodes)).Nodup) :
    steps.countP (fun step => decide (j ∈ step.conditions))
      = if j.connects (placed :: steps.map (·.nodes)) then 1 else 0 := by
  induction h with
  | nil placed =>
    have hnone : ¬j.connects [placed] = true := fun hconnects => by
      obtain ⟨⟨hleft, hright⟩, hwithin⟩ := JoinCondition.connects_iff.mp hconnects
      rw [List.flatten_singleton] at hleft hright
      exact hwithin ⟨placed, List.mem_singleton.mpr rfl, hleft, hright⟩
    rw [List.map_nil, if_neg hnone, List.countP_nil]
  | @cons placed step steps follows last rest ih =>
    rw [List.flatMap_cons, ← List.append_assoc] at hnodup
    have hsplit := JoinCondition.connects_cons_cons
      (show (placed ++ step.nodes ++ (steps.map (·.nodes)).flatten).Nodup by rwa [← List.flatMap_def]) j
    have hmem : j ∈ step.conditions ↔ j.links placed step.nodes = true := by
      rw [follows.conditions, conditionsBetween, List.mem_filter]
      exact and_iff_right hj
    rw [List.countP_cons, ih hnodup, List.map_cons]
    simp only [hmem, decide_eq_true_eq, hsplit.1]
    by_cases hlinks : j.links placed step.nodes = true
    · have hlater : ¬j.connects ((placed ++ step.nodes) :: steps.map (·.nodes)) = true := fun hlater =>
        hsplit.2 ⟨hlinks, hlater⟩
      simp [hlinks, hlater]
    · simp [hlinks]

/-- What is inside of one of several groups, group by group, is all that is inside of any. -/
theorem flatMap_filter_isWithin_perm (joins : List JoinCondition) (hnodup : groups.flatten.Nodup) :
    (groups.flatMap fun group => joins.filter (·.isWithin group)).Perm
      (joins.filter fun j => groups.any j.isWithin) := by
  induction groups with
  | nil => simp
  | cons group groups ih =>
    rw [List.flatten_cons] at hnodup
    have hsplit : (joins.filter fun j => (group :: groups).any j.isWithin).Perm
        ((joins.filter fun j => j.isWithin group) ++ joins.filter fun j => groups.any j.isWithin) :=
      filter_perm_append fun j _ => by
        refine ⟨by simp, fun ⟨hfirst, hsecond⟩ => ?_⟩
        have hcount : (group :: groups).countP j.isWithin = if (group :: groups).any j.isWithin then 1 else 0 :=
          countP_isWithin (by rwa [List.flatten_cons])
        rw [List.countP_cons, countP_isWithin hnodup.of_append_right, if_pos hfirst, if_pos hsecond,
          List.any_cons, hfirst, Bool.true_or] at hcount
        simp at hcount
    rw [List.flatMap_cons]
    exact (List.Perm.append_left _ (ih hnodup.of_append_right)).trans hsplit.symm

namespace Description

variable {d : Description} {canJoin : String → Bool} {cleanup : Cleanup}

/-! ### Groups of a source -/

/-- The conditions between tables of a source. -/
def sourceJoins (d : Description) (sourceId : String) : List JoinCondition :=
  d.joins.filter (·.isWithin ((d.tables.filter fun t => t.sourceId = sourceId).map (·.aliasName)))

/-- Can one query to a source have both tables? -/
def AreJoinable (d : Description) (canJoin : String → Bool) (s t : TableReference) : Prop :=
  s.sourceId = t.sourceId ∧ canJoin s.sourceId = true ∧ Reaches (d.sourceJoins s.sourceId) s.aliasName t.aliasName

/-- Partitions that are the largest groups of joinable tables, in the order of the tables. -/
structure IsDividedInto (d : Description) (canJoin : String → Bool) (partitions : List Partition) : Prop where
  tables : (partitions.flatMap (·.aliases)).Perm d.aliases
  nodup : (partitions.flatMap (·.aliases)).Nodup
  source : ∀ p ∈ partitions, ∀ t ∈ d.tables, t.aliasName ∈ p.aliases → t.sourceId = p.sourceId
  together_iff : ∀ s ∈ d.tables, ∀ t ∈ d.tables, s.aliasName ≠ t.aliasName →
    ((∃ p ∈ partitions, s.aliasName ∈ p.aliases ∧ t.aliasName ∈ p.aliases) ↔ d.AreJoinable canJoin s t)
  inOrder : ∀ p ∈ partitions, p.aliases ≠ [] ∧ p.aliases.Sublist d.aliases
  ordered : partitions.Pairwise fun p q =>
    d.aliases.idxOf (p.aliases.headD "") < d.aliases.idxOf (q.aliases.headD "")

theorem exists_group_of_mem_partitions {p : Partition} (hp : p ∈ d.partitions canJoin) :
    p.aliases ∈ d.sourceGroups canJoin p.sourceId := by
  obtain ⟨g, hg, rfl⟩ := exists_of_mem_partitions hp
  obtain ⟨sourceId, -, hmem⟩ := List.mem_flatMap.mp hg
  obtain ⟨group, hgroup, rfl⟩ := List.mem_map.mp hmem
  exact hgroup

/-- In a source that can join, a group has all tables that one of its tables reaches inside of the source. -/
theorem mem_group_iff_reaches (hnodup : d.aliases.Nodup) {sourceId : String} (hjoins : canJoin sourceId = true)
    {group : List String} (hgroup : group ∈ d.sourceGroups canJoin sourceId) {a b : String} (ha : a ∈ group) :
    b ∈ group ↔ Reaches (d.sourceJoins sourceId) a b := by
  rw [sourceGroups, if_pos hjoins, nodes, lastOccurrences_of_nodup hnodup] at hgroup
  exact mem_iff_reaches_of_mem_components (fun _ _ _ hjoined => mem_aliases_of_joined hjoined) hgroup ha

/-- A source that cannot join has groups of one table only. -/
theorem eq_of_mem_group {sourceId : String} (hjoins : canJoin sourceId = false) {group : List String}
    (hgroup : group ∈ d.sourceGroups canJoin sourceId) {a b : String} (ha : a ∈ group) (hb : b ∈ group) : a = b := by
  rw [sourceGroups, if_neg (by simp [hjoins])] at hgroup
  obtain ⟨aliasName, -, rfl⟩ := List.mem_map.mp hgroup
  rw [List.mem_singleton.mp ha, List.mem_singleton.mp hb]

theorem sublist_of_mem_sourceGroups (hnodup : d.aliases.Nodup) {sourceId : String} {group : List String}
    (hgroup : group ∈ d.sourceGroups canJoin sourceId) : group.Sublist d.aliases := by
  rw [sourceGroups] at hgroup
  split at hgroup
  · rw [nodes, lastOccurrences_of_nodup hnodup] at hgroup
    exact (sublist_of_mem_components hgroup).trans List.filter_sublist
  · obtain ⟨aliasName, hmem, rfl⟩ := List.mem_map.mp hgroup
    exact List.singleton_sublist.mpr ((List.filter_sublist.map _).subset hmem)

/-! ### Partitions -/

theorem sublist_of_mem_partitions (hnodup : d.aliases.Nodup) {p : Partition} (hp : p ∈ d.partitions canJoin) :
    p.aliases.Sublist d.aliases :=
  sublist_of_mem_sourceGroups hnodup (exists_group_of_mem_partitions hp)

theorem headD_mem_partition {p : Partition} (hp : p ∈ d.partitions canJoin) : p.aliases.headD "" ∈ p.aliases := by
  have hne := aliases_ne_nil_of_mem_partitions hp
  cases haliases : p.aliases with
  | nil => exact absurd haliases hne
  | cons first others => exact List.mem_cons_self

theorem pairwise_disjoint_partitions (hnodup : d.aliases.Nodup) (canJoin : String → Bool) :
    (d.partitions canJoin).Pairwise fun p q => p.aliases.Disjoint q.aliases :=
  (List.nodup_flatMap.mp ((flatMap_aliases_partitions_perm hnodup canJoin).nodup_iff.mpr hnodup)).2

/-- Two tables are in one partition exactly if one query to their source can have both. -/
theorem exists_partition_iff_areJoinable (hnodup : d.aliases.Nodup) {s t : TableReference} (hs : s ∈ d.tables)
    (ht : t ∈ d.tables) (hne : s.aliasName ≠ t.aliasName) :
    (∃ p ∈ d.partitions canJoin, s.aliasName ∈ p.aliases ∧ t.aliasName ∈ p.aliases) ↔ d.AreJoinable canJoin s t := by
  constructor
  · rintro ⟨p, hp, hsmem, htmem⟩
    have hsource := sourceId_of_mem_partitions hnodup hp hs hsmem
    have hgroup := exists_group_of_mem_partitions hp
    rw [← hsource] at hgroup
    have hjoins : canJoin s.sourceId = true := by
      by_contra hnot
      exact hne (eq_of_mem_group (Bool.eq_false_of_not_eq_true hnot) hgroup hsmem htmem)
    exact ⟨hsource.trans (sourceId_of_mem_partitions hnodup hp ht htmem).symm, hjoins,
      (mem_group_iff_reaches hnodup hjoins hgroup hsmem).mp htmem⟩
  · rintro ⟨hsource, hjoins, hreaches⟩
    have hmem : s.aliasName ∈ (d.partitions canJoin).flatMap (·.aliases) :=
      (flatMap_aliases_partitions_perm hnodup canJoin).mem_iff.mpr (List.mem_map_of_mem hs)
    obtain ⟨p, hp, hsmem⟩ := List.mem_flatMap.mp hmem
    have hgroup := exists_group_of_mem_partitions hp
    rw [← sourceId_of_mem_partitions hnodup hp hs hsmem] at hgroup
    exact ⟨p, hp, hsmem, (mem_group_iff_reaches hnodup hjoins hgroup hsmem).mpr hreaches⟩

/-- Partitions are in the order of their first tables. -/
theorem pairwise_place_partitions (hnodup : d.aliases.Nodup) (canJoin : String → Bool) :
    (d.partitions canJoin).Pairwise fun p q =>
      d.aliases.idxOf (p.aliases.headD "") < d.aliases.idxOf (q.aliases.headD "") := by
  have hsorted : (d.partitions canJoin).Pairwise fun p q =>
      d.aliases.idxOf (p.aliases.headD "") ≤ d.aliases.idxOf (q.aliases.headD "") := by
    rw [partitions_eq, List.pairwise_map]
    have hgroups : ((d.groups canJoin).mergeSort fun a b => d.groupPlace a.2 ≤ d.groupPlace b.2).Pairwise
        fun a b => decide (d.groupPlace a.2 ≤ d.groupPlace b.2) = true :=
      List.pairwise_mergeSort (by intro a b c; simp; omega) (by intro a b; simp; omega) (d.groups canJoin)
    refine hgroups.imp fun {a b} hle => ?_
    simpa only [groupPlace, nodes, lastOccurrences_of_nodup hnodup, decide_eq_true_eq] using hle
  refine (List.pairwise_and_iff.mpr ⟨hsorted, pairwise_disjoint_partitions hnodup canJoin⟩).imp_of_mem ?_
  rintro p q hp hq ⟨hle, hdisjoint⟩
  refine Nat.lt_of_le_of_ne hle fun heq => ?_
  have hfirst := headD_mem_partition hp
  have hsame : p.aliases.headD "" = q.aliases.headD "" :=
    List.idxOf_inj ((sublist_of_mem_partitions hnodup hp).subset hfirst) |>.mp heq
  exact hdisjoint hfirst (hsame ▸ headD_mem_partition hq)

theorem isDividedInto_partitions (hnodup : d.aliases.Nodup) (canJoin : String → Bool) :
    d.IsDividedInto canJoin (d.partitions canJoin) where
  tables := flatMap_aliases_partitions_perm hnodup canJoin
  nodup := (flatMap_aliases_partitions_perm hnodup canJoin).nodup_iff.mpr hnodup
  source := fun _ hp _ ht hmem => sourceId_of_mem_partitions hnodup hp ht hmem
  together_iff := fun _ hs _ ht hne => exists_partition_iff_areJoinable hnodup hs ht hne
  inOrder := fun _ hp => ⟨aliases_ne_nil_of_mem_partitions hp, sublist_of_mem_partitions hnodup hp⟩
  ordered := pairwise_place_partitions hnodup canJoin

/-! ### Conditions of a plan -/

namespace PlannedAs

variable {aggregates : Aggregates} {plan : FederationPlan} {root : List String} {others : List (List String)}

/-- The partitions of a plan are the description's, with columns and filters. -/
theorem map_partitions (h : d.PlannedAs aggregates canJoin plan root others) :
    plan.partitions.map (fun p => (p.sourceId, p.aliases, p.joins))
      = (d.partitions canJoin).map fun p => (p.sourceId, p.aliases, p.joins) := by
  rw [h.partitions, List.map_map]
  rfl

/-- What a plan places, group by group, is its partitions. -/
theorem placed_perm (h : d.PlannedAs aggregates canJoin plan root others) :
    (root :: plan.join.steps.map (·.nodes)).Perm (plan.partitions.map (·.aliases)) := by
  rw [h.steps_eq]
  exact ((nodes_joinSteps_perm d.joins root others).cons root).trans h.groups_perm

theorem nodup_flatten (h : d.PlannedAs aggregates canJoin plan root others) (hnodup : d.aliases.Nodup) :
    (plan.partitions.map (·.aliases)).flatten.Nodup := by
  rw [← List.flatMap_def]
  exact (h.flatMap_aliases_perm hnodup).nodup_iff.mpr hnodup

theorem nodup_placed (h : d.PlannedAs aggregates canJoin plan root others) (hnodup : d.aliases.Nodup) :
    (root ++ plan.join.steps.flatMap (·.nodes)).Nodup := by
  rw [List.flatMap_def, ← List.flatten_cons]
  exact h.placed_perm.flatten.nodup_iff.mpr (h.nodup_flatten hnodup)

/-- A condition between declared tables is between partitions exactly if it is inside of none. -/
theorem connects_eq (h : d.PlannedAs aggregates canJoin plan root others) (hgraph : d.HasGraph) {j : JoinCondition}
    (hj : j ∈ d.joins) : j.connects (root :: plan.join.steps.map (·.nodes))
      = !(plan.partitions.map (·.aliases)).any j.isWithin := by
  have hmem : ∀ a ∈ d.aliases, (plan.partitions.map (·.aliases)).flatten.contains a = true := fun a ha => by
    rw [List.contains_iff_mem, ← List.flatMap_def]
    exact (h.flatMap_aliases_perm hgraph.nodup).mem_iff.mpr ha
  obtain ⟨hleft, hright⟩ := hgraph.ends j hj
  rw [JoinCondition.connects_perm h.placed_perm, JoinCondition.connects, JoinCondition.isWithin, hmem _ hleft,
    hmem _ hright, Bool.and_self, Bool.true_and]

/-- A condition is asked of one source, or it belongs to one step. -/
theorem countP_places (h : d.PlannedAs aggregates canJoin plan root others) (hgraph : d.HasGraph) {j : JoinCondition}
    (hj : j ∈ d.joins) : plan.partitions.countP (fun p => decide (j ∈ p.joins))
      + plan.join.steps.countP (fun step => decide (j ∈ step.conditions)) = 1 := by
  have hlocal : plan.partitions.countP (fun p => decide (j ∈ p.joins))
      = (plan.partitions.map (·.aliases)).countP j.isWithin := by
    rw [List.countP_map]
    refine List.countP_congr fun p hp => ?_
    rw [h.joins_eq hp, decide_eq_true_iff, List.mem_filter]
    exact and_iff_right hj
  rw [hlocal, countP_isWithin (h.nodup_flatten hgraph.nodup),
    (h.follow hgraph.nodup).countP_conditions hj (h.nodup_placed hgraph.nodup), h.connects_eq hgraph hj]
  cases (plan.partitions.map (·.aliases)).any j.isWithin <;> rfl

/-- The conditions of the partitions and of the steps are those of the description. -/
theorem conditions_perm (h : d.PlannedAs aggregates canJoin plan root others) (hgraph : d.HasGraph) :
    (plan.partitions.flatMap (·.joins) ++ plan.join.steps.flatMap (·.conditions)).Perm d.joins := by
  have hlocal : (plan.partitions.flatMap (·.joins)).Perm
      (d.joins.filter fun j => (plan.partitions.map (·.aliases)).any j.isWithin) := by
    refine List.Perm.trans (List.Perm.of_eq ?_)
      (flatMap_filter_isWithin_perm d.joins (h.nodup_flatten hgraph.nodup))
    rw [List.flatMap_map]
    exact List.flatMap_congr fun p hp => h.joins_eq hp
  have hsteps : (plan.join.steps.flatMap (·.conditions)).Perm
      (d.joins.filter fun j => !(plan.partitions.map (·.aliases)).any j.isWithin) := by
    refine ((h.follow hgraph.nodup).conditions_perm (h.nodup_placed hgraph.nodup)).trans (List.Perm.of_eq ?_)
    exact List.filter_congr fun j hj => h.connects_eq hgraph hj
  exact (hlocal.append hsteps).trans (List.filter_append_perm _ d.joins)

end PlannedAs

/--
The partitions of a valid description are the largest groups that its sources can join, in the order of its tables,
whichever sources can join. There is a plan of just these partitions, and every join condition has one place in it, a
partition or a step, where it stands as often as it was declared.
-/
theorem partitions_are_joinable_groups (h : (d.validate cleanup).isValid = true) (canJoin : String → Bool) :
    d.IsDividedInto canJoin (d.partitions canJoin)
      ∧ ∀ aggregates, ∃ plan, d.federationPlan? aggregates canJoin = some plan
        ∧ plan.partitions.map (fun p => (p.sourceId, p.aliases, p.joins))
          = (d.partitions canJoin).map (fun p => (p.sourceId, p.aliases, p.joins))
        ∧ (∀ j ∈ d.joins, plan.partitions.countP (fun p => decide (j ∈ p.joins))
          + plan.join.steps.countP (fun step => decide (j ∈ step.conditions)) = 1)
        ∧ (plan.partitions.flatMap (·.joins) ++ plan.join.steps.flatMap (·.conditions)).Perm d.joins := by
  have hgraph : d.HasGraph := (isConsistent_of_isValid h).hasGraph
  refine ⟨isDividedInto_partitions hgraph.nodup canJoin, fun aggregates => ?_⟩
  obtain ⟨plan, hplan⟩ := exists_federationPlan? hgraph.nodup hgraph.primary aggregates canJoin
  obtain ⟨root, others, hparts⟩ := federationPlan?_eq_some hplan
  exact ⟨plan, hplan, hparts.map_partitions, fun j hj => hparts.countP_places hgraph hj,
    hparts.conditions_perm hgraph⟩

/--
Orders, their payments and the customers are tables of a shop, tiers and notes are lists that cannot be joined where
they are. Payments are joined to orders only over the tiers.
-/
def paidOrders : Description where
  tables := [⟨"o", "shop", "orders", none⟩, ⟨"t", "docs", "tiers", none⟩, ⟨"p", "shop", "payments", none⟩,
    ⟨"n", "docs", "notes", none⟩, ⟨"c", "shop", "customers", none⟩]
  joins := [⟨"c", "id", "o", "by", .left⟩, ⟨"o", "tier", "t", "id", .inner⟩, ⟨"t", "id", "p", "tier", .inner⟩,
    ⟨"n", "of", "t", "id", .inner⟩, ⟨"c", "area", "o", "area", .left⟩]

theorem isValid_paidOrders : (paidOrders.validate .reject).isValid = true := by
  have hfindings : paidOrders.aggregateFindings .reject = {} := by cbv
  have hnames : paidOrders.nameErrors [] = [] := nameErrors_eq_nil_iff.mpr ⟨by decide +kernel, by decide⟩
  rw [isValid_iff, hfindings]
  exact ⟨by cbv, by cbv, by cbv, by cbv, rfl, by cbv, hnames, by cbv, by cbv, by cbv⟩

/-- Orders and customers are one partition; payments are not in it, for no condition of the shop leads to them. -/
theorem paidOrders_are_divided : (paidOrders.validate .reject).isValid = true
    ∧ (paidOrders.partitions fun sourceId => sourceId = "shop").map (·.aliases) = [["o", "c"], ["t"], ["p"], ["n"]]
    ∧ paidOrders.IsDividedInto (fun sourceId => sourceId = "shop")
      (paidOrders.partitions fun sourceId => sourceId = "shop")
    ∧ ∃ plan, paidOrders.federationPlan? [] (fun sourceId => sourceId = "shop") = some plan
      ∧ (plan.partitions.flatMap (·.joins) ++ plan.join.steps.flatMap (·.conditions)).Perm paidOrders.joins := by
  obtain ⟨hdivided, hplans⟩ := partitions_are_joinable_groups isValid_paidOrders fun sourceId => sourceId = "shop"
  obtain ⟨plan, hplan, -, -, hperm⟩ := hplans []
  exact ⟨isValid_paidOrders, by cbv, hdivided, plan, hplan, hperm⟩

end Description

end QueryFederation

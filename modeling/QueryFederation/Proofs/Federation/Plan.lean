import Mathlib.Data.List.Lattice
import Mathlib.Data.List.Pairwise
import QueryFederation.Proofs.Federation.Partition
import QueryFederation.Proofs.Join.Run

/-!
# What a federation plan is made of

The rest of the theory knows a plan by these parts: the groups it joins are those of the partitions, the one with the
primary table first; a filter is pushed or residual, never both; and every partition has the needed columns and the
pushed filters of its tables. A plan exists for every description whose primary table is one of its distinct aliases.
-/

namespace QueryFederation

namespace Description

variable {d : Description} {aggregates : Aggregates} {canJoin : String → Bool} {plan : FederationPlan}

/-- Is the filter left to the source of its table? -/
def pushes (d : Description) (join : JoinPlan) (f : FilterPredicate) : Bool :=
  d.isConjunctive && !join.nullSupplying.contains f.table

/-- The filters that sources apply. -/
def pushedFilters (d : Description) (join : JoinPlan) : List FilterPredicate := d.filters.filter (d.pushes join)

/-- The parts of a plan. -/
structure PlannedAs (d : Description) (aggregates : Aggregates) (canJoin : String → Bool) (plan : FederationPlan)
    (root : List String) (others : List (List String)) : Prop where
  groups : (root :: others).Perm ((d.partitions canJoin).map (·.aliases))
  primary : d.primary ∈ root
  join : plan.join = JoinPlan.ofGroups d.joins root others
  residual : plan.residual = d.filters.filter fun f => !d.pushes plan.join f
  partitions : plan.partitions = (d.partitions canJoin).map
    (fillPartition (d.neededColumns aggregates plan.join plan.residual) (d.pushedFilters plan.join))

theorem federationPlan?_eq_some (h : d.federationPlan? aggregates canJoin = some plan) :
    ∃ root others, d.PlannedAs aggregates canJoin plan root others := by
  rw [federationPlan?] at h
  obtain ⟨position, hposition, h⟩ := Option.bind_eq_some_iff.mp h
  obtain ⟨root, hroot, h⟩ := Option.bind_eq_some_iff.mp h
  cases h
  obtain ⟨hlt, hfound, -⟩ := List.findIdx?_eq_some_iff_getElem.mp hposition
  obtain ⟨hbound, hget⟩ := List.getElem?_eq_some_iff.mp hroot
  refine ⟨root, ((d.partitions canJoin).map (·.aliases)).eraseIdx position, ?_, ?_, rfl, rfl, rfl⟩
  · rw [← hget]
    exact List.getElem_cons_eraseIdx_perm hbound
  · rw [← hget, List.getElem_map]
    simpa using hfound

theorem exists_federationPlan? (hnodup : d.aliases.Nodup) (hprimary : d.primary ∈ d.aliases) (aggregates : Aggregates)
    (canJoin : String → Bool) : ∃ plan, d.federationPlan? aggregates canJoin = some plan := by
  rw [← (flatMap_aliases_partitions_perm hnodup canJoin).mem_iff] at hprimary
  obtain ⟨p, hp, hmem⟩ := List.mem_flatMap.mp hprimary
  cases hposition : (d.partitions canJoin).findIdx? fun p => p.aliases.contains d.primary with
  | none =>
    rw [List.findIdx?_eq_none_iff] at hposition
    exact absurd (hposition p hp) (by simpa using hmem)
  | some position =>
    obtain ⟨hlt, -, -⟩ := List.findIdx?_eq_some_iff_getElem.mp hposition
    have hroot : ((d.partitions canJoin).map (·.aliases))[position]? = some (d.partitions canJoin)[position].aliases := by
      rw [List.getElem?_map, List.getElem?_eq_getElem hlt]
      rfl
    rw [federationPlan?, hposition]
    simp only [Option.bind_eq_bind, Option.bind_some, hroot]
    exact ⟨_, rfl⟩

namespace PlannedAs

variable {root : List String} {others : List (List String)} (h : d.PlannedAs aggregates canJoin plan root others)

include h

theorem root_eq : plan.join.root = root := by rw [h.join]; rfl

theorem steps_eq : plan.join.steps = joinSteps d.joins root others := by rw [h.join]; rfl

theorem planFrom : PlanFrom d.joins root others plan.join.steps := by
  rw [h.steps_eq]
  exact planFrom_joinSteps _ _ _

theorem aliases_partitions : plan.partitions.map (·.aliases) = (d.partitions canJoin).map (·.aliases) := by
  rw [h.partitions, List.map_map]
  rfl

theorem groups_perm : (root :: others).Perm (plan.partitions.map (·.aliases)) := by
  rw [h.aliases_partitions]
  exact h.groups

/-- The groups divide the tables. -/
theorem flatten_perm (hnodup : d.aliases.Nodup) : (root ++ others.flatten).Perm d.aliases := by
  rw [← List.flatten_cons]
  refine (h.groups.flatten).trans ?_
  rw [← List.flatMap_def]
  exact flatMap_aliases_partitions_perm hnodup canJoin

theorem flatMap_aliases_perm (hnodup : d.aliases.Nodup) : (plan.partitions.flatMap (·.aliases)).Perm d.aliases := by
  rw [List.flatMap_def, h.aliases_partitions, ← List.flatMap_def]
  exact flatMap_aliases_partitions_perm hnodup canJoin

theorem nodup_aliases (hnodup : d.aliases.Nodup) {p : Partition} (hp : p ∈ plan.partitions) : p.aliases.Nodup := by
  have hall := (h.flatMap_aliases_perm hnodup).nodup_iff.mpr hnodup
  rw [List.flatMap_def] at hall
  exact hall.sublist (List.sublist_flatten_of_mem (List.mem_map_of_mem hp))

/-- Partitions do not share tables. -/
theorem eq_of_mem_aliases (hnodup : d.aliases.Nodup) {p q : Partition} (hp : p ∈ plan.partitions)
    (hq : q ∈ plan.partitions) {aliasName : String} (hmem : aliasName ∈ p.aliases) (hmem' : aliasName ∈ q.aliases) :
    p = q := by
  have hall := (h.flatMap_aliases_perm hnodup).nodup_iff.mpr hnodup
  have hsymm : Std.Symm fun p q : Partition => p.aliases.Disjoint q.aliases := ⟨fun _ _ => List.Disjoint.symm⟩
  by_contra hne
  exact (List.nodup_flatMap.mp hall).2.forall hp hq hne hmem hmem'

/-- No table is in two groups. -/
theorem pairwise_disjoint (hnodup : d.aliases.Nodup) : (root :: others).Pairwise List.Disjoint := by
  apply And.right
  rw [← List.nodup_flatten, List.flatten_cons]
  exact (h.flatten_perm hnodup).nodup_iff.mpr hnodup

theorem eq_of_mem_groups (hnodup : d.aliases.Nodup) {group other : List String} (hgroup : group ∈ root :: others)
    (hother : other ∈ root :: others) {aliasName : String} (hmem : aliasName ∈ group) (hmem' : aliasName ∈ other) :
    group = other := by
  have : Std.Symm fun group other : List String => group.Disjoint other := ⟨fun _ _ => List.Disjoint.symm⟩
  by_contra hne
  exact (h.pairwise_disjoint hnodup).forall hgroup hother hne hmem hmem'

theorem nodup_groups (hnodup : d.aliases.Nodup) : (root :: others).Nodup := by
  refine List.Pairwise.imp_of_mem ?_ (h.pairwise_disjoint hnodup)
  intro group other hgroup _ hdisjoint heq
  obtain ⟨p, hp, rfl⟩ := List.mem_map.mp (h.groups.mem_iff.mp hgroup)
  obtain ⟨aliasName, hmem⟩ := List.exists_mem_of_ne_nil _ (aliases_ne_nil_of_mem_partitions hp)
  exact hdisjoint hmem (heq ▸ hmem)

theorem exists_of_mem {p : Partition} (hp : p ∈ plan.partitions) :
    ∃ q ∈ d.partitions canJoin,
      p = fillPartition (d.neededColumns aggregates plan.join plan.residual) (d.pushedFilters plan.join) q := by
  rw [h.partitions] at hp
  obtain ⟨q, hq, rfl⟩ := List.mem_map.mp hp
  exact ⟨q, hq, rfl⟩

theorem filters_eq {p : Partition} (hp : p ∈ plan.partitions) :
    p.filters = p.aliases.flatMap fun aliasName => (d.pushedFilters plan.join).filter fun f => f.table = aliasName := by
  obtain ⟨q, -, rfl⟩ := h.exists_of_mem hp
  rfl

theorem columns_eq {p : Partition} (hp : p ∈ plan.partitions) :
    p.columns = p.aliases.flatMap fun aliasName =>
      (d.neededColumns aggregates plan.join plan.residual).filter fun c => c.table = aliasName := by
  obtain ⟨q, -, rfl⟩ := h.exists_of_mem hp
  rfl

theorem joins_eq {p : Partition} (hp : p ∈ plan.partitions) : p.joins = d.joins.filter (·.isWithin p.aliases) := by
  obtain ⟨q, hq, rfl⟩ := h.exists_of_mem hp
  change q.joins = d.joins.filter (·.isWithin q.aliases)
  exact joins_of_mem_partitions hq

theorem aliases_ne_nil {p : Partition} (hp : p ∈ plan.partitions) : p.aliases ≠ [] := by
  obtain ⟨q, hq, rfl⟩ := h.exists_of_mem hp
  change q.aliases ≠ []
  exact aliases_ne_nil_of_mem_partitions hq

end PlannedAs

end Description

end QueryFederation

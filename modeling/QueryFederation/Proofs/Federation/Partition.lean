import QueryFederation.Federation.Plan
import QueryFederation.Proofs.Items
import QueryFederation.Proofs.Join.Graph

/-!
# Partitions divide the tables

Every table of a description with distinct aliases is in exactly one partition: the connected parts of some tables
divide them, the tables of one source are divided into its groups, and the sources divide all tables. The tables of a
partition are connected.
-/

namespace QueryFederation

/-- Items fall into the classes of distinct labels that are all of theirs. -/
theorem flatMap_filter_perm {α β : Type} [DecidableEq β] (label : α → β) {labels : List β} (hnodup : labels.Nodup)
    (items : List α) (h : ∀ item ∈ items, label item ∈ labels) :
    (labels.flatMap fun b => items.filter fun item => label item = b).Perm items := by
  induction labels generalizing items with
  | nil =>
    cases items with
    | nil => exact .nil
    | cons item items => cases h item List.mem_cons_self
  | cons b labels ih =>
    obtain ⟨hb, hnodup⟩ := List.nodup_cons.mp hnodup
    rw [List.flatMap_cons]
    have hothers := ih hnodup (items.filter fun item => !decide (label item = b)) fun item hitem => by
      obtain ⟨hmem, hne⟩ := List.mem_filter.mp hitem
      exact (List.mem_cons.mp (h item hmem)).resolve_left (by simpa using hne)
    have hsame : (labels.flatMap fun c => items.filter fun item => label item = c)
        = labels.flatMap fun c => (items.filter fun item => !decide (label item = b)).filter fun item => label item = c := by
      apply List.flatMap_congr
      intro c hc
      rw [List.filter_filter]
      apply List.filter_congr
      intro item _
      by_cases hlabel : label item = c
      · have hne : c ≠ b := fun he => hb (he ▸ hc)
        simp [hlabel, hne]
      · simp [hlabel]
    rw [hsame]
    exact (List.Perm.append_left _ hothers).trans (List.filter_append_perm _ items)

namespace Description

variable {d : Description} {canJoin : String → Bool}

theorem flatten_sourceGroups_perm (h : d.aliases.Nodup) (sourceId : String) :
    (d.sourceGroups canJoin sourceId).flatten.Perm ((d.tables.filter fun t => t.sourceId = sourceId).map (·.aliasName)) := by
  rw [sourceGroups]
  have hmembers : ((d.tables.filter fun t => t.sourceId = sourceId).map (·.aliasName)).Nodup :=
    h.sublist (List.filter_sublist.map _)
  split
  · refine (flatten_components_perm _ _).trans ?_
    rw [nodes, lastOccurrences_of_nodup h, List.perm_ext_iff_of_nodup (h.filter _) hmembers]
    intro aliasName
    rw [List.mem_filter, List.contains_iff_mem]
    refine ⟨fun hmem => hmem.2, fun hmem => ⟨?_, hmem⟩⟩
    exact (List.filter_sublist.map _).subset hmem
  · rw [← List.flatMap_def]
    simp

theorem ne_nil_of_mem_sourceGroups {sourceId : String} {group : List String}
    (h : group ∈ d.sourceGroups canJoin sourceId) : group ≠ [] := by
  rw [sourceGroups] at h
  split at h
  · exact ne_nil_of_mem_components h
  · obtain ⟨aliasName, -, rfl⟩ := List.mem_map.mp h
    exact List.cons_ne_nil _ _

/-- Conditions between tables of a source lead to tables of it. -/
theorem mem_aliases_of_joined {sourceId x y : String}
    (h : Joined (d.joins.filter (·.isWithin ((d.tables.filter fun t => t.sourceId = sourceId).map (·.aliasName)))) x y) :
    y ∈ d.aliases.filter ((d.tables.filter fun t => t.sourceId = sourceId).map (·.aliasName)).contains :=
  List.mem_filter.mpr ⟨(List.filter_sublist.map _).subset h.mem_of_within, List.contains_iff_mem.mpr h.mem_of_within⟩

/-- The tables of a group are connected by the conditions between them. -/
theorem reaches_within_of_mem_sourceGroups (h : d.aliases.Nodup) {sourceId : String} {group : List String}
    (hgroup : group ∈ d.sourceGroups canJoin sourceId) {a b : String} (ha : a ∈ group) (hb : b ∈ group) :
    Reaches (d.joins.filter (·.isWithin group)) a b := by
  rw [sourceGroups] at hgroup
  split at hgroup
  · rw [nodes, lastOccurrences_of_nodup h] at hgroup
    have hwithin := reaches_within_of_mem_components (fun _ _ _ hjoined => mem_aliases_of_joined hjoined) hgroup ha hb
    exact hwithin.mono (List.filter_sublist.filter _).subset
  · obtain ⟨aliasName, -, rfl⟩ := List.mem_map.mp hgroup
    rw [List.mem_singleton] at ha hb
    subst ha hb
    exact .refl

/-- The groups of all sources, each with its source. -/
def groups (d : Description) (canJoin : String → Bool) : List (String × List String) :=
  d.sourceIds.flatMap fun sourceId => (d.sourceGroups canJoin sourceId).map fun group => (sourceId, group)

theorem partitions_eq (d : Description) (canJoin : String → Bool) :
    d.partitions canJoin = ((d.groups canJoin).mergeSort fun a b => d.groupPlace a.2 ≤ d.groupPlace b.2).map
      fun g => { sourceId := g.1, aliases := g.2, joins := d.joins.filter (·.isWithin g.2) } :=
  rfl

theorem exists_of_mem_partitions {p : Partition} (h : p ∈ d.partitions canJoin) :
    ∃ g ∈ d.groups canJoin, p = { sourceId := g.1, aliases := g.2, joins := d.joins.filter (·.isWithin g.2) } := by
  rw [partitions_eq] at h
  obtain ⟨g, hg, rfl⟩ := List.mem_map.mp h
  exact ⟨g, List.mem_mergeSort.mp hg, rfl⟩

theorem joins_of_mem_partitions {p : Partition} (h : p ∈ d.partitions canJoin) :
    p.joins = d.joins.filter (·.isWithin p.aliases) := by
  obtain ⟨g, -, rfl⟩ := exists_of_mem_partitions h
  rfl

theorem aliases_ne_nil_of_mem_partitions {p : Partition} (h : p ∈ d.partitions canJoin) : p.aliases ≠ [] := by
  obtain ⟨g, hg, rfl⟩ := exists_of_mem_partitions h
  obtain ⟨sourceId, -, hmem⟩ := List.mem_flatMap.mp hg
  obtain ⟨group, hgroup, rfl⟩ := List.mem_map.mp hmem
  exact ne_nil_of_mem_sourceGroups hgroup

/-- The tables of a partition are connected by its conditions. -/
theorem reaches_joins_of_mem_partitions (h : d.aliases.Nodup) {p : Partition} (hp : p ∈ d.partitions canJoin)
    {a b : String} (ha : a ∈ p.aliases) (hb : b ∈ p.aliases) : Reaches p.joins a b := by
  obtain ⟨g, hg, rfl⟩ := exists_of_mem_partitions hp
  obtain ⟨sourceId, -, hmem⟩ := List.mem_flatMap.mp hg
  obtain ⟨group, hgroup, rfl⟩ := List.mem_map.mp hmem
  exact reaches_within_of_mem_sourceGroups h hgroup ha hb

theorem reaches_of_mem_partitions (h : d.aliases.Nodup) {p : Partition} (hp : p ∈ d.partitions canJoin) {a b : String}
    (ha : a ∈ p.aliases) (hb : b ∈ p.aliases) : Reaches d.joins a b := by
  refine Reaches.mono ?_ (reaches_joins_of_mem_partitions h hp ha hb)
  rw [joins_of_mem_partitions hp]
  exact List.filter_sublist.subset

/-- The tables of a partition are of its source. -/
theorem sourceId_of_mem_partitions (h : d.aliases.Nodup) {p : Partition} (hp : p ∈ d.partitions canJoin)
    {t : TableReference} (ht : t ∈ d.tables) (hmem : t.aliasName ∈ p.aliases) : t.sourceId = p.sourceId := by
  obtain ⟨g, hg, rfl⟩ := exists_of_mem_partitions hp
  obtain ⟨sourceId, -, hgroups⟩ := List.mem_flatMap.mp hg
  obtain ⟨group, hgroup, rfl⟩ := List.mem_map.mp hgroups
  have hflat : t.aliasName ∈ (d.sourceGroups canJoin sourceId).flatten := List.mem_flatten.mpr ⟨group, hgroup, hmem⟩
  obtain ⟨other, hother, hsame⟩ := List.mem_map.mp ((flatten_sourceGroups_perm h sourceId).mem_iff.mp hflat)
  obtain ⟨hmem, hsource⟩ := List.mem_filter.mp hother
  obtain rfl := List.inj_on_of_nodup_map h hmem ht hsame
  exact of_decide_eq_true hsource

/-- Every table is in exactly one partition. -/
theorem flatMap_aliases_partitions_perm (h : d.aliases.Nodup) (canJoin : String → Bool) :
    ((d.partitions canJoin).flatMap (·.aliases)).Perm d.aliases := by
  rw [partitions_eq, List.flatMap_map]
  refine ((List.mergeSort_perm _ _).flatMap_right _).trans ?_
  rw [groups, List.flatMap_assoc]
  have hsource : ∀ sourceId ∈ d.sourceIds,
      (((d.sourceGroups canJoin sourceId).map fun group => (sourceId, group)).flatMap (·.2)).Perm
        ((d.tables.filter fun t => t.sourceId = sourceId).map (·.aliasName)) := by
    intro sourceId _
    rw [List.flatMap_map, List.flatMap_id']
    exact flatten_sourceGroups_perm h sourceId
  refine (List.Perm.flatMap_left _ hsource).trans ?_
  rw [← List.map_flatMap]
  refine (flatMap_filter_perm (·.sourceId) (nodup_distinctItems _) d.tables ?_).map _
  intro t ht
  exact mem_distinctItems.mpr (List.mem_map_of_mem ht)

end Description

end QueryFederation

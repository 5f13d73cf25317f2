import QueryFederation.Proofs.Engine.Runs
import QueryFederation.Proofs.Federation.Plan
import QueryFederation.Proofs.Join.Plan

/-!
# Plans and the join graph of a description

Tables are planned one by one for a single source, and partition by partition for several. Either way the groups of a
plan divide the tables, and each group is connected, so what is known of steps that follow the join graph applies: a
plan has every condition between groups once, crosses only where no condition leads on, and crosses once less than the
graph has connected parts. A query is therefore marked as crossed exactly if validation has warned of a disconnected
join graph.
-/

namespace QueryFederation

variable {d : Description} {canJoin : String → Bool} {cleanup : Cleanup}

/-- Does validation warn that the join graph is in several parts? -/
def Description.WarnsDisconnected (d : Description) (cleanup : Cleanup) : Prop :=
  ∃ w ∈ (d.validate cleanup).warnings, w.kind = .disconnectedJoinGraph

/-- What a plan that starts at the primary table does by the join graph. -/
structure JoinPlan.FollowsGraph (plan : JoinPlan) (d : Description) (groups : List (List String)) : Prop where
  placed : (plan.root :: plan.steps.map (·.nodes)).Perm groups
  tables : (plan.root ++ plan.steps.flatMap (·.nodes)).Perm d.aliases
  conditions : (plan.steps.flatMap (·.conditions)).Perm (d.joins.filter (JoinCondition.connects groups))
  follows : ∀ before step after, plan.steps = before ++ step :: after →
    step.Follows d.joins (plan.root ++ before.flatMap (·.nodes))
  reachable : ∀ aliasName, aliasName ∈ plan.root ++ (plan.steps.takeWhile (!·.isCross)).flatMap (·.nodes)
    ↔ aliasName ∈ d.reachableFrom d.primary
  crossings : (plan.steps.filter (·.isCross)).length + 1 = d.components.length
  hasCrossJoin_iff : ∀ cleanup, plan.hasCrossJoin = true ↔ d.WarnsDisconnected cleanup

/-- In a graph that is in one part nothing is crossed. -/
theorem JoinPlan.FollowsGraph.isCross_eq_false {plan : JoinPlan} {groups : List (List String)}
    (h : plan.FollowsGraph d groups) (hone : d.components.length ≤ 1) : ∀ step ∈ plan.steps, step.isCross = false := by
  have hcrossings := h.crossings
  have hnone : plan.steps.filter (·.isCross) = [] := List.length_eq_zero_iff.mp (by omega)
  exact fun step hstep => Bool.eq_false_iff.mpr (List.filter_eq_nil_iff.mp hnone step hstep)

/-! ### The graph of a description -/

namespace AggregateFindings

variable {known tables : List String} {f : AggregateFindings}

theorem warnings_analyze (index : Nat) (aliasName text : String) :
    (f.analyze known tables index aliasName text).warnings = f.warnings := by
  rw [analyze]
  split <;> rfl

theorem kind_of_mem_warnings_check {item : AggregateExpression × Nat} {w : Violation}
    (hw : w ∈ (f.check cleanup known tables item).warnings) : w ∈ f.warnings ∨ w.kind = .expressionCleaned := by
  obtain ⟨⟨text, aliasName⟩, index⟩ := item
  have hidentifier : (if isIdentifier aliasName then f else f.error (.invalidAggregateAlias index aliasName)).warnings
      = f.warnings := by
    split <;> rfl
  rw [check] at hw
  cases hbrackets : Expression.hasBrackets text with
  | false =>
    simp only [hbrackets, Bool.false_eq_true, if_false, warnings_analyze, hidentifier] at hw
    exact Or.inl hw
  | true =>
    cases cleanup with
    | reject =>
      simp only [hbrackets, if_true] at hw
      change w ∈ (if isIdentifier aliasName then f else f.error (.invalidAggregateAlias index aliasName)).warnings at hw
      exact Or.inl (hidentifier ▸ hw)
    | strip =>
      simp only [hbrackets, if_true, warnings_analyze, hidentifier, List.mem_append, List.mem_singleton] at hw
      rcases hw with hw | rfl
      · exact Or.inl hw
      · exact Or.inr rfl

theorem kind_of_mem_warnings_foldl {items : List (AggregateExpression × Nat)} {w : Violation}
    (hw : w ∈ (items.foldl (check cleanup known tables) f).warnings) : w ∈ f.warnings ∨ w.kind = .expressionCleaned := by
  induction items generalizing f with
  | nil => exact Or.inl hw
  | cons item items ih => exact (ih hw).elim kind_of_mem_warnings_check Or.inr

end AggregateFindings

namespace Description

theorem kind_of_mem_aggregateWarnings {w : Violation} (hw : w ∈ (d.aggregateFindings cleanup).warnings) :
    w.kind = .expressionCleaned := by
  rw [aggregateFindings] at hw
  have hfold : w ∈ (d.allAggregates.zipIdx.foldl
      (AggregateFindings.check cleanup (d.allAggregates.map (·.aliasName)) d.aliases) {}).warnings := by
    split at hw <;> exact hw
  exact (AggregateFindings.kind_of_mem_warnings_foldl hfold).resolve_left List.not_mem_nil

theorem nodes_eq (hnodup : d.aliases.Nodup) : d.nodes = d.aliases := lastOccurrences_of_nodup hnodup

theorem length_components_le_tables (hnodup : d.aliases.Nodup) : d.components.length ≤ d.tables.length :=
  calc d.components.length
    _ ≤ d.nodes.length := length_components_le d.edges d.nodes
    _ = d.tables.length := by rw [nodes_eq hnodup, aliases, List.length_map]

theorem warnsDisconnected_iff (hnodup : d.aliases.Nodup) : d.WarnsDisconnected cleanup ↔ 1 < d.components.length := by
  have hlength := length_components_le_tables hnodup
  constructor
  · rintro ⟨w, hw, hkind⟩
    rcases List.mem_append.mp hw with hw | hw
    · rw [kind_of_mem_aggregateWarnings hw] at hkind
      cases hkind
    · rw [graphWarnings] at hw
      split at hw
      · cases hw
      · rcases List.mem_append.mp hw with hw | hw
        · obtain ⟨aliasName, -, rfl⟩ := List.mem_map.mp hw
          cases hkind
        · by_contra hone
          rw [if_neg hone] at hw
          cases hw
  · intro hseveral
    refine ⟨.disconnected d.components, List.mem_append_right _ ?_, rfl⟩
    rw [graphWarnings, if_neg (by omega)]
    exact List.mem_append_right _ (by rw [if_pos hseveral]; exact List.mem_singleton.mpr rfl)

/-- A description whose conditions lead to no other tables than its own, which have distinct names. -/
structure HasGraph (d : Description) : Prop where
  nodup : d.aliases.Nodup
  primary : d.primary ∈ d.aliases
  ends : ∀ j ∈ d.joins, j.leftTable ∈ d.aliases ∧ j.rightTable ∈ d.aliases

namespace HasGraph

variable (h : d.HasGraph)

include h

theorem edges_eq : d.edges = d.joins := by
  refine List.filter_eq_self.mpr fun j hj => JoinCondition.isWithin_iff.mpr ?_
  rw [nodes_eq h.nodup]
  exact h.ends j hj

theorem mem_of_joined {a b : String} (hjoined : Joined d.joins a b) : b ∈ d.aliases := by
  obtain ⟨j, hj, ⟨-, rfl⟩ | ⟨-, rfl⟩⟩ := hjoined
  · exact (h.ends j hj).2
  · exact (h.ends j hj).1

theorem mem_reachableFrom {aliasName : String} :
    aliasName ∈ d.reachableFrom d.primary ↔ Reaches d.joins d.primary aliasName := by
  have hmem : d.nodes.contains d.primary = true := by
    rw [nodes_eq h.nodup]
    exact List.contains_iff_mem.mpr h.primary
  rw [reachableFrom, if_pos hmem, h.edges_eq, mem_spread_iff]
  · simp
  · rintro x - y hjoined
    by_cases heq : y = d.primary
    · exact List.mem_append_left _ (List.mem_singleton.mpr heq)
    · refine List.mem_append_right _ (List.mem_filter.mpr ⟨?_, decide_eq_true heq⟩)
      rw [nodes_eq h.nodup]
      exact h.mem_of_joined hjoined

theorem flatten_components_perm : d.components.flatten.Perm d.aliases := by
  rw [components]
  exact (QueryFederation.flatten_components_perm d.edges d.nodes).trans (List.Perm.of_eq (nodes_eq h.nodup))

theorem mem_iff_reaches {part : List String} (hpart : part ∈ d.components) {a : String} (ha : a ∈ part) (b : String) :
    b ∈ part ↔ Reaches d.joins a b := by
  rw [components, h.edges_eq, nodes_eq h.nodup] at hpart
  exact mem_iff_reaches_of_mem_components (fun _ _ _ hjoined => h.mem_of_joined hjoined) hpart ha

/-- If all tables are connected there is one part. -/
theorem length_components_le_one (hconnected : ∀ a ∈ d.aliases, ∀ b ∈ d.aliases, Reaches d.joins a b) :
    d.components.length ≤ 1 := by
  have hperm := h.flatten_components_perm
  cases hparts : d.components with
  | nil => exact Nat.zero_le 1
  | cons first parts =>
    cases parts with
    | nil => exact Nat.le_refl 1
    | cons second parts =>
      have hfirst : first ∈ d.components := hparts ▸ List.mem_cons_self
      have hsecond : second ∈ d.components := hparts ▸ List.mem_cons_of_mem _ List.mem_cons_self
      obtain ⟨a, ha⟩ := List.exists_mem_of_ne_nil first (ne_nil_of_mem_components hfirst)
      obtain ⟨b, hb⟩ := List.exists_mem_of_ne_nil second (ne_nil_of_mem_components hsecond)
      have hreaches := hconnected a (hperm.mem_iff.mp (List.mem_flatten.mpr ⟨first, hfirst, ha⟩)) b
        (hperm.mem_iff.mp (List.mem_flatten.mpr ⟨second, hsecond, hb⟩))
      have hmem : b ∈ first := (h.mem_iff_reaches hfirst ha b).mpr hreaches
      have hnodup := hperm.nodup_iff.mpr h.nodup
      rw [hparts, List.flatten_cons] at hnodup
      exact absurd (List.mem_append_left _ hb) (List.disjoint_of_nodup_append hnodup hmem)

/-- Then no table is left out, and there is nothing to warn of. -/
theorem graphWarnings_eq_nil (hconnected : ∀ a ∈ d.aliases, ∀ b ∈ d.aliases, Reaches d.joins a b) :
    d.graphWarnings = [] := by
  have horphans : d.orphans = [] := by
    refine List.filter_eq_nil_iff.mpr fun a ha => ?_
    simpa using h.mem_reachableFrom.mpr (hconnected _ h.primary a ha)
  have hone := h.length_components_le_one hconnected
  simp only [graphWarnings, horphans, if_neg (Nat.not_lt.mpr hone), List.map_nil, List.append_nil, ite_self]

/-- A plan of connected groups that divide the tables follows the graph. -/
theorem followsGraph_ofGroups {root : List String} {others groups : List (List String)}
    (hgroups : (root :: others).Perm groups) (htables : (root ++ others.flatten).Perm d.aliases)
    (hprimary : d.primary ∈ root) (hne : ∀ group ∈ others, group ≠ [])
    (hconnected : ∀ group ∈ root :: others, ∀ a ∈ group, ∀ b ∈ group, Reaches d.joins a b) :
    (JoinPlan.ofGroups d.joins root others).FollowsGraph d groups := by
  have hnodup : (root ++ others.flatten).Nodup := htables.nodup_iff.mpr h.nodup
  have hfollow : Follow d.joins root (joinSteps d.joins root others) := follow_joinSteps hnodup
  have hsteps := nodes_joinSteps_perm d.joins root others
  have hplaced : (root ++ (joinSteps d.joins root others).flatMap (·.nodes)).Perm d.aliases := by
    rw [List.flatMap_def]
    exact (hsteps.flatten.append_left root).trans htables
  have hall : (root :: (joinSteps d.joins root others).map (·.nodes)).Perm groups := (hsteps.cons root).trans hgroups
  have hnodes : ∀ step ∈ joinSteps d.joins root others, step.nodes ∈ others := fun step hstep =>
    hsteps.mem_iff.mp (List.mem_map_of_mem hstep)
  have hdivides : Divides d.joins root (joinSteps d.joins root others) :=
    { nodup := hplaced.nodup_iff.mpr h.nodup
      closed := fun _ _ _ hjoined => hplaced.mem_iff.mpr (h.mem_of_joined hjoined)
      ne_nil := fun step hstep => hne _ (hnodes step hstep)
      reaches := fun step hstep => hconnected _ (List.mem_cons_of_mem _ (hnodes step hstep)) }
  have hcrossings : ((joinSteps d.joins root others).filter (·.isCross)).length + 1 = d.components.length := by
    have hnonempty : ∀ part ∈ d.components, part ≠ [] := fun part => ne_nil_of_mem_components
    have hnone : d.components.filter (isUntouched []) = d.components :=
      List.filter_eq_self.mpr fun part _ => isUntouched_iff.mpr fun _ _ => List.not_mem_nil
    have hfirst := length_filter_isUntouched_of_closed (fun _ hpart _ ha => h.mem_iff_reaches hpart ha)
      (h.flatten_components_perm.nodup_iff.mpr h.nodup) (fun _ hmem => absurd hmem List.not_mem_nil)
      (List.disjoint_nil_left root) (hconnected root List.mem_cons_self) hprimary
      (h.flatten_components_perm.mem_iff.mpr h.primary)
    rw [hfollow.length_crossings hdivides (fun _ hpart _ ha => h.mem_iff_reaches hpart ha) hnonempty
      (h.flatten_components_perm.trans hplaced.symm), ← hnone, hfirst, hnone, List.nil_append]
  refine ⟨hall, hplaced, ?_, fun before step after hsplit => ?_, fun aliasName => ?_, hcrossings, fun cleanup => ?_⟩
  · refine (hfollow.conditions_perm (hplaced.nodup_iff.mpr h.nodup)).trans (List.Perm.of_eq ?_)
    exact List.filter_congr fun j _ => JoinCondition.connects_perm hall j
  · have hsplit : joinSteps d.joins root others = before ++ step :: after := hsplit
    rw [hsplit] at hfollow
    exact hfollow.follows
  · refine (hfollow.mem_placed_iff hdivides).trans (Iff.trans ?_ h.mem_reachableFrom.symm)
    constructor
    · rintro ⟨a, ha, hreaches⟩
      exact (hconnected root List.mem_cons_self d.primary hprimary a ha).trans hreaches
    · exact fun hreaches => ⟨d.primary, hprimary, hreaches⟩
  · have hpositive : (JoinPlan.ofGroups d.joins root others).hasCrossJoin = true
        ↔ 0 < ((joinSteps d.joins root others).filter (·.isCross)).length := by
      rw [List.length_pos_iff_exists_mem, JoinPlan.hasCrossJoin, List.any_eq_true]
      simp only [List.mem_filter, JoinPlan.ofGroups]
    rw [hpositive, warnsDisconnected_iff h.nodup]
    omega

end HasGraph

/-! ### Plans for tables and for partitions -/

theorem tablePlan?_eq_some (hprimary : d.primary ∈ d.aliases) :
    ∃ others, d.tablePlan? = some (JoinPlan.ofGroups d.joins [d.primary] others)
      ∧ ([d.primary] :: others).Perm (d.aliases.map fun aliasName => [aliasName]) := by
  cases hposition : d.aliases.idxOf? d.primary with
  | none =>
    rw [List.idxOf?, List.findIdx?_eq_none_iff] at hposition
    exact absurd (hposition _ hprimary) (by simp)
  | some position =>
    rw [List.idxOf?] at hposition
    obtain ⟨hlt, hfound, -⟩ := List.findIdx?_eq_some_iff_getElem.mp hposition
    have hget : d.aliases[position] = d.primary := beq_iff_eq.mp hfound
    have hlength : position < (d.aliases.map fun aliasName => [aliasName]).length := by rwa [List.length_map]
    have hroot : (d.aliases.map fun aliasName => [aliasName])[position] = [d.primary] := by rw [List.getElem_map, hget]
    refine ⟨(d.aliases.map fun aliasName => [aliasName]).eraseIdx position, ?_, ?_⟩
    · rw [tablePlan?, List.idxOf?, hposition]
      simp only [Option.bind_eq_bind, Option.bind_some, List.getElem?_eq_getElem hlength, hroot]
    · have hperm := List.getElem_cons_eraseIdx_perm hlength
      rwa [hroot] at hperm

theorem HasGraph.exists_tablePlan? (h : d.HasGraph) :
    ∃ plan, d.tablePlan? = some plan ∧ plan.FollowsGraph d (d.aliases.map fun aliasName => [aliasName]) := by
  obtain ⟨others, hplan, hgroups⟩ := tablePlan?_eq_some h.primary
  have hsingle : ∀ group ∈ [d.primary] :: others, ∃ aliasName, group = [aliasName] := by
    intro group hgroup
    obtain ⟨aliasName, -, heq⟩ := List.mem_map.mp (hgroups.mem_iff.mp hgroup)
    exact ⟨aliasName, heq.symm⟩
  refine ⟨_, hplan, h.followsGraph_ofGroups hgroups ?_ (List.mem_singleton.mpr rfl) ?_ ?_⟩
  · have hflatten := hgroups.flatten
    rwa [List.flatten_cons, ← List.flatMap_def, List.flatMap_singleton'] at hflatten
  · rintro group hgroup rfl
    obtain ⟨aliasName, heq⟩ := hsingle [] (List.mem_cons_of_mem _ hgroup)
    cases heq
  · intro group hgroup a ha b hb
    obtain ⟨aliasName, rfl⟩ := hsingle group hgroup
    rw [List.mem_singleton.mp ha, List.mem_singleton.mp hb]
    exact .refl

theorem HasGraph.exists_federationPlan? (h : d.HasGraph) (aggregates : Aggregates) (canJoin : String → Bool) :
    ∃ plan, d.federationPlan? aggregates canJoin = some plan
      ∧ plan.join.FollowsGraph d ((d.partitions canJoin).map (·.aliases)) := by
  obtain ⟨plan, hplan⟩ := Description.exists_federationPlan? h.nodup h.primary aggregates canJoin
  obtain ⟨root, others, hparts⟩ := federationPlan?_eq_some hplan
  have hgroup : ∀ group ∈ root :: others, ∃ p ∈ d.partitions canJoin, group = p.aliases := by
    intro group hgroup
    obtain ⟨p, hp, heq⟩ := List.mem_map.mp (hparts.groups.mem_iff.mp hgroup)
    exact ⟨p, hp, heq.symm⟩
  refine ⟨plan, hplan, ?_⟩
  rw [hparts.join]
  refine h.followsGraph_ofGroups hparts.groups (hparts.flatten_perm h.nodup) hparts.primary ?_ ?_
  · intro group hmem
    obtain ⟨p, hp, rfl⟩ := hgroup group (List.mem_cons_of_mem _ hmem)
    exact aliases_ne_nil_of_mem_partitions hp
  · intro group hmem a ha b hb
    obtain ⟨p, hp, rfl⟩ := hgroup group hmem
    exact reaches_of_mem_partitions h.nodup hp ha hb

theorem HasGraph.crossJoin_mem_iff (h : d.HasGraph) {flags : List QueryFlag} (hmarked : d.MarkedBy flags) :
    .crossJoin ∈ flags ↔ d.WarnsDisconnected cleanup := by
  cases hmarked with
  | tables plan planned marked =>
    obtain ⟨plan', hplan, hfollows⟩ := h.exists_tablePlan?
    obtain rfl := Option.some.inj (planned.symm.trans hplan)
    exact marked.trans (hfollows.hasCrossJoin_iff cleanup)
  | partitions aggregates canJoin plan planned marked =>
    obtain ⟨plan', hplan, hfollows⟩ := h.exists_federationPlan? aggregates canJoin
    obtain rfl := Option.some.inj (planned.symm.trans hplan)
    exact marked.trans (hfollows.hasCrossJoin_iff cleanup)
  | collection single unmarked =>
    refine iff_of_false unmarked fun hwarns => ?_
    have hseveral := (warnsDisconnected_iff h.nodup).mp hwarns
    have hlength := length_components_le_tables h.nodup
    omega

/--
Plans are complete, follow the conditions, and cross only when they must, whether single tables are joined or partitions
under any ability of the sources to join. What an engine compiles or returns is marked as crossed exactly if validation
warns that the join graph is disconnected.
-/
theorem joinPlans_follow_graph (hnodup : d.aliases.Nodup) (hprimary : d.primary ∈ d.aliases)
    (hends : ∀ j ∈ d.joins, j.leftTable ∈ d.aliases ∧ j.rightTable ∈ d.aliases) :
    (∃ plan, d.tablePlan? = some plan ∧ plan.FollowsGraph d (d.aliases.map fun aliasName => [aliasName]))
      ∧ (∀ aggregates canJoin, ∃ plan, d.federationPlan? aggregates canJoin = some plan
          ∧ plan.join.FollowsGraph d ((d.partitions canJoin).map (·.aliases)))
      ∧ (∀ (e : Engine) language q, e.compile d language = .ok q →
          (.crossJoin ∈ q.flags ↔ d.WarnsDisconnected e.settings.cleanup))
      ∧ ∀ (e : Engine) time s result final, e.execute d time s = (.ok result, final) →
          (.crossJoin ∈ result.flags ↔ d.WarnsDisconnected e.settings.cleanup) := by
  have h : d.HasGraph := ⟨hnodup, hprimary, hends⟩
  exact ⟨h.exists_tablePlan?, h.exists_federationPlan?,
    fun _ _ _ hcompile => h.crossJoin_mem_iff (Engine.markedBy_of_compile hcompile),
    fun _ _ _ _ _ hexecute => h.crossJoin_mem_iff (Engine.markedBy_of_execute hexecute)⟩

/-- Orders with their customers from one source and the tiers of these from another, beside a list of days. -/
def ordersAndDays : Description :=
  { tables := [⟨"days", "shop", "days", none⟩, ⟨"orders", "shop", "orders", none⟩, ⟨"tiers", "docs", "tiers", none⟩,
      ⟨"customers", "shop", "customers", none⟩]
    primaryTable := some "orders"
    joins := [⟨"tiers", "of", "customers", "id", .inner⟩, ⟨"orders", "by", "customers", "id", .left⟩] }

/-- The customers come before the tiers, and the days are crossed at last. -/
theorem ordersAndDays_follow_graph :
    (ordersAndDays.aliases.Nodup ∧ ordersAndDays.primary ∈ ordersAndDays.aliases
      ∧ ∀ j ∈ ordersAndDays.joins, j.leftTable ∈ ordersAndDays.aliases ∧ j.rightTable ∈ ordersAndDays.aliases)
    ∧ (ordersAndDays.partitions fun sourceId => sourceId = "shop").map (·.aliases)
        = [["days"], ["orders", "customers"], ["tiers"]]
    ∧ ∃ plan, ordersAndDays.federationPlan? [] (fun sourceId => sourceId = "shop") = some plan
      ∧ plan.join.FollowsGraph ordersAndDays [["days"], ["orders", "customers"], ["tiers"]]
      ∧ plan.join.steps.map (fun step => (step.nodes, step.isCross)) = [(["tiers"], false), (["days"], true)]
      ∧ ordersAndDays.WarnsDisconnected .strip := by
  have hnodup : ordersAndDays.aliases.Nodup := by decide
  have hprimary : ordersAndDays.primary ∈ ordersAndDays.aliases := by decide
  have hends : ∀ j ∈ ordersAndDays.joins,
      j.leftTable ∈ ordersAndDays.aliases ∧ j.rightTable ∈ ordersAndDays.aliases := by decide
  have hgroups : (ordersAndDays.partitions fun sourceId => sourceId = "shop").map (·.aliases)
      = [["days"], ["orders", "customers"], ["tiers"]] := by cbv
  have hsteps : (ordersAndDays.federationPlan? [] fun sourceId => sourceId = "shop").map (fun plan =>
      plan.join.steps.map fun step => (step.nodes, step.isCross)) = some [(["tiers"], false), (["days"], true)] := by cbv
  obtain ⟨-, hfederation, -⟩ := joinPlans_follow_graph hnodup hprimary hends
  obtain ⟨plan, hplan, hfollows⟩ := hfederation [] fun sourceId => sourceId = "shop"
  rw [hplan, Option.map_some, Option.some.injEq] at hsteps
  have hcross : plan.join.hasCrossJoin = true := by
    have hany : (plan.join.steps.map fun step => (step.nodes, step.isCross)).any (·.2) = true := by rw [hsteps]; rfl
    rwa [List.any_map] at hany
  exact ⟨⟨hnodup, hprimary, hends⟩, hgroups, plan, hplan, hgroups ▸ hfollows, hsteps,
    (hfollows.hasCrossJoin_iff .strip).mp hcross⟩

end Description

end QueryFederation

import QueryFederation.Proofs.Compilation.Sql
import QueryFederation.Proofs.Federation.Plan
import QueryFederation.Proofs.Join.Mirror

/-!
# Descriptions with conditions the other way round

Which way round a join condition is written is for its author to choose. Validation accepts a description either way,
and plans and statements are the same. A plan carries its conditions as they are written, so two plans are compared with
their conditions turned to the placed side, and two partitions without the conditions that their source joins by. What
can differ is the condition that is named when a dialect lacks the kind of a join.
-/

namespace QueryFederation

/-- The partition without the conditions by which its source joins the tables. -/
def Partition.unjoined (p : Partition) : Partition := { p with joins := [] }

def FederationPlan.facing (plan : FederationPlan) : FederationPlan :=
  { plan with partitions := plan.partitions.map (·.unjoined), join := plan.join.facing }

namespace Description

def joinedBy (d : Description) (joins : List JoinCondition) : Description := { d with joins }

/-- The description with the conditions at some places the other way round. -/
def mirrored (d : Description) (places : Nat → Bool) : Description :=
  d.joinedBy (d.joins.zipIdx.map fun (j, i) => if places i then j.reversed else j)

variable {d : Description} {aggregates : Aggregates} {cleanup : Cleanup} {joins : List JoinCondition}

theorem mirrors_mirrored (places : Nat → Bool) : Mirrors d.joins (d.mirrored places).joins := by
  have heach : Mirrors (d.joins.zipIdx.map Prod.fst) (d.mirrored places).joins := by
    rw [Mirrors, mirrored, joinedBy, List.forall₂_map_left_iff, List.forall₂_map_right_iff, List.forall₂_same]
    rintro ⟨j, i⟩ -
    dsimp only
    split
    · exact Or.inr rfl
    · exact Or.inl rfl
  rwa [List.zipIdx_map_fst] at heach

variable (h : Mirrors d.joins joins)

include h

/-! ### Validation -/

theorem referredColumns_mirrors_subset : (d.joinedBy joins).referredColumns ⊆ d.referredColumns := by
  intro c hc
  simp only [referredColumns, List.mem_append] at hc ⊢
  refine hc.imp_right fun hends => ?_
  obtain ⟨j', hj', hc⟩ := List.mem_flatMap.mp hends
  obtain ⟨j, hj, rfl | rfl⟩ := exists_left_of_forall₂ h hj'
  · exact List.mem_flatMap.mpr ⟨j', hj, hc⟩
  · exact List.mem_flatMap.mpr ⟨j, hj, (List.Perm.swap _ _ []).mem_iff.mp hc⟩

theorem joinErrors_mirrors (hjoins : d.joinErrors = []) : (d.joinedBy joins).joinErrors = [] := by
  rw [joinErrors_eq_nil_iff] at hjoins ⊢
  obtain ⟨hends, hkinds⟩ := hjoins
  have hordered : joins.map (·.inOrder) = d.joins.map (·.inOrder) :=
    h.map_eq fun j hj => JoinCondition.inOrder_reversed (hends j hj)
  have hmem : ∀ j' ∈ joins, ∃ j ∈ d.joins, j.inOrder = j'.inOrder := fun j' hj' =>
    List.mem_map.mp (hordered ▸ List.mem_map_of_mem hj')
  refine ⟨fun j' hj' => ?_, fun j' hj' k' hk' => ?_⟩
  · obtain ⟨j, hj, rfl | rfl⟩ := exists_left_of_forall₂ h hj'
    · exact hends j' hj
    · exact (hends j hj).symm
  · obtain ⟨j, hj, hinOrder⟩ := hmem j' hj'
    obtain ⟨k, hk, hinOrder'⟩ := hmem k' hk'
    rw [← hinOrder, ← hinOrder']
    exact hkinds j hj k hk

theorem isValid_mirrors (hvalid : (d.validate cleanup).isValid = true) :
    ((d.joinedBy joins).validate cleanup).isValid = true := by
  obtain ⟨haliases, hreferences, hjoins, hfilters, haggregates, houtput, hnames, hrest⟩ := isValid_iff.mp hvalid
  have hmentioned : (d.joinedBy joins).mentionedColumns (d.aggregateFindings cleanup).analyzed
      ⊆ d.mentionedColumns (d.aggregateFindings cleanup).analyzed := fun c hc =>
    List.mem_append.mpr ((List.mem_append.mp hc).imp_left fun hc => referredColumns_mirrors_subset h hc)
  rw [isValid_iff]
  refine ⟨haliases, ?_, joinErrors_mirrors h hjoins, hfilters, haggregates, houtput, ?_, hrest⟩
  · rw [referenceErrors_eq_nil_iff] at hreferences ⊢
    exact ⟨fun c hc => hreferences.1 c (referredColumns_mirrors_subset h hc), hreferences.2⟩
  · rw [nameErrors_eq_nil_iff] at hnames ⊢
    exact ⟨fun c hc c' hc' => hnames.1 c (hmentioned hc) c' (hmentioned hc'),
      fun a ha hname => hnames.2 a ha (List.map_subset _ hmentioned hname)⟩

/-! ### Plans -/

theorem facing_tablePlan? (hnodup : d.aliases.Nodup) :
    (d.joinedBy joins).tablePlan?.map (·.facing) = d.tablePlan?.map (·.facing) := by
  have haliases : (d.joinedBy joins).aliases = d.aliases := rfl
  have hprimary : (d.joinedBy joins).primary = d.primary := rfl
  have hflatten : (d.aliases.map fun aliasName => [aliasName]).flatten = d.aliases := by
    rw [← List.flatMap_def, List.flatMap_singleton']
  rw [tablePlan?, tablePlan?, haliases, hprimary]
  cases d.aliases.idxOf? d.primary with
  | none => rfl
  | some position =>
    simp only [Option.bind_eq_bind, Option.bind_some]
    cases hroot : (d.aliases.map fun aliasName => [aliasName])[position]? with
    | none => rfl
    | some root => exact congrArg some (h.facing_ofGroups (hflatten.symm ▸ hnodup) hroot)

theorem groups_mirrors (canJoin : String → Bool) :
    (d.joinedBy joins).groups canJoin = d.groups canJoin := by
  have hsource : ∀ sourceId, (d.joinedBy joins).sourceGroups canJoin sourceId
      = d.sourceGroups canJoin sourceId := by
    intro sourceId
    have hwithin : ∀ members, Mirrors (d.joins.filter (·.isWithin members)) (joins.filter (·.isWithin members)) :=
      fun members => h.filter fun _ => JoinCondition.isWithin_reversed
    exact congrArg (fun parts => if canJoin sourceId then parts else _) ((hwithin _).components_eq _)
  simp only [groups, hsource]
  rfl

theorem unjoined_partitions (canJoin : String → Bool) :
    ((d.joinedBy joins).partitions canJoin).map (·.unjoined)
      = (d.partitions canJoin).map (·.unjoined) := by
  rw [partitions_eq, partitions_eq, groups_mirrors h, List.map_map, List.map_map]
  rfl

omit h

/-- The plan for some partitions, once it is known how they are joined. -/
def planBy (d : Description) (aggregates : Aggregates) (partitions : List Partition) (join : JoinPlan) :
    FederationPlan :=
  let residual := d.filters.filter fun f => !d.pushes join f
  ⟨partitions.map (fillPartition (d.neededColumns aggregates join residual) (d.pushedFilters join)), join, residual⟩

/-- The conditions have no part in it but through the partitions and their join. -/
theorem planBy_joinedBy (joins : List JoinCondition) (aggregates : Aggregates) (partitions : List Partition)
    (join : JoinPlan) : (d.joinedBy joins).planBy aggregates partitions join = d.planBy aggregates partitions join :=
  rfl

theorem federationPlan?_eq_planBy (aggregates : Aggregates) (canJoin : String → Bool) :
    d.federationPlan? aggregates canJoin = (do
      let position ← (d.partitions canJoin).findIdx? fun p => p.aliases.contains d.primary
      let groups := (d.partitions canJoin).map (·.aliases)
      return d.planBy aggregates (d.partitions canJoin)
        (JoinPlan.ofGroups d.joins (← groups[position]?) (groups.eraseIdx position))) :=
  rfl

theorem facing_planBy (aggregates : Aggregates) (partitions : List Partition) (join : JoinPlan) :
    (d.planBy aggregates partitions join).facing = d.planBy aggregates (partitions.map (·.unjoined)) join.facing := by
  have hpushes : d.pushes join.facing = d.pushes join := by
    funext f
    rw [pushes, pushes, JoinPlan.nullSupplying_facing]
  have hneeded : ∀ residual, d.neededColumns aggregates join.facing residual
      = d.neededColumns aggregates join residual := by
    intro residual
    rw [neededColumns, JoinPlan.facing, List.flatMap_map]
    rfl
  simp only [planBy, FederationPlan.facing, pushedFilters, hpushes, hneeded, List.map_map]
  rfl

include h

theorem facing_federationPlan? (hnodup : d.aliases.Nodup) (aggregates : Aggregates) (canJoin : String → Bool) :
    ((d.joinedBy joins).federationPlan? aggregates canJoin).map (·.facing)
      = (d.federationPlan? aggregates canJoin).map (·.facing) := by
  have hunjoined := unjoined_partitions h canJoin
  have hgroups : ((d.joinedBy joins).partitions canJoin).map (·.aliases)
      = (d.partitions canJoin).map (·.aliases) := by
    have haliases := congrArg (List.map Partition.aliases) hunjoined
    rwa [List.map_map, List.map_map] at haliases
  have hposition : ((d.joinedBy joins).partitions canJoin).findIdx? (fun p => p.aliases.contains d.primary)
      = (d.partitions canJoin).findIdx? fun p => p.aliases.contains d.primary := by
    have hfind := congrArg (List.findIdx? fun group => group.contains d.primary) hgroups
    rwa [List.findIdx?_map, List.findIdx?_map] at hfind
  have hflatten : ((d.partitions canJoin).map (·.aliases)).flatten.Nodup := by
    rw [← List.flatMap_def]
    exact (flatMap_aliases_partitions_perm hnodup canJoin).nodup_iff.mpr hnodup
  have hprimary : (d.joinedBy joins).primary = d.primary := rfl
  rw [federationPlan?_eq_planBy, federationPlan?_eq_planBy, hprimary, hposition]
  -- Where there is no plan, `rfl` would compare the steps that are not taken, so it is said which value comes out.
  cases (d.partitions canJoin).findIdx? fun p => p.aliases.contains d.primary with
  | none => simp only [Option.bind_eq_bind, Option.bind_none]
  | some position =>
    simp only [Option.bind_eq_bind, Option.bind_some, hgroups]
    cases hroot : ((d.partitions canJoin).map (·.aliases))[position]? with
    | none => simp only [Option.bind_none]
    | some root =>
      have hjoin : (JoinPlan.ofGroups (d.joinedBy joins).joins root _).facing = _ := h.facing_ofGroups hflatten hroot
      simp only [Option.bind_some, Option.pure_def, Option.map_some, facing_planBy, planBy_joinedBy, hunjoined, hjoin]

/-! ### Statements -/

omit h

theorem toOption_joinsOf_facing (dialect : Dialect) (plan : JoinPlan) :
    (d.joinsOf dialect plan.facing).toOption = (d.joinsOf dialect plan).toOption := by
  have hsupported : unsupportedJoin? dialect plan.facing = none ↔ unsupportedJoin? dialect plan = none := by
    simp only [unsupportedJoin?, List.findSome?_eq_none_iff, JoinPlan.facing, List.forall_mem_map]
    refine forall₂_congr fun step _ => ?_
    obtain ⟨nodes, _ | kind, pairs, _ | ⟨condition, conditions⟩⟩ := step
    case some.cons => cases hsupports : dialect.supports kind <;> simp [JoinStep.facing, hsupports]
    all_goals rfl
  have hsteps : plan.facing.steps.map (fun step => step.join (d.source (step.nodes.headD "")))
      = plan.steps.map fun step => step.join (d.source (step.nodes.headD "")) := by
    rw [JoinPlan.facing, List.map_map]
    rfl
  rw [joinsOf, joinsOf, hsteps]
  cases hplan : unsupportedJoin? dialect plan with
  | none => rw [hsupported.mpr hplan]
  | some e =>
    cases hfacing : unsupportedJoin? dialect plan.facing with
    | none => exact absurd (hplan.symm.trans (hsupported.mp hfacing)) (Option.some_ne_none e)
    | some e' => rfl

theorem toOption_select_facing (dialect : Dialect) (terms : Entries Sql.Term) (plan : JoinPlan) :
    (d.select dialect terms plan.facing).toOption = (d.select dialect terms plan).toOption :=
  toOption_bind_congr (toOption_joinsOf_facing dialect plan) fun _ => rfl

include h

theorem toOption_compileSql (hnodup : d.aliases.Nodup) (dialectName : String) (replacements : Entries String) :
    ((d.joinedBy joins).compileSql dialectName replacements).toOption
      = (d.compileSql dialectName replacements).toOption := by
  have hsources : (d.joinedBy joins).sourceIds = d.sourceIds := rfl
  have hresolved : (d.joinedBy joins).resolvedAggregates replacements
      = d.resolvedAggregates replacements := rfl
  have hcolumns : (d.joinedBy joins).outputColumns = d.outputColumns := rfl
  have hplans := facing_tablePlan? h hnodup
  rw [compileSql, compileSql, hsources, hresolved, hcolumns]
  rcases d.sourceIds with _ | ⟨sourceId, _ | ⟨_, _⟩⟩
  case cons.nil =>
    cases Dialect.ofName dialectName with
    | error e => rfl
    | ok dialect =>
      refine toOption_bind_congr rfl fun dialect => toOption_bind_congr rfl fun resolved => ?_
      simp only
      cases (d.outputColumns resolved.keys).isEmpty with
      | true => rfl
      | false =>
        cases hplan : d.tablePlan? with
        | none =>
          rw [hplan, Option.map_none, Option.map_eq_none_iff] at hplans
          rw [hplans]
        | some plan =>
          rw [hplan, Option.map_some] at hplans
          obtain ⟨plan', hplan', hfacing⟩ := Option.map_eq_some_iff.mp hplans
          have hselect : ∀ terms, ((d.joinedBy joins).select dialect terms plan').toOption
              = (d.select dialect terms plan).toOption := by
            intro terms
            rw [← toOption_select_facing dialect terms plan, ← hfacing]
            exact (toOption_select_facing dialect terms plan').symm
          have hcrossed : (plan'.steps.filter (·.isCross)).map (fun step => step.nodes.headD "")
              = (plan.steps.filter (·.isCross)).map fun step => step.nodes.headD "" := by
            rw [← plan.map_crossed_facing (·.headD ""), ← hfacing]
            exact (plan'.map_crossed_facing (·.headD "")).symm
          rw [hplan']
          refine toOption_bind_congr (hselect _) fun written => ?_
          simp only [hcrossed]
  all_goals rfl

omit h

/--
With conditions at any places the other way round a description of distinct tables is as valid as before. Its plans have
the same steps, which read the same conditions from the placed side; its partitions have the same columns and filters,
and the same filters are left to the joined rows. What compiles in a dialect compiles to the same statement.
-/
theorem mirrored_means_the_same (hnodup : d.aliases.Nodup) (places : Nat → Bool) :
    (∀ cleanup, ((d.mirrored places).validate cleanup).isValid = (d.validate cleanup).isValid)
      ∧ (d.mirrored places).tablePlan?.map (·.facing) = d.tablePlan?.map (·.facing)
      ∧ (∀ aggregates canJoin, ((d.mirrored places).federationPlan? aggregates canJoin).map (·.facing)
        = (d.federationPlan? aggregates canJoin).map (·.facing))
      ∧ ∀ dialectName replacements q, (d.mirrored places).compileSql dialectName replacements = .ok q
        ↔ d.compileSql dialectName replacements = .ok q := by
  have h : Mirrors d.joins (d.mirrored places).joins := mirrors_mirrored places
  refine ⟨fun cleanup => Bool.eq_iff_iff.mpr ⟨?_, isValid_mirrors h⟩, facing_tablePlan? h hnodup,
    facing_federationPlan? h hnodup, ?_⟩
  · exact isValid_mirrors (d := d.mirrored places) h.symm
  · intro dialectName replacements q
    have hoption : ((d.mirrored places).compileSql dialectName replacements).toOption
        = (d.compileSql dialectName replacements).toOption :=
      toOption_compileSql h hnodup dialectName replacements
    rw [← toOption_eq_some_iff, ← toOption_eq_some_iff, hoption]

/-- Orders with the days on which they were shipped, by number and branch; one condition is written from either side. -/
def shippedOrders : Description where
  tables := [⟨"o", "shop", "orders", none⟩, ⟨"s", "shop", "shipments", none⟩]
  columns := [{ table := "s", column := "day" }]
  joins := [⟨"o", "id", "s", "order", .left⟩, ⟨"s", "branch", "o", "branch", .right⟩]

/-- Written from the shipments alone, the conditions keep the orders that were not shipped. -/
theorem shippedOrders_mirrored : shippedOrders.aliases.Nodup
    ∧ (shippedOrders.mirrored (· = 0)).joins
      = [⟨"s", "order", "o", "id", .right⟩, ⟨"s", "branch", "o", "branch", .right⟩]
    ∧ ((shippedOrders.mirrored (· = 0)).validate .strip).isValid = true
    ∧ (shippedOrders.mirrored (· = 0)).tablePlan?.map (·.facing) = some ⟨["o"], [⟨["s"], some .left,
      [⟨⟨"o", "id"⟩, ⟨"s", "order"⟩⟩, ⟨⟨"o", "branch"⟩, ⟨"s", "branch"⟩⟩],
      [⟨"o", "id", "s", "order", .left⟩, ⟨"o", "branch", "s", "branch", .left⟩]⟩]⟩ := by
  have hvalid : (shippedOrders.validate .strip).isValid = true := by
    rw [isValid_iff]
    exact ⟨by cbv, by cbv, by cbv, by cbv, by cbv, by cbv, nameErrors_eq_nil_iff.mpr ⟨by decide +kernel, by decide⟩,
      by cbv, by cbv, by cbv⟩
  have hnodup : shippedOrders.aliases.Nodup := by decide
  obtain ⟨hverdict, hplan, -, -⟩ := mirrored_means_the_same hnodup (· = 0)
  refine ⟨hnodup, by decide, (hverdict .strip).trans hvalid, hplan.trans ?_⟩
  cbv

end Description

end QueryFederation

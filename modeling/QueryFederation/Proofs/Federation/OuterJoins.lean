import QueryFederation.Proofs.Federation.LikeRows
import QueryFederation.Proofs.Join.Tree

/-!
# Where the tables of outer joins are

If some joins are outer joins, it matters which tables are joined first, and this depends on where the tables are: those
of one source come first among themselves. The rows are the same for all tables exactly if both ways fill the same sets
of tables. They do whenever the joins make up a tree and associate, since then each way fills the regions of the tree.
-/

namespace QueryFederation

namespace Description

variable {d e : Description} {aggregates : Aggregates} {canJoin : String → Bool} {plan : FederationPlan}
  {tables : String → List Row} {s : Finset String} {all : List String} {joins : List JoinCondition}

theorem HasGraph.joins_eq_filter (h : d.HasGraph) : d.joins = d.joins.filter (·.isWithin d.aliases) := by
  exact (List.filter_eq_self.mpr fun j hj => JoinCondition.isWithin_iff.mpr (h.ends j hj)).symm

/-! ### Plans that fill the same tables -/

/-- What joining the tables of a description shows. -/
theorem IsConsistent.showsMaximal_of_joinsTables (h : d.IsConsistent aggregates) {rows : List Row}
    (hrows : d.JoinsTables (d.allColumns aggregates) tables rows) : ∃ placed joined, placed.Perm d.aliases
      ∧ ShowsMaximal tables d.joins (d.allColumns aggregates) d.tableFills placed joined ∧ joined.rows = rows :=
  hrows.showsMaximal h.hasGraph h.hasGraph.joins_eq_filter (List.Subset.refl _) h.ends_differ h.namesApart_allColumns
    (hasEnds_allColumns d aggregates)

/-- If both ways fill the same sets of tables, they come to the same rows in the needed columns. -/
theorem PlannedAs.map_project_perm_of_fills_eq {root : List String} {others : List (List String)}
    (h : d.PlannedAs aggregates canJoin plan root others) (hconsistent : d.IsConsistent aggregates)
    (hidentifiers : d.aliasErrors = []) (hfills : plan.fills d = d.tableFills) {rows rows' : List Row}
    (hrows : plan.JoinsPartitions d (d.allColumns aggregates) tables rows)
    (hrows' : d.JoinsTables (d.allColumns aggregates) tables rows') {names : List String}
    (hnames : names = (d.neededColumns aggregates plan.join plan.residual).map (·.outputName)) :
    (rows.map (Row.project names)).Perm (rows'.map (Row.project names)) := by
  subst hnames
  have hnodup := hconsistent.nodup_aliases
  obtain ⟨placed, joined, hplaced, rfl, hshows⟩ := h.showsMaximal_of_joinsPartitions hconsistent hidentifiers hrows
  obtain ⟨placed', joined', hplaced', hshows', rfl⟩ := hconsistent.showsMaximal_of_joinsTables hrows'
  have htables : ∀ c ∈ d.neededColumns aggregates plan.join plan.residual, c.table ∈ d.aliases := fun c hc =>
    hconsistent.declared c (h.neededColumns_subset hc)
  have hleft := hshows.map_project_perm (h.namesApart hconsistent) (hplaced.nodup_iff.mpr hnodup) hplaced fun c hc =>
    ⟨hc, htables c hc⟩
  have hright := hshows'.map_project_perm hconsistent.namesApart_allColumns (hplaced'.nodup_iff.mpr hnodup) hplaced'
    fun c hc => ⟨mem_allColumns.mpr (h.neededColumns_subset hc), htables c hc⟩
  rw [hfills] at hleft
  exact hleft.trans hright.symm

/-- If both ways come to as many rows for all tables, they fill the same sets of tables. -/
theorem PlannedAs.fills_eq_of_length_eq {root : List String} {others : List (List String)}
    (h : d.PlannedAs aggregates canJoin plan root others) (hconsistent : d.IsConsistent aggregates)
    (hidentifiers : d.aliasErrors = [])
    (hlength : ∀ tables rows rows', plan.JoinsPartitions d (d.allColumns aggregates) tables rows →
      d.JoinsTables (d.allColumns aggregates) tables rows' → rows.length = rows'.length) : plan.fills d = d.tableFills := by
  have hnodup := hconsistent.nodup_aliases
  -- Like rows can be joined both ways, so there is something to count.
  have hcounts : ∀ s n, AreWithin d.aliases (plan.fills d) ∧ AreWithin d.aliases d.tableFills
      ∧ (maximalCombinations (likeRows (d.allColumns aggregates) s n) d.joins (plan.fills d) d.aliases).length
        = (maximalCombinations (likeRows (d.allColumns aggregates) s n) d.joins d.tableFills d.aliases).length := by
    intro s n
    obtain ⟨rows, hrows⟩ := h.exists_joinsPartitions hconsistent hidentifiers isUniform_of_mem_likeRows
    obtain ⟨rows', hrows', -⟩ := hconsistent.hasGraph.exists_joinsTables isUniform_of_mem_likeRows
    have heq := hlength (likeRows (d.allColumns aggregates) s n) rows rows' hrows hrows'
    obtain ⟨placed, joined, hplaced, rfl, hshows⟩ := h.showsMaximal_of_joinsPartitions hconsistent hidentifiers hrows
    obtain ⟨placed', joined', hplaced', hshows', rfl⟩ := hconsistent.showsMaximal_of_joinsTables hrows'
    rw [hshows.length_rows (hplaced.nodup_iff.mpr hnodup) hplaced,
      hshows'.length_rows (hplaced'.nodup_iff.mpr hnodup) hplaced'] at heq
    exact ⟨hshows.within.of_perm hplaced, hshows'.within.of_perm hplaced', heq⟩
  obtain ⟨hwithin, hwithin', -⟩ := hcounts ∅ 0
  have hcolumns := hasEnds_allColumns d aggregates
  refine Finset.ext fun s => ⟨fun hmem => by_contra fun hnot => ?_, fun hmem => by_contra fun hnot => ?_⟩
  · obtain ⟨n, hlt⟩ := exists_length_maximalCombinations_lt hcolumns hnodup (hwithin s hmem).2 hmem hnot
    exact hlt.ne' (hcounts s n).2.2
  · obtain ⟨n, hlt⟩ := exists_length_maximalCombinations_lt hcolumns hnodup (hwithin' s hmem).2 hmem hnot
    exact hlt.ne (hcounts s n).2.2

/-! ### Joins that associate -/

/-- Where joins associate, joining tables one by one fills the regions of these tables. -/
theorem HasGraph.mem_tableFills_iff (h : e.HasGraph)
    (hconnected : ∀ a ∈ e.aliases, ∀ b ∈ e.aliases, Reaches e.joins a b)
    (hjoins : e.joins = joins.filter (·.isWithin all)) (hall : e.aliases ⊆ all) (hkinds : KindsAgree joins)
    (hassociate : Associate joins) (honce : LinksOnce joins) : s ∈ e.tableFills ↔ IsRegion joins e.aliases s := by
  obtain ⟨plan, others, hplan, hroot, hfrom, hperm⟩ := h.exists_planFrom hjoins hall
  obtain ⟨plan', hplan', hfollows⟩ := h.exists_tablePlan?
  obtain rfl := Option.some.inj (hplan.symm.trans hplan')
  have hflatten := flatten_singletons_perm hperm
  have hsingle : ∀ a, IsConnected joins [a] := by
    intro a b hb c hc
    rw [List.mem_singleton.mp hb, List.mem_singleton.mp hc]
    exact .refl
  have hgroup : ∀ g ∈ others, ∃ a, g = [a] := by
    intro g hg
    obtain ⟨a, -, rfl⟩ := List.mem_map.mp (hperm.mem_iff.mp (List.mem_cons_of_mem _ hg))
    exact ⟨a, rfl⟩
  have hgiven : ∀ a s, s ∈ ({[a].toFinset} : Finset (Finset String)) ↔ IsRegion joins [a] s := fun a s =>
    Finset.mem_singleton.trans isRegion_singleton_iff.symm
  rw [tableFills, hplan, Option.map_some, Option.getD_some, JoinPlan.fills, hroot,
    ← isRegion_congr fun a => hflatten.mem_iff]
  refine hfrom.mem_fillsFrom_iff (hfollows.isCross_eq_false (h.length_components_le_one hconnected))
    (hflatten.nodup_iff.mpr h.nodup) hkinds hassociate honce (hsingle _) ?_ (hgiven _) ?_
  · intro g hg
    obtain ⟨a, rfl⟩ := hgroup g hg
    exact hsingle a
  · intro g hg s
    obtain ⟨a, rfl⟩ := hgroup g hg
    exact hgiven a s

/-- So does joining partitions. -/
theorem PlannedAs.mem_fills_iff {root : List String} {others : List (List String)}
    (h : d.PlannedAs aggregates canJoin plan root others) (hplan : d.federationPlan? aggregates canJoin = some plan)
    (hconsistent : d.IsConsistent aggregates) (hidentifiers : d.aliasErrors = [])
    (hconnected : ∀ a ∈ d.aliases, ∀ b ∈ d.aliases, Reaches d.joins a b) (hkinds : KindsAgree d.joins)
    (hassociate : Associate d.joins) (honce : LinksOnce d.joins) : s ∈ plan.fills d ↔ IsRegion d.joins d.aliases s := by
  have hnodup := hconsistent.nodup_aliases
  have hgraph := hconsistent.hasGraph
  obtain ⟨plan', hplan', hfollows⟩ := hgraph.exists_federationPlan? aggregates canJoin
  obtain rfl := Option.some.inj (hplan.symm.trans hplan')
  have hflatten := h.flatten_perm hnodup
  have hpartition : ∀ g ∈ root :: others, ∃ p ∈ plan.partitions, p.aliases = g := fun g hg =>
    List.mem_map.mp (h.groups_perm.mem_iff.mp hg)
  have hgroups : ∀ g ∈ root :: others, IsConnected d.joins g := by
    intro g hg
    obtain ⟨p, hp, rfl⟩ := hpartition g hg
    have hpart := h.hasPart hconsistent hp
    exact fun a ha b hb => ReachesIn.of_reaches_within (hpart.joins ▸ hpart.connected a ha b hb)
  have hgiven : ∀ g ∈ root :: others, ∀ s, s ∈ plan.partitionFills d g ↔ IsRegion d.joins g s := by
    intro g hg s
    obtain ⟨p, hp, rfl⟩ := hpartition g hg
    have hpart := h.hasPart hconsistent hp
    have hsub := hpart.hasGraph_subDescription hidentifiers
    rw [h.partitionFills_eq hnodup hp, hsub.mem_tableFills_iff hpart.reaches_subDescription hpart.joins
      (fun _ hmem => hpart.mem_aliases.mp hmem) hkinds hassociate honce]
    exact isRegion_congr fun a => hpart.mem_aliases
  rw [FederationPlan.fills, JoinPlan.fills, h.root_eq, ← isRegion_congr fun a => hflatten.mem_iff]
  exact h.planFrom.mem_fillsFrom_iff (hfollows.isCross_eq_false (hgraph.length_components_le_one hconnected))
    (hflatten.nodup_iff.mpr hnodup) hkinds hassociate honce (hgroups root List.mem_cons_self)
    (fun g hg => hgroups g (List.mem_cons_of_mem _ hg)) (hgiven root List.mem_cons_self)
    fun g hg => hgiven g (List.mem_cons_of_mem _ hg)

/-! ### Where the tables are -/

/--
Joining partitions comes to the same rows as joining tables one by one, whatever the rows of the tables are, if and only
if both ways fill the same sets of tables. If the joins make up a tree and associate, this is the case.
-/
theorem outerJoins_reassociate_iff {cleanup : Cleanup} (hvalid : (d.validate cleanup).isValid = true)
    (canJoin : String → Bool) :
    ∃ aggregates plan, d.analyzedAggregates (d.validate cleanup).replacements = .ok aggregates
      ∧ d.federationPlan? aggregates canJoin = some plan
      ∧ ((∀ tables rows rows', plan.JoinsPartitions d (d.allColumns aggregates) tables rows →
          d.JoinsTables (d.allColumns aggregates) tables rows' →
          (rows.map (Row.project ((d.neededColumns aggregates plan.join plan.residual).map (·.outputName)))).Perm
            (rows'.map (Row.project ((d.neededColumns aggregates plan.join plan.residual).map (·.outputName)))))
        ↔ plan.fills d = d.tableFills)
      ∧ (d.joinGraph.IsTree → Associate d.joins → plan.fills d = d.tableFills) := by
  have hconsistent := isConsistent_of_isValid hvalid
  obtain ⟨haliases, -, hjoins, -⟩ := isValid_iff.mp hvalid
  obtain ⟨plan, hplan⟩ := exists_federationPlan? hconsistent.nodup_aliases hconsistent.primary_mem
    (d.aggregateFindings cleanup).analyzed canJoin
  obtain ⟨root, others, hparts⟩ := federationPlan?_eq_some hplan
  refine ⟨_, plan, analyzedAggregates_of_isValid hvalid, hplan, ⟨fun hsame => ?_, fun hfills => ?_⟩, fun htree hassociate => ?_⟩
  · refine hparts.fills_eq_of_length_eq hconsistent haliases fun tables rows rows' hrows hrows' => ?_
    have hlength := (hsame tables rows rows' hrows hrows').length_eq
    rwa [List.length_map, List.length_map] at hlength
  · exact fun tables rows rows' hrows hrows' =>
      hparts.map_project_perm_of_fills_eq hconsistent haliases hfills hrows hrows' rfl
  · have hgraph := hconsistent.hasGraph
    have hconnected := reaches_of_connected htree.connected
    have honce := hgraph.linksOnce_of_isAcyclic htree.isAcyclic
    have hkinds := kindsAgree_of_inOrder hconsistent.ends_differ (joinErrors_eq_nil_iff.mp hjoins).2
    ext s
    rw [hparts.mem_fills_iff hplan hconsistent haliases hconnected hkinds hassociate honce,
      hgraph.mem_tableFills_iff hconnected hgraph.joins_eq_filter (List.Subset.refl _) hkinds hassociate honce]

/-! ### Orders of customers -/

/-- The orders of customers and the items of these, of which the orders and items are in one source. -/
def ordersOfCustomers (kind : JoinKind) : Description where
  tables := [⟨"c", "crm", "customers", none⟩, ⟨"o", "shop", "orders", none⟩, ⟨"i", "shop", "items", none⟩]
  columns := [{ table := "c", column := "id" }]
  joins := [⟨"c", "id", "o", "customer_id", .left⟩, ⟨"o", "id", "i", "order_id", kind⟩]

/-- The plan of `ordersOfCustomers`. -/
def ordersOfCustomersPlan (kind : JoinKind) : FederationPlan where
  partitions := [
    { sourceId := "crm", aliases := ["c"], columns := [⟨"c", "id"⟩] },
    { sourceId := "shop", aliases := ["o", "i"], joins := [⟨"o", "id", "i", "order_id", kind⟩]
      columns := [⟨"o", "customer_id"⟩] }]
  join :=
    { root := ["c"]
      steps := [⟨["o", "i"], some .left, [⟨⟨"c", "id"⟩, ⟨"o", "customer_id"⟩⟩], [⟨"c", "id", "o", "customer_id", .left⟩]⟩] }
  residual := []

theorem isValid_ordersOfCustomers (kind : JoinKind) : ((ordersOfCustomers kind).validate .strip).isValid = true := by
  have hnames : ∀ c ∈ (ordersOfCustomers kind).mentionedColumns [], ∀ c' ∈ (ordersOfCustomers kind).mentionedColumns [],
      c.outputName = c'.outputName → c = c' := by cases kind <;> decide +kernel
  have hjoins : (ordersOfCustomers kind).joinErrors = [] := by cbv
  rw [isValid_iff]
  exact ⟨by cbv, by cbv, hjoins, by cbv, by cbv, by cbv,
    nameErrors_eq_nil_iff.mpr ⟨hnames, by cases kind <;> decide⟩, by cbv, by cbv, by cbv⟩

theorem isTree_ordersOfCustomers (kind : JoinKind) : (ordersOfCustomers kind).joinGraph.IsTree := by
  have horders : ∀ a ∈ (ordersOfCustomers kind).aliases, a ≠ "o" → Joined (ordersOfCustomers kind).joins "o" a := by
    cases kind <;> decide +kernel
  have hmem : "o" ∈ (ordersOfCustomers kind).aliases := List.mem_cons_of_mem _ List.mem_cons_self
  rw [SimpleGraph.isTree_iff_connected_and_card]
  constructor
  · refine SimpleGraph.connected_iff_exists_forall_reachable _ |>.mpr ⟨⟨"o", hmem⟩, fun ⟨a, ha⟩ => ?_⟩
    by_cases heq : a = "o"
    · subst heq
      exact .rfl
    · exact SimpleGraph.Adj.reachable ⟨fun hsame => heq (congrArg Subtype.val hsame).symm, horders a ha heq⟩
  · rw [Nat.card_eq_fintype_card, Nat.card_eq_fintype_card]
    cases kind <;> decide +kernel

theorem federationPlan?_ordersOfCustomers (kind : JoinKind) :
    (ordersOfCustomers kind).federationPlan? [] (fun _ => true) = some (ordersOfCustomersPlan kind) := by
  cbv

/-- If the items of orders may be missing as well, it does not matter that the customers are elsewhere. -/
theorem ordersOfCustomers_reassociate : ((ordersOfCustomers .left).validate .strip).isValid = true
    ∧ (ordersOfCustomers .left).joinGraph.IsTree ∧ Associate (ordersOfCustomers .left).joins
    ∧ (ordersOfCustomers .left).federationPlan? [] (fun _ => true) = some (ordersOfCustomersPlan .left)
    ∧ ∀ tables rows rows', (ordersOfCustomersPlan .left).JoinsPartitions (ordersOfCustomers .left)
        ((ordersOfCustomers .left).allColumns []) tables rows →
      (ordersOfCustomers .left).JoinsTables ((ordersOfCustomers .left).allColumns []) tables rows' →
      (rows.map (Row.project ["c_id", "o_customer_id"])).Perm (rows'.map (Row.project ["c_id", "o_customer_id"])) := by
  have hvalid := isValid_ordersOfCustomers .left
  have htree := isTree_ordersOfCustomers .left
  have hassociate : Associate (ordersOfCustomers .left).joins := by decide +kernel
  have hplanned := federationPlan?_ordersOfCustomers .left
  obtain ⟨aggregates, plan, haggregates, hplan, hsame, hfills⟩ := outerJoins_reassociate_iff hvalid fun _ => true
  obtain rfl : [] = aggregates := Except.ok.inj haggregates
  obtain rfl := Option.some.inj (hplanned.symm.trans hplan)
  exact ⟨hvalid, htree, hassociate, hplanned, hsame.mpr (hfills htree hassociate)⟩

/-- Two customers, of which one has an order, and the item of this. -/
def customerRows (aliasName : String) : List Row :=
  if aliasName = "c" then [[("id", .integer 1)], [("id", .integer 2)]]
  else if aliasName = "o" then [[("id", .integer 1), ("customer_id", .integer 1)]]
  else [[("order_id", .integer 1)]]

/-- Customers are kept if they are joined last. -/
def customersWithOrders : List Row :=
  [[("c_id", .integer 1), ("o_customer_id", .integer 1)], [("c_id", .integer 2), ("o_customer_id", .null)]]

/-- The one item with its order and customer. -/
def customersOfItems : List Row :=
  [[("c_id", .integer 1), ("o_customer_id", .integer 1), ("o_id", .integer 1), ("i_order_id", .integer 1)]]

theorem joinsPartitions_ordersOfCustomers : (ordersOfCustomersPlan .inner).JoinsPartitions (ordersOfCustomers .inner)
    ((ordersOfCustomers .inner).allColumns []) customerRows customersWithOrders := by
  refine ⟨fun p => if p.sourceId = "crm" then [[("c_id", .integer 1)], [("c_id", .integer 2)]]
    else [[("o_customer_id", .integer 1)]], false, ⟨["c_id", "o_customer_id"], customersWithOrders⟩, ?_, by cbv, rfl⟩
  simp only [ordersOfCustomersPlan, List.forall_mem_cons]
  refine ⟨?_, ?_, List.forall_mem_nil _⟩
  · exact ⟨[[("c_id", .integer 1)], [("c_id", .integer 2)]],
      ⟨⟨["c"], []⟩, false, ⟨["c_id"], _⟩, by cbv, by cbv, rfl⟩, .refl _⟩
  · exact ⟨[[("o_customer_id", .integer 1), ("o_id", .integer 1), ("i_order_id", .integer 1)]],
      ⟨⟨["o"], [⟨["i"], some .inner, [⟨⟨"o", "id"⟩, ⟨"i", "order_id"⟩⟩], [⟨"o", "id", "i", "order_id", .inner⟩]⟩]⟩, false,
        ⟨["o_customer_id", "o_id", "i_order_id"], _⟩, by cbv, by cbv, rfl⟩, .refl _⟩

theorem joinsTables_ordersOfCustomers : (ordersOfCustomers .inner).JoinsTables ((ordersOfCustomers .inner).allColumns [])
    customerRows customersOfItems :=
  ⟨⟨["c"], [⟨["o"], some .left, [⟨⟨"c", "id"⟩, ⟨"o", "customer_id"⟩⟩], [⟨"c", "id", "o", "customer_id", .left⟩]⟩,
      ⟨["i"], some .inner, [⟨⟨"o", "id"⟩, ⟨"i", "order_id"⟩⟩], [⟨"o", "id", "i", "order_id", .inner⟩]⟩]⟩,
    false, ⟨["c_id", "o_customer_id", "o_id", "i_order_id"], customersOfItems⟩, by cbv, by cbv, rfl⟩

/-- A customer without orders is kept only if the items are joined to the orders first. -/
theorem ordersOfCustomers_differ : ((ordersOfCustomers .inner).validate .strip).isValid = true
    ∧ (ordersOfCustomers .inner).filters = [] ∧ (ordersOfCustomers .inner).joinGraph.IsTree
    ∧ (ordersOfCustomers .inner).federationPlan? [] (fun _ => true) = some (ordersOfCustomersPlan .inner)
    ∧ ((ordersOfCustomers .inner).neededColumns [] (ordersOfCustomersPlan .inner).join []).map (·.outputName)
      = ["c_id", "o_customer_id"]
    ∧ (ordersOfCustomersPlan .inner).JoinsPartitions (ordersOfCustomers .inner) ((ordersOfCustomers .inner).allColumns [])
      customerRows customersWithOrders
    ∧ (ordersOfCustomers .inner).JoinsTables ((ordersOfCustomers .inner).allColumns []) customerRows customersOfItems
    ∧ ¬(customersWithOrders.map (Row.project ["c_id", "o_customer_id"])).Perm
      (customersOfItems.map (Row.project ["c_id", "o_customer_id"])) :=
  ⟨isValid_ordersOfCustomers .inner, rfl, isTree_ordersOfCustomers .inner, federationPlan?_ordersOfCustomers .inner, rfl,
    joinsPartitions_ordersOfCustomers, joinsTables_ordersOfCustomers, fun h => absurd h.length_eq (by decide)⟩

end Description

end QueryFederation

import QueryFederation.Proofs.Federation.Plan
import QueryFederation.Proofs.Join.Pushdown

/-!
# Filtering partitions before they are joined

The tables that a federation plan does not count among those extended with nulls are the ones whose filters can be left
to their sources. Whether the table is in the group that the plan starts with or is added by a later step, dropping its
rows before the joins and dropping them after the joins come to the same.
-/

namespace QueryFederation

/-- The relations of groups with a test applied to the rows of the group that has a table. -/
def filteringTable (aliasName : String) (test : Row → Bool) (relation : List String → NamedRows) (group : List String) :
    NamedRows :=
  if aliasName ∈ group then (relation group).filter test else relation group

variable {d : Description} {aggregates : Aggregates} {canJoin : String → Bool} {plan : FederationPlan}

/--
A test that reads only what the rows of a partition have can be applied before the joins if it is about a table that
no step extends with nulls. The rows of partitions may be any whose names no other partition has.
-/
theorem FederationPlan.filter_before_joining (hnodup : d.aliases.Nodup)
    (hplan : d.federationPlan? aggregates canJoin = some plan) (relation : List String → NamedRows)
    (hkeyed : ∀ p ∈ plan.partitions, (relation p.aliases).IsKeyed)
    (hnames : ∀ p ∈ plan.partitions, ∀ q ∈ plan.partitions, p.aliases ≠ q.aliases →
      (relation p.aliases).names.Disjoint (relation q.aliases).names)
    {p : Partition} (hp : p ∈ plan.partitions) {aliasName : String} (halias : aliasName ∈ p.aliases)
    (hextended : aliasName ∉ plan.join.nullSupplying) {test : Row → Bool}
    (hreads : Row.ReadsOnly (relation p.aliases).names test) {isExpired isExpired' : Bool} {all kept : NamedRows}
    (hall : (plan.join.execute relation).answer isExpired = .ok all)
    (hkept : (plan.join.execute (filteringTable aliasName test relation)).answer isExpired' = .ok kept) :
    kept.rows.Perm (all.rows.filter test) := by
  obtain ⟨root, others, hparts⟩ := Description.federationPlan?_eq_some hplan
  have hrun := JoinRun.of_execute hall
  have hrun' := JoinRun.of_execute hkept
  rw [hparts.root_eq] at hrun hrun'
  rw [JoinPlan.nullSupplying, mem_distinctItems, hparts.root_eq] at hextended
  have hkeyed : ∀ g ∈ root :: others, (relation g).IsKeyed := by
    intro g hg
    obtain ⟨q, hq, rfl⟩ := List.mem_map.mp (hparts.groups_perm.mem_iff.mp hg)
    exact hkeyed q hq
  have hnames : ∀ g ∈ root :: others, ∀ g' ∈ root :: others, g ≠ g' →
      (relation g).names.Disjoint (relation g').names := by
    intro g hg g' hg' hne
    obtain ⟨q, hq, rfl⟩ := List.mem_map.mp (hparts.groups_perm.mem_iff.mp hg)
    obtain ⟨q', hq', rfl⟩ := List.mem_map.mp (hparts.groups_perm.mem_iff.mp hg')
    exact hnames q hq q' hq' hne
  have hhome : p.aliases ∈ root :: others := hparts.groups_perm.mem_iff.mpr (List.mem_map_of_mem hp)
  have hsame : ∀ g ∈ root :: others, g ≠ p.aliases → filteringTable aliasName test relation g = relation g := by
    intro g hg hne
    rw [filteringTable, if_neg fun hmem => hne (hparts.eq_of_mem_groups hnodup hg hhome hmem halias)]
  have hfiltered : filteringTable aliasName test relation p.aliases = (relation p.aliases).filter test := by
    rw [filteringTable, if_pos halias]
  obtain ⟨hroot, hothers⟩ := List.nodup_cons.mp (hparts.nodup_groups hnodup)
  have hmem : ∀ g ∈ others, g ∈ root :: others := fun _ => List.mem_cons_of_mem _
  -- The plan starts with the group of the table, or a step adds it.
  by_cases heq : root = p.aliases
  · have hne : ∀ g ∈ others, g ≠ p.aliases := fun g hg he => hroot (heq ▸ he ▸ hg)
    refine hparts.planFrom.filter_of_placed hreads (fun g hg => hkeyed g (hmem g hg))
      (fun g hg => hsame g (hmem g hg) (hne g hg)) (fun g hg => hnames _ hhome g (hmem g hg) (hne g hg).symm)
      (heq ▸ halias) hextended ?_ ?_ hrun hrun'
    · rw [heq, hfiltered]
      rfl
    · rw [heq, hfiltered]
      exact .refl _
  · have hin : p.aliases ∈ others := (List.mem_cons.mp hhome).resolve_left (Ne.symm heq)
    have hstart := hsame root List.mem_cons_self heq
    refine hparts.planFrom.filter_of_home hin hothers hreads (fun g hg => hkeyed g (hmem g hg)) hfiltered
      (fun g hg => hsame g (hmem g hg)) (fun g hg hne => hnames _ hhome g (hmem g hg) hne.symm)
      (hnames _ hhome root List.mem_cons_self (Ne.symm heq)) halias hextended ?_ ?_ hrun hrun'
    · rw [hstart]
    · rw [hstart]

/-- Orders of one source, with their customers from another where there are any. -/
def ordersWithCustomers : Description :=
  { tables := [⟨"o", "shop", "orders", none⟩, ⟨"c", "crm", "customers", none⟩]
    joins := [⟨"o", "by", "c", "id", .left⟩] }

/-- The plan for them. -/
def planOfOrders : FederationPlan :=
  { partitions := [{ sourceId := "shop", aliases := ["o"], columns := [⟨"o", "by"⟩] },
      { sourceId := "crm", aliases := ["c"], columns := [⟨"c", "id"⟩] }]
    join := ⟨["o"], [⟨["c"], some .left, [⟨⟨"o", "by"⟩, ⟨"c", "id"⟩⟩],
      [⟨"o", "by", "c", "id", .left⟩]⟩]⟩
    residual := [] }

/-- An order that has a customer and one that has none. -/
def someOrders (group : List String) : NamedRows :=
  if "o" ∈ group then ⟨["o_by"], [[("o_by", .integer 1)], [("o_by", .null)]]⟩
  else ⟨["c_id"], [[("c_id", .integer 1)]]⟩

/-- The order that has no customer is found among the orders as it is among the joined rows. -/
theorem order_without_customer_before_joining :
    ordersWithCustomers.federationPlan? [] (fun _ => false) = some planOfOrders
      ∧ "o" ∉ planOfOrders.join.nullSupplying
      ∧ [[("o_by", Value.null), ("c_id", .null)]].Perm
        ([[("o_by", .integer 1), ("c_id", .integer 1)], [("o_by", .null), ("c_id", .null)]].filter fun row =>
          (Row.get row "o_by").isNull) := by
  have hplan : ordersWithCustomers.federationPlan? [] (fun _ => false) = some planOfOrders := by cbv
  have hextended : "o" ∉ planOfOrders.join.nullSupplying := by decide
  have hall : (planOfOrders.join.execute someOrders).answer false = .ok
      ⟨["o_by", "c_id"], [[("o_by", .integer 1), ("c_id", .integer 1)], [("o_by", .null), ("c_id", .null)]]⟩ := by cbv
  have hkept : (planOfOrders.join.execute
      (filteringTable "o" (fun row => (Row.get row "o_by").isNull) someOrders)).answer false
        = .ok ⟨["o_by", "c_id"], [[("o_by", .null), ("c_id", .null)]]⟩ := by cbv
  refine ⟨hplan, hextended, FederationPlan.filter_before_joining (by decide) hplan someOrders ?_ ?_ List.mem_cons_self
    List.mem_cons_self hextended ?_ hall hkept⟩
  · simp only [planOfOrders, List.forall_mem_cons]
    exact ⟨by decide, by decide, List.forall_mem_nil _⟩
  · intro p hp q hq hne
    simp only [planOfOrders, List.mem_cons, List.not_mem_nil, or_false] at hp hq
    rcases hp with rfl | rfl <;> rcases hq with rfl | rfl
    · exact absurd rfl hne
    · simp [someOrders, NamedRows.names, Entries.keys]
    · simp [someOrders, NamedRows.names, Entries.keys]
    · exact absurd rfl hne
  · intro row other h
    simp only [Row.get, h "o_by" (by decide)]

end QueryFederation

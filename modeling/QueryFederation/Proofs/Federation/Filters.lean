import Mathlib
import QueryFederation.Proofs.Federation.Plan
import QueryFederation.Proofs.Logic
import QueryFederation.Proofs.Validation.Consistency

/-!
# Splitting filters

A plan gives every filter to the source of its table or keeps it for the joined rows. What the description means by its
filters is their fold from left to right, in which the connective of the first does not count. The parts are folded one
by one, and all of them have to select. That comes to the same exactly if no part has an alternative that is not its
first filter: the connective of the first filter of the description starts to count when it is pushed behind a filter
of another table.
-/

namespace QueryFederation

namespace FilterPredicate

/-- Do filters of the given outcomes select? -/
def selectBy (outcome : FilterPredicate → Truth) (filters : List FilterPredicate) : Bool :=
  selects (filters.map fun f => (f.connective, outcome f))

variable {outcome : FilterPredicate → Truth} {filters : List FilterPredicate}

theorem selectBy_of_forall (h : ∀ f ∈ filters, outcome f = some true) : selectBy outcome filters = true := by
  apply selects_of_forall
  simpa using h

theorem selectBy_of_conjunction (h : ∀ f ∈ filters.tail, f.connective = .and) :
    selectBy outcome filters = true ↔ ∀ f ∈ filters, outcome f = some true := by
  rw [selectBy, selects_of_conjunction, List.forall_mem_map]
  rw [← List.map_tail, List.forall_mem_map]
  exact h

theorem selectBy_of_alternative {before after : List FilterPredicate} {f : FilterPredicate} (hbefore : before ≠ [])
    (hor : f.connective = .or) (hf : outcome f = some true) (h : ∀ g ∈ after, outcome g = some true) :
    selectBy outcome (before ++ f :: after) = true := by
  rw [selectBy, List.map_append, List.map_cons, hor, hf]
  refine selects_of_alternative (by simpa using hbefore) ?_
  simpa using h

/-- All filters are true but those of one table. -/
def allBut (tableName : String) (f : FilterPredicate) : Truth := some (decide (f.table ≠ tableName))

theorem allBut_eq {tableName : String} {f : FilterPredicate} (hf : f.table ≠ tableName) :
    allBut tableName f = some true := congrArg some (decide_eq_true hf)

end FilterPredicate

open FilterPredicate (selectBy selectBy_of_forall selectBy_of_conjunction selectBy_of_alternative allBut allBut_eq)

namespace Description

variable {d : Description} {aggregates : Aggregates} {canJoin : String → Bool} {plan : FederationPlan}

theorem isConjunctive_iff : d.isConjunctive = true ↔ ∀ f ∈ d.filters.tail, f.connective = .and := by
  rw [isConjunctive, List.drop_one, List.all_eq_true]
  simp

theorem pushedFilters_eq_nil (h : d.isConjunctive = false) (join : JoinPlan) : d.pushedFilters join = [] := by
  rw [pushedFilters, List.filter_eq_nil_iff]
  simp [pushes, h]

theorem isConjunctive_of_mem_pushedFilters {join : JoinPlan} {f : FilterPredicate} (hf : f ∈ d.pushedFilters join) :
    d.isConjunctive = true := by
  by_contra h
  rw [pushedFilters_eq_nil (Bool.not_eq_true _ ▸ h)] at hf
  cases hf

/-- An alternative is given to a source only if it is the first filter. -/
theorem exists_filters_eq_cons {join : JoinPlan} {f : FilterPredicate} (hf : f ∈ d.pushedFilters join)
    (hor : f.connective ≠ .and) : ∃ others, d.filters = f :: others := by
  have htail := isConjunctive_iff.mp (isConjunctive_of_mem_pushedFilters hf)
  have hmem := List.mem_of_mem_filter hf
  cases hd : d.filters with
  | nil =>
    rw [hd] at hmem
    cases hmem
  | cons first others =>
    rw [hd] at hmem htail
    rcases List.mem_cons.mp hmem with rfl | hmem
    · exact ⟨others, rfl⟩
    · exact absurd (htail f hmem) hor

/-- If the first filter is a condition, sources are given conditions only. -/
theorem connective_of_mem_pushedFilters (hfirst : ∀ f ∈ d.filters.head?, f.connective = .and) {join : JoinPlan}
    {f : FilterPredicate} (hf : f ∈ d.pushedFilters join) : f.connective = .and := by
  by_contra hor
  obtain ⟨others, hd⟩ := exists_filters_eq_cons hf hor
  rw [hd] at hfirst
  exact hor (hfirst f rfl)

theorem filter_not_pushes (h : d.isConjunctive = false) (join : JoinPlan) :
    (d.filters.filter fun f => !d.pushes join f) = d.filters := by
  rw [List.filter_eq_self]
  simp [pushes, h]

theorem pushes_eq_of_table_eq (join : JoinPlan) {f g : FilterPredicate} (h : f.table = g.table) :
    d.pushes join f = d.pushes join g := by
  rw [pushes, pushes, h]

namespace PlannedAs

variable {root : List String} {others : List (List String)} (h : d.PlannedAs aggregates canJoin plan root others)

include h

theorem mem_filters {p : Partition} (hp : p ∈ plan.partitions) {f : FilterPredicate} :
    f ∈ p.filters ↔ f ∈ d.pushedFilters plan.join ∧ f.table ∈ p.aliases := by
  rw [h.filters_eq hp, List.mem_flatMap]
  constructor
  · rintro ⟨aliasName, halias, hf⟩
    obtain ⟨hmem, htable⟩ := List.mem_filter.mp hf
    exact ⟨hmem, (of_decide_eq_true htable) ▸ halias⟩
  · rintro ⟨hmem, htable⟩
    exact ⟨f.table, htable, List.mem_filter.mpr ⟨hmem, decide_eq_true rfl⟩⟩

/-- Every filter is in one place. -/
theorem filters_perm (hnodup : d.aliases.Nodup) (hdeclared : ∀ f ∈ d.filters, f.table ∈ d.aliases) :
    (plan.partitions.flatMap (·.filters) ++ plan.residual).Perm d.filters := by
  have haliases := h.flatMap_aliases_perm hnodup
  have hpushed : (plan.partitions.flatMap (·.filters)).Perm (d.pushedFilters plan.join) := by
    rw [List.flatMap_congr fun p hp => h.filters_eq hp, ← List.flatMap_assoc]
    refine flatMap_filter_perm FilterPredicate.table (haliases.nodup_iff.mpr hnodup) _ fun f hf => ?_
    exact haliases.mem_iff.mpr (hdeclared f (List.mem_of_mem_filter hf))
  rw [h.residual]
  exact (hpushed.append_right _).trans (List.filter_append_perm _ _)

theorem connective_of_mem_tail_residual (hconjunctive : d.isConjunctive = true) :
    ∀ f ∈ plan.residual.tail, f.connective = .and := by
  intro f hf
  rw [h.residual] at hf
  exact isConjunctive_iff.mp hconjunctive f (List.filter_sublist.tail.subset hf)

/-- Parts without an alternative are to be met all, as the whole is. -/
theorem selectBy_split (hnodup : d.aliases.Nodup) (hdeclared : ∀ f ∈ d.filters, f.table ∈ d.aliases)
    (hparts : ∀ p ∈ plan.partitions, ∀ f ∈ p.filters.tail, f.connective = .and) (outcome : FilterPredicate → Truth) :
    selectBy outcome d.filters = true
      ↔ (∀ p ∈ plan.partitions, selectBy outcome p.filters = true) ∧ selectBy outcome plan.residual = true := by
  cases hconjunctive : d.isConjunctive with
  | true =>
    rw [selectBy_of_conjunction (isConjunctive_iff.mp hconjunctive),
      selectBy_of_conjunction (h.connective_of_mem_tail_residual hconjunctive)]
    have hsplit : (∀ p ∈ plan.partitions, selectBy outcome p.filters = true)
        ↔ ∀ f ∈ plan.partitions.flatMap (·.filters), outcome f = some true := by
      rw [List.forall_mem_flatMap]
      exact forall₂_congr fun p hp => selectBy_of_conjunction (hparts p hp)
    rw [hsplit, ← List.forall_mem_append]
    exact forall_congr' fun f => imp_congr_left (h.filters_perm hnodup hdeclared).mem_iff.symm
  | false =>
    have hnone : ∀ p ∈ plan.partitions, selectBy outcome p.filters = true := by
      intro p hp
      apply selectBy_of_forall
      intro f hf
      rw [h.mem_filters hp, pushedFilters_eq_nil hconjunctive] at hf
      exact absurd hf.1 List.not_mem_nil
    rw [h.residual, filter_not_pushes hconjunctive]
    exact (and_iff_right hnone).symm

/-- The first filter of the description stands behind those of tables that come before its own. -/
theorem exists_filters_eq_append (hnodup : d.aliases.Nodup) {p : Partition} (hp : p ∈ plan.partitions)
    {f : FilterPredicate} {rest : List FilterPredicate} (hfilters : d.pushedFilters plan.join = f :: rest)
    (htable : f.table ∈ p.aliases) :
    ∃ before after, p.filters = before ++ f :: after
      ∧ (∀ g ∈ before, ∀ g' ∈ f :: after, g.table ≠ g'.table) ∧ ∀ g ∈ after, g ∈ rest := by
  have haliases := h.nodup_aliases hnodup hp
  obtain ⟨firsts, lasts, hsplit⟩ := List.append_of_mem htable
  rw [hsplit] at haliases
  obtain ⟨-, hlasts, hapart⟩ := List.nodup_append.mp haliases
  have hmem : ∀ {aliases : List String} {g : FilterPredicate},
      (g ∈ aliases.flatMap fun aliasName => (f :: rest).filter fun g => g.table = aliasName) →
        g ∈ f :: rest ∧ g.table ∈ aliases := by
    intro aliases g hg
    obtain ⟨aliasName, halias, hg⟩ := List.mem_flatMap.mp hg
    obtain ⟨hg, htable⟩ := List.mem_filter.mp hg
    exact ⟨hg, of_decide_eq_true htable ▸ halias⟩
  have hafter : ∀ g ∈ (rest.filter fun g => g.table = f.table)
      ++ lasts.flatMap (fun aliasName => (f :: rest).filter fun g => g.table = aliasName),
      g ∈ rest ∧ g.table ∈ f.table :: lasts := by
    intro g hg
    rcases List.mem_append.mp hg with hg | hg
    · obtain ⟨hg, htable⟩ := List.mem_filter.mp hg
      exact ⟨hg, of_decide_eq_true htable ▸ List.mem_cons_self⟩
    · obtain ⟨hg, hlast⟩ := hmem hg
      refine ⟨(List.mem_cons.mp hg).resolve_left fun heq => ?_, List.mem_cons_of_mem _ hlast⟩
      exact (List.nodup_cons.mp hlasts).1 (heq ▸ hlast)
  have hown : ((f :: rest).filter fun g => g.table = f.table) = f :: rest.filter fun g => g.table = f.table :=
    List.filter_cons_of_pos (decide_eq_true rfl)
  refine ⟨firsts.flatMap fun aliasName => (f :: rest).filter fun g => g.table = aliasName, _, ?_,
    fun g hg g' hg' => ?_, fun g hg => (hafter g hg).1⟩
  · rw [h.filters_eq hp, hsplit, hfilters, List.flatMap_append, List.flatMap_cons, hown]
    rfl
  · refine hapart _ (hmem hg).2 _ ?_
    rcases List.mem_cons.mp hg' with rfl | hg'
    · exact List.mem_cons_self
    · exact (hafter g' hg').2

/-- Every part selects though one table fails, if an alternative stands behind the filters of that table. -/
theorem selectBy_allBut (hnodup : d.aliases.Nodup) {p : Partition} (hp : p ∈ plan.partitions) {f : FilterPredicate}
    {before after : List FilterPredicate} {tableName : String} (htable : tableName ∈ p.aliases)
    (hsplit : p.filters = before ++ f :: after) (hbefore : before ≠ []) (hor : f.connective ≠ .and)
    (hapart : ∀ g ∈ f :: after, g.table ≠ tableName) {q : Partition} (hq : q ∈ plan.partitions) :
    selectBy (allBut tableName) q.filters = true := by
  by_cases hmem : tableName ∈ q.aliases
  · have heq : q.aliases = p.aliases := h.eq_of_mem_groups hnodup
      (h.groups_perm.mem_iff.mpr (List.mem_map_of_mem hq)) (h.groups_perm.mem_iff.mpr (List.mem_map_of_mem hp))
      hmem htable
    rw [h.filters_eq hq, heq, ← h.filters_eq hp, hsplit]
    refine selectBy_of_alternative hbefore (Connective.eq_or hor) (allBut_eq (hapart f List.mem_cons_self)) ?_
    exact fun g hg => allBut_eq (hapart g (List.mem_cons_of_mem _ hg))
  · apply selectBy_of_forall
    intro g hg
    refine allBut_eq fun heq => hmem ?_
    rw [← heq]
    exact ((h.mem_filters hq).mp hg).2

/-- An alternative that is not the first of its part makes the parts select more than the whole. -/
theorem exists_outcome_of_alternative (hnodup : d.aliases.Nodup) {p : Partition} (hp : p ∈ plan.partitions)
    {f : FilterPredicate} (hf : f ∈ p.filters.tail) (hor : f.connective ≠ .and) :
    ∃ outcome, selectBy outcome d.filters = false
      ∧ (∀ p ∈ plan.partitions, selectBy outcome p.filters = true) ∧ selectBy outcome plan.residual = true := by
  obtain ⟨hpushed, htable⟩ := (h.mem_filters hp).mp (List.mem_of_mem_tail hf)
  have htail := isConjunctive_iff.mp (isConjunctive_of_mem_pushedFilters hpushed)
  obtain ⟨others, hd⟩ := exists_filters_eq_cons hpushed hor
  have hfilters : d.pushedFilters plan.join = f :: others.filter (d.pushes plan.join) := by
    rw [pushedFilters, hd]
    exact List.filter_cons_of_pos (List.mem_filter.mp hpushed).2
  obtain ⟨before, after, hsplit, hapart, hafter⟩ := h.exists_filters_eq_append hnodup hp hfilters htable
  have hbefore : before ≠ [] := by
    rintro rfl
    rw [hsplit] at hf
    rw [hd] at htail
    exact hor (htail f (List.mem_of_mem_filter (hafter f hf)))
  obtain ⟨g, more, hmore⟩ := List.exists_cons_of_ne_nil hbefore
  have hg : g ∈ before := hmore ▸ List.mem_cons_self
  obtain ⟨hgpushed, hgtable⟩ := (h.mem_filters hp).mp (hsplit ▸ List.mem_append_left _ hg)
  obtain ⟨hgmem, hgpushes⟩ := List.mem_filter.mp hgpushed
  -- Only the table of a filter that stands before the alternative is left out.
  refine ⟨allBut g.table, ?_, fun q hq => ?_, ?_⟩
  · rw [← Bool.not_eq_true, selectBy_of_conjunction htail]
    intro hall
    simpa [allBut] using hall g hgmem
  · exact h.selectBy_allBut hnodup hp hgtable hsplit hbefore hor (fun g' hg' => (hapart g hg g' hg').symm) hq
  · apply selectBy_of_forall
    intro f' hf'
    rw [h.residual, List.mem_filter] at hf'
    refine allBut_eq fun heq => ?_
    rw [pushes_eq_of_table_eq _ heq, hgpushes] at hf'
    exact absurd hf'.2 Bool.false_ne_true

end PlannedAs

/--
Every filter of a valid description is in one place of its plan. Whatever the filters come to, all parts select if and
only if the filters of the description do; this holds exactly if no source is given an alternative behind another filter.
-/
theorem federationPlan_splits_filters_iff {cleanup : Cleanup} (hvalid : (d.validate cleanup).isValid = true)
    (aggregates : Aggregates) (canJoin : String → Bool) :
    ∃ plan, d.federationPlan? aggregates canJoin = some plan
      ∧ (plan.partitions.flatMap (·.filters) ++ plan.residual).Perm d.filters
      ∧ ((∀ outcome : FilterPredicate → Truth, selectBy outcome d.filters = true
          ↔ (∀ p ∈ plan.partitions, selectBy outcome p.filters = true) ∧ selectBy outcome plan.residual = true)
        ↔ ∀ p ∈ plan.partitions, ∀ f ∈ p.filters.tail, f.connective = .and) := by
  have hconsistent := isConsistent_of_isValid hvalid
  have hnodup := hconsistent.nodup_aliases
  have hdeclared : ∀ f ∈ d.filters, f.table ∈ d.aliases := fun f hf => hconsistent.declared_filter hf
  obtain ⟨plan, hplan⟩ := exists_federationPlan? hnodup hconsistent.primary_mem aggregates canJoin
  obtain ⟨root, others, hparts⟩ := federationPlan?_eq_some hplan
  refine ⟨plan, hplan, hparts.filters_perm hnodup hdeclared, fun hall p hp f hf => ?_, fun htails outcome =>
    hparts.selectBy_split hnodup hdeclared htails outcome⟩
  by_contra hor
  obtain ⟨outcome, hwhole, hselect⟩ := hparts.exists_outcome_of_alternative hnodup hp hf hor
  rw [(hall outcome).mpr hselect] at hwhole
  cases hwhole

/-- Orders over a limit, or of customers from one country, with the tier of the customer from another source. -/
def ordersByCountry (first : Connective) : Description :=
  { tables := [⟨"orders", "shop", "orders", none⟩, ⟨"customers", "shop", "customers", none⟩,
      ⟨"tiers", "docs", "tiers", none⟩]
    columns := [{ table := "orders", column := "id" }]
    joins := [⟨"orders", "customer_id", "customers", "id", .inner⟩, ⟨"customers", "id", "tiers", "customer_id", .inner⟩]
    filters := [⟨"customers", "country", .eq, .text "DE", first⟩, ⟨"orders", "amount", .gt, .integer 40, .and⟩] }

theorem isValid_ordersByCountry (first : Connective) : ((ordersByCountry first).validate .strip).isValid = true := by
  have hnames : ∀ c ∈ (ordersByCountry first).mentionedColumns [], ∀ c' ∈ (ordersByCountry first).mentionedColumns [],
      c.outputName = c'.outputName → c = c' := by
    cases first <;> decide +kernel
  rw [isValid_iff]
  cases first <;>
    exact ⟨by cbv, by cbv, by cbv, by cbv, by cbv, by cbv, nameErrors_eq_nil_iff.mpr ⟨hnames, by decide⟩, by cbv, by cbv,
      by cbv⟩

/-- Filters that are conditions from the first on are split as they are meant. -/
theorem conditions_of_ordersByCountry :
    ((ordersByCountry .and).validate .strip).isValid = true
      ∧ ∃ plan, (ordersByCountry .and).federationPlan? [] (fun sourceId => sourceId = "shop") = some plan
        ∧ ∀ outcome, selectBy outcome (ordersByCountry .and).filters = true
          ↔ (∀ p ∈ plan.partitions, selectBy outcome p.filters = true) ∧ selectBy outcome plan.residual = true := by
  refine ⟨isValid_ordersByCountry .and, ?_⟩
  obtain ⟨plan, hplan, -, hiff⟩ :=
    federationPlan_splits_filters_iff (isValid_ordersByCountry .and) [] fun sourceId => sourceId = "shop"
  have htails : (((ordersByCountry .and).federationPlan? [] fun sourceId => sourceId = "shop").map fun plan =>
      plan.partitions.all fun p => p.filters.tail.all fun f => f.connective = .and) = some true := by cbv
  rw [hplan] at htails
  refine ⟨plan, hplan, hiff.mpr ?_⟩
  simpa using htails

/-- An alternative that comes first is pushed behind the filter of another table and lets rows pass that fail it. -/
theorem alternative_of_ordersByCountry :
    ((ordersByCountry .or).validate .strip).isValid = true
      ∧ ∃ plan, (ordersByCountry .or).federationPlan? [] (fun sourceId => sourceId = "shop") = some plan
        ∧ ∃ outcome, selectBy outcome (ordersByCountry .or).filters = false
          ∧ (∀ p ∈ plan.partitions, selectBy outcome p.filters = true) ∧ selectBy outcome plan.residual = true := by
  refine ⟨isValid_ordersByCountry .or, _, by cbv, fun f => some (decide (f.table = "customers")), by decide, ?_, by decide⟩
  decide

end Description

end QueryFederation

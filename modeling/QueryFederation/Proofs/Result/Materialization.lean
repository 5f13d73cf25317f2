import Mathlib.Data.List.Induction
import QueryFederation.Proofs.Outcome
import QueryFederation.Proofs.Row.Merge
import QueryFederation.Result.Materialization

/-!
# Rows of groups

What a group of rows is, and which names the row that stands for it has: those of the columns grouped by and selected,
and the aliases of the aggregates. A group has members, and they are among the rows, unless rows are grouped by no
column; then there is a group even without rows.
-/

namespace QueryFederation

/-! ### Computed values -/

section

variable {aggregates : Aggregates} {order : List String} {members : List Row} {start computed next : Entries Value}
  {aliasName : String}

/-- Computes one aggregate more, with the values that have been computed before. -/
def computeStep (aggregates : Aggregates) (members : List Row) (computed : Entries Value) (aliasName : String) :
    Outcome (Entries Value) :=
  match aggregates.lookup aliasName with
  | none => pure computed
  | some a => do return Entries.put computed aliasName (← a.tree.evaluate (.group members computed))

theorem computeAggregates_eq (aggregates : Aggregates) (order : List String) (members : List Row) :
    computeAggregates aggregates order members = order.foldlM (computeStep aggregates members) [] :=
  rfl

theorem computeStep_eq_ok (h : computeStep aggregates members computed aliasName = .ok next) :
    aggregates.lookup aliasName = none ∧ next = computed
      ∨ ∃ a v, aggregates.lookup aliasName = some a ∧ a.tree.evaluate (.group members computed) = .ok v
        ∧ next = Entries.put computed aliasName v := by
  rw [computeStep] at h
  cases hlookup : aggregates.lookup aliasName with
  | none =>
    rw [hlookup] at h
    cases h
    exact Or.inl ⟨rfl, rfl⟩
  | some a =>
    rw [hlookup] at h
    obtain ⟨v, hv, h⟩ := exists_of_bind_eq_ok h
    cases h
    exact Or.inr ⟨a, v, rfl, hv, rfl⟩

private theorem mem_keys_foldlM (h : order.foldlM (computeStep aggregates members) start = .ok computed) {key : String} :
    key ∈ computed.keys ↔ key ∈ start.keys ∨ key ∈ order ∧ key ∈ aggregates.keys := by
  induction order generalizing start with
  | nil =>
    cases h
    simp
  | cons aliasName order ih =>
    rw [List.foldlM_cons] at h
    obtain ⟨next, hstep, h⟩ := exists_of_bind_eq_ok h
    rw [ih h, List.mem_cons]
    rcases computeStep_eq_ok hstep with ⟨hnone, rfl⟩ | ⟨a, v, hsome, -, rfl⟩
    · have hout : aliasName ∉ aggregates.keys := Entries.lookup_eq_none_iff.mp hnone
      constructor
      · exact Or.imp_right (And.imp_left Or.inr)
      · rintro (hmem | ⟨rfl | hmem, hkey⟩)
        · exact Or.inl hmem
        · exact absurd hkey hout
        · exact Or.inr ⟨hmem, hkey⟩
    · have hin : aliasName ∈ aggregates.keys := List.mem_map_of_mem (Entries.mem_of_lookup_eq_some hsome)
      rw [Entries.mem_keys_put]
      constructor
      · rintro ((rfl | hmem) | ⟨hmem, hkey⟩)
        · exact Or.inr ⟨Or.inl rfl, hin⟩
        · exact Or.inl hmem
        · exact Or.inr ⟨Or.inr hmem, hkey⟩
      · rintro (hmem | ⟨rfl | hmem, hkey⟩)
        · exact Or.inl (Or.inr hmem)
        · exact Or.inl (Or.inl rfl)
        · exact Or.inr ⟨hmem, hkey⟩

/-- Every aggregate of the order has a value in the end. -/
theorem mem_keys_computeAggregates (h : computeAggregates aggregates order members = .ok computed) {key : String} :
    key ∈ computed.keys ↔ key ∈ order ∧ key ∈ aggregates.keys := by
  rw [computeAggregates_eq] at h
  rw [mem_keys_foldlM h]
  simp [Entries.keys]

/-- Whatever has been computed before, aggregates that have a value are computed. -/
theorem exists_computeAggregates (order : List String)
    (h : ∀ entry ∈ aggregates, ∀ before, ∃ v, entry.2.tree.evaluate (.group members before) = .ok v) :
    ∃ computed, computeAggregates aggregates order members = .ok computed := by
  refine exists_foldlM_eq_ok (fun aliasName _ before => ?_) []
  cases hlookup : aggregates.lookup aliasName with
  | none => exact ⟨before, rfl⟩
  | some a =>
    obtain ⟨v, hv⟩ := h _ (Entries.mem_of_lookup_eq_some hlookup) before
    exact ⟨Entries.put before aliasName v, by simp only [hv]; rfl⟩

theorem okOr_computeAggregates {fault : Fault} (order : List String) (h : ∀ entry ∈ aggregates, ∀ before,
      Outcome.OkOr fault (fun _ => True) (entry.2.tree.evaluate (.group members before))) :
    Outcome.OkOr fault (fun _ => True) (computeAggregates aggregates order members) := by
  refine Outcome.OkOr.foldlM (P := fun _ => True) (fun aliasName _ before _ => ?_) trivial
  cases hlookup : aggregates.lookup aliasName with
  | none => trivial
  | some a => exact (h _ (Entries.mem_of_lookup_eq_some hlookup) before).bind fun _ _ => trivial

private theorem nodup_keys_foldlM (h : order.foldlM (computeStep aggregates members) start = .ok computed)
    (hstart : start.keys.Nodup) : computed.keys.Nodup := by
  induction order generalizing start with
  | nil =>
    cases h
    exact hstart
  | cons aliasName order ih =>
    rw [List.foldlM_cons] at h
    obtain ⟨next, hstep, hrest⟩ := exists_of_bind_eq_ok h
    rcases computeStep_eq_ok hstep with ⟨-, rfl⟩ | ⟨a, v, -, -, rfl⟩
    · exact ih hrest hstart
    · exact ih hrest (Entries.nodup_keys_put _ _ hstart)

theorem nodup_keys_computeAggregates (h : computeAggregates aggregates order members = .ok computed) :
    computed.keys.Nodup :=
  nodup_keys_foldlM h List.nodup_nil

private theorem exists_lookup_foldlM (h : order.foldlM (computeStep aggregates members) start = .ok computed)
    {a : AnalyzedAggregate} (ha : aggregates.lookup aliasName = some a) :
    aliasName ∉ order ∧ computed.lookup aliasName = start.lookup aliasName
      ∨ ∃ before v, a.tree.evaluate (.group members before) = .ok v ∧ computed.lookup aliasName = some v := by
  induction order generalizing start with
  | nil =>
    cases h
    exact Or.inl ⟨List.not_mem_nil, rfl⟩
  | cons other order ih =>
    rw [List.foldlM_cons] at h
    obtain ⟨next, hstep, h⟩ := exists_of_bind_eq_ok h
    rcases ih h with ⟨hout, hkept⟩ | hcomputed
    · rcases computeStep_eq_ok hstep with ⟨hnone, rfl⟩ | ⟨b, v, hb, hv, rfl⟩
      · refine Or.inl ⟨fun hmem => ?_, hkept⟩
        rcases List.mem_cons.mp hmem with rfl | hmem
        · rw [ha] at hnone
          cases hnone
        · exact hout hmem
      · rw [Entries.lookup_put] at hkept
        by_cases hname : aliasName = other
        · subst hname
          rw [ha] at hb
          cases hb
          exact Or.inr ⟨start, v, hv, by rw [hkept, if_pos rfl]⟩
        · rw [if_neg hname] at hkept
          exact Or.inl ⟨fun hmem => (List.mem_cons.mp hmem).elim hname hout, hkept⟩
    · exact Or.inr hcomputed

/-- Under the alias of an aggregate there is what its expression was evaluated to. -/
theorem exists_lookup_computeAggregates (h : computeAggregates aggregates order members = .ok computed)
    {a : AnalyzedAggregate} (ha : aggregates.lookup aliasName = some a) (horder : aliasName ∈ order) :
    ∃ before v, a.tree.evaluate (.group members before) = .ok v ∧ computed.lookup aliasName = some v :=
  (exists_lookup_foldlM h ha).resolve_left fun hout => hout.1 horder

end

/-! ### Groups -/

namespace Groups

variable {κ α : Type} {same : κ → κ → Bool} {P : α → Prop}

/-- Adding an item keeps it true of all groups that they have items, and only such as have a property. -/
theorem forall_items_add {key : κ} {item : α} {groups : Groups κ α} (hitem : P item)
    (hgroups : ∀ g ∈ groups, g.2 ≠ [] ∧ ∀ a ∈ g.2, P a) :
    ∀ g ∈ add same key item groups, g.2 ≠ [] ∧ ∀ a ∈ g.2, P a := by
  induction groups with
  | nil => simpa [add] using hitem
  | cons group rest ih =>
    obtain ⟨k, items⟩ := group
    obtain ⟨⟨-, hitems⟩, hrest⟩ := List.forall_mem_cons.mp hgroups
    rw [add]
    split
    · refine List.forall_mem_cons.mpr ⟨⟨List.concat_ne_nil _ _, fun a ha => ?_⟩, hrest⟩
      rcases List.mem_append.mp ha with ha | ha
      · exact hitems a ha
      · exact List.mem_singleton.mp ha ▸ hitem
    · exact List.forall_mem_cons.mpr ⟨hgroups _ List.mem_cons_self, ih hrest⟩

theorem forall_items_ofPairs {pairs : List (κ × α)} (hpairs : ∀ p ∈ pairs, P p.2) :
    ∀ g ∈ ofPairs same pairs, g.2 ≠ [] ∧ ∀ a ∈ g.2, P a := by
  induction pairs using List.reverseRecOn with
  | nil => exact List.forall_mem_nil _
  | append_singleton pairs p ih =>
    rw [ofPairs, List.foldl_append]
    refine forall_items_add ?_ (ih fun q hq => hpairs q (List.mem_append_left _ hq))
    exact hpairs p (List.mem_append_right _ List.mem_cons_self)

theorem exists_first_add {Q : κ → α → Prop} {key : κ} {item : α} {groups : Groups κ α} (hitem : Q key item)
    (hgroups : ∀ g ∈ groups, ∃ first others, g.2 = first :: others ∧ Q g.1 first) :
    ∀ g ∈ add same key item groups, ∃ first others, g.2 = first :: others ∧ Q g.1 first := by
  induction groups with
  | nil => exact List.forall_mem_singleton.mpr ⟨item, [], rfl, hitem⟩
  | cons group rest ih =>
    obtain ⟨k, items⟩ := group
    obtain ⟨⟨first, others, hitems, hfirst⟩, hrest⟩ := List.forall_mem_cons.mp hgroups
    rw [add]
    split
    · refine List.forall_mem_cons.mpr ⟨⟨first, others ++ [item], ?_, hfirst⟩, hrest⟩
      exact congrArg (· ++ [item]) hitems
    · exact List.forall_mem_cons.mpr ⟨⟨first, others, hitems, hfirst⟩, ih hrest⟩

/-- A group has the key of its first item. -/
theorem exists_first_ofPairs {Q : κ → α → Prop} {pairs : List (κ × α)} (hpairs : ∀ p ∈ pairs, Q p.1 p.2) :
    ∀ g ∈ ofPairs same pairs, ∃ first others, g.2 = first :: others ∧ Q g.1 first := by
  induction pairs using List.reverseRecOn with
  | nil => exact List.forall_mem_nil _
  | append_singleton pairs p ih =>
    rw [ofPairs, List.foldl_append]
    refine exists_first_add ?_ (ih fun q hq => hpairs q (List.mem_append_left _ hq))
    exact hpairs p (List.mem_append_right _ List.mem_cons_self)

section

variable {κ' β : Type} {same' : κ' → κ' → Bool} {K : κ → κ' → Prop} {I : α → β → Prop}

theorem forall₂_add (hsame : ∀ k k' l l', K k k' → K l l' → same k l = same' k' l') {key : κ} {key' : κ'}
    (hkey : K key key') {item : α} {item' : β} (hitem : I item item') {groups : Groups κ α} {groups' : Groups κ' β}
    (h : List.Forall₂ (fun g g' => K g.1 g'.1 ∧ List.Forall₂ I g.2 g'.2) groups groups') :
    List.Forall₂ (fun g g' => K g.1 g'.1 ∧ List.Forall₂ I g.2 g'.2) (add same key item groups)
      (add same' key' item' groups') := by
  induction h with
  | nil => exact .cons ⟨hkey, .cons hitem .nil⟩ .nil
  | @cons g g' rest rest' hgroup hrest ih =>
    rw [add, add, hsame _ _ _ _ hgroup.1 hkey]
    split
    · exact .cons ⟨hgroup.1, List.rel_append hgroup.2 (.cons hitem .nil)⟩ hrest
    · exact .cons hgroup ih

theorem forall₂_foldl_add (hsame : ∀ k k' l l', K k k' → K l l' → same k l = same' k' l') {pairs : List (κ × α)}
    {pairs' : List (κ' × β)} (h : List.Forall₂ (fun p p' => K p.1 p'.1 ∧ I p.2 p'.2) pairs pairs')
    {groups : Groups κ α} {groups' : Groups κ' β}
    (hgroups : List.Forall₂ (fun g g' => K g.1 g'.1 ∧ List.Forall₂ I g.2 g'.2) groups groups') :
    List.Forall₂ (fun g g' => K g.1 g'.1 ∧ List.Forall₂ I g.2 g'.2)
      (pairs.foldl (fun groups (key, item) => add same key item groups) groups)
      (pairs'.foldl (fun groups (key, item) => add same' key item groups) groups') := by
  induction h generalizing groups groups' with
  | nil => exact hgroups
  | cons hpair _ ih => exact ih (forall₂_add hsame hpair.1 hpair.2 hgroups)

/-- Items that correspond are grouped alike if their keys are told apart alike. -/
theorem forall₂_ofPairs (hsame : ∀ k k' l l', K k k' → K l l' → same k l = same' k' l') {pairs : List (κ × α)}
    {pairs' : List (κ' × β)} (h : List.Forall₂ (fun p p' => K p.1 p'.1 ∧ I p.2 p'.2) pairs pairs') :
    List.Forall₂ (fun g g' => K g.1 g'.1 ∧ List.Forall₂ I g.2 g'.2) (ofPairs same pairs) (ofPairs same' pairs') :=
  forall₂_foldl_add hsame h .nil

end

end Groups

section

variable {columns : List String} {rows members : List Row}

/-- A group of rows has rows, and only of those that are grouped; the one group of no rows is by no column. -/
theorem mem_groupRows (h : members ∈ groupRows columns rows) :
    members ⊆ rows ∧ (members = [] → columns = []) := by
  have hgroups : ∀ g ∈ Groups.ofPairs GroupKey.sameList (rows.map fun row => (GroupKey.ofRow columns row, row)),
      g.2 ≠ [] ∧ ∀ row ∈ g.2, row ∈ rows := by
    refine Groups.forall_items_ofPairs fun pair hpair => ?_
    obtain ⟨row, hrow, rfl⟩ := List.mem_map.mp hpair
    exact hrow
  rw [groupRows] at h
  split at h
  · rename_i hempty
    rw [Bool.and_eq_true, List.isEmpty_iff] at hempty
    rw [List.mem_singleton] at h
    exact ⟨h ▸ List.nil_subset _, fun _ => hempty.1⟩
  · obtain ⟨g, hg, rfl⟩ := List.mem_map.mp h
    obtain ⟨hne, hmem⟩ := hgroups g hg
    exact ⟨hmem, fun hnil => absurd hnil hne⟩

end

/-! ### Filters, order and rows of groups -/

/-- Rows are put in order, and none is added or lost. -/
theorem sortRows_perm (columns : List SortColumn) (rows : List Row) : (sortRows columns rows).Perm rows := by
  induction columns with
  | nil => exact .refl rows
  | cons column columns ih =>
    have hsplit : ∀ items : List Row, (sortByColumn column items).Perm items := by
      intro items
      have hsorted := List.mergeSort_perm (items.filter fun row => !(Row.get row column.name).isNull) column.allows
      refine (hsorted.append_right _).trans (List.perm_append_comm.trans ?_)
      exact List.filter_append_perm (fun row => (Row.get row column.name).isNull) items
    exact (hsplit _).trans ih

namespace Row

theorem mem_keys_project {columns : List String} {row : Row} {key : String} :
    key ∈ (project columns row).keys ↔ key ∈ columns := by
  rw [project, Entries.mem_keys_ofPairs, List.map_map]
  simp

theorem filterM_passes_nil (rows : List Row) : rows.filterM (Row.passes []) = .ok rows := by
  have hkeeps : ∀ row ∈ rows, Row.passes [] row = .ok true := fun _ _ => rfl
  rw [Outcome.filterM_of_forall hkeeps, List.filter_true]

end Row

namespace Description

variable {d : Description} {aggregates : Aggregates} {order : List String} {members : List Row} {group : Row}

/-- The row of a group has what is computed, and otherwise what the first member has. -/
theorem exists_computed_of_groupRow (h : d.groupRow aggregates order members = .ok group) :
    ∃ computed, computeAggregates aggregates order members = .ok computed
      ∧ (∀ name v, computed.lookup name = some v → Row.get group name = v)
      ∧ ∀ g ∈ d.groupBy, computed.lookup g.outputName = none →
        Row.get group g.outputName = Row.get (members.headD []) g.outputName := by
  rw [groupRow] at h
  obtain ⟨computed, hcomputed, heq⟩ := exists_of_bind_eq_ok h
  obtain rfl := Except.ok.inj heq
  have hnodup := nodup_keys_computeAggregates hcomputed
  refine ⟨computed, hcomputed, fun name v hv => ?_, fun g hg hnone => ?_⟩
  · rw [Row.get, Entries.lookup_merge _ hnodup, hv]
    rfl
  · rw [Row.get, Entries.lookup_merge _ hnodup, hnone, Option.none_or]
    exact Row.get_project (List.mem_append_left _ (List.mem_map_of_mem hg)) _

/-- The names of a group's row. -/
theorem mem_keys_groupRow (h : d.groupRow aggregates order members = .ok group) {key : String} :
    key ∈ group.keys ↔ key ∈ d.groupBy.map (·.outputName) ∨ key ∈ d.selectedColumns.map (·.outputName)
      ∨ key ∈ order ∧ key ∈ aggregates.keys := by
  rw [groupRow] at h
  obtain ⟨computed, hcomputed, h⟩ := exists_of_bind_eq_ok h
  cases h
  rw [Entries.mem_keys_merge, Row.mem_keys_project, List.mem_append, mem_keys_computeAggregates hcomputed, or_assoc]

/-- Filters come first, and nothing after the groups can fail. -/
theorem materialize_eq_bind (aggregates : Aggregates) (order : List String) (residual : List FilterPredicate)
    (rows : List Row) : d.materialize aggregates order residual rows = (do
      let kept ← rows.filterM (Row.passes residual)
      let rows ← (if d.isGrouped then d.groupedRows aggregates order kept else pure kept : Outcome (List Row))
      return (d.page (sortRows d.sortColumns rows)).map (Row.project d.outputNames)) := by
  rw [materialize]
  cases residual with
  | nil =>
    rw [Row.filterM_passes_nil]
    dsimp only [List.isEmpty_nil]
    cases d.isGrouped <;> rfl
  | cons f residual =>
    dsimp only [List.isEmpty_cons]
    cases d.isGrouped <;> rfl

end Description

end QueryFederation

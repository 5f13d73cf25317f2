import QueryFederation.Proofs.Document.Aggregation
import QueryFederation.Proofs.Result.Conservation

/-!
# The fields that a collection is grouped by

The key of a group has the fields that are grouped by under the output names of their columns, and the row of the group
reads them back by paths through the key. A path with a point does not lead to a name with a point, so of a field inside
of another one there is null in the row. An aggregate may have the alias under which the key is; then the key is what
the aggregate accumulates, documents are grouped by that, and there is null for all fields.
-/

namespace QueryFederation

/-! ### Accumulators as keys -/

namespace Document

open Expression

variable {docs : List Row} {doc : Row} {aliasName : String} {function : AggregateFunction} {args : List Expression}
  {a : Accumulation} {key accumulated : Value}

/-- An accumulator is no operator of expressions. -/
theorem exists_accumulator (h : accumulation? aliasName function args = some a) : ∃ operator expression,
    a.accumulator = single operator expression ∧ operator.toList.head? = some '$'
      ∧ operator ∉ ["$cond", "$eq", "$ne", "$size"] := by
  rcases accumulation?_eq_some h with ⟨_, -, -, rfl⟩ | ⟨_, _, _, -, -, rfl⟩ | ⟨_, _, _, -, -, rfl⟩ | ⟨_, _, _, -, -, rfl⟩
  · exact ⟨_, _, rfl, rfl, by decide⟩
  · exact ⟨_, _, rfl, rfl, by decide⟩
  · exact ⟨_, _, rfl, rfl, by decide⟩
  · refine ⟨_, _, rfl, ?_, ?_⟩
    · cases function <;> rfl
    · cases function <;> decide

/-- So a key that is made by an accumulator is a record of the accumulator. -/
theorem exists_groupKey_accumulator (h : accumulation? aliasName function args = some a)
    (hkey : groupKey a.accumulator doc = .ok key) :
    ∃ operator v, key = .record [(operator, v)] ∧ operator.toList.head? = some '$' := by
  obtain ⟨operator, expression, haccumulator, hhead, hoperator⟩ := exists_accumulator h
  simp only [List.mem_cons, List.not_mem_nil, or_false, not_or] at hoperator
  obtain ⟨hcond, heq, hne, hsize⟩ := hoperator
  have hevaluate : evaluate doc a.accumulator = do return .record [(operator, ← evaluate doc expression)] := by
    rw [haccumulator, single, evaluate, if_neg hcond, if_neg heq, if_neg hne, if_neg hsize]
  rw [groupKey, haccumulator, if_neg (by exact Bool.false_ne_true), ← haccumulator, hevaluate] at hkey
  obtain ⟨v, hv, hkey⟩ := exists_of_bind_eq_ok hkey
  obtain ⟨inner, -, hinner⟩ := exists_of_bind_eq_ok hv
  obtain ⟨-, -, hkey⟩ := exists_of_bind_eq_ok hkey
  cases hinner
  cases hkey
  exact ⟨operator, inner, rfl, hhead⟩

/-- The projection makes something of all that can be accumulated, and of a record. -/
theorem exists_projectField (h : accumulation? aliasName function args = some a) (halias : IsPlain aliasName)
    (hdoc : doc.lookup aliasName = some accumulated)
    (haccumulated : (∃ docs, accumulateField docs a.accumulator = .ok accumulated)
      ∨ ∃ fields, accumulated = .record fields) :
    ∃ v, projectField doc aliasName a.projection = .ok (some v) := by
  rcases accumulation?_eq_some h with ⟨_, -, -, rfl⟩ | ⟨_, column, _, -, -, rfl⟩ | ⟨_, _, _, -, -, rfl⟩
    | ⟨_, _, _, -, -, rfl⟩
  · exact ⟨_, gives_accumulated halias _ _ doc hdoc⟩
  · have hsize : ∃ v, size accumulated = .ok v := by
      obtain ⟨docs, haccumulated⟩ | ⟨fields, rfl⟩ := haccumulated
      · have hfields : docs.mapM (fun doc => evaluate doc (fieldPath column.name))
            = .ok (docs.map fun doc => field doc column.name) :=
          Outcome.mapM_of_forall fun doc _ => evaluate_fieldPath doc column.name
        rw [accumulateField_single hfields] at haccumulated
        cases haccumulated
        exact ⟨_, rfl⟩
      · exact ⟨_, rfl⟩
    obtain ⟨v, hsize⟩ := hsize
    exact ⟨v, gives_size halias _ hsize doc hdoc⟩
  · exact ⟨_, gives_accumulated halias _ _ doc hdoc⟩
  · exact ⟨_, gives_accumulated halias _ _ doc hdoc⟩

theorem group_eq {rules : Row} (hkey : rules.lookup "_id" = some key) (hnull : key.isNull = false) (docs : List Row) :
    group rules docs = (do
      let pairs ← docs.mapM fun doc => do return (← groupKey key doc, doc)
      (Groups.ofPairs Value.same pairs).mapM (groupDocument rules)) := by
  rw [group, hkey]
  simp only [hnull, Bool.false_and, Bool.false_eq_true, if_false]

/-- Every document that a stage makes is that of a group with the key of a document. -/
theorem exists_group_of_mem {rules : Row} {grouped : List Row} (hkey : rules.lookup "_id" = some key)
    (hnull : key.isNull = false) (hgrouped : group rules docs = .ok grouped) : ∀ doc ∈ grouped,
      ∃ members, ∃ source ∈ docs, ∃ v, groupKey key source = .ok v ∧ groupDocument rules (v, members) = .ok doc := by
  rw [group_eq hkey hnull] at hgrouped
  obtain ⟨pairs, hpairs, hgrouped⟩ := exists_of_bind_eq_ok hgrouped
  have hkeys : ∀ p ∈ pairs, p.2 ∈ docs ∧ groupKey key p.2 = .ok p.1 := by
    intro p hp
    obtain ⟨source, hsource, hp⟩ := exists_left_of_forall₂ (Outcome.forall₂_of_mapM_eq_ok hpairs) hp
    obtain ⟨v, hv, heq⟩ := exists_of_bind_eq_ok hp
    cases heq
    exact ⟨hsource, hv⟩
  intro doc hdoc
  obtain ⟨⟨v, members⟩, hgroup, hdoc⟩ := exists_left_of_forall₂ (Outcome.forall₂_of_mapM_eq_ok hgrouped) hdoc
  obtain ⟨source, -, -, hsource, hv⟩ :=
    Groups.exists_first_ofPairs (Q := fun v source => source ∈ docs ∧ groupKey key source = .ok v) hkeys _ hgroup
  exact ⟨members, source, hsource, v, hv, hdoc⟩

/-- Does a stage make documents of groups, or rows of documents? -/
def isGrouping (stage : Row) : Bool := stage.keys = ["$group"] || stage.keys = ["$project"]

/-- What the grouping stages of a pipeline make of documents. -/
def groupedRows (stages : List Row) (docs : List Row) : Outcome (List Row) :=
  runPipeline docs ((stages.filter isGrouping).map .record)

end Document

namespace Description

variable {d : Description} {aggregates : Aggregates} {accumulations : Entries Document.Accumulation}
  {docs grouped rows members : List Row} {doc row fields : Row} {group : Value × List Row}

/-! ### Groups by fields -/

/-- Are the documents divided into groups, those of a group with the same fields as its first one, and the first ones of
two groups with different fields? -/
structure AreGroups (d : Description) (docs : List Row) (groups : List (List Row)) : Prop where
  perm : groups.flatten.Perm docs
  nonempty : ∀ members ∈ groups, members ≠ []
  agree : ∀ members ∈ groups, ∀ doc ∈ members.tail, ∀ g ∈ d.groupBy,
    (Document.field (members.headD []) g.column).same (Document.field doc g.column) = true
  apart : groups.Pairwise fun members others => ∃ g ∈ d.groupBy,
    (Document.field (members.headD []) g.column).same (Document.field (others.headD []) g.column) = false

/-- The documents by the fields that they are grouped by. -/
def pathGroups (d : Description) (docs : List Row) : Groups Value Row :=
  Groups.ofPairs Value.same (docs.map fun doc => (.record (d.pathFields doc), doc))

theorem same_pathFields (h : d.IsConsistent aggregates) (doc other : Row) :
    (Value.record (d.pathFields doc)).same (.record (d.pathFields other)) = true
      ↔ ∀ g ∈ d.groupBy, (Document.field doc g.column).same (Document.field other g.column) = true := by
  rw [pathFields, pathFields, Value.same_record nodup_keys_keyColumns, List.all_eq_true]
  constructor
  · exact fun hall g hg => hall (g.outputName, g.column) (mem_keyColumns h hg)
  · intro hall entry hentry
    obtain ⟨g, hg, rfl⟩ := exists_of_mem_keyColumns hentry
    exact hall g hg

theorem perm_pathGroups (d : Description) (docs : List Row) : ((d.pathGroups docs).map (·.2)).flatten.Perm docs := by
  have hitems : (docs.map fun doc => (Value.record (d.pathFields doc), doc)).map (·.2) = docs := by
    rw [List.map_map]
    exact List.map_id docs
  have hperm : ((d.pathGroups docs).map (·.2)).flatten.Perm
      ((docs.map fun doc => (Value.record (d.pathFields doc), doc)).map (·.2)) := Groups.flatten_ofPairs_perm _
  rwa [hitems] at hperm

theorem exists_first_of_mem_pathGroups (hgroup : group ∈ d.pathGroups docs) : ∃ first others,
    group.2 = first :: others ∧ group.1 = .record (d.pathFields first) ∧ first ∈ docs
      ∧ ∀ doc ∈ others, group.1.same (.record (d.pathFields doc)) = true := by
  have hkeyed : Groups.IsKeyed Value.same (fun doc => Value.record (d.pathFields doc)) group :=
    Groups.isKeyed_ofPairs docs group hgroup
  obtain ⟨first, others, hitems, hkey, hothers⟩ := hkeyed
  have hmem : first ∈ docs := by
    refine (d.perm_pathGroups docs).subset (List.mem_flatten_of_mem (List.mem_map_of_mem hgroup) ?_)
    rw [hitems]
    exact List.mem_cons_self
  exact ⟨first, others, hitems, hkey, hmem, hothers⟩

theorem areGroups_pathGroups (h : d.IsConsistent aggregates) (docs : List Row) :
    d.AreGroups docs ((d.pathGroups docs).map (·.2)) where
  perm := d.perm_pathGroups docs
  nonempty := List.forall_mem_map.mpr fun group hgroup => by
    obtain ⟨first, others, hitems, -⟩ := exists_first_of_mem_pathGroups hgroup
    rw [hitems]
    exact List.cons_ne_nil _ _
  agree := List.forall_mem_map.mpr fun group hgroup doc hdoc => by
    obtain ⟨first, others, hitems, hkey, -, hothers⟩ := exists_first_of_mem_pathGroups hgroup
    rw [hitems] at hdoc ⊢
    have hsame := hothers doc hdoc
    rw [hkey] at hsame
    exact (same_pathFields h first doc).mp hsame
  apart := by
    rw [List.pairwise_map]
    refine (Groups.pairwise_ofPairs _).imp_of_mem fun {group other} hgroup hother hapart => ?_
    obtain ⟨first, _, hitems, hkey, -⟩ := exists_first_of_mem_pathGroups hgroup
    obtain ⟨first', _, hitems', hkey', -⟩ := exists_first_of_mem_pathGroups hother
    rw [hkey, hkey', ← Bool.not_eq_true, same_pathFields h] at hapart
    simpa [hitems, hitems'] using hapart

/-! ### Stages -/

/-- A consistent description that groups, and what its aggregates are accumulated by. -/
structure IsGroupedBy (d : Description) (aggregates : Aggregates) (accumulations : Entries Document.Accumulation) :
    Prop where
  grouped : d.groupBy ≠ []
  isConsistent : d.IsConsistent aggregates
  nodup : accumulations.keys.Nodup
  mem_keys_iff : ∀ key, key ∈ accumulations.keys ↔ key ∈ d.allAggregates.map (·.aliasName)
  isIdentifier : ∀ g ∈ d.groupBy, isIdentifier g.table = true
  isPlain_alias : ∀ key ∈ accumulations.keys, Document.IsPlain key
  notAlias : ∀ g ∈ d.groupBy, g.outputName ∉ accumulations.keys
  accumulated : ∀ result ∈ accumulations, ∃ function args,
    Document.accumulation? result.1 function args = some result.2

/-- Has a row, for a group, the fields of its first document at plain paths, null for the other fields, and a value for
every aggregate? -/
structure IsRowOf (d : Description) (members : List Row) (row : Row) : Prop where
  column : ∀ g ∈ d.groupBy, row.lookup g.outputName
    = some (if Document.IsPlain g.column then Document.field (members.headD []) g.column else .null)
  aggregate : ∀ a ∈ d.allAggregates, ∃ v, row.lookup a.aliasName = some v

namespace IsGroupedBy

variable (h : d.IsGroupedBy aggregates accumulations)

include h

theorem keyRule_eq : d.keyRule = .record (Document.pathRules d.keyColumns) := by
  rw [keyRule, if_neg]
  simpa using h.grouped

theorem nodup_keys_accumulators :
    (Entries.keys (accumulations.map fun (aliasName, a) => (aliasName, a.accumulator))).Nodup := by
  rw [Entries.keys, List.map_map]
  exact h.nodup

omit h in
theorem nodup_keys_compiledRules : (d.compiledRules accumulations).keys.Nodup :=
  Entries.nodup_keys_merge _ (List.nodup_singleton _)

theorem lookup_compiledRules {result : String × Document.Accumulation} (hresult : result ∈ accumulations) :
    (d.compiledRules accumulations).lookup result.1 = some result.2.accumulator := by
  rw [compiledRules, Entries.lookup_merge _ h.nodup_keys_accumulators,
    Entries.lookup_of_mem h.nodup_keys_accumulators (List.mem_map_of_mem hresult)]
  rfl

theorem mem_accumulatorRules_iff {rule : String × Value} :
    rule ∈ Document.accumulatorRules (d.compiledRules accumulations)
      ↔ ∃ result ∈ accumulations, rule = (result.1, result.2.accumulator) ∧ result.1 ≠ "_id" := by
  rw [Document.mem_accumulatorRules]
  constructor
  · rintro ⟨hrule, hne⟩
    rcases Entries.mem_of_mem_merge hrule with hid | hrule
    · rw [List.mem_singleton.mp hid] at hne
      exact absurd rfl hne
    · obtain ⟨result, hresult, rfl⟩ := List.mem_map.mp hrule
      exact ⟨result, hresult, rfl, hne⟩
  · rintro ⟨result, hresult, rfl, hne⟩
    exact ⟨Entries.mem_of_lookup_eq_some (h.lookup_compiledRules hresult), hne⟩

/-- What is accumulated over the members of a group is in its document. -/
theorem lookup_groupDocument (hdoc : Document.groupDocument (d.compiledRules accumulations) group = .ok doc) :
    doc.lookup "_id" = some group.1 ∧ ∀ result ∈ accumulations, result.1 ≠ "_id" → ∃ accumulated,
      Document.accumulateField group.2 result.2.accumulator = .ok accumulated
        ∧ doc.lookup result.1 = some accumulated := by
  obtain ⟨hid, hfields⟩ := Document.lookup_groupDocument nodup_keys_compiledRules hdoc
  exact ⟨hid, fun result hresult hne => hfields _ (h.mem_accumulatorRules_iff.mpr ⟨result, hresult, rfl, hne⟩)⟩

/-- Whatever record the key is, there is a row with what the paths lead to in it, and something for every aggregate. -/
theorem exists_row (hdoc : Document.groupDocument (d.compiledRules accumulations) group = .ok doc)
    (hkey : group.1 = .record fields) : ∃ row, Document.project (d.projectRules accumulations) doc = .ok row
      ∧ (∀ g ∈ d.groupBy, row.lookup g.outputName = some (Document.field fields g.outputName))
      ∧ ∀ a ∈ d.allAggregates, ∃ v, row.lookup a.aliasName = some v := by
  obtain ⟨hid, hfields⟩ := h.lookup_groupDocument hdoc
  rw [hkey] at hid
  have hprojected : ∀ result ∈ accumulations, ∃ v,
      Document.projectField doc result.1 result.2.projection = .ok (some v) := by
    intro result hresult
    have hplain := h.isPlain_alias _ (List.mem_map_of_mem hresult)
    obtain ⟨function, args, haccumulation⟩ := h.accumulated result hresult
    by_cases hname : result.1 = "_id"
    · exact Document.exists_projectField haccumulation hplain (hname ▸ hid) (Or.inr ⟨fields, rfl⟩)
    · obtain ⟨accumulated, haccumulated, hlookup⟩ := hfields result hresult hname
      exact Document.exists_projectField haccumulation hplain hlookup (Or.inl ⟨_, haccumulated⟩)
  have hrules : ∀ entry ∈ d.projectRules accumulations, ∃ found,
      Document.projectField doc entry.1 entry.2 = .ok found := by
    intro entry hentry
    rcases exists_of_mem_projectRules hentry with rfl | ⟨g, -, rfl⟩ | ⟨result, hresult, rfl⟩
    · exact ⟨none, rfl⟩
    · exact ⟨_, projectField_keyPath hid g.outputName⟩
    · obtain ⟨v, hv⟩ := hprojected result hresult
      exact ⟨_, hv⟩
  obtain ⟨row, hrow, hvalues⟩ := Document.exists_project (nodup_keys_projectRules _) hrules
  refine ⟨row, hrow, fun g hg => ?_, fun a ha => ?_⟩
  · exact hvalues _ (mem_projectRules_of_groupBy h.nodup h.isConsistent hg (h.notAlias g hg)) _
      (projectField_keyPath hid g.outputName)
  · obtain ⟨result, hresult, hname⟩ := List.mem_map.mp ((h.mem_keys_iff a.aliasName).mpr (List.mem_map_of_mem ha))
    obtain ⟨v, hv⟩ := hprojected result hresult
    exact ⟨v, hname ▸ hvalues _ (mem_projectRules_of_accumulation h.nodup hresult) _ hv⟩

/-! ### The key under its own name -/

/-- A plain path leads through the key to the field, and no other one leads anywhere. -/
theorem field_pathFields (hhashable : ∀ g ∈ d.groupBy, (Document.field doc g.column).isHashable = true)
    {g : ColumnRef} (hg : g ∈ d.groupBy) : Document.field (d.pathFields doc) g.outputName
      = if Document.IsPlain g.column then Document.field doc g.column else .null := by
  have hprefix : Document.IsPlain (g.table ++ "_") :=
    Document.isPlain_append (Document.isPlain_of_isIdentifier (h.isIdentifier g hg)) (by decide)
  split
  · rename_i hplain
    have hname : Document.IsPlain g.outputName := Document.isPlain_append hprefix hplain
    rw [Document.field_of_isPlain _ hname, Row.get, pathFields, lookup_keyColumns h.isConsistent _ hg, Option.getD_some]
  · rename_i hpoint
    have hname : ¬Document.IsPlain g.outputName := by
      rw [Document.IsPlain, not_not] at hpoint ⊢
      rw [ColumnRef.outputName, outputName, String.toList_append]
      exact List.mem_append_right _ hpoint
    exact Document.field_of_not_isPlain (isHashable_pathFields hhashable) hname

theorem group_compiledRules (hnoId : "_id" ∉ accumulations.keys)
    (hhashable : ∀ doc ∈ docs, ∀ g ∈ d.groupBy, (Document.field doc g.column).isHashable = true) :
    Document.group (d.compiledRules accumulations) docs
      = (d.pathGroups docs).mapM (Document.groupDocument (d.compiledRules accumulations)) := by
  have hkey : (d.compiledRules accumulations).lookup "_id" = some (.record (Document.pathRules d.keyColumns)) := by
    have hnone : (accumulations.map fun (aliasName, a) => (aliasName, a.accumulator)).lookup "_id" = none := by
      apply Entries.lookup_eq_none_of_notMem_keys
      rw [Entries.keys, List.map_map]
      exact hnoId
    rw [compiledRules, Entries.lookup_merge _ h.nodup_keys_accumulators, hnone, h.keyRule_eq]
    rfl
  have hpairs : docs.mapM (fun doc => do
      return (← Document.groupKey (.record (Document.pathRules d.keyColumns)) doc, doc))
      = .ok (docs.map fun doc => (.record (d.pathFields doc), doc)) := by
    refine Outcome.mapM_of_forall fun doc hdoc => ?_
    rw [groupKey_pathRules h.isIdentifier (hhashable doc hdoc)]
    rfl
  rw [Document.group_eq hkey rfl, hpairs]
  rfl

/-- A group has a row if everything can be accumulated over it, and it is the row of the group. -/
theorem exists_row_iff (hhashable : ∀ doc ∈ docs, ∀ g ∈ d.groupBy, (Document.field doc g.column).isHashable = true)
    (hnoId : "_id" ∉ accumulations.keys) (hgroup : group ∈ d.pathGroups docs) :
    ((∃ doc, Document.groupDocument (d.compiledRules accumulations) group = .ok doc)
        ↔ ∀ result ∈ accumulations, ∃ v, Document.accumulateField group.2 result.2.accumulator = .ok v)
      ∧ ∀ doc, Document.groupDocument (d.compiledRules accumulations) group = .ok doc →
        ∃ row, Document.project (d.projectRules accumulations) doc = .ok row ∧ d.IsRowOf group.2 row := by
  have hne : ∀ result ∈ accumulations, result.1 ≠ "_id" :=
    fun result hresult heq => hnoId (heq ▸ List.mem_map_of_mem hresult)
  refine ⟨⟨?_, fun hall => Document.exists_groupDocument fun rule hrule => ?_⟩, fun doc hdoc => ?_⟩
  · rintro ⟨doc, hdoc⟩ result hresult
    obtain ⟨v, hv, -⟩ := (h.lookup_groupDocument hdoc).2 result hresult (hne result hresult)
    exact ⟨v, hv⟩
  · obtain ⟨result, hresult, rfl, -⟩ := h.mem_accumulatorRules_iff.mp hrule
    exact hall result hresult
  · obtain ⟨first, others, hitems, hkey, hfirst, -⟩ := exists_first_of_mem_pathGroups hgroup
    obtain ⟨row, hrow, hcolumns, haggregates⟩ := h.exists_row hdoc hkey
    refine ⟨row, hrow, fun g hg => ?_, haggregates⟩
    rw [hcolumns g hg, h.field_pathFields (hhashable first hfirst) hg, hitems]
    rfl

/-- Grouped by their fields, documents have a row for every group, unless something cannot be accumulated over one. -/
theorem rows_of_groups (hhashable : ∀ doc ∈ docs, ∀ g ∈ d.groupBy, (Document.field doc g.column).isHashable = true)
    (hnoId : "_id" ∉ accumulations.keys) :
    ((∃ rows, Document.runPipeline docs ((d.groupStages accumulations).map .record) = .ok rows)
        ↔ ∀ members ∈ (d.pathGroups docs).map (·.2), ∀ result ∈ accumulations,
          ∃ v, Document.accumulateField members result.2.accumulator = .ok v)
      ∧ ∀ rows, Document.runPipeline docs ((d.groupStages accumulations).map .record) = .ok rows →
        List.Forall₂ d.IsRowOf ((d.pathGroups docs).map (·.2)) rows := by
  have hrows : ∀ group ∈ d.pathGroups docs, _ := fun group => h.exists_row_iff hhashable hnoId
  rw [runPipeline_groupStages, h.group_compiledRules hnoId hhashable]
  refine ⟨⟨?_, fun hall => ?_⟩, fun rows hrun => ?_⟩
  · rintro ⟨rows, hrun⟩
    obtain ⟨grouped, hgrouped, -⟩ := exists_of_bind_eq_ok hrun
    refine List.forall_mem_map.mpr fun group hgroup => (hrows group hgroup).1.mp ?_
    exact Outcome.exists_of_mapM_eq_ok hgrouped group hgroup
  · rw [List.forall_mem_map] at hall
    obtain ⟨grouped, hgrouped⟩ := exists_mapM_eq_ok fun group hgroup => (hrows group hgroup).1.mpr (hall group hgroup)
    have hprojected : ∃ rows, grouped.mapM (Document.project (d.projectRules accumulations)) = .ok rows := by
      refine exists_mapM_eq_ok fun doc hdoc => ?_
      obtain ⟨group, hgroup, hdoc⟩ := exists_left_of_forall₂ (Outcome.forall₂_of_mapM_eq_ok hgrouped) hdoc
      obtain ⟨row, hrow, -⟩ := (hrows group hgroup).2 doc hdoc
      exact ⟨row, hrow⟩
    obtain ⟨rows, hprojected⟩ := hprojected
    exact ⟨rows, by rw [hgrouped]; exact hprojected⟩
  · obtain ⟨grouped, hgrouped, hprojected⟩ := exists_of_bind_eq_ok hrun
    rw [List.forall₂_map_left_iff]
    refine forall₂_imp_of_mem (forall₂_comp (Outcome.forall₂_of_mapM_eq_ok hgrouped)
      (Outcome.forall₂_of_mapM_eq_ok hprojected)) fun group hgroup row hrow => ?_
    obtain ⟨doc, hdoc, hrow⟩ := hrow
    obtain ⟨row', hrow', hreported⟩ := (hrows group hgroup).2 doc hdoc
    obtain rfl := Except.ok.inj (hrow.symm.trans hrow')
    exact hreported

/-! ### An accumulator under its name -/

/-- An aggregate with the name of the key takes its place, and no field that is grouped by is left. -/
theorem rows_of_accumulator (hid : "_id" ∈ accumulations.keys)
    (hrun : Document.runPipeline docs ((d.groupStages accumulations).map .record) = .ok rows) :
    ∀ row ∈ rows, (∀ g ∈ d.groupBy, row.lookup g.outputName = some .null)
      ∧ ∀ a ∈ d.allAggregates, ∃ v, row.lookup a.aliasName = some v := by
  obtain ⟨result, hresult, hname⟩ := List.mem_map.mp hid
  obtain ⟨function, args, haccumulation⟩ := h.accumulated result hresult
  have hkey : (d.compiledRules accumulations).lookup "_id" = some result.2.accumulator :=
    hname ▸ h.lookup_compiledRules hresult
  have hnull : result.2.accumulator.isNull = false := by
    obtain ⟨operator, expression, haccumulator, -⟩ := Document.exists_accumulator haccumulation
    rw [haccumulator]
    rfl
  rw [runPipeline_groupStages] at hrun
  obtain ⟨grouped, hgrouped, hprojected⟩ := exists_of_bind_eq_ok hrun
  intro row hrow
  obtain ⟨doc, hdoc, hrow⟩ := exists_left_of_forall₂ (Outcome.forall₂_of_mapM_eq_ok hprojected) hrow
  obtain ⟨members, source, -, key, hsource, hgroup⟩ := Document.exists_group_of_mem hkey hnull hgrouped doc hdoc
  obtain ⟨operator, v, rfl, hoperator⟩ := Document.exists_groupKey_accumulator haccumulation hsource
  obtain ⟨row', hrow', hcolumns, haggregates⟩ := h.exists_row hgroup rfl
  obtain rfl := Except.ok.inj (hrow.symm.trans hrow')
  refine ⟨fun g hg => ?_, haggregates⟩
  rw [hcolumns g hg, Document.field_single hoperator (head_outputName (h.isIdentifier g hg))]

end IsGroupedBy

/-! ### The whole pipeline -/

section

variable {cleanup : Cleanup} {q : SourceQuery}

theorem filter_isGrouping (d : Description) (accumulations : Entries Document.Accumulation)
    (condition having : Option Row) :
    (matchStage condition ++ d.groupStages accumulations ++ matchStage having ++ d.sortStage ++ d.pageStages).filter
      Document.isGrouping = d.groupStages accumulations := by
  have hmatch : ∀ condition, (matchStage condition).filter Document.isGrouping = [] := by
    intro condition
    cases condition <;> rfl
  have hsort : d.sortStage.filter Document.isGrouping = [] := by
    rw [sortStage]
    split <;> rfl
  have hpages : d.pageStages.filter Document.isGrouping = [] := by
    rw [pageStages, List.filter_append]
    rcases d.offset with _ | _ | n <;> cases d.limit <;> rfl
  have hgroup : (d.groupStages accumulations).filter Document.isGrouping = d.groupStages accumulations := rfl
  rw [List.filter_append, List.filter_append, List.filter_append, List.filter_append, hmatch, hmatch, hsort, hpages,
    hgroup, List.nil_append, List.append_nil, List.append_nil, List.append_nil]

theorem isGroupedBy_of_isValid (hvalid : (d.validate cleanup).isValid = true) (hgrouped : d.groupBy ≠ [])
    (hanalyzed : d.analyzedAggregates (d.validate cleanup).replacements = .ok aggregates)
    (haccumulated : List.Forall₂ IsAccumulatedBy aggregates accumulations) :
    d.IsGroupedBy aggregates accumulations := by
  obtain ⟨haliases, -, -, -, hfindings, -⟩ := isValid_iff.mp hvalid
  obtain ⟨hread, hkeys⟩ := readAs_of_analyzedAggregates hanalyzed
  have heq : accumulations.keys = aggregates.keys :=
    keys_eq_of_forall₂ (haccumulated.imp fun _ _ hby => hby.name_eq)
  have hconsistent : d.IsConsistent aggregates := by
    rw [Except.ok.inj (hanalyzed.symm.trans (analyzedAggregates_of_isValid hvalid))]
    exact isConsistent_of_isValid hvalid
  exact {
    grouped := hgrouped
    isConsistent := hconsistent
    nodup := heq ▸ hread.nodup
    mem_keys_iff := fun key => heq ▸ hkeys key
    isIdentifier := fun g hg =>
      (aliasErrors_eq_nil_iff.mp haliases).1 _ (hconsistent.declared g (mem_mentionedColumns_of_groupBy hg))
    isPlain_alias := fun key hkey => by
      rw [heq] at hkey
      obtain ⟨a, ha, rfl⟩ := List.mem_map.mp ((hkeys key).mp hkey)
      exact Document.isPlain_of_isIdentifier (isIdentifier_aliasName hfindings ha)
    notAlias := fun g hg hkey => by
      rw [heq] at hkey
      exact ne_alias_of_isValid hvalid (List.mem_map_of_mem hg) ((hkeys _).mp hkey)
    accumulated := fun result hresult => by
      obtain ⟨entry, -, hname, -, function, args, -, haccumulation⟩ := exists_left_of_forall₂ haccumulated hresult
      exact ⟨function, args, hname ▸ haccumulation⟩ }

/--
What the grouping stages of a query make of documents whose group fields can be told apart. Unless an aggregate goes by
the name of the key, there is one row for every group, if all can be accumulated over all groups. The row has the fields
of the first member under the output names of the columns with plain names, and null under those of the columns with a
point in their names; and it has a value for every aggregate. If an aggregate goes by the name of the key, no row has any
of the fields.
-/
theorem groupedFields_reported (hvalid : (d.validate cleanup).isValid = true) (hgrouped : d.groupBy ≠ [])
    (hcompile : d.compilePipeline (d.validate cleanup).replacements = .ok q)
    (hhashable : ∀ doc ∈ docs, ∀ g ∈ d.groupBy, (Document.field doc g.column).isHashable = true) :
    ∃ collection stages aggregates accumulations, q.statement = .pipeline collection stages
      ∧ d.analyzedAggregates (d.validate cleanup).replacements = .ok aggregates
      ∧ List.Forall₂ IsAccumulatedBy aggregates accumulations
      ∧ ("_id" ∉ d.allAggregates.map (·.aliasName) → ∃ groups, d.AreGroups docs groups
        ∧ ((∃ rows, Document.groupedRows stages docs = .ok rows) ↔ ∀ members ∈ groups, ∀ result ∈ accumulations,
          ∃ v, Document.accumulateField members result.2.accumulator = .ok v)
        ∧ ∀ rows, Document.groupedRows stages docs = .ok rows → List.Forall₂ d.IsRowOf groups rows)
      ∧ ("_id" ∈ d.allAggregates.map (·.aliasName) → ∀ rows, Document.groupedRows stages docs = .ok rows →
        ∀ row ∈ rows, (∀ g ∈ d.groupBy, row.lookup g.outputName = some .null)
          ∧ ∀ a ∈ d.allAggregates, ∃ v, row.lookup a.aliasName = some v) := by
  have hanalyzed := analyzedAggregates_of_isValid hvalid
  have hsome : ((d.aggregateFindings cleanup).analyzed.isEmpty && d.groupBy.isEmpty) = false := by
    rw [List.isEmpty_eq_false_iff.mpr hgrouped, Bool.and_false]
  obtain ⟨table, condition, having, accumulations, -, haccumulated, hstatement, -⟩ :=
    exists_groupStages hsome hanalyzed hcompile
  have h := isGroupedBy_of_isValid hvalid hgrouped hanalyzed haccumulated
  refine ⟨table.table, _, _, accumulations, hstatement, hanalyzed, haccumulated, fun hnoId => ?_, fun hid => ?_⟩
  · obtain ⟨hexists, hrows⟩ := h.rows_of_groups hhashable (fun hid => hnoId ((h.mem_keys_iff "_id").mp hid))
    rw [Document.groupedRows, filter_isGrouping]
    exact ⟨_, areGroups_pathGroups h.isConsistent docs, hexists, hrows⟩
  · rw [Document.groupedRows, filter_isGrouping]
    exact fun rows => h.rows_of_accumulator ((h.mem_keys_iff "_id").mpr hid)

end

/-! ### Orders by town -/

/-- Orders by who has made them and the town that they go to. -/
def ordersByTown : Description where
  tables := [⟨"o", "docs", "orders", none⟩]
  columns := [{ table := "o", column := "by" }, { table := "o", column := "address.city" }]
  groupBy := [⟨"o", "by"⟩, ⟨"o", "address.city"⟩]

theorem isValid_ordersByTown : (ordersByTown.validate .strip).isValid = true := by
  rw [isValid_iff]
  exact ⟨by cbv, by cbv, by cbv, by cbv, by cbv, by cbv, nameErrors_eq_nil_iff.mpr ⟨by decide +kernel, by decide⟩,
    by cbv, by cbv, by cbv⟩

/-- Two orders of one buyer that go to one town. -/
def townDocuments : List Row :=
  [[("by", .integer 7), ("address", .record [("city", .text "Ulm")])],
    [("by", .integer 7), ("address", .record [("city", .text "Ulm")])]]

/-- The orders are one group, and it has a row. -/
theorem townDocuments_grouped : (ordersByTown.validate .strip).isValid = true ∧ ordersByTown.groupBy ≠ []
    ∧ (∀ doc ∈ townDocuments, ∀ g ∈ ordersByTown.groupBy, (Document.field doc g.column).isHashable = true)
    ∧ ∃ q collection stages groups rows,
      ordersByTown.compilePipeline (ordersByTown.validate .strip).replacements = .ok q
      ∧ q.statement = .pipeline collection stages ∧ Document.groupedRows stages townDocuments = .ok rows
      ∧ ordersByTown.AreGroups townDocuments groups ∧ List.Forall₂ ordersByTown.IsRowOf groups rows := by
  have hgrouped : ordersByTown.groupBy ≠ [] := List.cons_ne_nil _ _
  have hhashable : ∀ doc ∈ townDocuments, ∀ g ∈ ordersByTown.groupBy,
      (Document.field doc g.column).isHashable = true := by decide
  obtain ⟨q, hcompile⟩ : ∃ q, ordersByTown.compilePipeline (ordersByTown.validate .strip).replacements = .ok q :=
    ⟨_, rfl⟩
  obtain ⟨collection, stages, aggregates, accumulations, hq, hanalyzed, haccumulated, hreported, -⟩ :=
    groupedFields_reported isValid_ordersByTown hgrouped hcompile hhashable
  obtain ⟨groups, hgroups, hexists, hrows⟩ := hreported (by decide)
  have hnone : accumulations = [] := by
    cases hanalyzed
    cases haccumulated
    rfl
  obtain ⟨rows, hrun⟩ := hexists.mpr (by simp [hnone])
  exact ⟨isValid_ordersByTown, hgrouped, hhashable, q, collection, stages, groups, rows, hcompile, hq, hrun, hgroups,
    hrows rows hrun⟩

/-- The number of orders by who has made them, under the name that keys have. -/
def ordersUnderKey : Description where
  tables := [⟨"o", "docs", "orders", none⟩]
  columns := [{ table := "o", column := "by" }]
  groupBy := [⟨"o", "by"⟩]
  aggregates := [⟨"COUNT(o.id)", "_id"⟩]

open Expression in
/-- The aggregate of `ordersUnderKey`. -/
def orderCountUnderKey : Aggregates :=
  [("_id", .ofTree "_id" ["_id"] (aggregate .count [column [⟨"o", false⟩] ⟨"id", false⟩]))]

theorem isValid_ordersUnderKey : (ordersUnderKey.validate .strip).isValid = true
    ∧ ordersUnderKey.analyzedAggregates (ordersUnderKey.validate .strip).replacements = .ok orderCountUnderKey := by
  have hfold : ordersUnderKey.allAggregates.zipIdx.foldl (AggregateFindings.check .strip
      (ordersUnderKey.allAggregates.map (·.aliasName)) ordersUnderKey.aliases) {}
        = { analyzed := orderCountUnderKey } := by
    change AggregateFindings.check .strip ["_id"] ["o"] {} (⟨"COUNT(o.id)", "_id"⟩, 0) = _
    rw [AggregateFindings.check_of_accepts _ (by decide) (by decide +kernel) (accepts_orderCount _ (by decide))]
    rfl
  have horder : orderCountUnderKey.dependencyOrder = .ok ["_id"] := by cbv
  have hfindings : ordersUnderKey.aggregateFindings .strip = { analyzed := orderCountUnderKey } := by
    rw [aggregateFindings]
    simp only [hfold, horder]
  have hnames : ordersUnderKey.nameErrors orderCountUnderKey = [] :=
    nameErrors_eq_nil_iff.mpr ⟨by decide +kernel, by decide⟩
  have hvalid : (ordersUnderKey.validate .strip).isValid = true := by
    rw [isValid_iff, hfindings]
    exact ⟨by cbv, by cbv, by cbv, by cbv, rfl, by cbv, hnames, by cbv, by cbv, by cbv⟩
  refine ⟨hvalid, ?_⟩
  rw [analyzedAggregates_of_isValid hvalid, hfindings]

/-- The orders that go to Ulm are reported as going nowhere; counted under the name of the key, the orders of two buyers
are one group, of nobody. -/
theorem groupedFields_lost :
    ((ordersByTown.validate .strip).isValid = true
      ∧ (∀ doc ∈ townDocuments, Document.field doc "address.city" = .text "Ulm")
      ∧ ∃ q stages, ordersByTown.compilePipeline (ordersByTown.validate .strip).replacements = .ok q
        ∧ q.statement = .pipeline "orders" stages
        ∧ Document.groupedRows stages townDocuments = .ok [[("o_by", .integer 7), ("o_address.city", .null)]])
    ∧ (ordersUnderKey.validate .strip).isValid = true
      ∧ buyerDocuments.map (Document.field · "by") = [.integer 7, .integer 8, .integer 7]
      ∧ ∃ q stages, ordersUnderKey.compilePipeline (ordersUnderKey.validate .strip).replacements = .ok q
        ∧ q.statement = .pipeline "orders" stages
        ∧ Document.groupedRows stages buyerDocuments
          = .ok [[("_id", .record [("$sum", .integer 1)]), ("o_by", .null)]] := by
  obtain ⟨hvalid, hanalyzed⟩ := isValid_ordersUnderKey
  have htown : ∀ doc ∈ townDocuments, Document.field doc "address.city" = .text "Ulm" := by
    simp only [townDocuments, List.forall_mem_cons]
    exact ⟨by rfl, by rfl, List.forall_mem_nil _⟩
  refine ⟨⟨isValid_ordersByTown, htown, _, _, rfl, rfl, by cbv⟩, hvalid, rfl, ?_⟩
  rw [compilePipeline, hanalyzed]
  exact ⟨_, _, rfl, rfl, by cbv⟩

end Description

end QueryFederation

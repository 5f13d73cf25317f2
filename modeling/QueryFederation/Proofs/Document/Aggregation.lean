import QueryFederation.Proofs.Document.Grouping
import QueryFederation.Proofs.Engine.Runs

/-!
# Aggregates of a collection

For a description with aggregates a document store gives one row a group, with the fields grouped by and the values of
the aggregates. In memory the rows that carry the documents are materialized. Both give the same rows in the same order,
or both fail because a number would have to be a double beyond their range. Only a sum over nothing but nulls is zero in
the store and null in memory.
-/

namespace QueryFederation

/-! ### Sums of nothing -/

/-- Is the aggregate a sum of nothing but nulls? -/
def AnalyzedAggregate.sumsNothing (a : AnalyzedAggregate) (members : List Row) : Bool :=
  match a.simpleAggregate? with
  | some (function, args) => Document.sumsNothing function args members
  | none => false

namespace Aggregates

def sumsNothing (aggregates : Aggregates) (members : List Row) (aliasName : String) : Bool :=
  (aggregates.lookup aliasName).any (·.sumsNothing members)

/-- The row of a group, with a value for the sums of nothing. -/
def fillEmptySums (aggregates : Aggregates) (v : Value) (members : List Row) (row : Row) : Row :=
  row.map fun (name, w) => (name, if aggregates.sumsNothing members name then v else w)

end Aggregates

/-! ### Accumulated aggregates -/

theorem keys_eq_of_forall₂ {α β : Type} {first : Entries α} {second : Entries β}
    (h : List.Forall₂ (fun a b => b.1 = a.1) first second) : second.keys = first.keys := by
  induction h with
  | nil => rfl
  | cons hhead _ ih => exact congrArg₂ List.cons hhead ih

/-- An aggregate that is a call, and how a store accumulates it. -/
structure IsAccumulatedBy (entry : String × AnalyzedAggregate) (result : String × Document.Accumulation) : Prop where
  name_eq : result.1 = entry.1
  aliasRefs : entry.2.aliasRefs = []
  call : ∃ function args, entry.2.simpleAggregate? = some (function, args)
    ∧ Document.accumulation? entry.1 function args = some result.2

/-! ### Documents of groups -/

namespace Document

variable {rules : Row} {group : Value × List Row} {doc : Row}

/-- The rules of a group but for that of its key. -/
def accumulatorRules (rules : Row) : Row := rules.filter fun (name, _) => name ≠ "_id"

/-- What is accumulated for a rule over documents, under its name. -/
def accumulatedField (docs : List Row) (rule : String × Value) : Outcome (String × Value) := do
  return (rule.1, ← accumulateField docs rule.2)

theorem groupDocument_eq (rules : Row) (group : Value × List Row) : groupDocument rules group = (do
    let fields : Row ← (accumulatorRules rules).mapM (accumulatedField group.2)
    return Entries.merge [("_id", group.1)] fields) := rfl

theorem mem_accumulatorRules {rule : String × Value} :
    rule ∈ accumulatorRules rules ↔ rule ∈ rules ∧ rule.1 ≠ "_id" := by
  rw [accumulatorRules, List.mem_filter, decide_eq_true_iff]

/-- The document of a group has the key and everything that is accumulated. -/
theorem lookup_groupDocument (hnodup : rules.keys.Nodup) (hdoc : groupDocument rules group = .ok doc) :
    doc.lookup "_id" = some group.1 ∧ ∀ rule ∈ accumulatorRules rules, ∃ accumulated,
      accumulateField group.2 rule.2 = .ok accumulated ∧ doc.lookup rule.1 = some accumulated := by
  rw [groupDocument_eq] at hdoc
  obtain ⟨fields, hfields, heq⟩ := exists_of_bind_eq_ok hdoc
  obtain rfl := Except.ok.inj heq
  have hpairs : List.Forall₂ (fun rule field => field.1 = rule.1 ∧ accumulateField group.2 rule.2 = .ok field.2)
      (accumulatorRules rules) fields := by
    refine (Outcome.forall₂_of_mapM_eq_ok hfields).imp fun rule field hfield => ?_
    obtain ⟨accumulated, haccumulated, heq⟩ := exists_of_bind_eq_ok hfield
    cases heq
    exact ⟨rfl, haccumulated⟩
  have hkeys : Entries.keys fields = Entries.keys (accumulatorRules rules) :=
    keys_eq_of_forall₂ (hpairs.imp fun _ _ hpair => hpair.1)
  have hfieldsNodup : (Entries.keys fields).Nodup := hkeys ▸ (List.filter_sublist.map _).nodup hnodup
  have hnoId : "_id" ∉ Entries.keys fields := by
    rw [hkeys]
    intro hid
    obtain ⟨rule, hrule, heq⟩ := List.mem_map.mp hid
    exact (mem_accumulatorRules.mp hrule).2 heq
  refine ⟨?_, fun rule hrule => ?_⟩
  · rw [Entries.lookup_merge _ hfieldsNodup, Entries.lookup_eq_none_of_notMem_keys hnoId]
    rfl
  · obtain ⟨field, hfield, hname, haccumulated⟩ := exists_right_of_forall₂ hpairs hrule
    refine ⟨field.2, haccumulated, ?_⟩
    rw [Entries.lookup_merge _ hfieldsNodup, ← hname, Entries.lookup_of_mem hfieldsNodup hfield]
    rfl

/-- A group has a document if everything can be accumulated over it. -/
theorem exists_groupDocument (hall : ∀ rule ∈ accumulatorRules rules, ∃ accumulated,
      accumulateField group.2 rule.2 = .ok accumulated) : ∃ doc, groupDocument rules group = .ok doc := by
  have hfields : ∃ fields, (accumulatorRules rules).mapM (accumulatedField group.2) = .ok fields := by
    refine exists_mapM_eq_ok fun rule hrule => ?_
    obtain ⟨accumulated, haccumulated⟩ := hall rule hrule
    exact ⟨(rule.1, accumulated), by rw [accumulatedField, haccumulated]; rfl⟩
  obtain ⟨fields, hfields⟩ := hfields
  exact ⟨_, by rw [groupDocument_eq, hfields]; rfl⟩

end Document

namespace Description

variable {d : Description} {aggregates : Aggregates} {accumulations : Entries Document.Accumulation}
  {order : List String} {docs rows members : List Row} {doc row : Row} {group : Value × List Row}

/-- Does the projection give, under the output names, what the row of a group has, but zero for a sum of nothing? -/
def IsProjectedTo (d : Description) (aggregates : Aggregates) (accumulations : Entries Document.Accumulation)
    (members : List Row) (doc row : Row) : Prop :=
  ∃ out, Document.project (d.projectRules accumulations) doc = .ok out ∧ ∀ name ∈ d.outputNames,
    out.lookup name = some (if aggregates.sumsNothing members name then .integer 0 else Row.get row name)
      ∧ (aggregates.sumsNothing members name = true → Row.get row name = .null)

/-- A consistent description whose aggregates a store can accumulate. -/
structure IsAccumulated (d : Description) (aggregates : Aggregates) (accumulations : Entries Document.Accumulation) :
    Prop where
  isConsistent : d.IsConsistent aggregates
  readAs : ReadAs (d.allAggregates.map (·.aliasName)) aggregates
  keys : ∀ key, key ∈ aggregates.keys ↔ key ∈ d.allAggregates.map (·.aliasName)
  nodup : d.outputNames.Nodup
  selected : ∀ c ∈ d.selectedColumns, c.outputName ∈ d.groupedNames
  isIdentifier : ∀ c ∈ d.mentionedColumns aggregates, isIdentifier c.table = true
  isPlain : ∀ c ∈ d.mentionedColumns aggregates, Document.IsPlain c.column
  isPlain_alias : ∀ key ∈ aggregates.keys, Document.IsPlain key
  noId : "_id" ∉ aggregates.keys
  accumulated : List.Forall₂ IsAccumulatedBy aggregates accumulations

namespace IsAccumulated

variable (h : d.IsAccumulated aggregates accumulations)

include h

theorem keys_eq : accumulations.keys = aggregates.keys :=
  keys_eq_of_forall₂ (h.accumulated.imp fun _ _ hby => hby.name_eq)

/-- What is accumulated and projected for an aggregate is its value, whatever has been computed before. -/
theorem corresponds (hgroup : d.IsGroupOf aggregates group members) {entry : String × AnalyzedAggregate}
    (hentry : entry ∈ aggregates) {result : String × Document.Accumulation} (hby : IsAccumulatedBy entry result)
    (before : Entries Value) :
    Outcome.Corresponds .overflow (result.2.GivesOrZero entry.1 (entry.2.sumsNothing members))
      (Document.accumulateField group.2 result.2.accumulator) (entry.2.tree.evaluate (.group members before)) := by
  obtain ⟨-, hrefs, function, args, hcall, haccumulation⟩ := hby
  rw [Expression.evaluate_of_simpleAggregate? hcall, AnalyzedAggregate.sumsNothing, hcall]
  refine Document.corresponds_of_accumulation? haccumulation (h.isPlain_alias _ (List.mem_map_of_mem hentry))
    hgroup.carried.length_eq (fun qualifiers column hname => ?_) before
  obtain ⟨htable, hread⟩ := h.readAs.analyzed.mem_columns_of_call hentry hrefs hcall hname
  have hmem : ⟨Expression.tableName qualifiers, column.name⟩ ∈ d.mentionedColumns aggregates := by
    refine List.mem_append_right _ (List.mem_flatMap.mpr ⟨entry, hentry, ?_⟩)
    exact List.mem_map.mpr ⟨_, hread, rfl⟩
  exact ⟨htable, h.isPlain _ hmem, hgroup.carried.imp fun _ _ hcarried => hcarried _ hmem⟩

/-! ### Documents of groups -/

theorem accumulatorRules_groupRules : Document.accumulatorRules (d.groupRules accumulations)
    = accumulations.map fun (aliasName, a) => (aliasName, a.accumulator) := by
  rw [Document.accumulatorRules, groupRules, List.filter_cons, if_neg (by simp), List.filter_eq_self]
  refine List.forall_mem_map.mpr fun result hresult => ?_
  have hne : result.1 ≠ "_id" := fun heq => h.noId (heq ▸ h.keys_eq ▸ List.mem_map_of_mem hresult)
  simpa using hne

theorem nodup_keys_groupRules : (d.groupRules accumulations).keys.Nodup := by
  have hkeys : ("_id" :: accumulations.keys).Nodup := by
    rw [h.keys_eq]
    exact List.nodup_cons.mpr ⟨h.noId, h.readAs.nodup⟩
  rw [groupRules, Entries.keys, List.map_cons, List.map_map]
  exact hkeys

/-- The document of a group has the key and everything that is accumulated. -/
theorem lookup_groupDocument (hdoc : Document.groupDocument (d.groupRules accumulations) group = .ok doc) :
    doc.lookup "_id" = some group.1 ∧ ∀ result ∈ accumulations, ∃ accumulated,
      Document.accumulateField group.2 result.2.accumulator = .ok accumulated
        ∧ doc.lookup result.1 = some accumulated := by
  obtain ⟨hid, hfields⟩ := Document.lookup_groupDocument h.nodup_keys_groupRules hdoc
  rw [h.accumulatorRules_groupRules] at hfields
  exact ⟨hid, fun result hresult => hfields _ (List.mem_map_of_mem hresult)⟩

/-- A group has a document if everything can be accumulated over it. -/
theorem exists_groupDocument (hall : ∀ result ∈ accumulations, ∃ accumulated,
      Document.accumulateField group.2 result.2.accumulator = .ok accumulated) :
    ∃ doc, Document.groupDocument (d.groupRules accumulations) group = .ok doc := by
  apply Document.exists_groupDocument
  rw [h.accumulatorRules_groupRules]
  exact List.forall_mem_map.mpr hall

/-! ### Rows of groups -/

section

variable {computed : Entries Value} (hgroup : d.IsGroupOf aggregates group members)
  (hdoc : Document.groupDocument (d.groupRules accumulations) group = .ok doc)

include hgroup hdoc

/-- Of what is accumulated the projection makes the value that is computed, or zero if it is a sum of nothing. -/
theorem projectField_accumulated (horder : aggregates.keys ⊆ order)
    (hcomputed : computeAggregates aggregates order members = .ok computed) {result : String × Document.Accumulation}
    (hresult : result ∈ accumulations) : ∃ v, computed.lookup result.1 = some v
      ∧ Document.projectField doc result.1 result.2.projection
        = .ok (some (if aggregates.sumsNothing members result.1 then .integer 0 else v))
      ∧ (aggregates.sumsNothing members result.1 = true → v = .null) := by
  obtain ⟨entry, hentry, hby⟩ := exists_left_of_forall₂ h.accumulated hresult
  have hlookup := Entries.lookup_of_mem h.readAs.nodup hentry
  obtain ⟨before, v, hv, hname⟩ :=
    exists_lookup_computeAggregates hcomputed hlookup (horder (List.mem_map_of_mem hentry))
  obtain ⟨accumulated, haccumulated, hfield⟩ := (h.lookup_groupDocument hdoc).2 result hresult
  obtain ⟨w, hw, hgives⟩ := (h.corresponds hgroup hentry hby before).exists_right haccumulated
  obtain rfl := Except.ok.inj (hv.symm.trans hw)
  rw [hby.name_eq] at hfield ⊢
  rw [Aggregates.sumsNothing, hlookup, Option.any_some]
  exact ⟨v, hname, hgives.gives doc hfield, hgives.eq_null⟩

/-- The projection reads a field of the key that the group has from its first document. -/
theorem projectField_key {g : ColumnRef} (hg : g ∈ d.groupBy) :
    Document.projectField doc g.outputName (.text ("$_id." ++ g.outputName))
      = .ok (some (Row.get (group.2.headD []) g.column)) := by
  have hmentioned : g ∈ d.mentionedColumns aggregates := mem_mentionedColumns_of_groupBy hg
  have hid : doc.lookup "_id" = some (.record (d.keyFields (group.2.headD []))) := by
    have hempty : ¬d.groupBy.isEmpty = true := fun hnone => by
      rw [List.isEmpty_iff.mp hnone] at hg
      cases hg
    rw [(h.lookup_groupDocument hdoc).1, hgroup.key, documentKey, if_neg hempty]
  have hname : Document.IsPlain g.outputName :=
    Document.isPlain_append (Document.isPlain_append (Document.isPlain_of_isIdentifier (h.isIdentifier _ hmentioned))
      (by decide)) (h.isPlain _ hmentioned)
  rw [projectField_keyPath hid, Document.field_of_isPlain _ hname, Row.get, lookup_keyFields h.isConsistent _ hg,
    Option.getD_some]

/-- Every rule of the projection comes to something. -/
theorem exists_projectField (horder : aggregates.keys ⊆ order)
    (hcomputed : computeAggregates aggregates order members = .ok computed) :
    ∀ entry ∈ d.projectRules accumulations, ∃ found, Document.projectField doc entry.1 entry.2 = .ok found := by
  intro entry hentry
  rcases exists_of_mem_projectRules hentry with rfl | ⟨g, hg, rfl⟩ | ⟨result, hresult, rfl⟩
  · exact ⟨none, rfl⟩
  · exact ⟨_, h.projectField_key hgroup hdoc hg⟩
  · obtain ⟨v, -, hfound, -⟩ := h.projectField_accumulated hgroup hdoc horder hcomputed hresult
    exact ⟨_, hfound⟩

omit hdoc in
/-- A selected column has in the row of a group what the first document of the group has as its field. -/
theorem exists_get_groupRow (hrow : d.groupRow aggregates order members = .ok row) {c : SelectedColumn}
    (hc : c ∈ d.selectedColumns) : ∃ g ∈ d.groupBy, g.outputName = c.outputName
      ∧ Row.get row g.outputName = Row.get (group.2.headD []) g.column := by
  obtain ⟨computed, hcomputed, -, hfirst⟩ := exists_computed_of_groupRow hrow
  obtain ⟨g, hg, hname⟩ := List.mem_map.mp (h.selected c hc)
  have hnone : computed.lookup g.outputName = none := by
    refine Entries.lookup_eq_none_of_notMem_keys fun hkey => ?_
    have halias := (h.keys _).mp ((mem_keys_computeAggregates hcomputed).mp hkey).2
    exact List.disjoint_of_nodup_append h.nodup (List.mem_map_of_mem hc) (hname ▸ halias)
  refine ⟨g, hg, hname, ?_⟩
  rw [hfirst g hg hnone]
  have hcarried := hgroup.carried
  have hnonempty := hgroup.nonempty
  cases hdocs : group.2 with
  | nil =>
    rw [hnonempty hdocs] at hg
    cases hg
  | cons first others =>
    rw [hdocs] at hcarried
    cases hcarried with
    | cons hhead _ => exact (hhead g (mem_mentionedColumns_of_groupBy hg)).get_eq

theorem isProjectedTo (horder : aggregates.keys ⊆ order) (hrow : d.groupRow aggregates order members = .ok row) :
    d.IsProjectedTo aggregates accumulations members doc row := by
  obtain ⟨computed, hcomputed, hvalue, -⟩ := exists_computed_of_groupRow hrow
  have hnodup : accumulations.keys.Nodup := h.keys_eq ▸ h.readAs.nodup
  obtain ⟨out, hout, hvalues⟩ :=
    Document.exists_project (nodup_keys_projectRules _) (h.exists_projectField hgroup hdoc horder hcomputed)
  refine ⟨out, hout, fun name hname => ?_⟩
  rcases List.mem_append.mp hname with hname | hname
  · obtain ⟨c, hc, rfl⟩ := List.mem_map.mp hname
    have hnot : c.outputName ∉ aggregates.keys := fun hkey =>
      List.disjoint_of_nodup_append h.nodup (List.mem_map_of_mem hc) ((h.keys _).mp hkey)
    have hempty : aggregates.sumsNothing members c.outputName = false := by
      rw [Aggregates.sumsNothing, Entries.lookup_eq_none_of_notMem_keys hnot]
      rfl
    obtain ⟨g, hg, heq, hget⟩ := h.exists_get_groupRow hgroup hrow hc
    have hfield := h.projectField_key hgroup hdoc hg
    have hrule := mem_projectRules_of_groupBy hnodup h.isConsistent hg (h.keys_eq ▸ heq ▸ hnot)
    rw [hempty, ← heq]
    exact ⟨by rw [hvalues _ hrule _ hfield, hget]; rfl, nofun⟩
  · obtain ⟨result, hresult, rfl⟩ := List.mem_map.mp (h.keys_eq ▸ (h.keys _).mpr hname)
    obtain ⟨v, hv, hfound, hnull⟩ := h.projectField_accumulated hgroup hdoc horder hcomputed hresult
    rw [hvalue _ v hv]
    exact ⟨hvalues _ (mem_projectRules_of_accumulation hnodup hresult) _ hfound, hnull⟩

end

theorem okOr_groupDocument (hgroup : d.IsGroupOf aggregates group members) :
    Outcome.OkOr .overflow (fun _ => True) (Document.groupDocument (d.groupRules accumulations) group) := by
  rw [Document.groupDocument_eq, h.accumulatorRules_groupRules, List.mapM_map]
  refine (Outcome.OkOr.mapM fun result hresult => ?_).bind fun _ _ => trivial
  obtain ⟨entry, hentry, hby⟩ := exists_left_of_forall₂ h.accumulated hresult
  exact (h.corresponds hgroup hentry hby []).okOr_left.bind fun _ _ => trivial

theorem okOr_groupRow (hgroup : d.IsGroupOf aggregates group members) (order : List String) :
    Outcome.OkOr .overflow (fun _ => True) (d.groupRow aggregates order members) := by
  refine (okOr_computeAggregates order fun entry hentry before => ?_).bind fun _ _ => trivial
  obtain ⟨result, -, hby⟩ := exists_right_of_forall₂ h.accumulated hentry
  exact (h.corresponds hgroup hentry hby before).okOr_right

/-- A group has a document in the store if and only if it has a row in memory. -/
theorem corresponds_group (hgroup : d.IsGroupOf aggregates group members) (horder : aggregates.keys ⊆ order) :
    Outcome.Corresponds .overflow (d.IsProjectedTo aggregates accumulations members)
      (Document.groupDocument (d.groupRules accumulations) group) (d.groupRow aggregates order members) := by
  refine .of_exists (h.okOr_groupDocument hgroup) (h.okOr_groupRow hgroup order) (fun doc hdoc => ?_) fun row hrow => ?_
  · obtain ⟨computed, hcomputed⟩ : ∃ computed, computeAggregates aggregates order members = .ok computed := by
      refine exists_computeAggregates order fun entry hentry before => ?_
      obtain ⟨result, hresult, hby⟩ := exists_right_of_forall₂ h.accumulated hentry
      obtain ⟨accumulated, haccumulated, -⟩ := (h.lookup_groupDocument hdoc).2 result hresult
      obtain ⟨v, hv, -⟩ := (h.corresponds hgroup hentry hby before).exists_right haccumulated
      exact ⟨v, hv⟩
    have hrow : ∃ row, d.groupRow aggregates order members = .ok row := by
      rw [groupRow, hcomputed]
      exact ⟨_, rfl⟩
    obtain ⟨row, hrow⟩ := hrow
    exact ⟨row, hrow, h.isProjectedTo hgroup hdoc horder hrow⟩
  · obtain ⟨computed, hcomputed, -, -⟩ := exists_computed_of_groupRow hrow
    refine h.exists_groupDocument fun result hresult => ?_
    obtain ⟨entry, hentry, hby⟩ := exists_left_of_forall₂ h.accumulated hresult
    obtain ⟨before, v, hv, -⟩ := exists_lookup_computeAggregates hcomputed
      (Entries.lookup_of_mem h.readAs.nodup hentry) (horder (List.mem_map_of_mem hentry))
    obtain ⟨accumulated, haccumulated, -⟩ := (h.corresponds hgroup hentry hby before).exists_left hv
    exact ⟨accumulated, haccumulated⟩

end IsAccumulated

/-! ### The whole pipeline -/

/-- A description of one collection that groups and aggregates, and does nothing else. -/
structure OnlyAggregates (d : Description) (table : TableReference) (aggregates : Aggregates) : Prop where
  tables : d.tables = [table]
  hasAggregates : d.hasAggregates = true
  filters : d.filters = []
  having : d.having = []
  orderBy : d.orderBy = []
  limit : d.limit = none
  offset : d.offset = none
  isPlain : ∀ c ∈ d.mentionedColumns aggregates, Document.IsPlain c.column
  noId : "_id" ∉ d.allAggregates.map (·.aliasName)

section

variable {table : TableReference} {cleanup : Cleanup} {replacements : Entries String} {q : SourceQuery}

theorem accumulation_eq_ok {text : String} {a : AnalyzedAggregate} {result : Document.Accumulation}
    (h : Document.accumulation text a = .ok result) : a.aliasRefs = [] ∧ ∃ function args,
      a.simpleAggregate? = some (function, args) ∧ Document.accumulation? a.aliasName function args = some result := by
  rw [Document.accumulation] at h
  split at h
  · rename_i function args hcall
    split at h
    · cases h
    · rename_i hrefs
      split at h
      · rename_i haccumulation
        cases h
        exact ⟨by simpa using hrefs, function, args, hcall, haccumulation⟩
      · cases h
  · cases h

theorem OnlyAggregates.isEmpty_eq_false (h : d.OnlyAggregates table aggregates)
    (hkeys : ∀ key, key ∈ aggregates.keys ↔ key ∈ d.allAggregates.map (·.aliasName)) : aggregates.isEmpty = false := by
  have hhas := h.hasAggregates
  have hsome : d.allAggregates ≠ [] := fun hnone => by
    rw [hasAggregates_eq_false_iff.mpr hnone] at hhas
    cases hhas
  obtain ⟨a, ha⟩ := List.exists_mem_of_ne_nil _ hsome
  have hkey := (hkeys _).mpr (List.mem_map_of_mem ha)
  cases aggregates with
  | nil => cases hkey
  | cons => rfl

/-- What compiles is of one collection, and if it groups, every aggregate is accumulated. -/
theorem exists_groupStages (hgrouped : (aggregates.isEmpty && d.groupBy.isEmpty) = false)
    (hanalyzed : d.analyzedAggregates replacements = .ok aggregates)
    (hcompile : d.compilePipeline replacements = .ok q) :
    ∃ table condition having accumulations, d.tables = [table] ∧ List.Forall₂ IsAccumulatedBy aggregates accumulations
      ∧ q.statement = .pipeline table.table
        (matchStage condition ++ d.groupStages accumulations ++ matchStage having ++ d.sortStage ++ d.pageStages)
      ∧ (d.filters = [] → condition = none) ∧ (d.having = [] → having = none) := by
  obtain ⟨hread, -⟩ := readAs_of_analyzedAggregates hanalyzed
  rw [compilePipeline] at hcompile
  split at hcompile
  · rename_i table hsingle
    obtain ⟨htables, -⟩ := Prod.mk.inj hsingle
    obtain ⟨condition, hcondition, hcompile⟩ := exists_of_bind_eq_ok hcompile
    rw [hanalyzed] at hcompile
    change (if (aggregates.isEmpty && d.groupBy.isEmpty) = true then _ else (aggregates.mapM _ >>= _)) = _ at hcompile
    rw [hgrouped, if_neg Bool.false_ne_true] at hcompile
    obtain ⟨accumulations, haccumulations, hcompile⟩ := exists_of_bind_eq_ok hcompile
    obtain ⟨stages, hstages, hcompile⟩ := exists_of_bind_eq_ok hcompile
    obtain ⟨having, hhaving, hq⟩ := exists_of_bind_eq_ok hcompile
    cases hstages
    cases hq
    refine ⟨table, condition, having, accumulations, htables, ?_, rfl, fun hnone => ?_, fun hnone => ?_⟩
    · refine forall₂_imp_of_mem (Outcome.forall₂_of_mapM_eq_ok haccumulations) fun entry hentry result hresult => ?_
      obtain ⟨a, ha, heq⟩ := exists_of_bind_eq_ok hresult
      cases heq
      obtain ⟨hrefs, function, args, hcall, hresult⟩ := accumulation_eq_ok (CompileFailure.eq_ok_of_ofCompile ha)
      have halias : entry.2.aliasName = entry.1 :=
        congrArg AnalyzedAggregate.aliasName (hread.analyzed.analyzed entry hentry)
      exact ⟨rfl, hrefs, function, args, hcall, halias ▸ hresult⟩
    · rw [hnone] at hcondition
      exact (Except.ok.inj hcondition).symm
    · rw [hnone] at hhaving
      exact (Except.ok.inj hhaving).symm
  · cases hcompile

/-- What compiles only groups: every aggregate is accumulated. -/
theorem OnlyAggregates.exists_accumulations (h : d.OnlyAggregates table aggregates)
    (hanalyzed : d.analyzedAggregates replacements = .ok aggregates)
    (hcompile : d.compilePipeline replacements = .ok q) :
    ∃ accumulations, List.Forall₂ IsAccumulatedBy aggregates accumulations
      ∧ q.statement = .pipeline table.table (d.groupStages accumulations) := by
  have hgrouped : (aggregates.isEmpty && d.groupBy.isEmpty) = false := by
    rw [h.isEmpty_eq_false (readAs_of_analyzedAggregates hanalyzed).2, Bool.false_and]
  obtain ⟨table', condition, having, accumulations, htables, haccumulated, hstatement, hcondition, hhaving⟩ :=
    exists_groupStages hgrouped hanalyzed hcompile
  obtain rfl : table' = table := List.singleton_inj.mp (htables.symm.trans h.tables)
  obtain rfl := hcondition h.filters
  obtain rfl := hhaving h.having
  have hstages : d.sortStage = [] ∧ d.pageStages = [] := by
    rw [sortStage, h.orderBy, pageStages, h.offset, h.limit]
    exact ⟨rfl, rfl⟩
  refine ⟨accumulations, haccumulated, ?_⟩
  rw [hstatement, hstages.1, hstages.2]
  simp [matchStage]

theorem OnlyAggregates.isAccumulated (h : d.OnlyAggregates table aggregates)
    (hvalid : (d.validate cleanup).isValid = true)
    (hanalyzed : d.analyzedAggregates (d.validate cleanup).replacements = .ok aggregates)
    (haccumulated : List.Forall₂ IsAccumulatedBy aggregates accumulations) :
    d.IsAccumulated aggregates accumulations := by
  obtain ⟨haliases, -, -, -, hfindings, houtput, -, hgroups, -, -⟩ := isValid_iff.mp hvalid
  obtain ⟨hread, hkeys⟩ := readAs_of_analyzedAggregates hanalyzed
  have hconsistent : d.IsConsistent aggregates := by
    rw [Except.ok.inj (hanalyzed.symm.trans (analyzedAggregates_of_isValid hvalid))]
    exact isConsistent_of_isValid hvalid
  exact {
    isConsistent := hconsistent
    readAs := hread
    keys := hkeys
    nodup := by
      rw [outputErrors, List.map_eq_nil_iff] at houtput
      exact nodup_of_repeated_eq_nil houtput
    selected := fun c hc => mem_groupedNames_of_groupErrors_eq_nil hgroups h.hasAggregates hc
    isIdentifier := fun c hc => (aliasErrors_eq_nil_iff.mp haliases).1 _ (hconsistent.declared c hc)
    isPlain := h.isPlain
    isPlain_alias := fun key hkey => by
      obtain ⟨a, ha, rfl⟩ := List.mem_map.mp ((hkeys key).mp hkey)
      exact Document.isPlain_of_isIdentifier (isIdentifier_aliasName hfindings ha)
    noId := fun hid => h.noId ((hkeys "_id").mp hid)
    accumulated := haccumulated }

theorem OnlyAggregates.materialize_eq (h : d.OnlyAggregates table aggregates) (order : List String) (rows : List Row) :
    d.materialize aggregates order [] rows = (do
      let groups ← (groupRows d.groupedNames rows).mapM (d.groupRow aggregates order)
      return groups.map (Row.project d.outputNames)) := by
  have hgrouped : d.isGrouped = true := by
    rw [isGrouped, h.hasAggregates, Bool.true_or]
  have hpage : ∀ groups : List Row, d.page (sortRows d.sortColumns groups) = groups := by
    intro groups
    rw [page, sortColumns, h.orderBy, h.offset, h.limit]
    rfl
  have hgroups : d.groupedRows aggregates order rows
      = (groupRows d.groupedNames rows).mapM (d.groupRow aggregates order) := by
    rw [groupedRows, h.having]
    exact bind_pure _
  rw [materialize]
  change (if d.isGrouped = true then (d.groupedRows aggregates order rows >>= _) else _) = _
  rw [hgrouped, if_pos rfl, hgroups]
  refine congrArg _ (funext fun groups => ?_)
  exact congrArg (fun groups => Except.ok (groups.map (Row.project d.outputNames))) (hpage groups)

/-- Under the output names the projection has what the row has, with zero for the sums of nothing. -/
theorem project_eq_fillEmptySums {out : Row} (hnodup : d.outputNames.Nodup) (h : ∀ name ∈ d.outputNames,
      out.lookup name = some (if aggregates.sumsNothing members name then .integer 0 else Row.get row name)) :
    Row.project d.outputNames out = aggregates.fillEmptySums (.integer 0) members (Row.project d.outputNames row) := by
  rw [Aggregates.fillEmptySums, Row.project_of_nodup hnodup, Row.project_of_nodup hnodup, List.map_map]
  refine List.map_congr_left fun name hname => ?_
  rw [Row.get, h name hname]
  rfl

theorem fillEmptySums_null (hnodup : d.outputNames.Nodup)
    (h : ∀ name ∈ d.outputNames, aggregates.sumsNothing members name = true → Row.get row name = .null) :
    aggregates.fillEmptySums .null members (Row.project d.outputNames row) = Row.project d.outputNames row := by
  rw [Aggregates.fillEmptySums, Row.project_of_nodup hnodup, List.map_map]
  refine List.map_congr_left fun name hname => ?_
  change (name, if aggregates.sumsNothing members name = true then Value.null else Row.get row name) = _
  split
  · rename_i hempty
    rw [h name hname hempty]
  · rfl

/-- The rows of the groups are projected together. -/
theorem exists_mapM_project {pairs : List (Row × Row)} {groups : List (List Row)} (hnodup : d.outputNames.Nodup)
    (h : List.Forall₂ (fun members pair => d.IsProjectedTo aggregates accumulations members pair.1 pair.2)
      groups pairs) :
    ∃ found, (pairs.map (·.1)).mapM (Document.project (d.projectRules accumulations)) = .ok found
      ∧ (∀ row ∈ found, d.outputNames ⊆ row.keys)
      ∧ found.map (Row.project d.outputNames) = List.zipWith (aggregates.fillEmptySums (.integer 0)) groups
        (pairs.map fun pair => Row.project d.outputNames pair.2)
      ∧ List.zipWith (aggregates.fillEmptySums .null) groups (pairs.map fun pair => Row.project d.outputNames pair.2)
        = pairs.map fun pair => Row.project d.outputNames pair.2 := by
  induction h with
  | nil => exact ⟨[], rfl, List.forall_mem_nil _, rfl, rfl⟩
  | @cons members pair groups pairs hhead _ ih =>
    obtain ⟨found, hfound, hkeys, hzero, hnull⟩ := ih
    obtain ⟨out, hout, hnames⟩ := hhead
    refine ⟨out :: found, ?_, List.forall_mem_cons.mpr ⟨fun name hname => ?_, hkeys⟩, ?_, ?_⟩
    · rw [List.map_cons, List.mapM_cons, hout, hfound]
      rfl
    · exact List.mem_map.mpr ⟨_, Entries.mem_of_lookup_eq_some (hnames name hname).1, rfl⟩
    · rw [List.map_cons, List.map_cons, List.zipWith_cons_cons, hzero,
        project_eq_fillEmptySums hnodup fun name hname => (hnames name hname).1]
    · rw [List.map_cons, List.zipWith_cons_cons, hnull,
        fillEmptySums_null hnodup fun name hname => (hnames name hname).2]

/--
A store that runs the pipeline of a description with aggregates gives the rows that are materialized in memory, group by
group; if a number would have to be a double beyond their range, both fail. A sum over nothing but nulls is the
exception: it is zero in the store and null in memory.
-/
theorem pipeline_aggregates_as_materialized (hvalid : (d.validate cleanup).isValid = true)
    (hanalyzed : d.analyzedAggregates (d.validate cleanup).replacements = .ok aggregates)
    (hcompile : d.compilePipeline (d.validate cleanup).replacements = .ok q) (h : d.OnlyAggregates table aggregates)
    (hrows : List.Forall₂ (d.IsCarried aggregates) docs rows) :
    ∃ order stages, aggregates.dependencyOrder = .ok order ∧ q.statement = .pipeline table.table stages
      ∧ Outcome.Corresponds .overflow (fun found result => (∀ row ∈ found, d.outputNames ⊆ row.keys)
          ∧ found.map (Row.project d.outputNames)
            = List.zipWith (aggregates.fillEmptySums (.integer 0)) (groupRows d.groupedNames rows) result
          ∧ List.zipWith (aggregates.fillEmptySums .null) (groupRows d.groupedNames rows) result = result)
        (Document.runPipeline docs (stages.map .record)) (d.materialize aggregates order [] rows) := by
  obtain ⟨accumulations, haccumulated, hstatement⟩ := h.exists_accumulations hanalyzed hcompile
  have haccumulates := h.isAccumulated hvalid hanalyzed haccumulated
  have hconsistent := haccumulates.isConsistent
  obtain ⟨order, horder⟩ := exists_dependencyOrder_of_isValid hvalid
  rw [← Except.ok.inj (hanalyzed.symm.trans (analyzedAggregates_of_isValid hvalid))] at horder
  have hkeys : aggregates.keys ⊆ order := fun key hkey =>
    (Aggregates.ordered_of_dependencyOrder horder).2.mem_iff.mpr (Aggregates.keys_subset_names hkey)
  have hcanGroup : ∀ doc ∈ docs, d.CanGroup doc := by
    intro doc hdoc
    obtain ⟨row, -, hcarried⟩ := exists_right_of_forall₂ hrows hdoc
    exact {
      isIdentifier := fun g hg => haccumulates.isIdentifier g (mem_mentionedColumns_of_groupBy hg)
      isPlain := fun g hg => h.isPlain g (mem_mentionedColumns_of_groupBy hg)
      isHashable := fun g hg => (hcarried g (mem_mentionedColumns_of_groupBy hg)).number.isHashable }
  refine ⟨order, _, horder, hstatement, ?_⟩
  rw [runPipeline_groupStages, compiledRules_eq_groupRules (haccumulates.keys_eq ▸ haccumulates.readAs.nodup)
    (haccumulates.keys_eq ▸ haccumulates.noId), group_groupRules accumulations hcanGroup, h.materialize_eq]
  -- Only accumulating can fail, and then evaluating fails with it; so groups are related one by one.
  refine (Outcome.Corresponds.mapM ((forall₂_documentGroups hconsistent hrows).imp fun group members hgroup =>
    haccumulates.corresponds_group hgroup hkeys)).bind ?_
  rintro _ _ ⟨pairs, hpairs, rfl, rfl⟩
  obtain ⟨found, hfound, hresult⟩ := exists_mapM_project haccumulates.nodup hpairs
  rw [hfound, List.map_map]
  exact .ok hresult

end

/-! ### Orders by buyer -/

/-- The orders of a collection by who has made them: how many, and what they come to. -/
def ordersByBuyer : Description where
  tables := [⟨"o", "docs", "orders", none⟩]
  columns := [{ table := "o", column := "by" }]
  groupBy := [⟨"o", "by"⟩]
  aggregates := [⟨"COUNT(o.id)", "n"⟩, ⟨"SUM(o.amount)", "total"⟩]

open Expression in
/-- The aggregates of `ordersByBuyer`. -/
def ordersByBuyerAggregates : Aggregates :=
  [("n", .ofTree "n" ["n", "total"] (aggregate .count [column [⟨"o", false⟩] ⟨"id", false⟩])),
    ("total", .ofTree "total" ["n", "total"] (aggregate .sum [column [⟨"o", false⟩] ⟨"amount", false⟩]))]

theorem isValid_ordersByBuyer : (ordersByBuyer.validate .strip).isValid = true
    ∧ ordersByBuyer.analyzedAggregates (ordersByBuyer.validate .strip).replacements = .ok ordersByBuyerAggregates := by
  have htokens : Token.ofText? "SUM(o.amount)"
      = some [.word "SUM", .symbol "(", .word "o", .symbol ".", .word "amount", .symbol ")"] := by decide +kernel
  have haccepts : AggregateFindings.Accepts ["n", "total"] ["o"] "total" "SUM(o.amount)"
      (.ofTree "total" ["n", "total"] (.aggregate .sum [.column [⟨"o", false⟩] ⟨"amount", false⟩])) :=
    ⟨analyze_of_tokens htokens rfl nofun, by cbv, by simp only [AnalyzedAggregate.ofTree]; decide⟩
  have hfold : ordersByBuyer.allAggregates.zipIdx.foldl (AggregateFindings.check .strip
      (ordersByBuyer.allAggregates.map (·.aliasName)) ordersByBuyer.aliases) {}
        = { analyzed := ordersByBuyerAggregates } := by
    change AggregateFindings.check .strip ["n", "total"] ["o"]
      (AggregateFindings.check .strip ["n", "total"] ["o"] {} (⟨"COUNT(o.id)", "n"⟩, 0))
      (⟨"SUM(o.amount)", "total"⟩, 1) = _
    rw [AggregateFindings.check_of_accepts _ (by decide) (by decide +kernel) (accepts_orderCount _ (by decide)),
      AggregateFindings.check_of_accepts _ (by decide) (by decide +kernel) haccepts]
    rfl
  have horder : ordersByBuyerAggregates.dependencyOrder = .ok ["n", "total"] := by cbv
  have hfindings : ordersByBuyer.aggregateFindings .strip = { analyzed := ordersByBuyerAggregates } := by
    rw [aggregateFindings]
    simp only [hfold, horder]
  have hnames : ordersByBuyer.nameErrors ordersByBuyerAggregates = [] :=
    nameErrors_eq_nil_iff.mpr ⟨by decide +kernel, by decide⟩
  have hvalid : (ordersByBuyer.validate .strip).isValid = true := by
    rw [isValid_iff, hfindings]
    exact ⟨by cbv, by cbv, by cbv, by cbv, rfl, by cbv, hnames, by cbv, by cbv, by cbv⟩
  refine ⟨hvalid, ?_⟩
  rw [analyzedAggregates_of_isValid hvalid, hfindings]

/-- Two buyers, of whom one has made an order without an amount. -/
def buyerDocuments : List Row :=
  [[("id", .integer 1), ("by", .integer 7), ("amount", .integer 30)], [("id", .integer 2), ("by", .integer 8)],
    [("id", .integer 3), ("by", .integer 7), ("amount", .integer 12)]]

def buyerRows : List Row :=
  [[("o_by", .integer 7), ("o_id", .integer 1), ("o_amount", .integer 30)],
    [("o_by", .integer 8), ("o_id", .integer 2), ("o_amount", .null)],
    [("o_by", .integer 7), ("o_id", .integer 3), ("o_amount", .integer 12)]]

theorem onlyAggregates_ordersByBuyer :
    ordersByBuyer.OnlyAggregates ⟨"o", "docs", "orders", none⟩ ordersByBuyerAggregates where
  tables := rfl
  hasAggregates := rfl
  filters := rfl
  having := rfl
  orderBy := rfl
  limit := rfl
  offset := rfl
  isPlain := by decide
  noId := by decide

theorem forall₂_buyerRows :
    List.Forall₂ (ordersByBuyer.IsCarried ordersByBuyerAggregates) buyerDocuments buyerRows := by
  have hcolumns : ordersByBuyer.mentionedColumns ordersByBuyerAggregates
      = [⟨"o", "by"⟩, ⟨"o", "by"⟩, ⟨"o", "id"⟩, ⟨"o", "amount"⟩] := by decide
  have hcarried : ∀ {doc row}, (∀ c ∈ [ColumnRef.mk "o" "by", ⟨"o", "id"⟩, ⟨"o", "amount"⟩], c.IsCarried doc row) →
      ordersByBuyer.IsCarried ordersByBuyerAggregates doc row := by
    intro doc row hall
    rw [IsCarried, hcolumns]
    exact List.forall_mem_cons.mpr ⟨hall _ List.mem_cons_self, hall⟩
  refine .cons (hcarried ?_) (.cons (hcarried ?_) (.cons (hcarried ?_) .nil))
  · simp only [List.forall_mem_cons]
    exact ⟨⟨rfl, Or.inr (.integer _)⟩, ⟨rfl, Or.inr (.integer _)⟩, ⟨rfl, Or.inr (.integer _)⟩, List.forall_mem_nil _⟩
  · simp only [List.forall_mem_cons]
    exact ⟨⟨rfl, Or.inr (.integer _)⟩, ⟨rfl, Or.inr (.integer _)⟩, ⟨rfl, Or.inl rfl⟩, List.forall_mem_nil _⟩
  · simp only [List.forall_mem_cons]
    exact ⟨⟨rfl, Or.inr (.integer _)⟩, ⟨rfl, Or.inr (.integer _)⟩, ⟨rfl, Or.inr (.integer _)⟩, List.forall_mem_nil _⟩

/-- The order without an amount comes to zero in the store and to null in memory. -/
theorem ordersByBuyer_aggregated : (ordersByBuyer.validate .strip).isValid = true
    ∧ ordersByBuyer.OnlyAggregates ⟨"o", "docs", "orders", none⟩ ordersByBuyerAggregates
    ∧ List.Forall₂ (ordersByBuyer.IsCarried ordersByBuyerAggregates) buyerDocuments buyerRows
    ∧ ∃ q stages found result, ordersByBuyer.compilePipeline (ordersByBuyer.validate .strip).replacements = .ok q
      ∧ q.statement = .pipeline "orders" stages
      ∧ Document.runPipeline buyerDocuments (stages.map .record) = .ok found
      ∧ ordersByBuyer.materialize ordersByBuyerAggregates ["n", "total"] [] buyerRows = .ok result
      ∧ result = [[("o_by", .integer 7), ("n", .integer 2), ("total", .integer 42)],
        [("o_by", .integer 8), ("n", .integer 1), ("total", .null)]]
      ∧ found.map (Row.project ordersByBuyer.outputNames)
        = [[("o_by", .integer 7), ("n", .integer 2), ("total", .integer 42)],
          [("o_by", .integer 8), ("n", .integer 1), ("total", .integer 0)]] := by
  obtain ⟨hvalid, hanalyzed⟩ := isValid_ordersByBuyer
  have hcompile : ∃ q, ordersByBuyer.compilePipeline (ordersByBuyer.validate .strip).replacements = .ok q := by
    rw [compilePipeline, hanalyzed]
    exact ⟨_, rfl⟩
  obtain ⟨q, hcompile⟩ := hcompile
  obtain ⟨order, stages, horder, hstatement, hcorresponds⟩ :=
    pipeline_aggregates_as_materialized hvalid hanalyzed hcompile onlyAggregates_ordersByBuyer forall₂_buyerRows
  have horder' : ordersByBuyerAggregates.dependencyOrder = .ok ["n", "total"] := by cbv
  obtain rfl := Except.ok.inj (horder'.symm.trans horder)
  have hresult : ordersByBuyer.materialize ordersByBuyerAggregates ["n", "total"] [] buyerRows
      = .ok [[("o_by", .integer 7), ("n", .integer 2), ("total", .integer 42)],
        [("o_by", .integer 8), ("n", .integer 1), ("total", .null)]] := by cbv
  obtain ⟨found, hfound, -, hrows, -⟩ := hcorresponds.exists_left hresult
  exact ⟨hvalid, onlyAggregates_ordersByBuyer, forall₂_buyerRows, q, stages, found, _, hcompile, hstatement, hfound,
    hresult, rfl, hrows⟩

end Description

end QueryFederation

import QueryFederation.Proofs.Compilation.Aggregates
import QueryFederation.Proofs.Document.Accumulation
import QueryFederation.Proofs.Document.Stages
import QueryFederation.Proofs.Result.Grouping

/-!
# Groups of a collection

A description of one collection with aggregates becomes a pipeline that groups the documents, accumulates over every
group, and projects the keys and what was accumulated to the output names. In memory the same documents, as rows, are
grouped and the aggregates are evaluated. Where the fields are numbers or null, both come to the same groups in the same
order, with the same values, but for the sums of nothing.
-/

namespace QueryFederation

/-! ### Calls -/

namespace Expression

variable {e : Expression} {function : AggregateFunction} {args : List Expression}

theorem occurrences_of_simpleAggregate? (h : e.simpleAggregate? = some (function, args)) :
    e.occurrences 0 = (.call, 0) :: occurrencesOfAll 1 args := by
  fun_induction simpleAggregate? e with
  | case1 e ih => exact ih h
  | case2 function args =>
    cases h
    rfl
  | case3 => cases h

theorem evaluate_of_simpleAggregate? (h : e.simpleAggregate? = some (function, args)) (scope : Scope) :
    e.evaluate scope = (aggregate function args).evaluate scope := by
  fun_induction simpleAggregate? e with
  | case1 e ih =>
    rw [evaluate]
    exact ih h
  | case2 function args =>
    cases h
    rfl
  | case3 => cases h

end Expression

/-- Without aliases, a name in the call of an analyzed aggregate is a column that it reads. -/
theorem Aggregates.AreAnalyzed.mem_columns_of_call {aggregates : Aggregates} {known : List String}
    (h : aggregates.AreAnalyzed known) {entry : String × AnalyzedAggregate} (hentry : entry ∈ aggregates)
    (hrefs : entry.2.aliasRefs = []) {function : AggregateFunction} {args : List Expression}
    (hcall : entry.2.simpleAggregate? = some (function, args)) {qualifiers : List Identifier} {column : Identifier}
    (hname : (.reference (.ofNames qualifiers column), 1) ∈ Expression.occurrencesOfAll 1 args) :
    Expression.tableName qualifiers ≠ "" ∧ (Expression.tableName qualifiers, column.name) ∈ entry.2.columns := by
  have hmem : (.reference (.ofNames qualifiers column), 1) ∈ entry.2.tree.occurrences 0 := by
    rw [Expression.occurrences_of_simpleAggregate? hcall]
    exact List.mem_cons_of_mem _ hname
  rw [Expression.Reference.ofNames] at hmem
  split at hmem
  · have hused := (h.mem_aliasRefs hentry).mpr ⟨1, hmem⟩
    rw [hrefs] at hused
    cases hused
  · exact ⟨‹_›, h.mem_columns hentry hmem⟩

/-! ### Keys -/

namespace Value

theorem sameFields_of_lookup {columns : Entries String} {f g : String → Value} {others : Row}
    (h : ∀ entry ∈ columns, others.lookup entry.1 = some (g entry.2)) :
    sameFields (columns.map fun (name, column) => (name, f column)) others
      = columns.all fun entry => same (f entry.2) (g entry.2) := by
  induction columns with
  | nil => rfl
  | cons entry columns ih =>
    obtain ⟨hentry, hcolumns⟩ := List.forall_mem_cons.mp h
    rw [List.map_cons, sameFields, List.all_cons, ih hcolumns, hentry]

/-- Records of the same columns are equal if they are equal in every column. -/
theorem same_record {columns : Entries String} (h : columns.keys.Nodup) (f g : String → Value) :
    same (.record (columns.map fun (name, column) => (name, f column)))
        (.record (columns.map fun (name, column) => (name, g column)))
      = columns.all fun entry => same (f entry.2) (g entry.2) := by
  have hlookup : ∀ entry ∈ columns,
      (columns.map fun (name, column) => (name, g column)).lookup entry.1 = some (g entry.2) := by
    intro entry hentry
    refine Entries.lookup_of_mem ?_ (List.mem_map_of_mem hentry)
    rw [Entries.keys, List.map_map]
    exact h
  rw [same, List.length_map, List.length_map, sameFields_of_lookup hlookup, decide_eq_true rfl, Bool.true_and]

theorem Kind.HasOrNull.isHashable {v : Value} (h : Kind.number.HasOrNull v) : v.isHashable = true := by
  rcases h with hnull | hnumber
  · rw [eq_null_of_isNull hnull]
    rfl
  · cases hnumber <;> rfl

theorem Kind.HasOrNull.ofValue_eq {v : Value} (h : Kind.number.HasOrNull v) : GroupKey.ofValue v = .value v := by
  rcases h with hnull | hnumber
  · rw [eq_null_of_isNull hnull]
    rfl
  · cases hnumber <;> rfl

end Value

namespace Description

variable {d : Description} {aggregates : Aggregates} {docs rows : List Row} {doc row : Row}

/-- The fields that documents are grouped by, under their output names. -/
def keyColumns (d : Description) : Entries String := Entries.ofPairs (d.groupBy.map fun g => (g.outputName, g.column))

/-- What a document has as these fields. -/
def keyFields (d : Description) (doc : Row) : Row :=
  d.keyColumns.map fun (name, column) => (name, Row.get doc column)

/-- The key of the group that a document belongs to. -/
def documentKey (d : Description) (doc : Row) : Value :=
  if d.groupBy.isEmpty then .null else .record (d.keyFields doc)

theorem nodup_keys_keyColumns : d.keyColumns.keys.Nodup := Entries.nodup_keys_ofPairs _

theorem exists_of_mem_keyColumns {entry : String × String} (h : entry ∈ d.keyColumns) :
    ∃ g ∈ d.groupBy, entry = (g.outputName, g.column) := by
  rcases Entries.mem_of_mem_merge h with hnone | hmem
  · cases hnone
  · obtain ⟨g, hg, rfl⟩ := List.mem_map.mp hmem
    exact ⟨g, hg, rfl⟩

theorem mem_mentionedColumns_of_groupBy {g : ColumnRef} (hg : g ∈ d.groupBy) : g ∈ d.mentionedColumns aggregates := by
  simp only [mentionedColumns, referredColumns, List.mem_append]
  exact Or.inl (Or.inl (Or.inl (Or.inr hg)))

theorem mem_keyColumns (h : d.IsConsistent aggregates) {g : ColumnRef} (hg : g ∈ d.groupBy) :
    (g.outputName, g.column) ∈ d.keyColumns := by
  have hname : g.outputName ∈ d.keyColumns.keys := by
    rw [keyColumns, Entries.mem_keys_ofPairs, List.map_map]
    exact List.mem_map_of_mem hg
  obtain ⟨entry, hentry, hkey⟩ := List.mem_map.mp hname
  -- Another column under the same output name would have taken its place, but no two columns share a name.
  obtain ⟨g', hg', rfl⟩ := exists_of_mem_keyColumns hentry
  obtain rfl := h.eq_of_name g' (mem_mentionedColumns_of_groupBy hg') g (mem_mentionedColumns_of_groupBy hg) hkey
  exact hentry

theorem lookup_keyColumns (h : d.IsConsistent aggregates) (f : String → Value) {g : ColumnRef} (hg : g ∈ d.groupBy) :
    (d.keyColumns.map fun (name, column) => (name, f column)).lookup g.outputName = some (f g.column) := by
  refine Entries.lookup_of_mem ?_ (List.mem_map_of_mem (mem_keyColumns h hg))
  rw [Entries.keys, List.map_map]
  exact nodup_keys_keyColumns

theorem lookup_keyFields (h : d.IsConsistent aggregates) (doc : Row) {g : ColumnRef} (hg : g ∈ d.groupBy) :
    (d.keyFields doc).lookup g.outputName = some (Row.get doc g.column) :=
  lookup_keyColumns h (Row.get doc) hg

/-- Documents belong to one group if the rows that carry their fields do. -/
theorem same_documentKey (h : d.IsConsistent aggregates) {other otherRow : Row}
    (hdoc : ∀ g ∈ d.groupBy, g.IsCarried doc row) (hother : ∀ g ∈ d.groupBy, g.IsCarried other otherRow) :
    (d.documentKey doc).same (d.documentKey other)
      = GroupKey.sameList (GroupKey.ofRow d.groupedNames row) (GroupKey.ofRow d.groupedNames otherRow) := by
  have hsame : ∀ g ∈ d.groupBy, GroupKey.same (GroupKey.ofValue (Row.get row g.outputName))
      (GroupKey.ofValue (Row.get otherRow g.outputName)) = (Row.get doc g.column).same (Row.get other g.column) := by
    intro g hg
    rw [(hdoc g hg).get_eq, (hother g hg).get_eq, (hdoc g hg).number.ofValue_eq, (hother g hg).number.ofValue_eq]
    rfl
  rw [GroupKey.sameList_ofRow, documentKey, documentKey]
  split
  · rename_i hempty
    rw [groupedNames, List.isEmpty_iff.mp hempty]
    rfl
  · rw [keyFields, keyFields, Value.same_record nodup_keys_keyColumns, Bool.eq_iff_iff, List.all_eq_true, List.all_eq_true,
      groupedNames, List.forall_mem_map]
    constructor
    · intro hall g hg
      rw [hsame g hg]
      exact hall _ (mem_keyColumns h hg)
    · intro hall entry hentry
      obtain ⟨g, hg, rfl⟩ := exists_of_mem_keyColumns hentry
      rw [← hsame g hg]
      exact hall g hg

/-! ### Groups of documents -/

/-- Does a row carry every field of a document that the description mentions? -/
def IsCarried (d : Description) (aggregates : Aggregates) (doc row : Row) : Prop :=
  ∀ c ∈ d.mentionedColumns aggregates, c.IsCarried doc row

/-- The groups of documents, each with its key; without a key all documents are one group. -/
def documentGroups (d : Description) (docs : List Row) : Groups Value Row :=
  let groups := Groups.ofPairs Value.same (docs.map fun doc => (d.documentKey doc, doc))
  if d.groupBy.isEmpty && groups.isEmpty then [(.null, [])] else groups

/-- A group of documents, and the rows that carry its documents. -/
structure IsGroupOf (d : Description) (aggregates : Aggregates) (group : Value × List Row) (members : List Row) :
    Prop where
  key : group.1 = d.documentKey (group.2.headD [])
  carried : List.Forall₂ (d.IsCarried aggregates) group.2 members
  nonempty : group.2 = [] → d.groupBy = []

/-- Are two keys those of a document and of a row that carries it? -/
def AreKeys (d : Description) (aggregates : Aggregates) (key : Value) (other : List GroupKey) : Prop :=
  ∃ doc row, d.IsCarried aggregates doc row ∧ key = d.documentKey doc ∧ other = GroupKey.ofRow d.groupedNames row

theorem same_of_areKeys (h : d.IsConsistent aggregates) {k l : Value} {k' l' : List GroupKey}
    (hk : d.AreKeys aggregates k k') (hl : d.AreKeys aggregates l l') : k.same l = GroupKey.sameList k' l' := by
  obtain ⟨doc, row, hdoc, rfl, rfl⟩ := hk
  obtain ⟨other, otherRow, hother, rfl, rfl⟩ := hl
  exact same_documentKey h (fun g hg => hdoc g (mem_mentionedColumns_of_groupBy hg))
    fun g hg => hother g (mem_mentionedColumns_of_groupBy hg)

/-- Documents are grouped as their rows are. -/
theorem forall₂_documentGroups (h : d.IsConsistent aggregates)
    (hrows : List.Forall₂ (d.IsCarried aggregates) docs rows) :
    List.Forall₂ (d.IsGroupOf aggregates) (d.documentGroups docs) (groupRows d.groupedNames rows) := by
  have hpairs : List.Forall₂ (fun p p' => d.AreKeys aggregates p.1 p'.1 ∧ d.IsCarried aggregates p.2 p'.2)
      (docs.map fun doc => (d.documentKey doc, doc))
      (rows.map fun row => (GroupKey.ofRow d.groupedNames row, row)) := by
    rw [List.forall₂_map_left_iff, List.forall₂_map_right_iff]
    exact hrows.imp fun doc row hcarried => ⟨⟨doc, row, hcarried, rfl, rfl⟩, hcarried⟩
  have hgroups := Groups.forall₂_ofPairs (K := d.AreKeys aggregates) (fun _ _ _ _ => same_of_areKeys h) hpairs
  have hkeys : ∀ p ∈ docs.map fun doc => (d.documentKey doc, doc), p.1 = d.documentKey p.2 :=
    List.forall_mem_map.mpr fun _ _ => rfl
  have hfirst : ∀ g ∈ Groups.ofPairs Value.same (docs.map fun doc => (d.documentKey doc, doc)),
      ∃ first others, g.2 = first :: others ∧ g.1 = d.documentKey first :=
    Groups.exists_first_ofPairs (Q := fun key doc => key = d.documentKey doc) hkeys
  rw [documentGroups, groupRows]
  generalize Groups.ofPairs Value.same (docs.map fun doc => (d.documentKey doc, doc)) = groups at hgroups hfirst
  generalize Groups.ofPairs GroupKey.sameList (rows.map fun row => (GroupKey.ofRow d.groupedNames row, row)) = others
    at hgroups
  have hempty : others.isEmpty = groups.isEmpty := by
    cases hgroups <;> rfl
  simp only [groupedNames, List.isEmpty_map, hempty]
  split
  · rename_i hnone
    rw [Bool.and_eq_true] at hnone
    refine .cons ⟨?_, .nil, fun _ => List.isEmpty_iff.mp hnone.1⟩ .nil
    rw [documentKey, if_pos hnone.1]
  · rw [List.forall₂_map_right_iff]
    refine forall₂_imp_of_mem hgroups fun g hg other hother => ?_
    obtain ⟨first, rest, hitems, hkey⟩ := hfirst g hg
    exact ⟨by rw [hitems]; exact hkey, hother.2, fun hnil => by rw [hitems] at hnil; cases hnil⟩

/-! ### Stages -/

/-- What a store makes the key of a group of. -/
def keyRule (d : Description) : Value :=
  if d.groupBy.isEmpty then .null else .record (Document.pathRules d.keyColumns)

/-- What a store makes the document of a group of: the key, and what is accumulated. -/
def groupRules (d : Description) (accumulations : Entries Document.Accumulation) : Row :=
  ("_id", d.keyRule) :: accumulations.map fun (aliasName, a) => (aliasName, a.accumulator)

/-- How the fields of the key are found in the document of a group. -/
def keyPaths (d : Description) : Row := d.keyColumns.map fun (name, _) => (name, .text ("$_id." ++ name))

/-- What a store makes of the document of a group: the fields of the key, and what comes of the accumulated. -/
def projectRules (d : Description) (accumulations : Entries Document.Accumulation) : Row :=
  Entries.merge (Entries.merge [("_id", .integer 0)] d.keyPaths)
    (accumulations.map fun (aliasName, a) => (aliasName, a.projection))

theorem nodup_keys_keyPaths : d.keyPaths.keys.Nodup := by
  rw [keyPaths, Entries.keys, List.map_map]
  exact nodup_keys_keyColumns

theorem nodup_keys_projectRules (accumulations : Entries Document.Accumulation) :
    (d.projectRules accumulations).keys.Nodup :=
  Entries.nodup_keys_merge _ (Entries.nodup_keys_merge _ (List.nodup_singleton _))

/-- A rule of the projection drops the key, or it is for a column of the key or for what is accumulated. -/
theorem exists_of_mem_projectRules {accumulations : Entries Document.Accumulation} {rule : String × Value}
    (h : rule ∈ d.projectRules accumulations) : rule = ("_id", .integer 0)
      ∨ (∃ g ∈ d.groupBy, rule = (g.outputName, .text ("$_id." ++ g.outputName)))
      ∨ ∃ result ∈ accumulations, rule = (result.1, result.2.projection) := by
  rcases Entries.mem_of_mem_merge h with hkey | haccumulated
  · rcases Entries.mem_of_mem_merge hkey with hid | hkey
    · exact Or.inl (List.mem_singleton.mp hid)
    · obtain ⟨key, hmem, rfl⟩ := List.mem_map.mp hkey
      obtain ⟨g, hg, rfl⟩ := exists_of_mem_keyColumns hmem
      exact Or.inr (Or.inl ⟨g, hg, rfl⟩)
  · obtain ⟨result, hresult, rfl⟩ := List.mem_map.mp haccumulated
    exact Or.inr (Or.inr ⟨result, hresult, rfl⟩)

section

variable {accumulations : Entries Document.Accumulation} (hnodup : accumulations.keys.Nodup)

include hnodup

theorem nodup_keys_projections :
    (Entries.keys (accumulations.map fun (aliasName, a) => (aliasName, a.projection))).Nodup := by
  rw [Entries.keys, List.map_map]
  exact hnodup

theorem mem_projectRules_of_accumulation {result : String × Document.Accumulation} (hresult : result ∈ accumulations) :
    (result.1, result.2.projection) ∈ d.projectRules accumulations := by
  apply Entries.mem_of_lookup_eq_some
  rw [projectRules, Entries.lookup_merge _ (nodup_keys_projections hnodup),
    Entries.lookup_of_mem (nodup_keys_projections hnodup) (List.mem_map_of_mem hresult)]
  rfl

theorem mem_projectRules_of_groupBy (h : d.IsConsistent aggregates) {g : ColumnRef} (hg : g ∈ d.groupBy)
    (hout : g.outputName ∉ accumulations.keys) :
    (g.outputName, .text ("$_id." ++ g.outputName)) ∈ d.projectRules accumulations := by
  have hnone : (accumulations.map fun (aliasName, a) => (aliasName, a.projection)).lookup g.outputName = none := by
    apply Entries.lookup_eq_none_of_notMem_keys
    rw [Entries.keys, List.map_map]
    exact hout
  apply Entries.mem_of_lookup_eq_some
  rw [projectRules, Entries.lookup_merge _ (nodup_keys_projections hnodup), hnone, Option.none_or,
    Entries.lookup_merge _ nodup_keys_keyPaths,
    Entries.lookup_of_mem nodup_keys_keyPaths (List.mem_map_of_mem (mem_keyColumns h hg))]
  rfl

end

/-- The projection reads a field of the key. -/
theorem projectField_keyPath {doc fields : Row} (hid : doc.lookup "_id" = some (.record fields)) (name : String) :
    Document.projectField doc name (.text ("$_id." ++ name)) = .ok (some (Document.field fields name)) := by
  have hpath : Value.text ("$_id." ++ name) = Document.fieldPath ("_id" ++ "." ++ name) := by
    rw [Document.fieldPath, ← String.append_assoc, ← String.append_assoc]
    rfl
  rw [hpath, Document.projectField_fieldPath, Document.field_behind_point (by decide) hid]

theorem isEmpty_keyColumns (d : Description) : d.keyColumns.isEmpty = d.groupBy.isEmpty := by
  rw [Bool.eq_iff_iff, List.isEmpty_iff, List.isEmpty_iff]
  constructor
  · intro hnone
    refine List.eq_nil_iff_forall_not_mem.mpr fun g hg => ?_
    have hname : g.outputName ∈ d.keyColumns.keys := by
      rw [keyColumns, Entries.mem_keys_ofPairs, List.map_map]
      exact List.mem_map_of_mem hg
    rw [hnone] at hname
    cases hname
  · intro hnone
    rw [keyColumns, hnone]
    rfl

/-- The rules as they are put together: an accumulator under the name of the key takes its place. -/
def compiledRules (d : Description) (accumulations : Entries Document.Accumulation) : Row :=
  Entries.merge [("_id", d.keyRule)] (accumulations.map fun (aliasName, a) => (aliasName, a.accumulator))

theorem compiledRules_eq_groupRules {accumulations : Entries Document.Accumulation}
    (hnodup : accumulations.keys.Nodup) (hnoId : "_id" ∉ accumulations.keys) :
    d.compiledRules accumulations = d.groupRules accumulations := by
  apply Entries.merge_eq_append
  · rw [Entries.keys, List.map_map]
    exact hnodup
  · rw [Entries.keys, Entries.keys, List.map_map]
    exact List.singleton_disjoint.mpr hnoId

theorem foldl_put_projection (d : Description) (accumulations : Entries Document.Accumulation) :
    accumulations.foldl (fun project (name, a) => Entries.put project name a.projection)
      ((Document.pathRules d.keyColumns).foldl
        (fun project (name, _) => Entries.put project name (.text ("$_id." ++ name))) [("_id", .integer 0)])
      = d.projectRules accumulations := by
  rw [projectRules, keyPaths, Entries.merge, List.foldl_map, Entries.merge, List.foldl_map, Document.pathRules,
    List.foldl_map]

theorem groupStages_eq (d : Description) (accumulations : Entries Document.Accumulation) :
    d.groupStages accumulations = [[("$group", .record (d.compiledRules accumulations))],
      [("$project", .record (d.projectRules accumulations))]] := by
  have hkeys : Entries.ofPairs (d.groupBy.map fun g => (g.outputName, Document.fieldPath g.column))
      = Document.pathRules d.keyColumns := by
    rw [Document.pathRules, keyColumns, Entries.map_ofPairs, List.map_map]
    rfl
  have hid : (if (Document.pathRules d.keyColumns).isEmpty then Value.null
      else .record (Document.pathRules d.keyColumns)) = d.keyRule := by
    rw [keyRule, Document.pathRules, List.isEmpty_map, isEmpty_keyColumns]
  have hrules : accumulations.foldl (fun group (aliasName, a) => Entries.put group aliasName a.accumulator)
      [("_id", d.keyRule)] = d.compiledRules accumulations := by
    rw [compiledRules, Entries.merge, List.foldl_map]
  rw [groupStages, hkeys]
  dsimp only
  rw [hid, hrules, foldl_put_projection]

/-- The stages make documents of groups, and then a row of each. -/
theorem runPipeline_groupStages (d : Description) (accumulations : Entries Document.Accumulation) (docs : List Row) :
    Document.runPipeline docs ((d.groupStages accumulations).map .record) = (do
      let grouped ← Document.group (d.compiledRules accumulations) docs
      grouped.mapM (Document.project (d.projectRules accumulations))) := by
  rw [groupStages_eq]
  change (Document.group _ docs >>= fun grouped => Document.runPipeline grouped _) = _
  exact congrArg _ (funext fun grouped => Document.runPipeline_single grouped _)

theorem head_outputName {c : ColumnRef} (h : isIdentifier c.table = true) : c.outputName.toList.head? ≠ some '$' := by
  obtain ⟨first, rest, hchars, hfirst, -⟩ := Document.exists_chars_of_isIdentifier h
  have hname : c.outputName.toList = first :: (rest ++ "_".toList ++ c.column.toList) := by
    rw [ColumnRef.outputName, outputName, String.toList_append, String.toList_append, hchars]
    rfl
  rw [hname, List.head?_cons, Ne, Option.some.injEq]
  exact hfirst

/-- Can documents be grouped by the columns, because their names are plain and their values can be told apart? -/
structure CanGroup (d : Description) (doc : Row) : Prop where
  isIdentifier : ∀ g ∈ d.groupBy, isIdentifier g.table = true
  isPlain : ∀ g ∈ d.groupBy, Document.IsPlain g.column
  isHashable : ∀ g ∈ d.groupBy, (Row.get doc g.column).isHashable = true

/-- What a document has at the paths that are grouped by, under the output names. -/
def pathFields (d : Description) (doc : Row) : Row :=
  d.keyColumns.map fun (name, path) => (name, Document.field doc path)

theorem pathFields_eq_keyFields (h : ∀ g ∈ d.groupBy, Document.IsPlain g.column) (doc : Row) :
    d.pathFields doc = d.keyFields doc := by
  refine List.map_congr_left fun entry hentry => ?_
  obtain ⟨g, hg, rfl⟩ := exists_of_mem_keyColumns hentry
  exact congrArg _ (Document.field_of_isPlain doc (h g hg))

/-- The paths to the fields of the key lead to what the document has as them. -/
theorem evaluateFields_keyColumns (d : Description) (doc : Row) :
    Document.evaluateFields doc (Document.pathRules d.keyColumns) = .ok (d.pathFields doc) := by
  have hpaths : ∀ entry ∈ Document.pathRules d.keyColumns,
      Document.evaluate doc entry.2 = .ok (Document.plainValue doc entry.2) :=
    List.forall_mem_map.mpr fun _ _ => rfl
  rw [Document.evaluateFields_of_forall hpaths, Document.pathRules, List.map_map]
  exact congrArg Except.ok (List.map_congr_left fun entry _ =>
    congrArg (Prod.mk entry.1) (Document.plainValue_fieldPath doc entry.2))

theorem isHashable_pathFields (h : ∀ g ∈ d.groupBy, (Document.field doc g.column).isHashable = true) :
    ∀ entry ∈ d.pathFields doc, entry.2.isHashable = true := by
  refine List.forall_mem_map.mpr fun entry hentry => ?_
  obtain ⟨g, hg, rfl⟩ := exists_of_mem_keyColumns hentry
  exact h g hg

theorem groupKey_pathRules (hidentifier : ∀ g ∈ d.groupBy, isIdentifier g.table = true)
    (hhashable : ∀ g ∈ d.groupBy, (Document.field doc g.column).isHashable = true) :
    Document.groupKey (.record (Document.pathRules d.keyColumns)) doc = .ok (.record (d.pathFields doc)) := by
  have hhead : ∀ key ∈ (Document.pathRules d.keyColumns).keys, key.toList.head? ≠ some '$' := by
    intro key hkey
    rw [Document.pathRules, Entries.keys, List.map_map] at hkey
    obtain ⟨entry, hentry, rfl⟩ := List.mem_map.mp hkey
    obtain ⟨g, hg, rfl⟩ := exists_of_mem_keyColumns hentry
    exact head_outputName (hidentifier g hg)
  rw [Document.groupKey, if_neg (by exact Bool.false_ne_true), Document.evaluate_record hhead,
    evaluateFields_keyColumns]
  change (Document.requireKey (.record _) >>= _) = _
  rw [Document.requireKey, if_pos (List.all_eq_true.mpr (isHashable_pathFields hhashable))]
  rfl

theorem groupKey_keyRule (h : d.CanGroup doc) : Document.groupKey d.keyRule doc = .ok (d.documentKey doc) := by
  rw [keyRule, documentKey]
  split
  · rfl
  · rw [groupKey_pathRules h.isIdentifier, pathFields_eq_keyFields h.isPlain]
    intro g hg
    rw [Document.field_of_isPlain doc (h.isPlain g hg)]
    exact h.isHashable g hg

/-- Documents that can be grouped are grouped by their fields. -/
theorem group_groupRules (accumulations : Entries Document.Accumulation) (h : ∀ doc ∈ docs, d.CanGroup doc) :
    Document.group (d.groupRules accumulations) docs
      = (d.documentGroups docs).mapM (Document.groupDocument (d.groupRules accumulations)) := by
  have hpairs : docs.mapM (fun doc => do return (← Document.groupKey d.keyRule doc, doc))
      = .ok (docs.map fun doc => (d.documentKey doc, doc)) := by
    refine Outcome.mapM_of_forall fun doc hdoc => ?_
    rw [groupKey_keyRule (h doc hdoc)]
    rfl
  have hnull : d.keyRule.isNull = d.groupBy.isEmpty := by
    rw [keyRule]
    cases d.groupBy.isEmpty <;> rfl
  rw [documentGroups, ← hnull]
  change (docs.mapM (fun doc => do return (← Document.groupKey d.keyRule doc, doc)) >>= _) = _
  rw [hpairs]
  rfl

end Description

end QueryFederation

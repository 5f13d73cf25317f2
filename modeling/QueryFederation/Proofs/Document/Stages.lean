import QueryFederation.Proofs.Compilation.Folds
import QueryFederation.Proofs.Document.Field
import QueryFederation.Proofs.Result.Materialization
import QueryFederation.Proofs.Row.Merge
import QueryFederation.Proofs.Value.Sum
import QueryFederation.Source.Documents

/-!
# Stages of pipelines

What the stages do that descriptions are compiled to: documents are matched, projected to fields, sorted and counted off
as rows are in memory. The documents at the end all have the output names as their fields, in order, so decoding gives
them back as they are.
-/

namespace QueryFederation

namespace Document

variable {docs : List Row}

theorem runPipeline_append (docs : List Row) (first second : List Value) :
    runPipeline docs (first ++ second) = runPipeline docs first >>= fun found => runPipeline found second :=
  List.foldlM_append ..

theorem runPipeline_single (docs : List Row) (stage : Value) : runPipeline docs [stage] = runStage stage docs :=
  bind_pure _

/-! ### Matching -/

theorem runPipeline_matchStage (docs : List Row) (query : Option Row) :
    runPipeline docs ((Description.matchStage query).map .record) = docs.filterM fun doc => accepts doc query := by
  cases query with
  | none =>
    have hkept : docs.filterM (fun doc => accepts doc none) = .ok (docs.filter fun _ => true) :=
      Outcome.filterM_of_forall fun doc _ => rfl
    rw [hkept, List.filter_eq_self.mpr fun _ _ => rfl]
    rfl
  | some q => exact runPipeline_single docs (.record [("$match", .record q)])

/-! ### Projecting -/

/-- Fields by their names, each with the path of what it is in a document. -/
def pathRules (columns : List (String × String)) : Row := columns.map fun (name, path) => (name, fieldPath path)

theorem projectField_fieldPath (doc : Row) (name path : String) :
    projectField doc name (fieldPath path) = .ok (some (field doc path)) := by
  rw [projectField, if_neg (by simp [fieldPath, Value.same, Value.number?]),
    if_neg (by simp [fieldPath, Value.same, Value.number?]), evaluate_fieldPath]
  rfl

/-- Projects one field more. -/
def projectStep (doc out : Row) (entry : String × Value) : Outcome Row := do
  match ← projectField doc entry.1 entry.2 with
  | some v => return Entries.put out entry.1 v
  | none => return out

theorem project_eq (rules doc : Row) : project rules doc = rules.foldlM (projectStep doc) [] := rfl

theorem projectStep_eq {doc : Row} {name : String} {rule : Value} {found : Option Value}
    (h : projectField doc name rule = .ok found) (out : Row) :
    projectStep doc out (name, rule) = .ok (found.elim out (Entries.put out name)) := by
  rw [projectStep, h]
  cases found <;> rfl

theorem project_pathRules (columns : List (String × String)) (doc : Row) :
    project (pathRules columns) doc
      = .ok (Entries.ofPairs (columns.map fun (name, path) => (name, field doc path))) := by
  rw [project_eq, pathRules, List.foldlM_map, Entries.ofPairs, List.foldl_map]
  refine Outcome.foldlM_of_forall (fun column _ out => ?_) []
  exact projectStep_eq (projectField_fieldPath doc column.1 column.2) out

/-- If every rule comes to something, there is under its name what it comes to. -/
theorem exists_project {rules : Row} (hnodup : rules.keys.Nodup) {doc : Row}
    (h : ∀ entry ∈ rules, ∃ found, projectField doc entry.1 entry.2 = .ok found) :
    ∃ out, project rules doc = .ok out
      ∧ ∀ entry ∈ rules, ∀ v, projectField doc entry.1 entry.2 = .ok (some v) → out.lookup entry.1 = some v := by
  have hfold : ∀ start : Row, ∃ out, rules.foldlM (projectStep doc) start = .ok out
      ∧ (∀ entry ∈ rules, ∀ v, projectField doc entry.1 entry.2 = .ok (some v) → out.lookup entry.1 = some v)
      ∧ ∀ name ∉ rules.keys, out.lookup name = start.lookup name := by
    induction rules with
    | nil => exact fun start => ⟨start, rfl, List.forall_mem_nil _, fun _ _ => rfl⟩
    | cons entry rules ih =>
      obtain ⟨hname, hrest⟩ := List.nodup_cons.mp hnodup
      obtain ⟨⟨found, hfound⟩, hrules⟩ := List.forall_mem_cons.mp h
      intro start
      obtain ⟨out, hout, hvalues, hothers⟩ := ih hrest hrules (found.elim start (Entries.put start entry.1))
      refine ⟨out, ?_, List.forall_mem_cons.mpr ⟨fun v hv => ?_, hvalues⟩, fun other hother => ?_⟩
      · rw [List.foldlM_cons, projectStep_eq hfound]
        exact hout
      · rw [hfound] at hv
        cases hv
        rw [hothers entry.1 hname]
        exact (Entries.lookup_put ..).trans (if_pos rfl)
      · rw [Entries.keys, List.map_cons, List.mem_cons, not_or] at hother
        rw [hothers other hother.2]
        cases found with
        | none => rfl
        | some v => exact (Entries.lookup_put ..).trans (if_neg hother.1)
  obtain ⟨out, hout, hvalues, -⟩ := hfold []
  exact ⟨out, hout, hvalues⟩

/-! ### Sorting -/

/-- Does every row have a value of one kind under the name, or none? -/
def IsSortable (name : String) (rows : List Row) : Prop :=
  ∃ kind : Value.Kind, ∀ row ∈ rows, kind.HasOrNull (Row.get row name)

theorem isDownward_direction (isDescending : Bool) :
    isDownward (.integer (if isDescending then -1 else 1)) = .ok isDescending := by
  cases isDescending <;> rfl

theorem areComparable_of_has {kind : Value.Kind} {vs : List Value} (h : ∀ v ∈ vs, kind.Has v) :
    areComparable vs = true := by
  induction vs with
  | nil => rfl
  | cons v vs ih =>
    obtain ⟨hv, hvs⟩ := List.forall_mem_cons.mp h
    rw [areComparable, ih hvs, Bool.and_true, List.all_eq_true]
    intro w hw
    obtain ⟨o, ho⟩ := Value.Kind.exists_order hv (hvs w hw)
    rw [ho]
    rfl

theorem mergeSort_congr {α : Type} {le le' : α → α → Bool} {items : List α}
    (h : ∀ a ∈ items, ∀ b ∈ items, le a b = le' a b) : items.mergeSort le = items.mergeSort le' := by
  simpa using List.map_mergeSort (f := id) h

/-- Documents with values of one kind are sorted as rows are. -/
theorem sortBy_eq_sortByColumn {name : String} {rows : List Row} (h : IsSortable name rows) (isDescending : Bool) :
    sortBy name (.integer (if isDescending then -1 else 1)) rows = .ok (sortByColumn ⟨name, isDescending⟩ rows) := by
  obtain ⟨kind, hkind⟩ := h
  have hpresent : ∀ row ∈ rows.filter fun row => !(Row.get row name).isNull, kind.Has (Row.get row name) := by
    intro row hrow
    obtain ⟨hmem, hnull⟩ := List.mem_filter.mp hrow
    exact (hkind row hmem).has (by simpa using hnull)
  have hcomparable : areComparable ((rows.filter fun row => !(Row.get row name).isNull).map fun row => Row.get row name)
      = true := areComparable_of_has (List.forall_mem_map.mpr hpresent)
  have hsorted : (rows.filter fun row => !(Row.get row name).isNull).mergeSort (fun a b =>
        if isDescending then !before (Row.get a name) (Row.get b name) else !before (Row.get b name) (Row.get a name))
      = (rows.filter fun row => !(Row.get row name).isNull).mergeSort (SortColumn.allows ⟨name, isDescending⟩) := by
    refine mergeSort_congr fun a ha b hb => ?_
    rw [SortColumn.allows, Value.Kind.sortKey_before (hpresent a ha) (hpresent b hb),
      Value.Kind.sortKey_before (hpresent b hb) (hpresent a ha)]
  rw [sortBy, isDownward_direction]
  change (if !areComparable _ then _ else _) = _
  rw [hcomparable, sortByColumn, ← hsorted]
  rfl

theorem mem_sortRows {columns : List SortColumn} {rows : List Row} {row : Row} :
    row ∈ sortRows columns rows ↔ row ∈ rows :=
  (sortRows_perm columns rows).mem_iff

/-- Sorting by the last field first leaves the documents as rows sorted by all columns. -/
theorem foldlM_sortBy {orders : List OrderBy} {rows : List Row} (h : ∀ o ∈ orders, IsSortable o.target rows) :
    (orders.map fun o => (o.target, Value.integer (if o.isDescending then -1 else 1))).reverse.foldlM
        (fun docs (name, direction) => sortBy name direction docs) rows
      = .ok (sortRows (orders.map fun o => ⟨o.target, o.isDescending⟩) rows) := by
  induction orders with
  | nil => rfl
  | cons o orders ih =>
    obtain ⟨⟨kind, hkind⟩, horders⟩ := List.forall_mem_cons.mp h
    have hsortable : IsSortable o.target (sortRows (orders.map fun o => ⟨o.target, o.isDescending⟩) rows) :=
      ⟨kind, fun row hrow => hkind row (mem_sortRows.mp hrow)⟩
    rw [List.map_cons, List.reverse_cons, List.foldlM_append, ih horders]
    exact (bind_pure _).trans (sortBy_eq_sortByColumn hsortable o.isDescending)

theorem runPipeline_sortStage {d : Description} {rows : List Row} (hnodup : (d.orderBy.map (·.target)).Nodup)
    (h : ∀ o ∈ d.orderBy, IsSortable o.target rows) :
    runPipeline rows (d.sortStage.map .record) = .ok (sortRows d.sortColumns rows) := by
  have hfields : Entries.ofPairs (d.orderBy.map fun o => (o.target, Value.integer (if o.isDescending then -1 else 1)))
      = d.orderBy.map fun o => (o.target, Value.integer (if o.isDescending then -1 else 1)) := by
    apply Entries.ofPairs_eq_self
    rw [List.map_map]
    exact hnodup
  rw [Description.sortStage, Description.sortColumns]
  split
  · rename_i hempty
    rw [List.isEmpty_iff.mp hempty]
    rfl
  · rw [hfields]
    exact (runPipeline_single rows _).trans (foldlM_sortBy h)

/-! ### Pages -/

theorem runPipeline_skipStages (offset : Option Nat) (docs : List Row) :
    runPipeline docs ((match offset with
      | none | some 0 => []
      | some n => [[("$skip", Value.integer n)]]).map .record) = .ok (docs.drop (offset.getD 0)) := by
  rcases offset with _ | _ | n
  · rfl
  · rfl
  · exact runPipeline_single docs (.record [("$skip", .integer ((n + 1 : Nat) : Int))])

theorem runPipeline_limitStages (limit : Option Nat) (docs : List Row) :
    runPipeline docs ((match limit with
      | none => []
      | some n => [[("$limit", Value.integer n)]]).map .record)
      = .ok (match limit with
        | some limit => docs.take limit
        | none => docs) := by
  cases limit with
  | none => rfl
  | some n => exact runPipeline_single docs (.record [("$limit", .integer n)])

theorem runPipeline_pageStages (d : Description) (rows : List Row) :
    runPipeline rows (d.pageStages.map .record) = .ok (d.page rows) := by
  rw [Description.pageStages, List.map_append, runPipeline_append]
  refine (congrArg (fun found => found >>= fun docs => runPipeline docs _)
    (runPipeline_skipStages d.offset rows)).trans ?_
  exact runPipeline_limitStages d.limit _

end Document

/-! ### Decoding -/

/-- A row is what it has under its own keys. -/
theorem Row.project_keys {row : Row} (h : row.keys.Nodup) : Row.project row.keys row = row := by
  have hpairs : row.keys.map (fun key => (key, Row.get row key)) = row := by
    rw [Entries.keys, List.map_map]
    refine (List.map_congr_left fun entry hentry => ?_).trans (List.map_id row)
    rw [Function.comp_apply, Row.get, Entries.lookup_of_mem h hentry]
    rfl
  rw [Row.project, hpairs]
  exact Entries.ofPairs_eq_self h

theorem eraseDups_of_nodup {names : List String} (h : names.Nodup) : names.eraseDups = names := by
  induction names with
  | nil => rfl
  | cons name names ih =>
    obtain ⟨hname, hnames⟩ := List.nodup_cons.mp h
    have hothers : names.filter (fun other => !other == name) = names := by
      refine List.filter_eq_self.mpr fun other hother => ?_
      have hne : other ≠ name := fun heq => hname (heq ▸ hother)
      simpa using hne
    rw [List.eraseDups_cons, hothers, ih hnames]

/-- The columns of documents that all have the same fields are those fields. -/
theorem columnsOf_of_keys {names : List String} (hnodup : names.Nodup) {docs : List Row} (hne : docs ≠ [])
    (hkeys : ∀ doc ∈ docs, doc.keys = names) : Table.columnsOf docs = names := by
  obtain ⟨doc, others, rfl⟩ := List.exists_cons_of_ne_nil hne
  obtain ⟨hdoc, hothers⟩ := List.forall_mem_cons.mp hkeys
  have hnone : (others.flatMap Entries.keys).removeAll names = [] := by
    refine List.filter_eq_nil_iff.mpr fun name hname => ?_
    obtain ⟨other, hother, hmem⟩ := List.mem_flatMap.mp hname
    rw [hothers other hother] at hmem
    simpa using hmem
  rw [Table.columnsOf, List.flatMap_cons, List.eraseDups_append, hdoc, hnone, eraseDups_of_nodup hnodup]
  exact List.append_nil names

/-- Documents that have the output names as fields, in order, are decoded as they are. -/
theorem decodeRows_rowsOfDocuments {names : List String} (hnodup : names.Nodup) {docs : List Row}
    (hkeys : ∀ doc ∈ docs, doc.keys = names) (source : Option String) :
    decodeRows (Connector.rowsOfDocuments names docs) source names = .ok docs := by
  have hcolumns : Connector.rowsOfDocuments names docs = ⟨names, docs.map fun doc => names.map (Row.get doc)⟩ := by
    have hfound : (if (Table.columnsOf docs).isEmpty then names else Table.columnsOf docs) = names := by
      by_cases hne : docs = []
      · rw [hne]
        rfl
      · rw [columnsOf_of_keys hnodup hne hkeys, ite_self]
    rw [Connector.rowsOfDocuments, hfound]
  have hmissing : names.filter (fun name => !names.contains name) = [] := by
    refine List.filter_eq_nil_iff.mpr fun name hname => ?_
    simpa using hname
  have hrow : ∀ doc ∈ docs, (do
      let pairs ← names.mapM fun name => do
        return (name, ← valueAt (names.map (Row.get doc)) (names.idxOf name))
      return Entries.ofPairs pairs) = Except.ok doc := by
    intro doc hdoc
    have hvalue : ∀ name ∈ names, (do return (name, ← valueAt (names.map (Row.get doc)) (names.idxOf name)) : Outcome _)
        = .ok (name, Row.get doc name) := by
      intro name hname
      have hplace : names.idxOf name < names.length := List.idxOf_lt_length_iff.mpr hname
      rw [valueAt, List.getElem?_map, List.getElem?_eq_getElem hplace, List.getElem_idxOf]
      rfl
    rw [Outcome.mapM_of_forall hvalue]
    have hproject : Row.project names doc = doc := hkeys doc hdoc ▸ Row.project_keys (hkeys doc hdoc ▸ hnodup)
    exact congrArg Except.ok hproject
  rw [hcolumns, decodeRows]
  dsimp only
  rw [hmissing, List.mapM_map]
  refine (Outcome.mapM_of_forall hrow).trans ?_
  rw [List.map_id']

end QueryFederation

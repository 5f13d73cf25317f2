import QueryFederation.Compilation.Aggregates
import QueryFederation.Proofs.Row.Merge
import QueryFederation.Validation.Aggregates

/-!
# Aggregates without a complaint

If the check of the aggregates of a description has found no error, every one of them has been read without a problem
and mentions declared tables only. Reading them again for compilation, with the texts that the check puts in place of
theirs, succeeds and gives the aggregates that were checked. Aliases have to be distinct for that, since replacements
are kept by alias.
-/

namespace QueryFederation

namespace AggregateFindings

variable {cleanup : Cleanup} {known tables : List String} {index : Nat} {aliasName text : String} {f : AggregateFindings}

/-- The text that is read for an aggregate. -/
def readText (text : String) : String := if Expression.hasBrackets text then Expression.stripBrackets text else text

/-- The replacements after an aggregate. -/
def replacing (replacements : Entries String) (aliasName text : String) : Entries String :=
  if Expression.hasBrackets text then Entries.put replacements aliasName (Expression.stripBrackets text) else replacements

/-- Has the aggregate been read without a problem, and does it mention declared tables only? -/
structure Accepts (known tables : List String) (aliasName text : String) (a : AnalyzedAggregate) : Prop where
  read : AnalyzedAggregate.analyze aliasName text known = .ok a
  problems : a.problems = []
  declared : ∀ c ∈ a.columns, c.1 ∈ tables

/-- Reads an aggregate once more, by the replacement of its text. -/
def readAgain (known : List String) (replacements : Entries String) (analyzed : Aggregates) (a : AggregateExpression) :
    Except CompileError Aggregates := do
  let text := (replacements.lookup a.aliasName).getD a.expression
  return Entries.put analyzed a.aliasName (← Description.analyzeAggregate known a.aliasName text)

theorem Accepts.analyzeAggregate {a : AnalyzedAggregate} (h : Accepts known tables aliasName text a) :
    Description.analyzeAggregate known aliasName text = .ok a := by
  rw [Description.analyzeAggregate, h.read]
  simp only [h.problems]

theorem errors_error_ne_nil (f : AggregateFindings) (v : Violation) : (f.error v).errors ≠ [] := List.concat_ne_nil _ _

theorem analyze_of_errors_eq_nil (h : (f.analyze known tables index aliasName text).errors = []) :
    f.errors = [] ∧ ∃ a, Accepts known tables aliasName text a
      ∧ f.analyze known tables index aliasName text = { f with analyzed := Entries.put f.analyzed aliasName a } := by
  rw [analyze] at h ⊢
  cases hread : AnalyzedAggregate.analyze aliasName text known with
  | error cause =>
    rw [hread] at h
    exact absurd h (errors_error_ne_nil _ _)
  | ok a =>
    rw [hread] at h
    simp only [List.append_eq_nil_iff, List.map_eq_nil_iff] at h
    obtain ⟨⟨hf, hproblems⟩, hundeclared⟩ := h
    refine ⟨hf, a, ⟨hread, hproblems, fun c hc => ?_⟩, ?_⟩
    · rw [List.filter_eq_nil_iff] at hundeclared
      simpa using hundeclared ⟨c.1, c.2⟩ (List.mem_mergeSort.mpr (List.mem_map_of_mem hc))
    · simp only [hproblems, hundeclared, List.map_nil, List.append_nil]

/-- What a check has done that leaves no error behind. -/
theorem check_of_errors_eq_nil (h : (f.check cleanup known tables (⟨text, aliasName⟩, index)).errors = []) :
    f.errors = [] ∧ isIdentifier aliasName = true ∧ ∃ a, Accepts known tables aliasName (readText text) a
      ∧ (f.check cleanup known tables (⟨text, aliasName⟩, index)).analyzed = Entries.put f.analyzed aliasName a
      ∧ (f.check cleanup known tables (⟨text, aliasName⟩, index)).replacements
        = replacing f.replacements aliasName text := by
  have hidentifier : ∀ {g : AggregateFindings},
      g = (if isIdentifier aliasName then f else f.error (.invalidAggregateAlias index aliasName)) →
      g.errors = [] → isIdentifier aliasName = true ∧ g = f := by
    rintro g rfl hg
    split at hg
    · exact ⟨‹_›, if_pos ‹_›⟩
    · exact absurd hg (errors_error_ne_nil _ _)
  rw [check] at h ⊢
  generalize hg : (if isIdentifier aliasName then f else f.error (.invalidAggregateAlias index aliasName)) = g at h ⊢
  rw [readText, replacing]
  cases hbrackets : Expression.hasBrackets text with
  | true =>
    cases cleanup with
    | reject =>
      simp only [hbrackets, if_true] at h
      exact absurd h (errors_error_ne_nil _ _)
    | strip =>
      simp only [hbrackets, if_true] at h ⊢
      obtain ⟨hf, a, haccepts, heq⟩ := analyze_of_errors_eq_nil h
      obtain ⟨halias, rfl⟩ := hidentifier hg.symm hf
      exact ⟨hf, halias, a, haccepts, by rw [heq], by rw [heq]⟩
  | false =>
    simp only [hbrackets, Bool.false_eq_true, if_false] at h ⊢
    obtain ⟨hf, a, haccepts, heq⟩ := analyze_of_errors_eq_nil h
    obtain ⟨halias, rfl⟩ := hidentifier hg.symm hf
    exact ⟨hf, halias, a, haccepts, by rw [heq], by rw [heq]⟩

/-- What the check of an aggregate does that is accepted as it is written. -/
theorem check_of_accepts {a : AnalyzedAggregate} (f : AggregateFindings) (hidentifier : isIdentifier aliasName = true)
    (hbrackets : Expression.hasBrackets text = false) (h : Accepts known tables aliasName text a) :
    f.check cleanup known tables (⟨text, aliasName⟩, index)
      = { f with analyzed := Entries.put f.analyzed aliasName a } := by
  have hdeclared : ((a.columns.map fun column => ColumnRef.mk column.1 column.2).mergeSort ColumnRef.le).filter
      (fun c => !tables.contains c.table) = [] := by
    rw [List.filter_eq_nil_iff]
    intro c hc
    obtain ⟨column, hcolumn, rfl⟩ := List.mem_map.mp (List.mem_mergeSort.mp hc)
    simpa using h.declared column hcolumn
  simp only [check, hidentifier, hbrackets, if_true, Bool.false_eq_true, if_false, analyze, h.read, h.problems,
    hdeclared, List.map_nil, List.append_nil]

theorem errors_eq_nil_of_foldl_check {items : List (AggregateExpression × Nat)}
    (h : (items.foldl (check cleanup known tables) f).errors = []) : f.errors = [] := by
  induction items generalizing f with
  | nil => exact h
  | cons item items ih =>
    obtain ⟨⟨text, aliasName⟩, index⟩ := item
    exact (check_of_errors_eq_nil (ih h)).1

/-- Checks that leave no error behind have found no alias that needs quotes. -/
theorem isIdentifier_of_foldl_check {items : List (AggregateExpression × Nat)}
    (h : (items.foldl (check cleanup known tables) f).errors = []) :
    ∀ item ∈ items, isIdentifier item.1.aliasName = true := by
  induction items generalizing f with
  | nil => exact List.forall_mem_nil _
  | cons item items ih =>
    obtain ⟨⟨text, aliasName⟩, index⟩ := item
    exact List.forall_mem_cons.mpr ⟨(check_of_errors_eq_nil (errors_eq_nil_of_foldl_check h)).2.1, ih h⟩

/--
Checks that leave no error behind have read every aggregate, and reading it by the replacements is the same: they give
the text that was read.
-/
theorem foldl_check_of_errors_eq_nil {items : List AggregateExpression} (start : Nat) {final : AggregateFindings}
    (hfinal : (items.zipIdx start).foldl (check cleanup known tables) f = final) (h : final.errors = [])
    (hnodup : (items.map (·.aliasName)).Nodup) (hfresh : ∀ item ∈ items, f.replacements.lookup item.aliasName = none) :
    (∀ key ∉ items.map (·.aliasName), final.replacements.lookup key = f.replacements.lookup key)
      ∧ items.foldlM (readAgain known final.replacements) f.analyzed = .ok final.analyzed
      ∧ (∀ entry ∈ final.analyzed, entry ∈ f.analyzed ∨ ∀ c ∈ entry.2.columns, c.1 ∈ tables)
      ∧ ∀ item ∈ items, (final.replacements.lookup item.aliasName).getD item.expression = readText item.expression := by
  induction items generalizing f start with
  | nil =>
    cases hfinal
    exact ⟨fun _ _ => rfl, rfl, fun _ => Or.inl, List.forall_mem_nil _⟩
  | cons item items ih =>
    obtain ⟨text, aliasName⟩ := item
    obtain ⟨hitem, hitems⟩ := List.nodup_cons.mp hnodup
    obtain ⟨hhead, hfresh⟩ := List.forall_mem_cons.mp hfresh
    rw [List.zipIdx_cons, List.foldl_cons] at hfinal
    obtain ⟨-, -, a, haccepts, hanalyzed, hreplacements⟩ :=
      check_of_errors_eq_nil (errors_eq_nil_of_foldl_check (hfinal ▸ h))
    have hothers : ∀ key, key ≠ aliasName →
        (f.check cleanup known tables (⟨text, aliasName⟩, start)).replacements.lookup key = f.replacements.lookup key := by
      intro key hkey
      rw [hreplacements, replacing]
      split
      · rw [Entries.lookup_put, if_neg hkey]
      · rfl
    have hnext : ∀ item ∈ items,
        (f.check cleanup known tables (⟨text, aliasName⟩, start)).replacements.lookup item.aliasName = none := by
      intro item hmem
      have hne : item.aliasName ≠ aliasName := by
        rintro rfl
        exact hitem (List.mem_map.mpr ⟨item, hmem, rfl⟩)
      rw [hothers _ hne]
      exact hfresh item hmem
    obtain ⟨hkeeps, hread, hdeclared, htexts⟩ := ih (start + 1) hfinal hitems hnext
    have htext : (final.replacements.lookup aliasName).getD text = readText text := by
      rw [hkeeps aliasName hitem, hreplacements, replacing, readText]
      split
      · rw [Entries.lookup_put, if_pos rfl, Option.getD_some]
      · rw [hhead, Option.getD_none]
    refine ⟨fun key hkey => ?_, ?_, fun entry hentry => ?_, List.forall_mem_cons.mpr ⟨htext, htexts⟩⟩
    · rw [List.map_cons, List.mem_cons, not_or] at hkey
      rw [hkeeps key hkey.2, hothers key hkey.1]
    · rw [List.foldlM_cons, readAgain, htext, haccepts.analyzeAggregate]
      rw [hanalyzed] at hread
      exact hread
    · rcases hdeclared entry hentry with hmem | hcolumns
      · rw [hanalyzed] at hmem
        rcases Entries.mem_of_mem_put hmem with rfl | hmem
        · exact Or.inr haccepts.declared
        · exact Or.inl hmem
      · exact Or.inr hcolumns

/-! ### Replacements -/

theorem replacements_analyze (f : AggregateFindings) (index : Nat) (aliasName text : String) :
    (f.analyze known tables index aliasName text).replacements = f.replacements := by
  rw [analyze]
  cases AnalyzedAggregate.analyze aliasName text known <;> rfl

theorem replacements_check (f : AggregateFindings) (item : AggregateExpression × Nat) :
    (f.check .strip known tables item).replacements = replacing f.replacements item.1.aliasName item.1.expression := by
  obtain ⟨⟨text, aliasName⟩, index⟩ := item
  have hidentifier :
      (if isIdentifier aliasName then f else f.error (.invalidAggregateAlias index aliasName)).replacements
        = f.replacements := by
    split <;> rfl
  rw [check, replacing]
  cases hbrackets : Expression.hasBrackets text with
  | true => simp only [if_true, replacements_analyze, hidentifier]
  | false => simp only [Bool.false_eq_true, if_false, replacements_analyze, hidentifier]

/-- The replacements after some aggregates. -/
def replacingAll (replacements : Entries String) (items : List AggregateExpression) : Entries String :=
  items.foldl (fun replacements a => replacing replacements a.aliasName a.expression) replacements

theorem replacements_foldl_check (f : AggregateFindings) (items : List AggregateExpression) (start : Nat) :
    ((items.zipIdx start).foldl (check .strip known tables) f).replacements = replacingAll f.replacements items := by
  induction items generalizing f start with
  | nil => rfl
  | cons item items ih =>
    rw [List.zipIdx_cons, List.foldl_cons, ih, replacements_check]
    rfl

end AggregateFindings

namespace Description

variable {d : Description} {cleanup : Cleanup}

theorem aggregateFindings_of_errors_eq_nil (h : (d.aggregateFindings cleanup).errors = []) :
    d.allAggregates.zipIdx.foldl (AggregateFindings.check cleanup (d.allAggregates.map (·.aliasName)) d.aliases) {}
      = d.aggregateFindings cleanup := by
  rw [aggregateFindings] at h ⊢
  split at h
  · rfl
  · exact absurd h (AggregateFindings.errors_error_ne_nil _ _)

/-- What compilation reads is what validation has checked. -/
theorem analyzedAggregates_of_errors_eq_nil (h : (d.aggregateFindings cleanup).errors = [])
    (hnodup : (d.allAggregates.map (·.aliasName)).Nodup) :
    d.analyzedAggregates (d.aggregateFindings cleanup).replacements = .ok (d.aggregateFindings cleanup).analyzed :=
  (AggregateFindings.foldl_check_of_errors_eq_nil 0 (aggregateFindings_of_errors_eq_nil h) h hnodup fun _ _ => rfl).2.1

/-- The replacements give every aggregate the text that validation has read. -/
theorem readText_of_errors_eq_nil (h : (d.aggregateFindings cleanup).errors = [])
    (hnodup : (d.allAggregates.map (·.aliasName)).Nodup) {a : AggregateExpression} (ha : a ∈ d.allAggregates) :
    ((d.aggregateFindings cleanup).replacements.lookup a.aliasName).getD a.expression
      = AggregateFindings.readText a.expression :=
  (AggregateFindings.foldl_check_of_errors_eq_nil 0 (aggregateFindings_of_errors_eq_nil h) h hnodup
    fun _ _ => rfl).2.2.2 a ha

theorem isIdentifier_aliasName (h : (d.aggregateFindings cleanup).errors = []) {a : AggregateExpression}
    (ha : a ∈ d.allAggregates) : isIdentifier a.aliasName = true := by
  have hfold := aggregateFindings_of_errors_eq_nil h
  obtain ⟨i, hi, rfl⟩ := List.getElem_of_mem ha
  have hmem : (d.allAggregates[i], i) ∈ d.allAggregates.zipIdx :=
    List.mk_mem_zipIdx_iff_getElem?.mpr (List.getElem?_eq_getElem hi)
  exact AggregateFindings.isIdentifier_of_foldl_check (hfold ▸ h) _ hmem

theorem declared_of_mem_analyzed (h : (d.aggregateFindings cleanup).errors = [])
    (hnodup : (d.allAggregates.map (·.aliasName)).Nodup) {entry : String × AnalyzedAggregate}
    (hentry : entry ∈ (d.aggregateFindings cleanup).analyzed) {c : String × String} (hc : c ∈ entry.2.columns) :
    c.1 ∈ d.aliases := by
  obtain ⟨-, -, hdeclared, -⟩ :=
    AggregateFindings.foldl_check_of_errors_eq_nil 0 (aggregateFindings_of_errors_eq_nil h) h hnodup fun _ _ => rfl
  exact (hdeclared entry hentry).resolve_left (List.not_mem_nil) c hc

theorem replacements_validate (d : Description) :
    (d.validate .strip).replacements = AggregateFindings.replacingAll [] d.allAggregates := by
  change (d.aggregateFindings .strip).replacements = _
  rw [aggregateFindings]
  split <;> exact AggregateFindings.replacements_foldl_check {} d.allAggregates 0

end Description

end QueryFederation

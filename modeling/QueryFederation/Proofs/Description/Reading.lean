import Mathlib
import QueryFederation.Description.Reading
import QueryFederation.Proofs.Outcome

/-!
# Descriptions that read as they are written

Reading a description is lenient: numbers and truth values may be texts, names of fields have a second spelling, limits
of -1 are none, and a primary table that is missing or empty is the first one. All of this is gone once a description
has been read. It has a table and names its primary table, and a description that does so is read as it is written, by
every field on its own. So reading once normalizes, and reading what was written changes nothing more.
-/

namespace QueryFederation

variable {α β : Type}

/-! ### Readings that succeed -/

namespace Checked

theorem map_eq_ok {f : α → β} {x : Checked α} {b : β} : f <$> x = .ok b ↔ ∃ a, x = .ok a ∧ f a = b := by
  cases x with
  | ok a =>
    change ok (f a) = ok b ↔ _
    simp
  | bad problems =>
    change bad problems = ok b ↔ _
    simp

theorem seq_eq_ok {f : Checked (α → β)} {x : Checked α} {b : β} :
    f <*> x = .ok b ↔ ∃ g, f = .ok g ∧ ∃ a, x = .ok a ∧ g a = b := by
  cases f with
  | ok g =>
    cases x with
    | ok a =>
      change ok (g a) = ok b ↔ _
      simp
    | bad problems =>
      change bad problems = ok b ↔ _
      simp
  | bad problems =>
    cases x with
    | ok a =>
      change bad problems = ok b ↔ _
      simp
    | bad more =>
      change bad (problems ++ more) = ok b ↔ _
      simp

@[simp] theorem map_ok (f : α → β) (a : α) : f <$> ok a = ok (f a) := rfl

@[simp] theorem ok_seq_ok (f : α → β) (a : α) : (ok f <*> ok a) = ok (f a) := rfl

@[simp] theorem under_ok (step : PathStep) (a : α) : (ok a).under step = ok a := rfl

theorem under_eq_ok {step : PathStep} {x : Checked α} {a : α} : x.under step = .ok a ↔ x = .ok a := by
  cases x <;> simp [under]

theorem andThen_eq_ok {x : Checked α} {f : α → Checked β} {b : β} :
    x.andThen f = .ok b ↔ ∃ a, x = .ok a ∧ f a = .ok b := by
  cases x <;> simp [andThen]

end Checked

namespace Read

open Description

/-! ### Parts that read as they are written -/

theorem items_map {read : Value → Checked α} {write : α → Value} {xs : List α}
    (h : ∀ x ∈ xs, read (write x) = .ok x) (index : Nat) : items read index (xs.map write) = .ok xs := by
  induction xs generalizing index with
  | nil => rfl
  | cons x xs ih =>
    obtain ⟨hx, hxs⟩ := List.forall_mem_cons.mp h
    rw [List.map_cons, items, hx, ih hxs]
    rfl

theorem list_map {read : Value → Checked α} {write : α → Value} (h : ∀ x, read (write x) = .ok x) (xs : List α) :
    list read (.list (xs.map write)) = .ok xs :=
  items_map (fun x _ => h x) 0

@[simp] theorem optional_optionalText (s : Option String) : optional text (optionalText s) = .ok s := by
  cases s <;> rfl

@[simp] theorem page_optionalNat (n : Option Nat) : page (optionalNat n) = .ok n := by
  cases n with
  | none => rfl
  | some n => rfl

theorem tableReference_record (t : TableReference) : tableReference (.record
    [("alias", .text t.aliasName), ("source_id", .text t.sourceId), ("table", .text t.table),
     ("schema", optionalText t.schema)]) = .ok t := by
  obtain ⟨aliasName, sourceId, table, _ | schema⟩ := t <;> rfl

theorem selectedColumn_record (c : SelectedColumn) : selectedColumn (.record
    [("table", .text c.table), ("column", .text c.column), ("label", optionalText c.label),
     ("selected", .boolean c.isSelected)]) = .ok c := by
  obtain ⟨⟨table, column⟩, _ | label, isSelected⟩ := c <;> rfl

theorem joinCondition_record (j : JoinCondition) : joinCondition (.record
    [("left_table", .text j.leftTable), ("left_column", .text j.leftColumn), ("right_table", .text j.rightTable),
     ("right_column", .text j.rightColumn), ("join_type", .text j.kind.name)]) = .ok j := by
  obtain ⟨leftTable, leftColumn, rightTable, rightColumn, kind⟩ := j
  cases kind <;> rfl

theorem filterPredicate_record (f : FilterPredicate) : filterPredicate (.record
    [("table", .text f.table), ("column", .text f.column), ("operator", .text f.operator.name), ("value", f.value),
     ("connective", .text f.connective.name)]) = .ok f := by
  obtain ⟨table, column, operator, value, connective⟩ := f
  cases operator <;> cases connective <;> rfl

theorem columnRef_record (c : ColumnRef) :
    columnRef (.record [("table", .text c.table), ("column", .text c.column)]) = .ok c := rfl

theorem aggregateExpression_record (a : AggregateExpression) : aggregateExpression (.record
    [("expression", .text a.expression), ("alias", .text a.aliasName)]) = .ok a := rfl

theorem columnAggregate_record (a : ColumnAggregate) : columnAggregate (.record
    [("function", .text a.function.name), ("table", .text a.table), ("column", .text a.column),
     ("distinct", .boolean a.isDistinct), ("alias", optionalText a.aliasName)]) = .ok a := by
  obtain ⟨function, table, column, isDistinct, _ | aliasName⟩ := a <;> cases function <;> rfl

theorem havingPredicate_record (h : HavingPredicate) : havingPredicate (.record
    [("target", .text h.target), ("operator", .text h.operator.name), ("value", h.value),
     ("connective", .text h.connective.name)]) = .ok h := by
  obtain ⟨target, operator, value, connective⟩ := h
  cases operator <;> cases connective <;> rfl

theorem orderBy_record (o : OrderBy) : Read.orderBy (.record
    [("target", .text o.target), ("direction", .text (directionName o.isDescending))]) = .ok o := by
  obtain ⟨target, _ | _⟩ := o <;> rfl

theorem tables_map {tables : List TableReference} (hne : tables ≠ []) : Read.tables (.list (tables.map fun t => .record
    [("alias", .text t.aliasName), ("source_id", .text t.sourceId), ("table", .text t.table),
     ("schema", optionalText t.schema)])) = .ok tables := by
  rw [Read.tables, list_map tableReference_record]
  exact if_neg (by simpa using hne)

/-- A description with a table reads as it is written, field by field. -/
theorem description_toRecord {d : Description} (hne : d.tables ≠ []) : description d.toRecord = .ok d := by
  have htables := tables_map hne
  have hcolumns := list_map selectedColumn_record d.columns
  have hjoins := list_map joinCondition_record d.joins
  have hfilters := list_map filterPredicate_record d.filters
  have hgroupBy := list_map columnRef_record d.groupBy
  have haggregates := list_map aggregateExpression_record d.aggregates
  have hcolumnAggregates := list_map columnAggregate_record d.columnAggregates
  have hhaving := list_map havingPredicate_record d.having
  have horderBy := list_map orderBy_record d.orderBy
  simp [description, toRecord, record, descriptionFields, required, defaulted, List.lookup, htables, hcolumns, hjoins,
    hfilters, hgroupBy, haggregates, hcolumnAggregates, hhaving, horderBy]

/-! ### What is known of what has been read -/

variable {row : Row} {name : String} {a : α}

theorem required_eq_ok {read : Value → Checked α} :
    required row name read = .ok a ↔ ∃ v, row.lookup name = some v ∧ read v = .ok a := by
  rw [required]
  cases row.lookup name with
  | none => simp [Checked.problem, Checked.under]
  | some v => simp [Checked.under_eq_ok]

/-- A text that may be missing is there, if what it is read from is not empty. -/
theorem exists_of_optional_text {v : Value} {s : Option String} (h : optional text v = .ok s)
    (hv : v.isFalsy = false) : ∃ t, s = some t ∧ t ≠ "" := by
  cases v with
  | null => cases hv
  | text t =>
    cases h
    refine ⟨t, rfl, ?_⟩
    rintro rfl
    cases hv
  | _ => cases h

theorem exists_first_of_tables {v : Value} {tables : List TableReference} (h : Read.tables v = .ok tables) :
    ∃ first others t ts, v = .list (first :: others) ∧ tableReference first = .ok t ∧ tables = t :: ts := by
  obtain ⟨found, hlist, h⟩ := Checked.andThen_eq_ok.mp h
  cases v with
  | list vs =>
    cases vs with
    | nil =>
      cases hlist
      cases h
    | cons first others =>
      rw [list, items, Checked.seq_eq_ok] at hlist
      obtain ⟨_, hfirst, ts, -, rfl⟩ := hlist
      obtain ⟨t, hread, rfl⟩ := Checked.map_eq_ok.mp hfirst
      cases h
      exact ⟨first, others, t, ts, rfl, Checked.under_eq_ok.mp hread, rfl⟩
  | _ => cases hlist

theorem firstAlias_of_tableReference {v : Value} {t : TableReference} (h : tableReference v = .ok t) :
    firstAlias v = .text t.aliasName := by
  cases v with
  | record row =>
    simp only [tableReference, record, Checked.seq_eq_ok, Checked.map_eq_ok, required_eq_ok] at h
    obtain ⟨_, ⟨_, ⟨_, ⟨aliasName, ⟨v, hlookup, hread⟩, rfl⟩, _, -, rfl⟩, _, -, rfl⟩, _, -, rfl⟩ := h
    cases v with
    | text s =>
      cases hread
      rw [firstAlias, Row.get, hlookup]
      rfl
    | _ => cases hread
  | _ => cases h

theorem fields_of_description {d : Description} (h : descriptionFields row = .ok d) :
    required row "tables" Read.tables = .ok d.tables
      ∧ defaulted row "primary_table" (optional text) none = .ok d.primaryTable := by
  simp only [descriptionFields, Checked.seq_eq_ok, Checked.map_eq_ok] at h
  obtain ⟨_, ⟨_, ⟨_, ⟨_, ⟨_, ⟨_, ⟨_, ⟨_, ⟨_, ⟨_, ⟨_, ⟨_, htables, rfl⟩, _, hprimary, rfl⟩, _, -, rfl⟩, _, -, rfl⟩,
    _, -, rfl⟩, _, -, rfl⟩, _, -, rfl⟩, _, -, rfl⟩, _, -, rfl⟩, _, -, rfl⟩, _, -, rfl⟩, _, -, rfl⟩ := h
  exact ⟨htables, hprimary⟩

end Read

namespace Description

variable {d : Description} {row row' : Row}

/-- Does the description have a table, and name the table that it starts from? -/
structure IsNormal (d : Description) : Prop where
  tables : d.tables ≠ []
  primary : d.primaryTable = some d.primary

/-! ### Primary tables -/

theorem lookup_tables_of_withPrimary (h : withPrimary row = .ok row') : row'.lookup "tables" = row.lookup "tables" := by
  rw [withPrimary] at h
  dsimp only at h
  split at h
  · cases h
    rfl
  · split at h
    · cases h
      rfl
    · split at h <;> cases h <;> rw [Entries.lookup_put, if_neg (by decide)]

/-- A primary table that is missing or empty is filled in by the first one. -/
theorem primary_of_withPrimary {first : Value} {others : List Value} (h : withPrimary row = .ok row')
    (htables : row'.lookup "tables" = some (.list (first :: others))) :
    (Row.get row' "primary_table").isFalsy = false ∨ row'.lookup "primary_table" = some (firstAlias first) := by
  have hget : Row.get row "tables" = .list (first :: others) := by
    rw [Row.get, ← lookup_tables_of_withPrimary h, htables]
    rfl
  rw [withPrimary, hget] at h
  dsimp only at h
  split at h
  · rename_i hpresent
    cases h
    exact Or.inl (by simpa using hpresent)
  · cases h
    rw [Entries.lookup_put, if_pos rfl]
    exact Or.inr rfl

/-- The fields that have been filled in read as a normal description. -/
theorem isNormal_of_descriptionFields (h : withPrimary row = .ok row') (hread : Read.descriptionFields row' = .ok d) :
    d.IsNormal := by
  obtain ⟨htables, hprimary⟩ := Read.fields_of_description hread
  obtain ⟨v, hlookup, htables⟩ := Read.required_eq_ok.mp htables
  obtain ⟨first, others, t, ts, rfl, hfirst, htables⟩ := Read.exists_first_of_tables htables
  refine ⟨by simp [htables], ?_⟩
  rw [Read.defaulted] at hprimary
  rcases primary_of_withPrimary h hlookup with hpresent | hfilled
  · rw [Row.get] at hpresent
    cases hrow : row'.lookup "primary_table" with
    | none =>
      rw [hrow] at hpresent
      cases hpresent
    | some v =>
      rw [hrow, Option.getD_some] at hpresent
      rw [hrow] at hprimary
      obtain ⟨s, hs, hne⟩ := Read.exists_of_optional_text (Checked.under_eq_ok.mp hprimary) hpresent
      rw [primary, hs]
      simp
  · rw [hfilled, Read.firstAlias_of_tableReference hfirst] at hprimary
    have hname : d.primaryTable = some t.aliasName := (Checked.ok.inj hprimary).symm
    rw [primary, hname, htables]
    by_cases hempty : t.aliasName = ""
    · simp [hempty]
    · simp

theorem ofData_eq_ok {origin : Origin} {v : Value} :
    ofData origin v = .ok d ↔ ∃ w, prepared v = .ok w ∧ Read.description w = .ok d := by
  constructor
  · intro h
    obtain ⟨w, hw, h⟩ := exists_of_bind_eq_ok h
    refine ⟨w, hw, ?_⟩
    cases hread : Read.description w with
    | ok found =>
      rw [hread] at h
      cases h
      rfl
    | bad problems =>
      rw [hread] at h
      cases h
  · rintro ⟨w, hw, hread⟩
    simp [ofData, hw, hread, Checked.toExcept, bind, Except.bind, pure, Except.pure]

/-- What has been read is normal. -/
theorem isNormal_of_ofData {origin : Origin} {v : Value} (h : ofData origin v = .ok d) : d.IsNormal := by
  obtain ⟨w, hw, hread⟩ := ofData_eq_ok.mp h
  cases v with
  | record row =>
    obtain ⟨row', hrow, rfl⟩ : ∃ row', withPrimary row = .ok row' ∧ Value.record row' = w := by
      cases hrow : withPrimary row with
      | ok row' =>
        rw [prepared, hrow] at hw
        cases hw
        exact ⟨row', rfl, rfl⟩
      | error e =>
        rw [prepared, hrow] at hw
        cases hw
    exact isNormal_of_descriptionFields hrow hread
  | _ =>
    cases hw
    cases hread

theorem isNormal_of_ofValue {v : Value} (h : ofValue v = .ok d) : d.IsNormal := by
  cases v with
  | text s =>
    rw [ofValue] at h
    cases hdata : Json.ofText? s with
    | some data =>
      rw [hdata] at h
      exact isNormal_of_ofData h
    | none =>
      rw [hdata] at h
      cases h
  | _ => exact isNormal_of_ofData h

/-! ### Reading what is written -/

/-- Nothing has to be filled in, or only an empty alias in the place of an empty alias. -/
theorem prepared_toRecord (h : d.IsNormal) : prepared d.toRecord = .ok d.toRecord := by
  obtain ⟨htables, hprimary⟩ := h
  by_cases hempty : d.primary = ""
  · rw [hempty] at hprimary
    obtain ⟨t, ts, htables⟩ := List.exists_cons_of_ne_nil htables
    have halias : t.aliasName = "" := by
      rw [primary, hprimary, htables] at hempty
      simpa using hempty
    simp [prepared, toRecord, withPrimary, Row.get, List.lookup, Except.map, hprimary, htables, halias, optionalText,
      Value.isFalsy, firstAlias, Entries.put]
  · simp [prepared, toRecord, withPrimary, Row.get, List.lookup, Except.map, hprimary, hempty, optionalText,
      Value.isFalsy]

theorem ofValue_toRecord (h : d.IsNormal) : ofValue d.toRecord = .ok d :=
  ofData_eq_ok.mpr ⟨_, prepared_toRecord h, Read.description_toRecord h.tables⟩

/-- Whatever a description has been read from, be it a record or JSON text: it is normal, and it reads as it is
written. -/
theorem reading_normalizes {v : Value} (h : ofValue v = .ok d) : d.IsNormal ∧ ofValue d.toRecord = .ok d := by
  have hnormal := isNormal_of_ofValue h
  exact ⟨hnormal, ofValue_toRecord hnormal⟩

/-- Two orders at most, as a careless client asks for them: without a primary table, with the other name of the schema,
with a text and a number for truth values, a double for the limit and -1 for no offset. -/
def carelessOrders : Value :=
  .record [
    ("tables", .list [.record
      [("alias", .text "o"), ("source_id", .text "shop"), ("table", .text "orders"), ("schema_name", .text "sales")]]),
    ("primary_table", .text ""),
    ("columns", .list [
      .record [("table", .text "o"), ("column", .text "id"), ("selected", .text "Yes")],
      .record [("table", .text "o"), ("column", .text "amount"), ("selected", .integer 0)]]),
    ("limit", .double (.finite 2)),
    ("offset", .integer (-1))]

def carefulOrders : Description where
  tables := [{ aliasName := "o", sourceId := "shop", table := "orders", schema := some "sales" }]
  primaryTable := some "o"
  columns := [{ table := "o", column := "id" }, { table := "o", column := "amount", isSelected := false }]
  limit := some 2

theorem carelessOrders_normalized : ofValue carelessOrders = .ok carefulOrders
    ∧ carefulOrders.IsNormal ∧ ofValue carefulOrders.toRecord = .ok carefulOrders :=
  have h : ofValue carelessOrders = .ok carefulOrders := rfl
  ⟨h, reading_normalizes h⟩

end Description

end QueryFederation

import QueryFederation.Compilation.Sql
import QueryFederation.Proofs.Filter.Agreement
import QueryFederation.Proofs.Value.Order
import QueryFederation.Result.Materialization
import QueryFederation.Table.Evaluation

/-!
# Filters by lists

In SQL a value is among items if it is equal to the first or to the second and so on, where equality with null is
unknown. So a null among the items never makes a value one of them, but it leaves open whether any other value is none
of them. In memory a null among the items is just an item that no value is equal to. So the two agree on which values
are among items, but not always on which values are not.
-/

namespace QueryFederation

/-! ### In SQL -/

namespace Sql

/-- Is a value equal to another? -/
def equality (v t : Value) : Truth := if v.isNull || t.isNull then none else some (v.same t)

/-- Is a value equal to one of the items? -/
def membership (v : Value) (items : List Value) : Truth :=
  items.foldr (fun t others => Truth.or (equality v t) others) (some false)

variable {v t : Value} {items : List Value}

theorem equality_eq_true_iff (hv : v.isNull = false) : equality v t = some true ↔ v.same t = true := by
  cases ht : t.isNull with
  | true => simp [equality, Value.eq_null_of_isNull ht, Value.same_null, hv]
  | false => simp [equality, hv, ht]

theorem equality_eq_false_iff :
    equality v t = some false ↔ v.isNull = false ∧ t.isNull = false ∧ v.same t = false := by
  cases hv : v.isNull <;> cases ht : t.isNull <;> simp [equality, hv, ht]

theorem membership_eq_true_iff : membership v items = some true ↔ ∃ t ∈ items, equality v t = some true := by
  induction items with
  | nil => simp [membership]
  | cons t items ih =>
    rw [List.exists_mem_cons_iff, ← ih]
    exact Truth.or_eq_true

theorem membership_eq_false_iff : membership v items = some false ↔ ∀ t ∈ items, equality v t = some false := by
  induction items with
  | nil => simp [membership]
  | cons t items ih =>
    rw [List.forall_mem_cons, ← ih]
    exact Truth.or_eq_false

/-- Is a value null itself, or one of the items, or is no item null? If not, SQL leaves open whether it is no item. -/
def IsSettled (v : Value) (items : List Value) : Prop :=
  v.isNull = true ∨ (∃ t ∈ items, v.same t = true) ∨ ∀ t ∈ items, t.isNull = false

namespace Term

/-- The value of a term that is a column or a literal, for the values of columns. -/
def value? (columns : Option String → String → Value) : Term → Option Value
  | literal v => some v
  | column table name => some (columns table name)
  | _ => none

/-- The truth of a term that asks whether a value is among items. -/
def membership? (columns : Option String → String → Value) : Term → Option Truth
  | inList isNegated subject items => do
    let among := membership (← subject.value? columns) (← items.mapM (value? columns))
    return if isNegated then among.not else among
  | _ => none

theorem mapM_value?_term (columns : Option String → String → Value) (h : ∀ t ∈ items, t.literal = t) :
    (items.map Value.term).mapM (value? columns) = some items := by
  induction items with
  | nil => rfl
  | cons t items ih =>
    obtain ⟨ht, hitems⟩ := List.forall_mem_cons.mp h
    rw [List.map_cons, List.mapM_cons, ih hitems, Value.term, ht]
    rfl

theorem membership?_inList {columns : Option String → String → Value} {subject : Term}
    (hsubject : subject.value? columns = some v) (h : ∀ t ∈ items, t.literal = t) (isNegated : Bool) :
    (inList isNegated subject (items.map Value.term)).membership? columns
      = some (if isNegated then (membership v items).not else membership v items) := by
  rw [membership?, hsubject, mapM_value?_term columns h]
  rfl

end Term

end Sql

variable {kind : Value.Kind} {v t : Value} {targets : List Value}

namespace Table

theorem storedOrder_eq_iff (hv : kind.Has v) (ht : kind.Has t) : storedOrder v t = .eq ↔ v.same t = true := by
  have hrank : kindRank v = kindRank t := by cases hv <;> cases ht <;> rfl
  rw [storedOrder, if_pos hrank]
  cases kind with
  | number =>
    have hquantity : ∀ {w : Value}, Value.Kind.number.Has w → w.IsQuantity := by
      rintro _ (n | ⟨x, hx⟩)
      · exact .integer n
      · exact .double x hx
    rw [(hquantity hv).order?_eq (hquantity ht), compare_eq_iff_eq]
    exact ((hquantity hv).same_iff (hquantity ht)).symm
  | text =>
    cases hv
    cases ht
    rw [Value.order?_text, compare_eq_iff_eq, Value.same, decide_eq_true_iff]

theorem comparison_eq_equality (hv : kind.HasOrNull v) (ht : kind.HasOrNull t) :
    comparison (· == .eq) (plain v) (plain t) = Sql.equality v t := by
  cases hvnull : v.isNull with
  | true => simp [comparison, Sql.equality, plain, hvnull]
  | false =>
    cases htnull : t.isNull with
    | true => simp [comparison, Sql.equality, plain, htnull]
    | false =>
      have hsame : (storedOrder v t == .eq) = v.same t := by
        rw [Bool.eq_iff_iff, beq_iff_eq, storedOrder_eq_iff (hv.has hvnull) (ht.has htnull)]
      simp [comparison, Sql.equality, plain, hvnull, htnull, alignedOrder, aligned, Affinity.isNumeric, hsame]

/-- A table store decides as SQL does whether a value is among items. -/
theorem isAmong_eq_membership (hv : kind.HasOrNull v) (htargets : ∀ t ∈ targets, kind.HasOrNull t) :
    isAmong (plain v) (targets.map plain) = Sql.membership v targets := by
  have hfold : ∀ found, (targets.map plain).foldl
      (fun found item => Truth.or found (comparison (· == .eq) (plain v) { value := item.value })) found
        = found.or (Sql.membership v targets) := by
    induction targets with
    | nil => exact fun found => (Truth.or_false found).symm
    | cons t targets ih =>
      obtain ⟨ht, htargets⟩ := List.forall_mem_cons.mp htargets
      intro found
      rw [List.map_cons, List.foldl_cons, ih htargets, Truth.or_assoc]
      exact congrArg (fun first => found.or (first.or (Sql.membership v targets))) (comparison_eq_equality hv ht)
  exact (hfold _).trans (Truth.false_or _)

end Table

/-! ### In memory -/

namespace Value

theorem Kind.literal_of_has (h : kind.HasOrNull v) : v.literal = v := by
  rcases h with h | h
  · rw [eq_null_of_isNull h]
    rfl
  · cases h <;> rfl

theorem Kind.sameCoerced_of_has (hv : kind.Has v) (ht : kind.HasOrNull t) : v.sameCoerced t = v.same t := by
  rcases ht with ht | ht
  · rw [eq_null_of_isNull ht]
    cases hv <;> rfl
  · rw [sameCoerced, coercePair_of_has (Or.inr hv) ht]

end Value

namespace FilterOperator

theorem any_sameCoerced (hv : kind.Has v) (htargets : ∀ t ∈ targets, kind.HasOrNull t) :
    targets.any v.sameCoerced = true ↔ ∃ t ∈ targets, v.same t = true := by
  rw [List.any_eq_true]
  exact exists_congr fun t => and_congr_right fun ht => by rw [Value.Kind.sameCoerced_of_has hv (htargets t ht)]

/-- A value is among items in memory exactly if it is in SQL. -/
theorem holds_isIn_iff (hv : kind.HasOrNull v) (htargets : ∀ t ∈ targets, kind.HasOrNull t) :
    isIn.holds v (.list targets) = .ok (some true) ↔ Sql.membership v targets = some true := by
  rw [Sql.membership_eq_true_iff]
  cases hnull : v.isNull with
  | true =>
    have hunknown : isIn.holds v (.list targets) = .ok none := holds_of_isNull (by decide) (by decide) hnull
    simp [hunknown, Sql.equality, hnull]
  | false =>
    simp only [holds_isIn hnull, Except.ok.injEq, Option.some.injEq, any_sameCoerced (hv.has hnull) htargets,
      Sql.equality_eq_true_iff hnull]

theorem holds_notIn_eq_true_iff (hv : kind.Has v) (htargets : ∀ t ∈ targets, kind.HasOrNull t) :
    notIn.holds v (.list targets) = .ok (some true) ↔ ∀ t ∈ targets, v.same t = false := by
  have hpresent : v.isNull = false := by cases hv <;> rfl
  rw [holds_notIn hpresent, Except.ok.injEq, Option.some.injEq, Bool.not_eq_true', ← Bool.not_eq_true,
    any_sameCoerced hv htargets]
  simp

/-- A value is among no items in memory exactly if it is in SQL, unless SQL leaves that open for a null item. -/
theorem holds_notIn_iff (hv : kind.HasOrNull v) (htargets : ∀ t ∈ targets, kind.HasOrNull t) (hsome : targets ≠ []) :
    (notIn.holds v (.list targets) = .ok (some true) ↔ (Sql.membership v targets).not = some true)
      ↔ Sql.IsSettled v targets := by
  rw [Truth.not_eq_true, Sql.membership_eq_false_iff]
  cases hnull : v.isNull with
  | true =>
    have hunknown : notIn.holds v (.list targets) = .ok none := holds_of_isNull (by decide) (by decide) hnull
    obtain ⟨t, ht⟩ := List.exists_mem_of_ne_nil targets hsome
    refine iff_of_true (iff_of_false (by simp [hunknown]) fun h => ?_) (Or.inl hnull)
    simpa [Sql.equality_eq_false_iff, hnull] using h t ht
  | false =>
    rw [holds_notIn_eq_true_iff (hv.has hnull) htargets]
    simp only [Sql.equality_eq_false_iff, hnull, true_and]
    constructor
    · intro hagree
      by_cases hnone : ∀ t ∈ targets, v.same t = false
      · exact Or.inr (Or.inr fun t ht => (hagree.mp hnone t ht).1)
      · push Not at hnone
        exact Or.inr (Or.inl (by simpa using hnone))
    · rintro (h | ⟨t, ht, hsame⟩ | hpresent)
      · rw [hnull] at h
        cases h
      · exact iff_of_false (fun h => by simp [h t ht] at hsame) fun h => by simp [(h t ht).2] at hsame
      · exact forall₂_congr fun t ht => (and_iff_right (hpresent t ht)).symm

end FilterOperator

namespace Row

theorem passes_single_iff (f : FilterPredicate) (row : Row) :
    passes [f] row = .ok true ↔ f.operator.holds (get row f.outputName) f.value = .ok (some true) := by
  have hpasses : passes [f] row = (f.operator.holds (get row f.outputName) f.value).map Truth.isTrue := by
    rw [passes, List.mapM_cons, List.mapM_nil]
    cases f.operator.holds (get row f.outputName) f.value <;> rfl
  rw [hpasses]
  cases f.operator.holds (get row f.outputName) f.value <;> simp [Except.map, Truth.isTrue]

end Row

/-! ### In both -/

namespace FilterOperator

/-- Filters by lists of values of one kind. In memory a value is one of the items exactly if it is in SQL, and it is none
of them exactly if it is in SQL, unless SQL leaves that open for a null item. So a filter keeps a row in memory as the
term does that the filter becomes in SQL. -/
theorem list_filters_follow_sql_iff (hv : kind.HasOrNull v) (htargets : ∀ t ∈ targets, kind.HasOrNull t)
    (hsome : targets ≠ []) :
    (isIn.holds v (.list targets) = .ok (some true) ↔ Sql.membership v targets = some true)
    ∧ ((notIn.holds v (.list targets) = .ok (some true) ↔ (Sql.membership v targets).not = some true)
      ↔ Sql.IsSettled v targets)
    ∧ ∀ (f : FilterPredicate) (row : Row) (columns : Option String → String → Value),
      f.operator = isIn ∨ f.operator = notIn → f.value = .list targets →
      Row.get row f.outputName = v → columns (some f.table) f.column = v →
      ∃ term truth, f.operator.term (.column (some f.table) f.column) f.value = .ok term
        ∧ term.membership? columns = some truth
        ∧ ((Row.passes [f] row = .ok true ↔ truth = some true)
          ↔ (f.operator = notIn → Sql.IsSettled v targets)) := by
  have hin := holds_isIn_iff hv htargets
  have hnotIn := holds_notIn_iff hv htargets hsome
  refine ⟨hin, hnotIn, fun f row columns hoperator hvalue hrow hcolumn => ?_⟩
  have hliteral : ∀ t ∈ targets, t.literal = t := fun t ht => Value.Kind.literal_of_has (htargets t ht)
  have hsubject : (Sql.Term.column (some f.table) f.column).value? columns = some v := congrArg some hcolumn
  rw [Row.passes_single_iff, hvalue, hrow]
  rcases hoperator with hop | hop
  · rw [hop]
    exact ⟨_, _, rfl, Sql.Term.membership?_inList hsubject hliteral false, iff_of_true hin nofun⟩
  · rw [hop]
    exact ⟨_, _, rfl, Sql.Term.membership?_inList hsubject hliteral true, by simpa using hnotIn⟩

theorem laterOrder_is_kept :
    Value.Kind.number.HasOrNull (.integer 3)
      ∧ (∀ t ∈ [Value.integer 1, .integer 2], Value.Kind.number.HasOrNull t)
      ∧ notIn.holds (.integer 3) (.list [.integer 1, .integer 2]) = .ok (some true)
      ∧ Row.passes [⟨"o", "id", .notIn, .list [.integer 1, .integer 2], .and⟩] [("o_id", .integer 3)] = .ok true := by
  have hthree : Value.Kind.number.HasOrNull (.integer 3) := Or.inr (.integer 3)
  have htargets : ∀ t ∈ [Value.integer 1, .integer 2], Value.Kind.number.HasOrNull t := by
    simp [Value.Kind.HasOrNull, Value.Kind.Has.integer]
  obtain ⟨-, hnotIn, hfilter⟩ := list_filters_follow_sql_iff hthree htargets (by decide)
  have hpresent : Sql.IsSettled (.integer 3) [.integer 1, .integer 2] := Or.inr (Or.inr (by decide))
  obtain ⟨term, truth, hterm, htruth, hkept⟩ := hfilter ⟨"o", "id", .notIn, .list [.integer 1, .integer 2], .and⟩
    [("o_id", .integer 3)] (fun _ _ => .integer 3) (Or.inr rfl) rfl (by rfl) rfl
  obtain rfl := Except.ok.inj hterm
  have hnone : truth = some true := (Option.some.inj htruth).symm
  exact ⟨hthree, htargets, (hnotIn.mpr hpresent).mpr rfl, (hkept.mpr fun _ => hpresent).mpr hnone⟩

/-- A null in the list leaves it open in SQL whether an order is none of those listed, but not in memory. -/
theorem order_beside_null_is_kept :
    notIn.holds (.integer 3) (.list [.integer 1, .null]) = .ok (some true)
      ∧ Row.passes [⟨"o", "id", .notIn, .list [.integer 1, .null], .and⟩] [("o_id", .integer 3)] = .ok true
      ∧ (Sql.membership (.integer 3) [.integer 1, .null]).not = none := by
  exact ⟨rfl, rfl, rfl⟩

end FilterOperator

end QueryFederation

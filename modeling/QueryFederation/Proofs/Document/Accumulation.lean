import QueryFederation.Proofs.Document.Field
import QueryFederation.Proofs.Expression.Lookup
import QueryFederation.Proofs.Value.Sum

/-!
# Accumulated values

A document store accumulates values over the documents of a group, and a projection makes the value of an aggregate of
what was accumulated. In memory the aggregate is a call that is evaluated over the rows of the group. If the values are
numbers both leave out the same nulls and come to the same value; only the sum of none is zero in the store and null in
memory.
-/

namespace QueryFederation

/-- Has a row, under the name of a column, what a document has as its field: a number, or null if there is none? -/
structure ColumnRef.IsCarried (c : ColumnRef) (doc row : Row) : Prop where
  lookup : row.lookup c.outputName = some (Row.get doc c.column)
  number : Value.Kind.number.HasOrNull (Row.get doc c.column)

theorem ColumnRef.IsCarried.get_eq {c : ColumnRef} {doc row : Row} (h : c.IsCarried doc row) :
    Row.get row c.outputName = Row.get doc c.column := by
  rw [Row.get, h.lookup, Option.getD_some]

namespace Document

open Expression

theorem filter_isSummand {present : List Value} (h : ∀ v ∈ present, Value.Kind.number.Has v) :
    present.filter isSummand = present := by
  refine List.filter_eq_self.mpr fun v hv => ?_
  cases h v hv <;> rfl

/-- Of numbers, a store accumulates what a call makes of them, unless it is the sum of none. -/
theorem accumulate_eq_aggregateValue {function : AggregateFunction} (hfunction : function ≠ .count)
    {present : List Value} (h : ∀ v ∈ present, Value.Kind.number.Has v) (hsum : function = .sum → present ≠ [])
    (call : Expression) : accumulate (accumulatorName function) present = aggregateValue call function present := by
  cases present with
  | nil =>
    cases function with
    | sum => exact absurd rfl (hsum rfl)
    | count => exact absurd rfl hfunction
    | _ => rfl
  | cons v vs =>
    cases function with
    | count => exact absurd rfl hfunction
    | sum =>
      change Value.sum ((v :: vs).filter isSummand) = Value.sum ((v :: vs).map Value.asNumber)
      rw [filter_isSummand h, Value.map_asNumber h]
    | avg =>
      change average (v :: vs) = (do (← Value.sum ((v :: vs).map Value.asNumber)).div _)
      rw [Value.map_asNumber h]
      rfl
    | min =>
      obtain ⟨least, hleast⟩ := Value.exists_extreme h .lt
      exact (hleast .operandType).trans (hleast (.mixedTypes call.shown)).symm
    | max =>
      obtain ⟨greatest, hgreatest⟩ := Value.exists_extreme h .gt
      exact (hgreatest .operandType).trans (hgreatest (.mixedTypes call.shown)).symm

/-- A call over numbers comes to a value, unless a number would have to be a double beyond their range. -/
theorem okOr_aggregateValue {present : List Value} (h : ∀ v ∈ present, Value.Kind.number.Has v) (call : Expression)
    (function : AggregateFunction) : Outcome.OkOr .overflow (fun _ => True) (aggregateValue call function present) := by
  have hsum : Outcome.OkOr .overflow Value.IsNumeral (Value.sum (present.map Value.asNumber)) := by
    rw [Value.map_asNumber h]
    exact Value.sum_isNumeral fun v hv => (h v hv).isNumeral
  cases present with
  | nil => cases function <;> trivial
  | cons v vs =>
    cases function with
    | count => trivial
    | sum => exact hsum.imp fun _ _ => trivial
    | avg => exact hsum.bind fun total htotal => (htotal.div_count (Nat.succ_ne_zero vs.length)).imp fun _ _ => trivial
    | min =>
      obtain ⟨least, hleast⟩ := Value.exists_extreme h .lt
      have hvalue : aggregateValue call .min (v :: vs) = .ok least := hleast (.mixedTypes call.shown)
      rw [hvalue]
      trivial
    | max =>
      obtain ⟨greatest, hgreatest⟩ := Value.exists_extreme h .gt
      have hvalue : aggregateValue call .max (v :: vs) = .ok greatest := hgreatest (.mixedTypes call.shown)
      rw [hvalue]
      trivial

/-! ### Fields of a group -/

section

variable {docs rows : List Row} {name : String} {c : ColumnRef}

/-- The values of a field, without nulls. -/
def presentValues (docs : List Row) (name : String) : List Value :=
  (docs.map fun doc => Row.get doc name).filter fun v => !v.isNull

theorem accumulateField_single {operator : String} {expression : Value} {values : List Value}
    (h : docs.mapM (fun doc => evaluate doc expression) = .ok values) :
    accumulateField docs (single operator expression) = accumulate operator (values.filter fun v => !v.isNull) := by
  change (docs.mapM (fun doc => evaluate doc expression) >>= _) = _
  rw [h]
  rfl

theorem mapM_fieldPath (docs : List Row) (h : IsPlain name) :
    docs.mapM (fun doc => evaluate doc (fieldPath name)) = .ok (docs.map fun doc => Row.get doc name) := by
  refine Outcome.mapM_of_forall fun doc _ => ?_
  rw [evaluate_fieldPath, field_of_isPlain doc h]

theorem has_of_mem_presentValues (h : List.Forall₂ c.IsCarried docs rows) :
    ∀ v ∈ presentValues docs c.column, Value.Kind.number.Has v := by
  intro v hv
  obtain ⟨hmem, hnull⟩ := List.mem_filter.mp hv
  obtain ⟨doc, hdoc, rfl⟩ := List.mem_map.mp hmem
  obtain ⟨row, -, hcarried⟩ := exists_right_of_forall₂ h hdoc
  exact hcarried.number.has (by simpa using hnull)

theorem presentValues_eq_nil_iff (h : List.Forall₂ c.IsCarried docs rows) :
    presentValues docs c.column = [] ↔ ∀ row ∈ rows, (Row.get row c.outputName).isNull = true := by
  rw [presentValues, List.filter_eq_nil_iff, List.forall_mem_map]
  constructor
  · intro hnull row hrow
    obtain ⟨doc, hdoc, hcarried⟩ := exists_left_of_forall₂ h hrow
    rw [hcarried.get_eq]
    simpa using hnull doc hdoc
  · intro hnull doc hdoc
    obtain ⟨row, hrow, hcarried⟩ := exists_right_of_forall₂ h hdoc
    rw [← hcarried.get_eq, hnull row hrow]
    exact Bool.false_ne_true

theorem evaluate_countPresent (doc : Row) (h : IsPlain name) :
    evaluate doc (countPresent name) = .ok (.integer (if (Row.get doc name).isNull then 0 else 1)) := by
  have hequal : areEqual doc (.list [fieldPath name, .null]) = .ok (Row.get doc name).isNull := by
    rw [areEqual, evaluate_fieldPath, field_of_isPlain doc h, ← Value.same_null]
    rfl
  have htest : evaluate doc (single "$ne" (.list [fieldPath name, .null]))
      = .ok (.boolean !(Row.get doc name).isNull) := by
    change (do return .boolean !(← areEqual doc (.list [fieldPath name, .null])) : Outcome Value) = _
    rw [hequal]
    rfl
  change choose doc (.list [_, .integer 1, .integer 0]) = _
  rw [choose, htest]
  cases (Row.get doc name).isNull <;> rfl

theorem length_presentValues (docs : List Row) (name : String) :
    ((presentValues docs name).length : Int)
      = (docs.map fun doc => if (Row.get doc name).isNull then (0 : Int) else 1).sum := by
  induction docs with
  | nil => rfl
  | cons doc docs ih =>
    rw [List.map_cons, List.sum_cons, ← ih, presentValues, List.map_cons, List.filter_cons, presentValues]
    cases (Row.get doc name).isNull with
    | true => exact (Int.zero_add _).symm
    | false => simp [Int.add_comm]

theorem accumulate_integers (ns : List Int) :
    accumulate "$sum" ((ns.map Value.integer).filter fun v => !v.isNull) = .ok (.integer ns.sum) := by
  have hpresent : (ns.map Value.integer).filter (fun v => !v.isNull) = ns.map Value.integer :=
    List.filter_eq_self.mpr (List.forall_mem_map.mpr fun _ _ => rfl)
  rw [hpresent, ← Value.sum_integers, accumulate]
  congr 1
  exact filter_isSummand (List.forall_mem_map.mpr fun n _ => .integer n)

theorem accumulateField_ones (docs : List Row) :
    accumulateField docs (single "$sum" (.integer 1)) = .ok (.integer docs.length) := by
  have hones : docs.mapM (fun doc => evaluate doc (.integer 1))
      = .ok ((docs.map fun _ => (1 : Int)).map Value.integer) := by
    rw [List.map_map]
    exact Outcome.mapM_of_forall fun _ _ => rfl
  rw [accumulateField_single hones, accumulate_integers]
  simp

theorem accumulateField_countPresent (docs : List Row) (h : IsPlain name) :
    accumulateField docs (single "$sum" (countPresent name)) = .ok (.integer (presentValues docs name).length) := by
  have hcounts : docs.mapM (fun doc => evaluate doc (countPresent name))
      = .ok ((docs.map fun doc => if (Row.get doc name).isNull then (0 : Int) else 1).map Value.integer) := by
    rw [List.map_map]
    exact Outcome.mapM_of_forall fun doc _ => evaluate_countPresent doc h
  rw [accumulateField_single hcounts, accumulate_integers, length_presentValues]

theorem accumulateField_fieldPath (docs : List Row) (h : IsPlain name) (operator : String) :
    accumulateField docs (single operator (fieldPath name)) = accumulate operator (presentValues docs name) :=
  accumulateField_single (mapM_fieldPath docs h)

end

/-! ### Calls over a group -/

section

variable {docs rows : List Row} {qualifiers : List Identifier} {column : Identifier} {args others : List Expression}
  {function : AggregateFunction} {aliasName : String} {a : Accumulation}

/-- Is a column that a call names a field of the documents, and do the rows carry it? -/
structure IsField (docs rows : List Row) (qualifiers : List Identifier) (column : Identifier) : Prop where
  table : tableName qualifiers ≠ ""
  isPlain : IsPlain column.name
  carried : List.Forall₂ (ColumnRef.IsCarried ⟨tableName qualifiers, column.name⟩) docs rows

theorem IsField.mapM_evaluateFirst (h : IsField docs rows qualifiers column)
    (hargs : ∀ scope, evaluateFirst scope args = scope.column (tableName qualifiers) column.name) :
    rows.mapM (fun row => evaluateFirst (.row row) args) = .ok (docs.map fun doc => Row.get doc column.name) := by
  obtain ⟨htable, -, hcarried⟩ := h
  induction hcarried with
  | nil => rfl
  | @cons doc row docs rows hhead _ ih =>
    have hvalue : evaluateFirst (.row row) args = .ok (Row.get doc column.name) := by
      have hlookup : row.lookup (outputName (tableName qualifiers) column.name) = some (Row.get doc column.name) :=
        hhead.lookup
      rw [hargs, Scope.column]
      simp only [htable, if_false, hlookup]
    rw [List.mapM_cons, hvalue, ih]
    rfl

theorem IsField.evaluate_column (h : IsField docs rows qualifiers column) (computed : Entries Value) :
    Expression.evaluate (.group rows computed) (aggregate function (.column qualifiers column :: others))
      = aggregateValue (aggregate function (.column qualifiers column :: others)) function
        (presentValues docs column.name) := by
  have hcounts : ¬countsRows function (.column qualifiers column :: others) = true := by
    cases function <;> exact Bool.false_ne_true
  rw [Expression.evaluate, if_neg hcounts]
  change (rows.mapM _ >>= _) = _
  rw [h.mapM_evaluateFirst fun _ => rfl]
  rfl

theorem IsField.evaluate_distinct (h : IsField docs rows qualifiers column) (computed : Entries Value) :
    Expression.evaluate (.group rows computed) (aggregate .count (.distinct [.column qualifiers column] :: others))
      = .ok (.integer (distinctValues (presentValues docs column.name)).length) := by
  rw [Expression.evaluate]
  change (rows.mapM _ >>= _) = _
  rw [h.mapM_evaluateFirst fun _ => rfl]
  rfl

theorem evaluate_star (rows : List Row) (computed : Entries Value) :
    Expression.evaluate (.group rows computed) (aggregate .count (.star :: others)) = .ok (.integer rows.length) := by
  rw [Expression.evaluate]
  rfl

/-! ### Accumulations -/

/-- What can be accumulated: rows, distinct values of a field, and values of a field. -/
theorem accumulation?_eq_some (h : accumulation? aliasName function args = some a) :
    (∃ others, function = .count ∧ args = .star :: others ∧ a = ⟨single "$sum" (.integer 1), .integer 1⟩)
      ∨ (∃ qualifiers column others, function = .count ∧ args = .distinct [.column qualifiers column] :: others
        ∧ a = ⟨single "$addToSet" (fieldPath column.name), single "$size" (fieldPath aliasName)⟩)
      ∨ (∃ qualifiers column others, function = .count ∧ args = .column qualifiers column :: others
        ∧ a = ⟨single "$sum" (countPresent column.name), .integer 1⟩)
      ∨ ∃ qualifiers column others, function ≠ .count ∧ args = .column qualifiers column :: others
        ∧ a = ⟨single (accumulatorName function) (fieldPath column.name), .integer 1⟩ := by
  rw [accumulation?.eq_def] at h
  split at h
  · cases h
    exact Or.inl ⟨_, rfl, rfl, rfl⟩
  · cases h
    exact Or.inr (Or.inl ⟨_, _, _, rfl, rfl, rfl⟩)
  · cases h
    exact Or.inr (Or.inr (Or.inl ⟨_, _, _, rfl, rfl, rfl⟩))
  · rename_i hcount
    cases h
    exact Or.inr (Or.inr (Or.inr ⟨_, _, _, hcount, rfl, rfl⟩))
  · cases h

/-- Does the projection make a value of what was accumulated? -/
def Accumulation.Gives (a : Accumulation) (aliasName : String) (accumulated v : Value) : Prop :=
  ∀ doc : Row, doc.lookup aliasName = some accumulated → projectField doc aliasName a.projection = .ok (some v)

theorem gives_accumulated (h : IsPlain aliasName) (accumulator v : Value) :
    Accumulation.Gives ⟨accumulator, .integer 1⟩ aliasName v v := by
  intro doc hdoc
  rw [← hdoc, ← field?_of_isPlain doc h]
  rfl

theorem gives_size (h : IsPlain aliasName) (accumulator : Value) {accumulated v : Value}
    (hsize : size accumulated = .ok v) :
    Accumulation.Gives ⟨accumulator, single "$size" (fieldPath aliasName)⟩ aliasName accumulated v := by
  intro doc hdoc
  have hfield : evaluate doc (fieldPath aliasName) = .ok accumulated := by
    rw [evaluate_fieldPath, field_of_isPlain doc h, Row.get, hdoc, Option.getD_some]
  have hresult : evaluate doc (single "$size" (fieldPath aliasName)) = .ok v := by
    change (evaluate doc (fieldPath aliasName) >>= size) = _
    rw [hfield]
    exact hsize
  change (do return some (← evaluate doc (single "$size" (fieldPath aliasName))) : Outcome _) = _
  rw [hresult]
  rfl

/-- Does the projection make the value of what was accumulated, or zero in place of the null of an empty sum? -/
structure Accumulation.GivesOrZero (a : Accumulation) (aliasName : String) (isEmptySum : Bool) (accumulated v : Value) :
    Prop where
  gives : a.Gives aliasName accumulated (if isEmptySum then .integer 0 else v)
  eq_null : isEmptySum = true → v = .null

/-- Is the call a sum of nothing but nulls? -/
def sumsNothing (function : AggregateFunction) (args : List Expression) (rows : List Row) : Bool :=
  match function, args with
  | .sum, .column qualifiers column :: _ =>
    rows.all fun row => (Row.get row (outputName (tableName qualifiers) column.name)).isNull
  | _, _ => false

/--
Over numbers, a store accumulates and projects what the call is in memory. A sum of nothing is the exception: it is zero
in the store and null in memory.
-/
theorem corresponds_of_accumulation? (h : accumulation? aliasName function args = some a) (halias : IsPlain aliasName)
    (hlength : docs.length = rows.length)
    (hfields : ∀ qualifiers column, (.reference (.ofNames qualifiers column), 1) ∈ occurrencesOfAll 1 args →
      IsField docs rows qualifiers column) (computed : Entries Value) :
    Outcome.Corresponds .overflow (a.GivesOrZero aliasName (sumsNothing function args rows))
      (accumulateField docs a.accumulator) (Expression.evaluate (.group rows computed) (aggregate function args)) := by
  rcases accumulation?_eq_some h with ⟨others, rfl, rfl, rfl⟩ | ⟨qualifiers, column, others, rfl, rfl, rfl⟩
    | ⟨qualifiers, column, others, rfl, rfl, rfl⟩ | ⟨qualifiers, column, others, hcount, rfl, rfl⟩
  · rw [accumulateField_ones, evaluate_star, hlength]
    exact .ok ⟨gives_accumulated halias _ _, nofun⟩
  · have hfield := hfields qualifiers column List.mem_cons_self
    rw [accumulateField_fieldPath docs hfield.isPlain, hfield.evaluate_distinct]
    exact .ok ⟨gives_size halias _ rfl, nofun⟩
  · have hfield := hfields qualifiers column List.mem_cons_self
    rw [accumulateField_countPresent docs hfield.isPlain, hfield.evaluate_column]
    exact .ok ⟨gives_accumulated halias _ _, nofun⟩
  · have hfield := hfields qualifiers column List.mem_cons_self
    have hnone := presentValues_eq_nil_iff hfield.carried
    rw [accumulateField_fieldPath docs hfield.isPlain, hfield.evaluate_column]
    -- The sum of no values is zero, whereas a call over no values is null before it is a sum.
    cases hempty : sumsNothing function (.column qualifiers column :: others) rows with
    | true =>
      cases function with
      | sum =>
        rw [hnone.mpr (List.all_eq_true.mp hempty)]
        exact .ok ⟨gives_accumulated halias _ _, fun _ => rfl⟩
      | _ => cases hempty
    | false =>
      have hsum : function = .sum → presentValues docs column.name ≠ [] := by
        rintro rfl hnil
        have hall : sumsNothing .sum (.column qualifiers column :: others) rows = true :=
          List.all_eq_true.mpr (hnone.mp hnil)
        rw [hempty] at hall
        cases hall
      rw [accumulate_eq_aggregateValue hcount (has_of_mem_presentValues hfield.carried) hsum]
      have hok := okOr_aggregateValue (has_of_mem_presentValues hfield.carried)
        (aggregate function (.column qualifiers column :: others)) function
      cases hvalue : aggregateValue _ function (presentValues docs column.name) with
      | error fault =>
        rw [hvalue] at hok
        cases hok
        exact .error
      | ok v => exact .ok ⟨gives_accumulated halias _ _, nofun⟩

end

end Document

end QueryFederation

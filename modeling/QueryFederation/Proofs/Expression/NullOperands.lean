import QueryFederation.Proofs.Expression.Lanes
import QueryFederation.Proofs.Filter.Agreement

/-!
# Comparisons of nulls

Where an expression is null, its negation is null as well, a choice passes over the branches it is the condition of, and
a call that takes its values passes over the row. A comparison is null if its left operand is. If only the right one is,
a comparison by order is null too, but an equality is false and an inequality true.
-/

namespace QueryFederation.Expression

/-- Is an expression null, and so neither taken for true nor for false, nor counted? -/
structure IsUnknownIn (e : Expression) (scope : Scope) : Prop where
  is_null : evaluate scope e = .ok .null
  not_null : evaluate scope (not e) = .ok .null
  branch_passed (subject otherwise : Option Expression) (value : Expression)
    (before after : List (Expression × Expression)) :
    evaluate scope (case subject (before ++ (e, value) :: after) otherwise)
      = evaluate scope (case subject (before ++ after) otherwise)
  condition_failed (yes : Expression) (no : Option Expression) :
    evaluate scope (conditional e yes no) = evaluateOptional scope no
  row_passed {row : Row} (hscope : scope = .row row) (function : AggregateFunction) {args : List Expression}
    (hargument : IsArgument args e) (before after : List Row) (computed : Entries Value) :
    evaluate (.group (before ++ row :: after) computed) (aggregate function args)
      = evaluate (.group (before ++ after) computed) (aggregate function args)

variable {scope : Scope} {e left right : Expression} {a b : Value} {op : BinaryOperator}

/-! ### Nulls are passed over -/

theorem firstTrue_passed (h : evaluate scope e = .ok .null) (value : Expression)
    (before after : List (Expression × Expression)) :
    firstTrue scope (before ++ (e, value) :: after) = firstTrue scope (before ++ after) := by
  induction before with
  | nil =>
    rw [List.nil_append, List.nil_append, firstTrue, h]
    rfl
  | cons branch before ih =>
    obtain ⟨condition, v⟩ := branch
    rw [List.cons_append, List.cons_append, firstTrue, firstTrue, ih]

theorem countsRows_of_isArgument {args : List Expression} (h : IsArgument args e) (hstar : e ≠ star)
    (function : AggregateFunction) : countsRows function args = false := by
  cases h with
  | distinct => cases function <;> rfl
  | first =>
    cases function with
    | count =>
      rw [countsRows]
      exact fun _ _ heq => hstar (List.cons.inj heq).1
    | _ => rfl

/-- The values that are not null are the same without a row for which the value is null. -/
theorem mapM_filter_passed {f : Row → Outcome Value} {row : Row} (h : f row = .ok .null) (before after : List Row)
    (next : List Value → Outcome Value) :
    (do let values ← (before ++ row :: after).mapM f; next (values.filter (!·.isNull)))
      = (do let values ← (before ++ after).mapM f; next (values.filter (!·.isNull))) := by
  rw [List.mapM_append, List.mapM_append, List.mapM_cons, h]
  cases before.mapM f with
  | error => rfl
  | ok values =>
    cases after.mapM f with
    | error => rfl
    | ok others =>
      have hpassed : (values ++ Value.null :: others).filter (!·.isNull) = (values ++ others).filter (!·.isNull) := by
        simp [Value.isNull]
      exact congrArg next hpassed

theorem aggregate_passed {row : Row} {function : AggregateFunction} {args : List Expression}
    (h : evaluate (.row row) e = .ok .null) (hargument : IsArgument args e) (before after : List Row)
    (computed : Entries Value) :
    evaluate (.group (before ++ row :: after) computed) (aggregate function args)
      = evaluate (.group (before ++ after) computed) (aggregate function args) := by
  have hstar : e ≠ star := by
    rintro rfl
    simp [evaluate] at h
  have hrow : evaluateFirst (.row row) args = .ok .null := (hargument.evaluateFirst_eq _).trans h
  have hpassed := mapM_filter_passed (f := fun row => evaluateFirst (.row row) args) hrow before after
  rw [evaluate, evaluate, countsRows_of_isArgument hargument hstar, if_neg Bool.false_ne_true, if_neg Bool.false_ne_true]
  split
  · exact hpassed fun present => aggregateValue (aggregate function args) function (distinctValues present)
  · rfl
  · exact hpassed (aggregateValue (aggregate function args) function)

/-- An expression is unknown exactly where it is null. -/
theorem isUnknownIn_iff : e.IsUnknownIn scope ↔ evaluate scope e = .ok .null := by
  refine ⟨IsUnknownIn.is_null, fun h => ⟨h, ?_, fun subject otherwise value before after => ?_, fun yes no => ?_, ?_⟩⟩
  · rw [evaluate, h]
    rfl
  · rw [evaluate, evaluate, firstTrue_passed h]
  · rw [evaluate, h]
    rfl
  · rintro row rfl function args hargument before after computed
    exact aggregate_passed h hargument before after computed

/-! ### Comparisons -/

theorem evaluate_binary (hop : op ≠ .mod) (hleft : evaluate scope left = .ok a) (hright : evaluate scope right = .ok b) :
    evaluate scope (binary op left right) = binaryValue op a b := by
  rw [evaluate, hleft, hright]
  · rfl
  · exact hop

theorem evaluate_comparison (hop : op.isComparison = true) (hleft : evaluate scope left = .ok a)
    (hright : evaluate scope right = .ok b) : evaluate scope (binary op left right) = binaryValue op a b := by
  refine evaluate_binary ?_ hleft hright
  rintro rfl
  cases hop

theorem binaryValue_null_left (hop : op.isComparison = true) (ha : a.isNull = true) (b : Value) :
    binaryValue op a b = .ok .null := by
  have hcomparison : ∀ operator : FilterOperator, operator ≠ .isNull → operator ≠ .isNotNull →
      comparison operator a b = .ok .null := by
    intro operator hnull hnotNull
    rw [comparison, FilterOperator.holds_of_isNull hnull hnotNull ha]
    rfl
  cases op with
  | or | and | add | sub | mul | div | mod => cases hop
  | eq | ne | lt | le | gt | ge => exact hcomparison _ (by decide) (by decide)

/-- What a comparison with null makes of a value on its left. -/
theorem binaryValue_null_right (hop : op.isComparison = true) (ha : a.isNull = false) :
    binaryValue op a .null = .ok (if op = .eq ∨ op = .ne then .boolean (op = .ne) else .null) := by
  have hsame := Value.sameCoerced_null ha
  have hordered : ∀ holds, Value.ordered holds a .null = .ok none := fun holds => if_pos (Bool.or_true _)
  cases op with
  | or | and | add | sub | mul | div | mod => cases hop
  | eq =>
    rw [binaryValue, comparison, FilterOperator.holds_eq ha, hsame]
    rfl
  | ne =>
    rw [binaryValue, comparison, FilterOperator.holds_ne ha, hsame]
    rfl
  | lt =>
    rw [binaryValue, comparison, FilterOperator.holds_lt ha, hordered]
    rfl
  | le =>
    rw [binaryValue, comparison, FilterOperator.holds_le ha, hordered]
    rfl
  | gt =>
    rw [binaryValue, comparison, FilterOperator.holds_gt ha, hordered]
    rfl
  | ge =>
    rw [binaryValue, comparison, FilterOperator.holds_ge ha, hordered]
    rfl

theorem isUnknownIn_comparison_iff (hop : op.isComparison = true) (hleft : evaluate scope left = .ok a)
    (hright : evaluate scope right = .ok b) (hnull : a.isNull = true ∨ b.isNull = true) :
    (binary op left right).IsUnknownIn scope ↔ (op = .eq ∨ op = .ne → a.isNull = true) := by
  rw [isUnknownIn_iff, evaluate_comparison hop hleft hright]
  cases ha : a.isNull with
  | true => exact iff_of_true (binaryValue_null_left hop ha b) fun _ => rfl
  | false =>
    rw [Value.eq_null_of_isNull (hnull.resolve_left (by simp [ha])), binaryValue_null_right hop ha]
    split <;> simp_all

/-- A comparison of two values of which one is null. It is unknown, so that no choice and no count takes it for true or
false, unless it is an equality or an inequality with a value on its left; then it is false or true. -/
theorem comparison_of_null_isUnknownIn_iff (hop : op.isComparison = true) (hleft : evaluate scope left = .ok a)
    (hright : evaluate scope right = .ok b) (hnull : a.isNull = true ∨ b.isNull = true) :
    ((binary op left right).IsUnknownIn scope ↔ (op = .eq ∨ op = .ne → a.isNull = true))
    ∧ ((binary op right left).IsUnknownIn scope ↔ (op = .eq ∨ op = .ne → b.isNull = true))
    ∧ (op = .eq ∨ op = .ne → a.isNull = false →
      evaluate scope (binary op left right) = .ok (.boolean (op = .ne))) := by
  refine ⟨isUnknownIn_comparison_iff hop hleft hright hnull, isUnknownIn_comparison_iff hop hright hleft hnull.symm, ?_⟩
  intro hequality ha
  rw [evaluate_comparison hop hleft hright, Value.eq_null_of_isNull (hnull.resolve_left (by simp [ha])),
    binaryValue_null_right hop ha, if_pos hequality]

/-! ### A payment and a state -/

def pendingOrder : Row := [("o_paid", .integer 5), ("o_due", .null), ("o_state", .text "open"), ("o_former", .null)]

def orderColumn (name : String) : Expression := column [⟨"o", false⟩] ⟨name, false⟩

/-- What is due may be unknown. Then it is unknown whether less is paid, and the order is not counted for it. -/
theorem underpayment_isUnknown :
    evaluate (.row pendingOrder) (orderColumn "paid") = .ok (.integer 5)
      ∧ evaluate (.row pendingOrder) (orderColumn "due") = .ok .null
      ∧ (binary .lt (orderColumn "paid") (orderColumn "due")).IsUnknownIn (.row pendingOrder) := by
  have hpaid : evaluate (.row pendingOrder) (orderColumn "paid") = .ok (.integer 5) := by cbv
  have hdue : evaluate (.row pendingOrder) (orderColumn "due") = .ok .null := by cbv
  have hcomparison : BinaryOperator.lt.isComparison = true := rfl
  have hunknown := (comparison_of_null_isUnknownIn_iff hcomparison hpaid hdue (Or.inr rfl)).1
  exact ⟨hpaid, hdue, hunknown.mpr fun h => by simp at h⟩

/-- A state differs from no former state, and the order is counted for it. -/
theorem stateChange_counts :
    evaluate (.row pendingOrder) (orderColumn "former") = .ok .null
      ∧ evaluate (.row pendingOrder) (binary .ne (orderColumn "state") (orderColumn "former")) = .ok (.boolean true)
      ∧ evaluate (.group [pendingOrder] []) (aggregate .count [binary .ne (orderColumn "state") (orderColumn "former")])
        = .ok (.integer 1) := by
  refine ⟨by cbv, rfl, rfl⟩

end QueryFederation.Expression

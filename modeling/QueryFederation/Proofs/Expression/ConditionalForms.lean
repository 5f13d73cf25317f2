import QueryFederation.Proofs.Expression.NullOperands

/-!
# Conditional forms and the choices they stand for

A call of IF is a choice with one branch, and COALESCE one between its arguments that are not null. NULLIF is a choice by
equality, but it asks whether its operands are the same as they are, where an equality compares numbers with numeric
texts and decimals as numbers. A choice with a subject stands for a choice by equalities with the subject. The evaluation
leaves the subject out and takes the first branch whose value is true itself.
-/

namespace QueryFederation

namespace Value

/-- Does an equality hold of a value and another one? -/
def isEqualTo (v w : Value) : Bool := !v.isNull && v.sameCoerced w

/-- Values that are their own numeric views are compared as they are, and so are values that are not numbers. -/
theorem sameCoerced_eq_same {v w : Value}
    (h : v.asNumber = v ∧ w.asNumber = w ∨ v.isNumber = false ∧ w.isNumber = false) : v.sameCoerced w = v.same w := by
  rw [sameCoerced, coercePair]
  rcases h with ⟨hv, hw⟩ | ⟨hv, hw⟩
  · rw [hv, hw, ite_self]
  · rw [hv, hw]
    rfl

end Value

namespace Expression

/-- `CASE WHEN left = right THEN NULL ELSE left END`. -/
def equalityChoice (left right : Expression) : Expression := case none [(binary .eq left right, null)] (some left)

/-- `CASE WHEN subject = value₁ THEN result₁ … ELSE otherwise END`. -/
def subjectChoice (subject : Expression) (values results : List Expression) (otherwise : Option Expression) :
    Expression :=
  case none ((values.map (binary .eq subject)).zip results) otherwise

/-- `CASE WHEN e₁ IS NOT NULL THEN e₁ … END`. -/
def presenceChoice (es : List Expression) : Expression := case none (es.map fun e => (not (is e null), e)) none

/-- The place of the first expression whose value passes a test. No expression after it is evaluated. -/
def firstPlace (scope : Scope) (test : Value → Bool) : List Expression → Outcome (Option Nat)
  | [] => .ok none
  | e :: es => do
    if test (← evaluate scope e) then return some 0
    return (← firstPlace scope test es).map (· + 1)

variable {scope : Scope} {left right subject e : Expression} {a b v : Value} {values results : List Expression}
  {test : Value → Bool} {place : Option Nat}

theorem lt_of_firstPlace {i : Nat} (h : firstPlace scope test values = .ok (some i)) : i < values.length := by
  induction values generalizing i with
  | nil => cases h
  | cons e es ih =>
    rw [firstPlace] at h
    obtain ⟨v, -, h⟩ := exists_of_bind_eq_ok h
    cases hv : test v with
    | true =>
      rw [hv] at h
      cases h
      exact Nat.zero_lt_succ _
    | false =>
      rw [hv] at h
      obtain ⟨place, hplace, h⟩ := exists_of_bind_eq_ok h
      obtain ⟨j, rfl, rfl⟩ := Option.map_eq_some_iff.mp (Except.ok.inj h)
      exact Nat.succ_lt_succ (ih hplace)

/-! ### Choices by their first place -/

theorem firstTrue_zip (hlength : results.length = values.length) : firstTrue scope (values.zip results) = (do
    match ← firstPlace scope isTrueValue values with
    | none => return none
    | some i => return some (← evaluateOptional scope results[i]?)) := by
  induction values generalizing results with
  | nil => rfl
  | cons e es ih =>
    cases results with
    | nil => cases hlength
    | cons result results =>
      rw [List.zip_cons_cons, firstTrue, firstPlace, ih (Nat.succ.inj hlength)]
      cases evaluate scope e with
      | error => rfl
      | ok v =>
        cases htrue : isTrueValue v with
        | true => simp [htrue, bind, Except.bind, pure, Except.pure, evaluateOptional]
        | false =>
          cases hplace : firstPlace scope isTrueValue es with
          | error => simp [htrue, bind, Except.bind]
          | ok place => cases place <;> simp [htrue, bind, Except.bind, pure, Except.pure]

/-- A choice comes to the result at the first place where a condition is true itself. -/
theorem evaluate_case_zip (subject otherwise : Option Expression) (hlength : results.length = values.length) :
    evaluate scope (case subject (values.zip results) otherwise) = (do
      evaluateOptional scope ((← firstPlace scope isTrueValue values).elim otherwise (results[·]?))) := by
  rw [evaluate, firstTrue_zip hlength]
  cases firstPlace scope isTrueValue values with
  | error => rfl
  | ok place =>
    cases place with
    | none => rfl
    | some i =>
      simp only [bind, Except.bind, Option.elim]
      cases evaluateOptional scope results[i]? <;> rfl

/-! ### Choices by equality -/

theorem binaryValue_eq (a b : Value) :
    binaryValue .eq a b = .ok (if a.isNull then .null else .boolean (a.sameCoerced b)) := by
  cases ha : a.isNull with
  | true => exact binaryValue_null_left rfl ha b
  | false =>
    rw [binaryValue, comparison, FilterOperator.holds_eq ha]
    rfl

theorem evaluate_equality (scope : Scope) (left right : Expression) : evaluate scope (binary .eq left right) = (do
    let a ← evaluate scope left
    let b ← evaluate scope right
    return if a.isNull then .null else .boolean (a.sameCoerced b)) := by
  rw [evaluate]
  · exact bind_congr fun a => bind_congr fun b => binaryValue_eq a b
  · nofun

theorem isTrueValue_equality (a b : Value) :
    isTrueValue (if a.isNull then .null else .boolean (a.sameCoerced b)) = a.isEqualTo b := by
  rw [Value.isEqualTo]
  cases a.isNull <;> cases a.sameCoerced b <;> rfl

theorem firstPlace_equalities (hsubject : evaluate scope subject = .ok v) (values : List Expression) :
    firstPlace scope isTrueValue (values.map (binary .eq subject)) = firstPlace scope v.isEqualTo values := by
  induction values with
  | nil => rfl
  | cons e es ih =>
    rw [List.map_cons, firstPlace, firstPlace, ih]
    rw [evaluate_equality, hsubject]
    cases evaluate scope e with
    | error => rfl
    | ok w => simp only [bind, Except.bind, pure, Except.pure, isTrueValue_equality]

theorem evaluate_equalityChoice (scope : Scope) (left right : Expression) :
    evaluate scope (equalityChoice left right) = (do
      let a ← evaluate scope left
      return if a.isEqualTo (← evaluate scope right) then .null else a) := by
  rw [equalityChoice, evaluate, firstTrue, evaluate_equality]
  cases hleft : evaluate scope left with
  | error => rfl
  | ok a =>
    cases evaluate scope right with
    | error => rfl
    | ok b =>
      simp only [bind, Except.bind, pure, Except.pure, isTrueValue_equality]
      cases a.isEqualTo b with
      | true => rfl
      | false => exact hleft

/-- NULLIF is the choice by equality exactly where being the same and being equal are one. -/
theorem nullif_eq_iff (scope : Scope) (left right : Expression) :
    evaluate scope (nullif left right) = evaluate scope (equalityChoice left right)
      ↔ ∀ a b, evaluate scope left = .ok a → evaluate scope right = .ok b →
        a.isNull = true ∨ a.same b = a.sameCoerced b := by
  rw [evaluate_equalityChoice, evaluate]
  cases evaluate scope left with
  | error => exact iff_of_true rfl nofun
  | ok a =>
    cases evaluate scope right with
    | error => exact iff_of_true rfl nofun
    | ok b =>
      have hchosen : (if a.same b then Value.null else a) = (if a.isEqualTo b then Value.null else a)
          ↔ a.isNull = true ∨ a.same b = a.sameCoerced b := by
        rw [Value.isEqualTo]
        cases hnull : a.isNull with
        | true => simp [Value.eq_null_of_isNull hnull]
        | false =>
          have hne : a ≠ .null := by
            rintro rfl
            cases hnull
          cases a.same b <;> cases a.sameCoerced b <;> simp [hne, hne.symm]
      simpa [bind, Except.bind, pure, Except.pure] using hchosen

/-! ### A choice with a subject -/

/-- Results that tell at which place a choice takes one. -/
theorem evaluateOptional_told {n : Nat} {place : Option Nat} (hplace : ∀ i, place = some i → i < n)
    (expected : Option Nat) :
    evaluateOptional scope (place.elim (some (boolean (none = expected)))
        (((List.range n).map fun i => boolean (some i = expected))[·]?))
      = .ok (.boolean (place = expected)) := by
  cases place with
  | none => simp [evaluateOptional, evaluate]
  | some i => simp [hplace i rfl, evaluateOptional, evaluate]

/-- A choice with a subject is the choice by equalities, whatever the results, exactly if the first value that is true
itself is the first one that is equal to the subject. -/
theorem subjectChoice_eq_iff (scope : Scope) (subject : Expression) (values : List Expression) :
    (∀ results otherwise x y, results.length = values.length →
        evaluate scope (case (some subject) (values.zip results) otherwise) = .ok x →
        evaluate scope (subjectChoice subject values results otherwise) = .ok y → x = y)
      ↔ ∀ v taken equal, evaluate scope subject = .ok v → firstPlace scope isTrueValue values = .ok taken →
        firstPlace scope v.isEqualTo values = .ok equal → taken = equal := by
  constructor
  · intro h v taken equal hsubject htaken hequal
    let results := (List.range values.length).map fun i => boolean (some i = equal)
    have hlength : results.length = values.length := by simp [results]
    have hcase : evaluate scope (case (some subject) (values.zip results) (some (boolean (none = equal))))
        = .ok (.boolean (taken = equal)) := by
      rw [evaluate_case_zip _ _ hlength, htaken]
      exact evaluateOptional_told (fun i hi => lt_of_firstPlace (hi ▸ htaken)) equal
    have hchoice : evaluate scope (subjectChoice subject values results (some (boolean (none = equal))))
        = .ok (.boolean (equal = equal)) := by
      rw [subjectChoice, evaluate_case_zip _ _ (by rw [hlength, List.length_map]), firstPlace_equalities hsubject, hequal]
      exact evaluateOptional_told (fun i hi => lt_of_firstPlace (hi ▸ hequal)) equal
    simpa using h results _ _ _ hlength hcase hchoice
  · intro h results otherwise x y hlength hx hy
    rw [evaluate_case_zip _ _ hlength] at hx
    rw [subjectChoice, evaluate_case_zip _ _ (by rw [hlength, List.length_map])] at hy
    obtain ⟨taken, htaken, hx⟩ := exists_of_bind_eq_ok hx
    obtain ⟨equal, hequal, hy⟩ := exists_of_bind_eq_ok hy
    have heq : taken = equal := by
      cases values with
      | nil => exact Except.ok.inj (htaken.symm.trans hequal)
      | cons e es =>
        cases hsubject : evaluate scope subject with
        | ok v => exact h v taken equal hsubject htaken (by rwa [firstPlace_equalities hsubject] at hequal)
        | error fault =>
          rw [List.map_cons, firstPlace, evaluate, hsubject] at hequal
          · cases hequal
          · nofun
    rw [heq] at hx
    exact Except.ok.inj (hx.symm.trans hy)

/-! ### Choices between what is present -/

theorem evaluate_conditional (scope : Scope) (condition yes : Expression) (no : Option Expression) :
    evaluate scope (conditional condition yes no) = evaluate scope (case none [(condition, yes)] no) := by
  rw [evaluate, evaluate, firstTrue, firstTrue]
  cases evaluate scope condition with
  | error => rfl
  | ok v =>
    simp only [bind, Except.bind]
    cases isTrueValue v with
    | false => rfl
    | true => cases evaluate scope yes <;> rfl

theorem firstPresent_eq (scope : Scope) (es : List Expression) : firstPresent scope es = (do
    match ← firstTrue scope (es.map fun e => (not (is e null), e)) with
    | some v => return v
    | none => return .null) := by
  induction es with
  | nil => rfl
  | cons e es ih =>
    rw [firstPresent, List.map_cons, firstTrue, ih, evaluate, evaluate]
    cases evaluate scope e with
    | error => rfl
    | ok v =>
      simp only [bind, Except.bind, pure, Except.pure]
      cases v.isNull <;> rfl

theorem evaluate_coalesce (scope : Scope) (es : List Expression) :
    evaluate scope (coalesce es) = evaluate scope (presenceChoice es) := by
  rw [presenceChoice, evaluate, evaluate, firstPresent_eq]
  exact bind_congr fun found => by cases found <;> rfl

/--
The conditional forms and the choices they stand for, wherever they are evaluated. NULLIF is the choice by equality
unless its operands are present and only one of both takes them for equal, which takes a decimal, or a number and a text.
A choice with a subject comes to what the choice by equalities comes to, whatever the results, exactly if the first value
that is true itself is the first one that is equal to the subject. IF and COALESCE are the choices they stand for, also
where these fail.
-/
theorem conditionalForms_eq_iff (scope : Scope) (left right subject condition yes : Expression) (no : Option Expression)
    (values args : List Expression) :
    (evaluate scope (nullif left right) = evaluate scope (equalityChoice left right)
      ↔ ∀ a b, evaluate scope left = .ok a → evaluate scope right = .ok b →
        a.isNull = true ∨ a.same b = a.sameCoerced b)
    ∧ (∀ a b : Value, a.asNumber = a ∧ b.asNumber = b ∨ a.isNumber = false ∧ b.isNumber = false →
      a.same b = a.sameCoerced b)
    ∧ ((∀ results otherwise x y, results.length = values.length →
        evaluate scope (case (some subject) (values.zip results) otherwise) = .ok x →
        evaluate scope (subjectChoice subject values results otherwise) = .ok y → x = y)
      ↔ ∀ v taken equal, evaluate scope subject = .ok v → firstPlace scope isTrueValue values = .ok taken →
        firstPlace scope v.isEqualTo values = .ok equal → taken = equal)
    ∧ evaluate scope (conditional condition yes no) = evaluate scope (case none [(condition, yes)] no)
    ∧ evaluate scope (coalesce args) = evaluate scope (presenceChoice args) :=
  ⟨nullif_eq_iff scope left right, fun _ _ h => (Value.sameCoerced_eq_same h).symm,
    subjectChoice_eq_iff scope subject values, evaluate_conditional scope condition yes no, evaluate_coalesce scope args⟩

/-! ### Codes of a part -/

/-- A part of a store that delivers one code as a number and another one as a text. -/
def codedPart : Row := [("p_size", .integer 1), ("p_code", .text "5")]

def partColumn (name : String) : Expression := column [⟨"p", false⟩] ⟨name, false⟩

/-- The size is equal to one, and the choice with it as the subject takes what is left. The code is equal to five, and
NULLIF keeps it. -/
theorem codedPart_choices_apart :
    evaluate (.row codedPart) (case (some (partColumn "size")) [(number "1", text "small")] (some (text "large")))
        = .ok (.text "large")
      ∧ evaluate (.row codedPart) (subjectChoice (partColumn "size") [number "1"] [text "small"] (some (text "large")))
        = .ok (.text "small")
      ∧ evaluate (.row codedPart) (nullif (partColumn "code") (number "5")) = .ok (.text "5")
      ∧ evaluate (.row codedPart) (equalityChoice (partColumn "code") (number "5")) = .ok .null := by
  refine ⟨by rfl, by rfl, by rfl, by rfl⟩

end Expression

end QueryFederation

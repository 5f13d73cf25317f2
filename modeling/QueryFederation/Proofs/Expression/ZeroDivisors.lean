import QueryFederation.Proofs.Expression.NullOperands
import QueryFederation.Proofs.Value.Sum
import QueryFederation.Proofs.Value.Zero

/-!
# Divisors that are zero

A quotient by zero is null, and so is a remainder. The quotient asks whether the divisor is zero once it has been taken
for a number, so it never divides by zero. The remainder asks before. A text that spells zero, and a decimal too small
for a double, are zeros that are hidden from it: a number has no remainder by them.
-/

namespace QueryFederation

namespace Value

/-- Is the value a zero that shows only once it is taken for a number? -/
def isHiddenZero (v : Value) : Bool := v.asNumber.same (.integer 0) && !v.same (.integer 0)

variable {a b v : Value}

/-- What else is zero, as a number, is found to be. -/
theorem isHiddenZero_iff (v : Value) : v.isHiddenZero = true
    ↔ v.asNumber.same (.integer 0) = true ∧ ((∃ s, v = .text s) ∨ ∃ d : Decimal, v = .decimal d ∧ d.coefficient ≠ 0) := by
  rw [isHiddenZero, Bool.and_eq_true]
  refine and_congr_right fun hzero => ?_
  cases v with
  | text s => simp [same, number?]
  | decimal d =>
    have hsame : (Value.decimal d).same (.integer 0) = true ↔ d.coefficient = 0 := by
      rw [same_integer_iff, ← Decimal.toRat_eq_zero_iff]
      simp [number?]
    simp [← hsame]
  | null | boolean | integer | double | date | timestamp | bytes | list | record =>
    simp only [asNumber] at hzero
    simp [hzero]

/-- The numeric view of a value is no number, or one that arithmetic takes. -/
theorem exists_counts (h : v.asNumber.isNumber = true) : ∃ lane : Lane, lane.Counts v.asNumber := by
  cases v with
  | boolean b => exact ⟨.whole, .boolean b⟩
  | integer n => exact ⟨.whole, .integer n⟩
  | double x => exact ⟨.double, .double x⟩
  | decimal d => exact ⟨.double, .double _⟩
  | text s =>
    have hspelled : ∀ w, ofNumericText? s = some w → ∃ lane : Lane, lane.Counts w := by
      intro w hw
      rw [ofNumericText?] at hw
      split at hw
      · obtain rfl := Option.some.inj hw
        exact ⟨.whole, .integer _⟩
      · obtain ⟨d, -, rfl⟩ := Option.map_eq_some_iff.mp hw
        exact ⟨.double, .double _⟩
    rw [asNumber] at h ⊢
    cases hw : ofNumericText? s with
    | none =>
      rw [hw] at h
      cases h
    | some w => exact hspelled w hw
  | null | date | timestamp | bytes | list | record => cases h

/-! ### Numbers that arithmetic takes -/

section

variable {lane lane' : Lane} {exact : Int → Int → Outcome Value} {rounded : Double → Double → Outcome Value}
  {P : Value → Prop} {n : Int}

theorem number?_of_integer? (h : v.integer? = some n) : v.number? = some (.finite n) := by
  cases v with
  | boolean | integer =>
    obtain rfl := Option.some.inj h
    rfl
  | null | double | decimal | text | date | timestamp | bytes | list | record => cases h

theorem same_zero_iff_of_integer? (h : v.integer? = some n) : v.same (.integer 0) = true ↔ n = 0 := by
  rw [same_integer_iff, number?_of_integer? h]
  simp

theorem Lane.Counts.toDouble_okOr (h : lane.Counts v) : Outcome.OkOr .overflow (fun _ => True) v.toDouble := by
  cases h with
  | boolean | double => trivial
  | integer n =>
    rw [toDouble]
    split
    · trivial
    · rfl

theorem Lane.Counts.toDouble_of_not_zero (h : lane.Counts v) (hzero : v.same (.integer 0) = false) :
    Outcome.OkOr .overflow (fun x => x.isZero = false) v.toDouble := by
  have hfalsy := h.isFalsy_eq_false hzero
  cases h with
  | boolean b =>
    obtain rfl : b = true := by simpa [isFalsy] using hfalsy
    rfl
  | integer n => exact toDouble_integer (by simpa [isFalsy] using hfalsy)
  | double x => exact hfalsy

theorem Lane.Counts.toDouble_of_zero (h : lane.Counts v) (hzero : v.same (.integer 0) = true) :
    ∃ x, v.toDouble = .ok x ∧ x.isZero = true := by
  rw [same_integer_iff] at hzero
  cases h with
  | boolean b =>
    cases b with
    | false => exact ⟨_, rfl, rfl⟩
    | true => simp [number?, boolToInt] at hzero
  | integer n =>
    obtain rfl : n = 0 := by simpa [number?] using hzero
    exact ⟨_, rfl, rfl⟩
  | double x => exact ⟨x, rfl, Double.isZero_iff.mpr (Option.some.inj hzero)⟩

theorem onNumbers_of_not_isNumber (h : (a.isNumber && b.isNumber) = false) :
    onNumbers exact rounded a b = .error .operandType := by
  rw [onNumbers]
  split
  · rename_i ha hb
    rw [isNumber, isNumber, number?_of_integer? ha, number?_of_integer? hb] at h
    cases h
  · rw [h]
    rfl

theorem onNumbers_of_integers {m : Int} (ha : a.integer? = some m) (hb : b.integer? = some n) :
    onNumbers exact rounded a b = exact m n := by
  rw [onNumbers, ha, hb]

/-- Unless both numbers are whole, an operation is one on doubles. -/
theorem onNumbers_of_doubles (ha : lane.Counts a) (hb : lane'.Counts b)
    (h : (a.integer?.isSome && b.integer?.isSome) = false) :
    onNumbers exact rounded a b = (do rounded (← a.toDouble) (← b.toDouble)) := by
  cases ha with
  | boolean | integer =>
    cases hb with
    | boolean | integer => cases h
    | double => rfl
  | double => cases hb <;> rfl

/-- With a divisor that is not zero, all that goes wrong is that a number is beyond the range of doubles. -/
theorem onNumbers_okOr (ha : lane.Counts a) (hb : lane'.Counts b) (hzero : b.same (.integer 0) = false)
    (hexact : ∀ m n, n ≠ 0 → Outcome.OkOr .overflow P (exact m n))
    (hrounded : ∀ x y : Double, y.isZero = false → Outcome.OkOr .overflow P (rounded x y)) :
    Outcome.OkOr .overflow P (onNumbers exact rounded a b) := by
  cases hwhole : a.integer?.isSome && b.integer?.isSome with
  | false =>
    rw [onNumbers_of_doubles ha hb hwhole]
    exact ha.toDouble_okOr.bind fun x _ => (hb.toDouble_of_not_zero hzero).bind fun y hy => hrounded x y hy
  | true =>
    rw [Bool.and_eq_true, Option.isSome_iff_exists, Option.isSome_iff_exists] at hwhole
    obtain ⟨⟨m, hm⟩, n, hn⟩ := hwhole
    rw [onNumbers_of_integers hm hn]
    refine hexact m n fun hn0 => ?_
    rw [(same_zero_iff_of_integer? hn).mpr hn0] at hzero
    cases hzero

/-- Are both numbers whole, or has the first one a double? -/
def AreTaken (a b : Value) : Prop := (a.integer?.isSome && b.integer?.isSome) = true ∨ ∃ x, a.toDouble = .ok x

theorem AreTaken.isNumber (h : AreTaken a b) : a.isNumber = true := by
  obtain h | ⟨x, hx⟩ := h
  · rw [Bool.and_eq_true, Option.isSome_iff_exists] at h
    obtain ⟨⟨n, hn⟩, -⟩ := h
    rw [Value.isNumber, number?_of_integer? hn]
    rfl
  · cases a with
    | boolean | integer | double => rfl
    | null | decimal | text | date | timestamp | bytes | list | record => cases hx

/-- With the divisor zero, what goes wrong is the division, unless a number does not get so far. -/
theorem onNumbers_of_zero (ha : lane.Counts a) (hb : lane'.Counts b) (hzero : b.same (.integer 0) = true)
    (hexact : ∀ m, exact m 0 = .error .divisionByZero)
    (hrounded : ∀ x y : Double, y.isZero = true → rounded x y = .error .divisionByZero) :
    AreTaken a b ∧ onNumbers exact rounded a b = .error .divisionByZero
      ∨ ¬ AreTaken a b ∧ onNumbers exact rounded a b = .error .overflow := by
  cases hwhole : a.integer?.isSome && b.integer?.isSome with
  | false =>
    obtain ⟨y, hy, hyzero⟩ := hb.toDouble_of_zero hzero
    rw [onNumbers_of_doubles ha hb hwhole, hy]
    have hdouble := ha.toDouble_okOr
    cases hx : a.toDouble with
    | ok x => exact Or.inl ⟨Or.inr ⟨x, hx⟩, hrounded x y hyzero⟩
    | error fault =>
      rw [hx] at hdouble
      refine Or.inr ⟨?_, congrArg Except.error hdouble⟩
      rintro (h | ⟨x, h⟩)
      · rw [hwhole] at h
        cases h
      · rw [hx] at h
        cases h
  | true =>
    have htaken : AreTaken a b := Or.inl hwhole
    rw [Bool.and_eq_true, Option.isSome_iff_exists, Option.isSome_iff_exists] at hwhole
    obtain ⟨⟨m, hm⟩, n, hn⟩ := hwhole
    obtain rfl := (same_zero_iff_of_integer? hn).mp hzero
    rw [onNumbers_of_integers hm hn]
    exact Or.inl ⟨htaken, hexact m⟩

/-! ### Operations on numeric views -/

theorem onNumbers_asNumber_ne (hzero : b.asNumber.same (.integer 0) = false)
    (hexact : ∀ m n, n ≠ 0 → Outcome.OkOr .overflow P (exact m n))
    (hrounded : ∀ x y : Double, y.isZero = false → Outcome.OkOr .overflow P (rounded x y)) :
    onNumbers exact rounded a.asNumber b.asNumber ≠ .error .divisionByZero := by
  intro hfault
  cases hnumbers : a.asNumber.isNumber && b.asNumber.isNumber with
  | false =>
    rw [onNumbers_of_not_isNumber hnumbers] at hfault
    cases hfault
  | true =>
    rw [Bool.and_eq_true] at hnumbers
    obtain ⟨lane, ha⟩ := exists_counts hnumbers.1
    obtain ⟨lane', hb⟩ := exists_counts hnumbers.2
    have hresult := onNumbers_okOr ha hb hzero hexact hrounded
    rw [hfault] at hresult
    cases hresult

theorem onNumbers_asNumber_of_zero (a : Value) (hzero : b.asNumber.same (.integer 0) = true)
    (hexact : ∀ m, exact m 0 = .error .divisionByZero)
    (hrounded : ∀ x y : Double, y.isZero = true → rounded x y = .error .divisionByZero) :
    ∃ fault, onNumbers exact rounded a.asNumber b.asNumber = .error fault
      ∧ (fault = .divisionByZero ↔ AreTaken a.asNumber b.asNumber) := by
  have hb : b.asNumber.isNumber = true := by
    rw [isNumber, (same_integer_iff _ _).mp hzero]
    rfl
  cases ha : a.asNumber.isNumber with
  | false =>
    refine ⟨.operandType, onNumbers_of_not_isNumber (by rw [ha, hb]; rfl), iff_of_false (by simp) fun htaken => ?_⟩
    rw [htaken.isNumber] at ha
    cases ha
  | true =>
    obtain ⟨lane, ha⟩ := exists_counts ha
    obtain ⟨lane', hb⟩ := exists_counts hb
    obtain ⟨htaken, hfault⟩ | ⟨htaken, hfault⟩ := onNumbers_of_zero ha hb hzero hexact hrounded
    · exact ⟨_, hfault, iff_of_true rfl htaken⟩
    · exact ⟨_, hfault, iff_of_false (by simp) htaken⟩

end

end Value

namespace Expression

open Value

variable {scope : Scope} {left right : Expression} {a b : Value}

/-! ### Quotients and remainders -/

theorem quotient_of_zero (a : Value) (hzero : b.asNumber.same (.integer 0) = true) : quotient a b = .ok .null := by
  rw [quotient, hzero]
  split <;> rfl

theorem quotient_ne_divisionByZero (a b : Value) : quotient a b ≠ .error .divisionByZero := by
  rw [quotient]
  split
  · simp
  split
  · simp
  rename_i hzero
  refine onNumbers_asNumber_ne (P := IsNumeral) (by simpa using hzero) (fun m n hn => divInt_okOr m hn) fun x y hy => ?_
  rw [hy]
  exact .double _

/-- A value has no remainder by zero, and mostly because it would have to be divided by zero. -/
theorem mod_asNumber_of_zero (a : Value) (hzero : b.asNumber.same (.integer 0) = true) :
    ∃ fault, a.asNumber.mod b.asNumber = .error fault
      ∧ (fault = .divisionByZero ↔ AreTaken a.asNumber b.asNumber) :=
  onNumbers_asNumber_of_zero a hzero (fun _ => rfl) fun _ _ hy => if_pos hy

theorem mod_asNumber_ne (a : Value) (hzero : b.asNumber.same (.integer 0) = false) :
    a.asNumber.mod b.asNumber ≠ .error .divisionByZero := by
  refine onNumbers_asNumber_ne (P := IsNumeral) hzero (fun m n hn => ?_) fun x y hy => ?_
  · rw [if_neg hn]
    exact .integer _
  · rw [hy]
    exact .double _

theorem mod_asNumber_eq_divisionByZero_iff (a b : Value) : a.asNumber.mod b.asNumber = .error .divisionByZero
    ↔ b.asNumber.same (.integer 0) = true ∧ AreTaken a.asNumber b.asNumber := by
  cases hzero : b.asNumber.same (.integer 0) with
  | false => simp [mod_asNumber_ne a hzero]
  | true =>
    obtain ⟨fault, hfault, hiff⟩ := mod_asNumber_of_zero a hzero
    simp [hfault, hiff]

/-! ### Evaluation -/

theorem evaluate_mod (hleft : evaluate scope left = .ok a) (hright : evaluate scope right = .ok b) :
    evaluate scope (binary .mod left right)
      = if a.isNull || b.isNull || b.same (.integer 0) then .ok .null else a.asNumber.mod b.asNumber := by
  rw [evaluate, hleft, hright]
  simp only [bind, Except.bind]
  cases hzero : b.same (.integer 0) with
  | true => simp [pure, Except.pure]
  | false => simp [binaryValue, arithmetic]

/-- By a value that counts as zero, a remainder is null exactly if it is one of null, or the zero is not hidden. -/
theorem evaluate_mod_eq_null_iff (hleft : evaluate scope left = .ok a) (hright : evaluate scope right = .ok b)
    (hzero : b.asNumber.same (.integer 0) = true) :
    evaluate scope (binary .mod left right) = .ok .null ↔ a.isNull = true ∨ b.isHiddenZero = false := by
  have hb : b.isNull = false := by
    cases b with
    | null => cases hzero
    | _ => rfl
  obtain ⟨fault, hfault, -⟩ := mod_asNumber_of_zero a hzero
  rw [evaluate_mod hleft hright, hfault, hb, isHiddenZero, hzero]
  cases a.isNull <;> cases b.same (.integer 0) <;> simp

theorem evaluate_mod_eq_divisionByZero_iff (hleft : evaluate scope left = .ok a)
    (hright : evaluate scope right = .ok b) : evaluate scope (binary .mod left right) = .error .divisionByZero
      ↔ a.isNull = false ∧ b.isHiddenZero = true ∧ AreTaken a.asNumber b.asNumber := by
  rw [evaluate_mod hleft hright, isHiddenZero]
  have hnull : b.isNull = true → b.asNumber.same (.integer 0) = false := by
    cases b with
    | null => exact fun _ => rfl
    | _ => nofun
  have hiff := mod_asNumber_eq_divisionByZero_iff a b
  cases a.isNull <;> cases hb : b.isNull <;> cases b.same (.integer 0) <;> simp_all

/--
Division and modulo of whatever values. A quotient by a value that counts as zero is null, and no quotient divides by
zero. A remainder by a value that counts as zero is null exactly if it is one of null, or the zero is not hidden; and it
divides by zero exactly if the zero is hidden and the left operand is a number that arithmetic takes. Hidden are the
zeros among the texts, and those among the decimals that are not zero themselves, but too small for a double.
-/
theorem zeroDivisors_iff (hleft : evaluate scope left = .ok a) (hright : evaluate scope right = .ok b) :
    (b.asNumber.same (.integer 0) = true → evaluate scope (binary .div left right) = .ok .null)
    ∧ evaluate scope (binary .div left right) ≠ .error .divisionByZero
    ∧ (b.asNumber.same (.integer 0) = true →
      (evaluate scope (binary .mod left right) = .ok .null ↔ a.isNull = true ∨ b.isHiddenZero = false))
    ∧ (evaluate scope (binary .mod left right) = .error .divisionByZero
      ↔ a.isNull = false ∧ b.isHiddenZero = true ∧ AreTaken a.asNumber b.asNumber)
    ∧ (b.isHiddenZero = true ↔ b.asNumber.same (.integer 0) = true
      ∧ ((∃ s, b = .text s) ∨ ∃ d : Decimal, b = .decimal d ∧ d.coefficient ≠ 0)) := by
  have hdiv : evaluate scope (binary .div left right) = quotient a b := evaluate_binary (by decide) hleft hright
  rw [hdiv]
  exact ⟨quotient_of_zero a, quotient_ne_divisionByZero a b, evaluate_mod_eq_null_iff hleft hright,
    evaluate_mod_eq_divisionByZero_iff hleft hright, isHiddenZero_iff b⟩

/-! ### Portions of an order -/

/-- An order of a store that delivers some counts as texts. -/
def emptyOrder : Row := [("o_amount", .integer 5), ("o_boxes", .decimal ⟨true, 0, -2⟩), ("o_size", .text "0")]

/-- Nothing is put into no boxes, and nothing is left over. -/
theorem emptyOrder_in_boxes :
    evaluate (.row emptyOrder) (orderColumn "amount") = .ok (.integer 5)
      ∧ evaluate (.row emptyOrder) (orderColumn "boxes") = .ok (.decimal ⟨true, 0, -2⟩)
      ∧ evaluate (.row emptyOrder) (binary .div (orderColumn "amount") (orderColumn "boxes")) = .ok .null
      ∧ evaluate (.row emptyOrder) (binary .mod (orderColumn "amount") (orderColumn "boxes")) = .ok .null := by
  have hamount : evaluate (.row emptyOrder) (orderColumn "amount") = .ok (.integer 5) := by cbv
  have hboxes : evaluate (.row emptyOrder) (orderColumn "boxes") = .ok (.decimal ⟨true, 0, -2⟩) := by cbv
  have hzero : (Value.decimal ⟨true, 0, -2⟩).asNumber.same (.integer 0) = true := rfl
  have hfound : (Value.decimal ⟨true, 0, -2⟩).isHiddenZero = false := by
    rw [← Bool.not_eq_true, isHiddenZero_iff]
    simp
  obtain ⟨hdiv, -, hmod, -⟩ := zeroDivisors_iff hamount hboxes
  exact ⟨hamount, hboxes, hdiv hzero, (hmod hzero).mpr (Or.inr hfound)⟩

/-- A size that is delivered as a text divides to null, and leaves no remainder, but fails. -/
theorem emptyOrder_size_apart :
    evaluate (.row emptyOrder) (orderColumn "size") = .ok (.text "0")
      ∧ (Value.text "0").asNumber.same (.integer 0) = true
      ∧ evaluate (.row emptyOrder) (binary .div (orderColumn "amount") (orderColumn "size")) = .ok .null
      ∧ evaluate (.row emptyOrder) (binary .mod (orderColumn "amount") (orderColumn "size"))
        = .error .divisionByZero := by
  refine ⟨by rfl, by rfl, by rfl, by rfl⟩

end Expression

end QueryFederation

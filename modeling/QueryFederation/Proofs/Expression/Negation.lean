import QueryFederation.Proofs.Expression.NullOperands
import QueryFederation.Proofs.Logic
import QueryFederation.Proofs.Value.Zero

/-!
# Negations of conjunctions and disjunctions

Stores deliver truth values as themselves or as the numbers one and zero, and a negation takes both for what they stand
for. A conjunction or disjunction knows only the truth values: a conjunction takes any other value for true, and a
disjunction takes it for false. So a negation does not pass through a connective that is given a number in place of the
truth value that decides it, unless that truth value itself is the other operand.
-/

namespace QueryFederation

namespace Connective

def binaryOperator : Connective → BinaryOperator
  | and => .and
  | or => .or

/-- The connective that joins negations where this one joins what is negated. -/
def dual : Connective → Connective
  | and => or
  | or => and

/-- The truth value that decides on its own. -/
def decisive : Connective → Bool
  | and => false
  | or => true

theorem dual_apply_not (c : Connective) (s t : Truth) : c.dual.apply s.not t.not = (c.apply s t).not := by
  cases c <;> rcases s with _ | _ | _ <;> rcases t with _ | _ | _ <;> rfl

theorem apply_decisive_left (c : Connective) (t : Truth) : c.apply (some c.decisive) t = some c.decisive := by
  cases c <;> rcases t with _ | _ | _ <;> rfl

theorem apply_decisive_right (c : Connective) (t : Truth) : c.apply t (some c.decisive) = some c.decisive := by
  cases c <;> rcases t with _ | _ | _ <;> rfl

theorem apply_neutral_left (c : Connective) (t : Truth) : c.apply (some !c.decisive) t = t := by
  cases c <;> rcases t with _ | _ | _ <;> rfl

theorem apply_neutral_right (c : Connective) (t : Truth) : c.apply t (some !c.decisive) = t := by
  cases c <;> rcases t with _ | _ | _ <;> rfl

end Connective

theorem Truth.not_inj {s t : Truth} : s.not = t.not ↔ s = t := by
  rcases s with _ | _ | _ <;> rcases t with _ | _ | _ <;> decide

namespace Value

/-- What a negation takes a value for. -/
def truth (v : Value) : Truth := if v.isNull then none else some !v.isFalsy

/-- Is the value one of the numbers one and zero, and not the truth value that it stands for? -/
def isBit (b : Bool) : Value → Bool
  | boolean _ => false
  | v => v.same (.integer (boolToInt b))

/-- The values that a truth value is delivered as. -/
inductive StandsFor : Value → Truth → Prop
  | unknown : StandsFor .null none
  | itself (b : Bool) : StandsFor (.boolean b) (some b)
  | bit {v : Value} {b : Bool} (h : v.isBit b = true) : StandsFor v (some b)

variable {v w : Value} {s t : Truth} {b other : Bool}

theorem ofTruth_inj : ofTruth s = ofTruth t ↔ s = t := by
  cases s <;> cases t <;> simp [ofTruth]

theorem truth_ofTruth (t : Truth) : (ofTruth t).truth = t := by
  rcases t with _ | _ | _ <;> rfl

theorem truthOr_ofTruth (other : Bool) (t : Truth) : (ofTruth t).truthOr other = t := by
  cases t <;> rfl

theorem isBit_ofTruth (b : Bool) (t : Truth) : (ofTruth t).isBit b = false := by
  cases t <;> rfl

theorem number?_of_isBit (h : v.isBit b = true) : v.number? = some (.finite (boolToInt b)) := by
  cases v with
  | boolean => cases h
  | null | integer | double | decimal | text | date | timestamp | bytes | list | record =>
    exact (same_integer_iff _ _).mp h

theorem truth_of_isBit (h : v.isBit b = true) : v.truth = some b := by
  have hnumber := number?_of_isBit h
  have hfalsy : v.isFalsy = !b := by
    rw [isFalsy_eq_same_zero (by rw [isNumber, hnumber]; rfl), Bool.eq_iff_iff, same_integer_iff, hnumber]
    cases b <;> simp [boolToInt]
  have hnull : v.isNull = false := by
    cases v with
    | null => cases hnumber
    | _ => rfl
  rw [truth, hnull, if_neg Bool.false_ne_true, hfalsy, Bool.not_not]

theorem truthOr_of_isBit (h : v.isBit b = true) (other : Bool) : v.truthOr other = some other := by
  have hnumber := number?_of_isBit h
  cases v with
  | boolean => cases h
  | integer | double | decimal => rfl
  | null | text | date | timestamp | bytes | list | record => cases hnumber

theorem StandsFor.truth_eq (h : v.StandsFor t) : v.truth = t := by
  cases h with
  | unknown => rfl
  | itself b => cases b <;> rfl
  | bit h => exact truth_of_isBit h

theorem StandsFor.eq_some_of_isBit (h : v.StandsFor t) (hbit : v.isBit b = true) : t = some b := by
  rw [← h.truth_eq, truth_of_isBit hbit]

/-- A connective takes a value for what it stands for, unless it is a number in place of what decides. -/
theorem StandsFor.truthOr_eq (h : v.StandsFor t) (hbit : v.isBit b = false) : v.truthOr (!b) = t := by
  cases h with
  | unknown | itself => rfl
  | @bit _ b' h =>
    have hne : b' ≠ b := by
      rintro rfl
      rw [h] at hbit
      cases hbit
    rw [truthOr_of_isBit h, Bool.eq_not.mpr hne]

theorem StandsFor.eq_some_iff (h : v.StandsFor t) (hbit : v.isBit b = false) : t = some b ↔ v = .boolean b := by
  cases h with
  | unknown => simp
  | itself b' => simp
  | @bit _ b' h =>
    refine iff_of_false ?_ ?_
    · rintro ⟨⟩
      rw [h] at hbit
      cases hbit
    · rintro rfl
      cases h

/-- Joined values come to what they stand for, unless a number had to decide alone. -/
theorem apply_truthOr_eq_iff (c : Connective) (hv : v.StandsFor s) (hw : w.StandsFor t) :
    c.apply (v.truthOr !c.decisive) (w.truthOr !c.decisive) = c.apply s t
      ↔ (v.isBit c.decisive = true → w = .boolean c.decisive)
        ∧ (w.isBit c.decisive = true → v = .boolean c.decisive) := by
  cases hvbit : v.isBit c.decisive with
  | false =>
    rw [hv.truthOr_eq hvbit]
    cases hwbit : w.isBit c.decisive with
    | false => simp [hw.truthOr_eq hwbit]
    | true =>
      obtain rfl := hw.eq_some_of_isBit hwbit
      rw [truthOr_of_isBit hwbit, c.apply_neutral_right, c.apply_decisive_right, hv.eq_some_iff hvbit]
      simp
  | true =>
    obtain rfl := hv.eq_some_of_isBit hvbit
    rw [truthOr_of_isBit hvbit, c.apply_neutral_left, c.apply_decisive_left]
    cases hwbit : w.isBit c.decisive with
    | false =>
      rw [hw.truthOr_eq hwbit, hw.eq_some_iff hwbit]
      simp
    | true =>
      rw [truthOr_of_isBit hwbit]
      have hw : w ≠ .boolean c.decisive := by
        rintro rfl
        cases hwbit
      simp [hw]

end Value

namespace Expression

variable {scope : Scope} {left right e : Expression} {a b v : Value} {s t : Truth}

theorem notValue_eq (v : Value) : notValue v = .ofTruth v.truth.not := by
  rw [notValue, Value.truth]
  cases v.isNull with
  | true => rfl
  | false => simp [Value.ofTruth, Truth.not]

theorem evaluate_not (h : evaluate scope e = .ok v) : evaluate scope (not e) = .ok (.ofTruth v.truth.not) := by
  rw [evaluate, h, ← notValue_eq]
  rfl

theorem evaluate_connective (c : Connective) (hleft : evaluate scope left = .ok a)
    (hright : evaluate scope right = .ok b) : evaluate scope (binary c.binaryOperator left right)
      = .ok (.ofTruth (c.apply (a.truthOr !c.decisive) (b.truthOr !c.decisive))) := by
  cases c with
  | and | or => exact evaluate_binary nofun hleft hright

/-- What is negated one by one is joined to the negation of what the values stand for. -/
theorem evaluate_negations (c : Connective) (hleft : evaluate scope left = .ok a)
    (hright : evaluate scope right = .ok b) (ha : a.StandsFor s) (hb : b.StandsFor t) :
    evaluate scope (binary c.dual.binaryOperator (not left) (not right)) = .ok (.ofTruth (c.apply s t).not) := by
  rw [evaluate_connective c.dual (evaluate_not hleft) (evaluate_not hright), Value.truthOr_ofTruth,
    Value.truthOr_ofTruth, ha.truth_eq, hb.truth_eq, c.dual_apply_not]

/-- A negation passes through a connective unless a number had to decide alone. -/
theorem negation_passes_iff (c : Connective) (hleft : evaluate scope left = .ok a)
    (hright : evaluate scope right = .ok b) (ha : a.StandsFor s) (hb : b.StandsFor t) :
    evaluate scope (not (binary c.binaryOperator left right))
        = evaluate scope (binary c.dual.binaryOperator (not left) (not right))
      ↔ (a.isBit c.decisive = true → b = .boolean c.decisive)
        ∧ (b.isBit c.decisive = true → a = .boolean c.decisive) := by
  rw [evaluate_negations c hleft hright ha hb, evaluate_not (evaluate_connective c hleft hright), Value.truth_ofTruth,
    Except.ok.injEq, Value.ofTruth_inj, Truth.not_inj, Value.apply_truthOr_eq_iff c ha hb]

/-! ### Predicates -/

/-- Is the expression one that asks something, so that its values are truth values themselves? -/
def isPredicate : Expression → Bool
  | null | boolean _ | not _ | is _ _ => true
  | paren e => e.isPredicate
  | binary op _ _ => op.isLogical || op.isComparison
  | _ => false

theorem exists_truth_of_binaryValue {op : BinaryOperator} (hop : (op.isLogical || op.isComparison) = true)
    (h : binaryValue op a b = .ok v) : ∃ t, v = .ofTruth t := by
  have hcompared : ∀ operator, comparison operator a b = .ok v → ∃ t, v = .ofTruth t := by
    intro operator hv
    rw [comparison] at hv
    cases hholds : operator.holds a b with
    | error fault =>
      rw [hholds] at hv
      cases hv
    | ok t =>
      rw [hholds] at hv
      exact ⟨t, (Except.ok.inj hv).symm⟩
  cases op with
  | or | and => exact ⟨_, (Except.ok.inj h).symm⟩
  | eq | ne | lt | le | gt | ge => exact hcompared _ h
  | add | sub | mul | div | mod => cases hop

theorem exists_truth_of_isPredicate (h : e.isPredicate = true) (hv : evaluate scope e = .ok v) :
    ∃ t, v = .ofTruth t := by
  fun_induction isPredicate e with
  | case1 =>
    rw [evaluate] at hv
    exact ⟨none, (Except.ok.inj hv).symm⟩
  | case2 b =>
    rw [evaluate] at hv
    exact ⟨some b, (Except.ok.inj hv).symm⟩
  | case3 e =>
    rw [evaluate] at hv
    obtain ⟨w, -, hw⟩ := exists_of_bind_eq_ok hv
    exact ⟨_, (Except.ok.inj hw).symm.trans (notValue_eq w)⟩
  | case4 left right =>
    by_cases hnull : right = null
    · rw [hnull, evaluate] at hv
      obtain ⟨w, -, hw⟩ := exists_of_bind_eq_ok hv
      exact ⟨some w.isNull, (Except.ok.inj hw).symm⟩
    · rw [evaluate_is _ _ hnull] at hv
      obtain ⟨w, -, hv⟩ := exists_of_bind_eq_ok hv
      obtain ⟨w', -, hw⟩ := exists_of_bind_eq_ok hv
      exact ⟨some (w.same w'), (Except.ok.inj hw).symm⟩
  | case5 e ih =>
    rw [evaluate] at hv
    exact ih h hv
  | case6 op left right =>
    have hmod : op ≠ .mod := by
      rintro rfl
      cases h
    rw [evaluate] at hv
    · obtain ⟨w, -, hv⟩ := exists_of_bind_eq_ok hv
      obtain ⟨w', -, hv⟩ := exists_of_bind_eq_ok hv
      exact exists_truth_of_binaryValue h hv
    · exact hmod
  | case7 => cases h

/--
Negations of a conjunction and of a disjunction, whose operands are truth values, nulls, or the numbers one and zero
that stores deliver. Joining the negations gives what three-valued logic gives. Negating the conjunction gives the same,
unless an operand is the number zero and the other one is not false; negating the disjunction gives the same, unless an
operand is the number one and the other one is not true. So both laws hold of predicates, whatever they ask.
-/
theorem deMorgan_iff (hleft : evaluate scope left = .ok a) (hright : evaluate scope right = .ok b)
    (ha : a.StandsFor s) (hb : b.StandsFor t) :
    (evaluate scope (binary .or (not left) (not right)) = .ok (.ofTruth (s.and t).not)
      ∧ (evaluate scope (not (binary .and left right)) = evaluate scope (binary .or (not left) (not right))
        ↔ (a.isBit false = true → b = .boolean false) ∧ (b.isBit false = true → a = .boolean false)))
    ∧ (evaluate scope (binary .and (not left) (not right)) = .ok (.ofTruth (s.or t).not)
      ∧ (evaluate scope (not (binary .or left right)) = evaluate scope (binary .and (not left) (not right))
        ↔ (a.isBit true = true → b = .boolean true) ∧ (b.isBit true = true → a = .boolean true)))
    ∧ (left.isPredicate = true → right.isPredicate = true →
      evaluate scope (not (binary .and left right)) = evaluate scope (binary .or (not left) (not right))
        ∧ evaluate scope (not (binary .or left right)) = evaluate scope (binary .and (not left) (not right))) := by
  have hand := negation_passes_iff .and hleft hright ha hb
  have hor := negation_passes_iff .or hleft hright ha hb
  refine ⟨⟨evaluate_negations .and hleft hright ha hb, hand⟩,
    ⟨evaluate_negations .or hleft hright ha hb, hor⟩, fun hleftAsks hrightAsks => ?_⟩
  obtain ⟨p, rfl⟩ := exists_truth_of_isPredicate hleftAsks hleft
  obtain ⟨q, rfl⟩ := exists_truth_of_isPredicate hrightAsks hright
  have hbits : ∀ b : Bool, (Value.ofTruth p).isBit b = false ∧ (Value.ofTruth q).isBit b = false :=
    fun b => ⟨Value.isBit_ofTruth b p, Value.isBit_ofTruth b q⟩
  exact ⟨hand.mpr (by simp [hbits]), hor.mpr (by simp [hbits])⟩

/-! ### A paid order -/

/-- An order of a store that delivers some truth values as numbers. -/
def paidOrder : Row :=
  [("o_paid", .integer 1), ("o_checked", .null), ("o_returned", .integer 0), ("o_shipped", .boolean true),
    ("o_late", .boolean false)]

/-- It is not known whether the order has been paid and checked, by either way of negating. -/
theorem paidAndChecked_negated :
    evaluate (.row paidOrder) (orderColumn "paid") = .ok (.integer 1)
      ∧ evaluate (.row paidOrder) (orderColumn "checked") = .ok .null
      ∧ (Value.integer 1).StandsFor (some true) ∧ Value.null.StandsFor none
      ∧ evaluate (.row paidOrder) (binary .or (not (orderColumn "paid")) (not (orderColumn "checked"))) = .ok .null
      ∧ evaluate (.row paidOrder) (not (binary .and (orderColumn "paid") (orderColumn "checked"))) = .ok .null := by
  have hpaid : evaluate (.row paidOrder) (orderColumn "paid") = .ok (.integer 1) := by cbv
  have hchecked : evaluate (.row paidOrder) (orderColumn "checked") = .ok .null := by cbv
  have hone : (Value.integer 1).StandsFor (some true) := .bit rfl
  obtain ⟨⟨hnegations, hnegation⟩, -⟩ := deMorgan_iff hpaid hchecked hone .unknown
  refine ⟨hpaid, hchecked, hone, .unknown, hnegations, ?_⟩
  rw [hnegation.mpr ⟨fun h => absurd h (by decide), fun h => absurd h (by decide)⟩]
  exact hnegations

/-- An order that has not been returned has not been returned and shipped, and one that has been paid has been paid or
is late. Negating the connective denies both, where the number has to decide. -/
theorem returnedAndShipped_negated_apart :
    evaluate (.row paidOrder) (binary .or (not (orderColumn "returned")) (not (orderColumn "shipped")))
        = .ok (.boolean true)
      ∧ evaluate (.row paidOrder) (not (binary .and (orderColumn "returned") (orderColumn "shipped")))
        = .ok (.boolean false)
      ∧ evaluate (.row paidOrder) (binary .and (not (orderColumn "paid")) (not (orderColumn "late")))
        = .ok (.boolean false)
      ∧ evaluate (.row paidOrder) (not (binary .or (orderColumn "paid") (orderColumn "late")))
        = .ok (.boolean true) :=
  ⟨rfl, rfl, rfl, rfl⟩

end Expression

end QueryFederation

import QueryFederation.Filter.Comparison
import QueryFederation.Proofs.Outcome
import QueryFederation.Proofs.Value.Zero
import QueryFederation.Validation.Basic

/-!
# Arithmetic in lanes

A failure is told in words, unless it is one of operands: an operation meets a value that it is not made for, or too
large a one, or an argument that is not there. Comparing fails in words, whatever is compared, and so does a filter
whose value its operator can use.

Sums, differences and products of whole numbers are whole numbers, and those of doubles are doubles. As long as
arithmetic stays in one of these lanes it has a result. Between the lanes it need not have one, since a whole number may
be beyond every double, and dividing leads out of the whole numbers. Null is in every lane, and decimals are in that of
doubles, because arithmetic takes them for doubles.
-/

/-! ### Comparisons fail in words -/

namespace QueryFederation

open Outcome

/-- Has the computation come back with a result of which `P` holds, or failed in words? -/
abbrev Outcome.Tells {α : Type} (P : α → Prop) (x : Outcome α) : Prop :=
  Yields P (fun fault => fault.isOperandFailure = false) x

theorem Value.tells_ordered (holds : Ordering → Bool) (v target : Value) :
    Tells (fun _ => True) (ordered holds v target) := by
  rw [ordered]
  split
  · trivial
  · dsimp only
    split
    · rfl
    · trivial
    · trivial

namespace FilterOperator

variable {operator : FilterOperator} {v target : Value}

/-- An operator that takes its target apart needs a list, and for bounds one of two items. -/
theorem tells_holds (hparts : operator = .isIn ∨ operator = .notIn → ∃ items, target = .list items)
    (hbounds : operator = .between → ∃ low high, target = .list [low, high]) :
    Tells (fun _ => True) (operator.holds v target) := by
  unfold holds
  split
  · trivial
  · trivial
  · split
    · trivial
    · split
      · obtain ⟨items, rfl⟩ := hparts (Or.inl rfl)
        trivial
      · obtain ⟨items, rfl⟩ := hparts (Or.inr rfl)
        trivial
      · obtain ⟨low, high, rfl⟩ := hbounds rfl
        refine (Value.tells_ordered _ v low).bind fun above _ => ?_
        split
        · exact Value.tells_ordered _ v high
        · trivial
      all_goals first | trivial | exact Value.tells_ordered _ v target

theorem tells_holds_of_valueProblem? (h : operator.valueProblem? target = none) (v : Value) :
    Tells (fun _ => True) (operator.holds v target) := by
  refine tells_holds (fun hoperator => exists_items_of_valueProblem? hoperator h) fun hoperator => ?_
  subst hoperator
  exact exists_bounds_of_valueProblem? h

end FilterOperator

end QueryFederation

/-! ### Arithmetic that stays in its lane -/

namespace QueryFederation.Value

open Outcome

/-- What is known of a value, as far as arithmetic goes. -/
inductive Lane where
  | whole
  | double
  | any
  deriving DecidableEq, Repr

namespace Lane

/-- The values of a lane. -/
inductive Has : Lane → Value → Prop
  | null {lane : Lane} : Has lane .null
  | boolean (b : Bool) : Has whole (.boolean b)
  | integer (n : Int) : Has whole (.integer n)
  | double (x : Double) : Has double (.double x)
  | decimal (d : Decimal) : Has double (.decimal d)
  | any (v : Value) : Has any v

/-- The numbers of a lane, as arithmetic takes them. -/
inductive Counts : Lane → Value → Prop
  | boolean (b : Bool) : Counts whole (.boolean b)
  | integer (n : Int) : Counts whole (.integer n)
  | double (x : Double) : Counts double (.double x)

variable {lane : Lane} {a b v : Value} {vs : List Value}

theorem Counts.has (h : lane.Counts v) : lane.Has v := by
  cases h with
  | boolean b => exact .boolean b
  | integer n => exact .integer n
  | double x => exact .double x

theorem Has.counts (h : lane.Has v) (hlane : lane ≠ .any) (hv : v.isNull = false) : lane.Counts v.asNumber := by
  cases h with
  | null => cases hv
  | boolean b => exact .boolean b
  | integer n => exact .integer n
  | double x => exact .double x
  | decimal d => exact .double _
  | any => exact absurd rfl hlane

theorem Has.asNumber_eq (h : Lane.whole.Has v) : v.asNumber = v := by
  cases h <;> rfl

theorem Counts.exists_toInteger (h : Lane.whole.Counts v) : ∃ n, v.toInteger = .ok n := by
  cases h <;> exact ⟨_, rfl⟩

theorem Counts.exists_toReal (h : Lane.double.Counts v) : ∃ x, v.toReal = .ok x := by
  cases h
  exact ⟨_, rfl⟩

/-! ### Operations on numbers -/

theorem Counts.add (ha : lane.Counts a) (hb : lane.Counts b) : Tells lane.Counts (a.add b) := by
  cases ha with
  | boolean | integer => cases hb <;> exact .integer _
  | double x => cases hb with
    | double y => exact .double _

theorem Counts.sub (ha : lane.Counts a) (hb : lane.Counts b) : Tells lane.Counts (a.sub b) := by
  cases ha with
  | boolean | integer => cases hb <;> exact .integer _
  | double x => cases hb with
    | double y => exact .double _

theorem Counts.mul (ha : lane.Counts a) (hb : lane.Counts b) : Tells lane.Counts (a.mul b) := by
  cases ha with
  | boolean | integer => cases hb <;> exact .integer _
  | double x => cases hb with
    | double y => exact .double _

theorem Counts.neg (h : lane.Counts v) : Tells lane.Counts v.neg := by
  cases h with
  | boolean | integer => exact .integer _
  | double x => exact .double _

theorem Counts.abs (h : lane.Counts v) : Tells lane.Counts v.abs := by
  cases h with
  | boolean | integer => exact .integer _
  | double x => exact .double _

theorem Counts.roundTo (h : Lane.whole.Counts v) (places : Int) : Tells Lane.whole.Counts (v.roundTo places) := by
  cases h <;> exact .integer _

theorem Counts.isNumber (h : lane.Counts v) : v.isNumber = true := by
  cases h <;> rfl

theorem Counts.isFalsy_eq_false (hv : lane.Counts v) (h : v.same (.integer 0) = false) : v.isFalsy = false :=
  (isFalsy_eq_same_zero hv.isNumber).trans h

/-- A remainder of whole numbers is one, unless the divisor is found to be zero. -/
theorem Counts.mod (ha : Lane.whole.Counts a) (hb : Lane.whole.Counts b) (hzero : b.same (.integer 0) = false) :
    Tells Lane.whole.Counts (a.mod b) := by
  have hfalsy := hb.isFalsy_eq_false hzero
  have hexact : ∀ m n : Int, n ≠ 0 → Tells Lane.whole.Counts
      (if n = 0 then .error .divisionByZero else .ok (.integer (m.fmod n)) : Outcome Value) := by
    intro m n hn
    rw [if_neg hn]
    exact .integer _
  cases hb with
  | boolean c =>
    obtain rfl : c = true := by simpa [isFalsy] using hfalsy
    cases ha <;> exact hexact _ (boolToInt true) (by decide)
  | integer n =>
    have hn : n ≠ 0 := by simpa [isFalsy] using hfalsy
    cases ha <;> exact hexact _ _ hn

/-- A quotient of doubles is one, unless the divisor is found to be zero. -/
theorem Counts.div (ha : Lane.double.Counts a) (hb : Lane.double.Counts b) (hzero : b.same (.integer 0) = false) :
    Tells Lane.double.Counts (a.div b) := by
  have hfalsy := hb.isFalsy_eq_false hzero
  cases ha with
  | double x => cases hb with
    | double y =>
      have hdiv : (Value.double x).div (.double y)
          = if y.isZero then .error .divisionByZero else .ok (.double (x.div y)) := rfl
      have hy : y.isZero = false := hfalsy
      rw [hdiv, hy]
      exact .double _

/-- What is summed starts from the integer zero, which is a number of either lane. -/
theorem Counts.sum (h : ∀ v ∈ vs, lane.Counts v) (hvs : vs ≠ []) : Tells lane.Counts (Value.sum vs) := by
  obtain ⟨v, rest, rfl⟩ := List.exists_cons_of_ne_nil hvs
  obtain ⟨hv, hrest⟩ := List.forall_mem_cons.mp h
  have hstart : Tells lane.Counts ((Value.integer 0).add v) := by
    cases hv with
    | boolean | integer => exact .integer _
    | double x => exact .double _
  rw [Value.sum, List.foldlM_cons]
  exact hstart.bind fun total htotal => .foldlM (fun w hw _ htotal => htotal.add (hrest w hw)) htotal

end Lane

end QueryFederation.Value

import QueryFederation.Proofs.Number.Rounding
import QueryFederation.Proofs.Value.Equality

/-!
# Zero

A number of any type can be zero: a decimal with any exponent, a double with either sign, and false, which counts as
zero. All of them are found equal to the integer zero, and just these numbers are taken for false.
-/

namespace QueryFederation

theorem Decimal.toRat_eq_zero_iff {d : Decimal} : d.toRat = 0 ↔ d.coefficient = 0 := by
  have hsize : (d.coefficient : Rat) * Number.power 10 d.exponent = 0 ↔ d.coefficient = 0 := by
    rw [Number.power_eq_zpow, mul_eq_zero_iff_right (zpow_ne_zero _ (by norm_num)), Nat.cast_eq_zero]
  rw [toRat]
  split
  · rw [neg_eq_zero, hsize]
  · exact hsize

theorem Double.isZero_iff {x : Double} : x.isZero = true ↔ Extended.ofDouble x = .finite 0 := by
  cases x <;> simp [isZero, Extended.ofDouble]

namespace Value

variable {v : Value}

/-- A value equals an integer if it is a number that is worth it. -/
theorem same_integer_iff (v : Value) (n : Int) : v.same (.integer n) = true ↔ v.number? = some (.finite n) := by
  cases v with
  | integer m => simp [same, number?]
  | null | text | date | timestamp | bytes | list | record => simp [same, number?]
  | boolean | decimal => simp [same, number?, Extended.same_iff]
  | double x =>
    have hnan : Extended.ofDouble x = .finite n → Extended.ofDouble x ≠ .nan := fun h => h ▸ Extended.noConfusion
    simpa [same, number?, Extended.same_iff] using hnan

/-- The numbers that count as false are those that equal zero. -/
theorem isFalsy_eq_same_zero (h : v.isNumber = true) : v.isFalsy = v.same (.integer 0) := by
  rw [Bool.eq_iff_iff, same_integer_iff]
  cases v with
  | boolean b => cases b <;> simp [isFalsy, number?, boolToInt]
  | integer n => simp [isFalsy, number?]
  | double x => simp [isFalsy, number?, Double.isZero_iff]
  | decimal d => simp [isFalsy, number?, Decimal.isZero, Decimal.toRat_eq_zero_iff]
  | null | text | date | timestamp | bytes | list | record => cases h

end Value

end QueryFederation

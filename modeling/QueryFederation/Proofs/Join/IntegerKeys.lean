import QueryFederation.Proofs.Number.Numerals
import QueryFederation.Proofs.Number.Rounding
import QueryFederation.Proofs.Value.Equality

/-!
# Integers as join keys

Sources hold one integer in many forms: as a number of any type, as a truth value, or written out. The key of each is
the integer itself, so rows meet whatever the form. Only a text of more digits than are read as an integer is read as a
double, and zeros in front count as digits. Its key is that of the nearest double, which is another integer unless
doubles can hold this one.
-/

/-! ### Whole numbers as doubles -/

namespace QueryFederation

open Number Text

theorem Number.pow_le_of_lt_decimalLength {n e : Nat} (he : 0 < e) (h : e < decimalLength n) : 10 ^ e ≤ n := by
  by_contra hlt
  have hlength : (toString n).length ≤ e := Nat.repr_length n e he (Nat.not_le.mp hlt)
  rw [decimalLength] at h
  split at h <;> omega

theorem Number.two_pow_le_ten_pow {k e : Nat} (h : k ≤ 3 * e) : 2 ^ k ≤ 10 ^ e :=
  calc 2 ^ k ≤ 2 ^ (3 * e) := Nat.pow_le_pow_right two_pos h
    _ = (2 ^ 3) ^ e := pow_mul 2 3 e
    _ ≤ 10 ^ e := Nat.pow_le_pow_left (by decide) e

theorem Number.power_two_le_natCast {k n : Nat} (h : 2 ^ k ≤ n) : power 2 k ≤ (n : Rat) := by
  rw [power_two, zpow_natCast]
  exact_mod_cast h

theorem Decimal.toRat_whole (sign : Sign) (size : Nat) :
    (⟨sign.isMinus, size, 0⟩ : Decimal).toRat = (sign.apply size : Int) := by
  rw [Decimal.toRat, Sign.apply, power_eq_zpow, zpow_zero, mul_one]
  split <;> simp

theorem Double.toInt?_eq_some_iff {x : Double} {n : Int} : x.toInt? = some n ↔ x.toRat? = some (n : Rat) := by
  cases x with
  | nan | infinite => exact iff_of_false nofun nofun
  | negativeZero => simp [toInt?, toRat?, eq_comm]
  | finite q =>
    rw [toInt?, toRat?, Option.some_inj]
    split
    · rename_i hden
      rw [Option.some_inj]
      constructor
      · rintro rfl
        exact (Rat.coe_int_num_of_den_eq_one hden).symm
      · rintro rfl
        exact Rat.num_intCast n
    · rename_i hden
      refine iff_of_false nofun ?_
      rintro rfl
      exact hden (Rat.den_intCast n)

namespace Value

variable {v w : Value} {m n : Int} {x : Double} {s : String}

theorem doubleKey_eq_integer_iff : doubleKey x = .integer n ↔ x.toRat? = some (n : Rat) := by
  rw [← Double.toInt?_eq_some_iff, doubleKey]
  split <;> simp_all

theorem doubleKey_zero (negative : Bool) : doubleKey (.zero negative) = .integer 0 := by
  cases negative <;> rfl

/-- A whole number is read as its nearest double, up to the sign of zero, which keys do not have. -/
theorem doubleKey_ofDecimal_whole (sign : Sign) (size : Nat) :
    doubleKey (.ofDecimal ⟨sign.isMinus, size, 0⟩) = doubleKey (.ofRat (sign.apply size : Int)) := by
  have hrat : (⟨sign.isMinus, size, 0⟩ : Decimal).toRat = (sign.apply size : Int) := Decimal.toRat_whole sign size
  rw [Double.ofDecimal]
  dsimp only
  rw [hrat]
  split
  · rename_i hsmall
    obtain rfl : size = 0 := by
      rw [Bool.or_eq_true, decide_eq_true_eq, decide_eq_true_eq] at hsmall
      omega
    rw [doubleKey_zero, Sign.apply_zero]
    rfl
  · split
    · -- The answer is cut off for numbers that are beyond the range of doubles in any case.
      rename_i hlarge
      have hsize : 10 ^ 400 ≤ size := pow_le_of_lt_decimalLength (by decide) (by omega)
      have hinfinite : power 2 1024 ≤ |((sign.apply size : Int) : Rat)| := by
        rw [← Int.cast_abs, ← Int.natCast_natAbs, Sign.natAbs_apply]
        exact power_two_le_natCast ((two_pow_le_ten_pow (by decide)).trans hsize)
      have hnegative : decide (((sign.apply size : Int) : Rat) < 0) = sign.isMinus := by
        rw [Bool.eq_iff_iff, decide_eq_true_eq, Int.cast_lt_zero,
          Sign.apply_neg_iff (lt_of_lt_of_le (Nat.pow_pos (by decide)) hsize)]
      rw [Double.ofRat_of_power_le hinfinite, hnegative]
    · split
      · rename_i hzero
        rw [doubleKey_zero, hzero]
        rfl
      · rfl

/-! ### The forms of an integer -/

/-- The forms in which sources hold an integer: as any number that is worth it, as a truth value, or written out. -/
inductive IsFormOf (n : Int) : Value → Prop
  | integer : IsFormOf n (.integer n)
  | boolean {b : Bool} (h : boolToInt b = n) : IsFormOf n (.boolean b)
  | double {x : Double} (h : x.toRat? = some (n : Rat)) : IsFormOf n (.double x)
  | decimal {d : Decimal} (h : d.toRat = n) : IsFormOf n (.decimal d)
  | text (numeral : WholeNumeral) (h : numeral.value = n) : IsFormOf n (.text numeral.text)

/-- How many digits a value is written with, zeros in front included. -/
def writtenDigits : Value → Nat
  | text s => s.toList.countP isDigit
  | _ => 0

/-- Does a form of an integer keep it as a key? Of a text of too many digits only what a double can hold is kept. -/
def Keeps (v : Value) (n : Int) : Prop :=
  v.writtenDigits ≤ integerDigitLimit ∨ (Double.ofRat n).toRat? = some (n : Rat)

theorem joinKey_text (numeral : WholeNumeral) :
    joinKey (.text numeral.text) = if (Value.text numeral.text).writtenDigits ≤ integerDigitLimit
      then .integer numeral.value else doubleKey (.ofRat numeral.value) := by
  rw [writtenDigits, numeral.countP_isDigit_text, joinKey, textKey, numeral.ofNumericText?_text]
  split_ifs
  · rfl
  · exact doubleKey_ofDecimal_whole _ _

theorem joinKey_of_isFormOf (h : v.IsFormOf n) :
    v.joinKey = if v.writtenDigits ≤ integerDigitLimit then .integer n else doubleKey (.ofRat n) := by
  cases h with
  | integer => rfl
  | boolean h =>
    subst h
    rfl
  | double h => exact doubleKey_eq_integer_iff.mpr h
  | @decimal d h =>
    have hwhole : d.toRat.den = 1 := by rw [h, Rat.den_intCast]
    have hnum : d.toRat.num = n := by rw [h, Rat.num_intCast]
    exact (if_pos hwhole).trans (congrArg Value.integer hnum)
  | text numeral h =>
    subst h
    exact joinKey_text numeral

theorem joinKey_eq_integer_iff (h : v.IsFormOf n) : v.joinKey = .integer n ↔ v.Keeps n := by
  rw [joinKey_of_isFormOf h, Keeps]
  split
  · rename_i hshort
    exact iff_of_true rfl (Or.inl hshort)
  · rename_i hlong
    rw [doubleKey_eq_integer_iff, or_iff_right hlong]

theorem isNumber_joinKey (h : v.IsFormOf n) : v.joinKey.isNumber = true := by
  rw [joinKey_of_isFormOf h, doubleKey]
  split_ifs
  · rfl
  · split <;> rfl

/-! ### Texts that are no numbers -/

theorem joinKey_of_not_isNumeral (h : ¬IsNumeral (trimList s.toList)) : joinKey (.text s) = .text (trim s) := by
  have hnone : ofNumericText? s = none := by
    rw [← Option.not_isSome_iff_eq_none, ofNumericText?_isSome_iff]
    exact h
  rw [joinKey, textKey, hnone]

theorem same_text_of_isNumber (h : v.isNumber = true) : v.same (.text s) = false := by
  cases v with
  | boolean | integer | double | decimal => rfl
  | null | text | date | timestamp | bytes | list | record => cases h

/-! ### Keys of integers -/

/--
A form of an integer has the integer as its key just if it keeps it, and the key of the nearest double if not. Two forms
that keep their integers share a key just if the integers are the same, and none shares its key with a text that is no
number.
-/
theorem integerForms_share_key_iff (hv : v.IsFormOf m) (hw : w.IsFormOf n) :
    (v.joinKey = .integer m ↔ v.Keeps m)
      ∧ (¬v.Keeps m → v.joinKey = joinKey (.double (.ofRat m)))
      ∧ (v.Keeps m → w.Keeps n → (v.joinKey.same w.joinKey = true ↔ m = n))
      ∧ (∀ s : String, ¬IsNumeral (trimList s.toList) → v.joinKey.same (joinKey (.text s)) = false) := by
  refine ⟨joinKey_eq_integer_iff hv, fun hlost => ?_, fun hm hn => ?_, fun s hs => ?_⟩
  · rw [joinKey_of_isFormOf hv, if_neg fun hshort => hlost (Or.inl hshort)]
    rfl
  · rw [(joinKey_eq_integer_iff hv).mpr hm, (joinKey_eq_integer_iff hw).mpr hn, same, decide_eq_true_eq]
  · rw [joinKey_of_not_isNumeral hs]
    exact same_text_of_isNumber (isNumber_joinKey hv)

/-- The reference of an order, with so many zeros in front of a number that is no double. -/
def orderReference (zeros : Nat) : WholeNumeral where
  before := [' ']
  sign := .plus
  zeros := List.replicate zeros '0'
  digits := ['9', '0', '0', '7', '1', '9', '9', '2', '5', '4', '7', '4', '0', '9', '9', '3']
  after := []
  before_isBlank := List.all_eq_true.mp (by decide)
  zeros_isZero := by
    intro c hc
    rw [List.eq_of_mem_replicate hc]
    decide
  digits_isDigit := List.all_eq_true.mp (by decide)
  after_isBlank := nofun
  ne_nil := List.append_ne_nil_of_right_ne_nil _ (List.cons_ne_nil _ _)

theorem isFormOf_orderReference (zeros : Nat) : (text (orderReference zeros).text).IsFormOf 9007199254740993 := by
  have hvalue : (orderReference zeros).value = (orderReference 0).value := rfl
  exact .text _ (hvalue.trans (by decide +kernel))

theorem writtenDigits_orderReference (zeros : Nat) : (text (orderReference zeros).text).writtenDigits = zeros + 16 := by
  rw [writtenDigits, WholeNumeral.countP_isDigit_text, List.length_append, orderReference, List.length_replicate]
  rfl

/--
A few zeros do no harm: the reference is not taken for the number before it, nor for a text that is no number. With too
many it has the key of its double.
-/
theorem orderReference_apart :
    (text (orderReference 3).text).IsFormOf 9007199254740993
      ∧ (decimal ⟨false, 900719925474099200, -2⟩).IsFormOf 9007199254740992
      ∧ (text (orderReference 3).text).joinKey = .integer 9007199254740993
      ∧ (text (orderReference 3).text).joinKey.same (decimal ⟨false, 900719925474099200, -2⟩).joinKey = false
      ∧ (text (orderReference 3).text).joinKey.same (text " n/a").joinKey = false
      ∧ (text (orderReference 4300).text).joinKey = joinKey (.double (.ofRat (9007199254740993 : Int))) := by
  have hreference := isFormOf_orderReference 3
  have hamount : (decimal ⟨false, 900719925474099200, -2⟩).IsFormOf 9007199254740992 := .decimal (by decide +kernel)
  have hkeeps : (text (orderReference 3).text).Keeps 9007199254740993 := by
    left
    rw [writtenDigits_orderReference]
    decide
  have hlost : ¬(text (orderReference 4300).text).Keeps 9007199254740993 := by
    rintro (hshort | hdouble)
    · rw [writtenDigits_orderReference] at hshort
      exact absurd hshort (by decide)
    · exact absurd hdouble (by decide +kernel)
  have hword : ¬IsNumeral (trimList " n/a".toList) := ofNumericText?_isSome_iff.not.mp (by decide +kernel)
  obtain ⟨hkey, -, hapart, hno⟩ := integerForms_share_key_iff hreference hamount
  obtain ⟨-, hdouble, -⟩ := integerForms_share_key_iff (isFormOf_orderReference 4300) hamount
  refine ⟨hreference, hamount, hkey.mpr hkeeps, ?_, hno _ hword, hdouble hlost⟩
  rw [← Bool.not_eq_true, hapart hkeeps (Or.inl (by decide))]
  decide

/-- With so many zeros that the reference is read as a double, it meets the number before it. -/
theorem paddedReference_meets_neighbour :
    (text (orderReference 4300).text).IsFormOf 9007199254740993
      ∧ (orderReference 4300).digits.length ≤ integerDigitLimit
      ∧ (text (orderReference 4300).text).joinKey = (integer 9007199254740992).joinKey
      ∧ (text (orderReference 4300).text).joinKey.same (integer 9007199254740993).joinKey = false := by
  have hreference := isFormOf_orderReference 4300
  have hkey : (text (orderReference 4300).text).joinKey = .integer 9007199254740992 := by
    rw [joinKey_of_isFormOf hreference, writtenDigits_orderReference, if_neg (by decide)]
    exact doubleKey_eq_integer_iff.mpr (by decide +kernel)
  refine ⟨hreference, by decide +kernel, hkey, ?_⟩
  rw [hkey]
  decide

end Value

end QueryFederation

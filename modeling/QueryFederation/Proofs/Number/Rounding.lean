import Mathlib
import QueryFederation.Proofs.Value.Order

/-!
# Rounding to doubles

A natural number has the exponent of its leading binary digit, so it is at least the last place that it is rounded to.
Rounding then leaves at least one such place: the double of a whole number that is not zero is not zero either.

All doubles but the one that is no number have places among the numbers, by which they are compared. Rounding moves a
number by half of a last place at most, so the double of a number that is not above one is hardly above that number. A
number that is at least a power of two is not rounded to less, so one beyond the range of doubles becomes infinite.
-/

namespace QueryFederation.Number

variable {n : Nat}

theorem power_eq_zpow (base : Nat) (e : Int) : power base e = (base : Rat) ^ e := by
  rw [power]
  split
  · rename_i hpos
    obtain ⟨k, rfl⟩ := Int.eq_ofNat_of_zero_le hpos
    simp
  · rename_i hneg
    obtain ⟨k, hk⟩ := Int.eq_ofNat_of_zero_le (by omega : 0 ≤ -e)
    obtain rfl : e = -(k : Int) := by omega
    simp

theorem power_two (e : Int) : power 2 e = (2 : Rat) ^ e := power_eq_zpow 2 e

theorem binaryExponent_natCast (h : n ≠ 0) : binaryExponent n = n.log2 := by
  have hleading : power 2 (n.log2 : Int) ≤ (n : Rat) := by
    rw [power_two, zpow_natCast]
    exact_mod_cast Nat.log2_self_le h
  have hone : Nat.log2 1 = 0 := by decide
  simp only [binaryExponent, Rat.num_natCast, Rat.den_natCast, Int.natAbs_natCast, hone, Int.natCast_zero, sub_zero,
    if_pos hleading]

theorem le_roundHalfEven {q : Rat} {n : Int} (h : n ≤ q) : n ≤ roundHalfEven q := by
  have hfloor : n ≤ q.floor := Rat.le_floor_iff.mpr h
  rw [roundHalfEven]
  split_ifs <;> omega

theorem one_le_roundHalfEven {q : Rat} (h : 1 ≤ q) : 1 ≤ roundHalfEven q := le_roundHalfEven (by exact_mod_cast h)

end QueryFederation.Number

namespace QueryFederation.Double

open Number

variable {n : Nat}

theorem power_lastBit_le (h : n ≠ 0) : power 2 (lastBit n) ≤ (n : Rat) := by
  have hplace : lastBit n ≤ (n.log2 : Int) := by
    rw [lastBit, binaryExponent_natCast h]
    omega
  calc power 2 (lastBit n) = (2 : Rat) ^ lastBit n := power_two _
    _ ≤ (2 : Rat) ^ (n.log2 : Int) := zpow_le_zpow_right₀ one_le_two hplace
    _ ≤ n := by
      rw [zpow_natCast]
      exact_mod_cast Nat.log2_self_le h

/-- A positive whole number is not rounded to zero. -/
theorem isZero_ofRat_natCast (h : n ≠ 0) : (ofRat n).isZero = false := by
  have hpos : (0 : Rat) < n := by exact_mod_cast Nat.pos_of_ne_zero h
  have hplace : (0 : Rat) < power 2 (lastBit n) := by
    rw [power_two]
    positivity
  have hrounded : (0 : Rat) < roundHalfEven (n / power 2 (lastBit n)) * power 2 (lastBit n) := by
    refine mul_pos ?_ hplace
    exact_mod_cast one_le_roundHalfEven ((one_le_div hplace).mpr (power_lastBit_le h))
  have hsize : (if (decide ((n : Rat) < 0)) = true then -(n : Rat) else n) = n := by simp
  rw [ofRat, if_neg hpos.ne']
  dsimp only
  rw [hsize]
  split_ifs
  · rfl
  · exact absurd ‹_› hrounded.ne'
  · exact absurd ‹_› hrounded.ne'
  · simpa [isZero] using hrounded.ne'
  · simpa [isZero] using hrounded.ne'

theorem isZero_ofRat_neg {q : Rat} (h : 0 < q) : (ofRat (-q)).isZero = (ofRat q).isZero := by
  have hneg : -q < 0 := neg_lt_zero.mpr h
  rw [ofRat, ofRat, if_neg hneg.ne, if_neg h.ne']
  simp only [decide_eq_true hneg, decide_eq_false h.not_gt, if_true, neg_neg, Bool.false_eq_true, if_false]
  split_ifs <;> simp [isZero]

theorem isZero_ofRat_intCast {n : Int} (h : n ≠ 0) : (ofRat n).isZero = false := by
  have hsize : n.natAbs ≠ 0 := Int.natAbs_ne_zero.mpr h
  obtain hn | hn := n.natAbs_eq
  · rw [hn, Int.cast_natCast]
    exact isZero_ofRat_natCast hsize
  · rw [hn, Int.cast_neg, Int.cast_natCast, isZero_ofRat_neg (by exact_mod_cast Nat.pos_of_ne_zero hsize)]
    exact isZero_ofRat_natCast hsize

end QueryFederation.Double

/-! ### What rounding adds -/

namespace QueryFederation.Number

variable {q : Rat}

theorem abs_roundHalfEven_sub_le (q : Rat) : |(roundHalfEven q : Rat) - q| ≤ 1 / 2 := by
  have hbelow : (q.floor : Rat) ≤ q := Rat.floor_le q
  have habove : q < q.floor + 1 := by exact_mod_cast Rat.lt_floor_add_one q
  rw [roundHalfEven, abs_le]
  split_ifs <;> push_cast <;> constructor <;> linarith

theorem abs_roundToPlaces_sub_le (q : Rat) (places : Int) : |roundToPlaces q places - q| ≤ power 10 (-places) / 2 := by
  have hten : power 10 places * power 10 (-places) = 1 := by
    rw [power_eq_zpow, power_eq_zpow, ← zpow_add₀ (by norm_num), add_neg_cancel, zpow_zero]
  have hpos : 0 < power 10 (-places) := by
    rw [power_eq_zpow]
    positivity
  have hscaled : roundToPlaces q places - q
      = (roundHalfEven (q * power 10 places) - q * power 10 places) * power 10 (-places) := by
    rw [roundToPlaces, sub_mul, mul_assoc, hten, mul_one]
  rw [hscaled, abs_mul, abs_of_pos hpos, div_eq_mul_one_div, mul_comm (power 10 (-places))]
  exact mul_le_mul_of_nonneg_right (abs_roundHalfEven_sub_le _) hpos.le

/-- The leading binary digit of a number is not above the number. -/
theorem power_binaryExponent_le (h : 0 < q) : power 2 (binaryExponent q) ≤ q := by
  rw [binaryExponent]
  split
  · assumption
  have hnum : q.num.natAbs ≠ 0 := Int.natAbs_ne_zero.mpr (Rat.num_pos.mpr h).ne'
  have hleading : (2 : Rat) ^ q.num.natAbs.log2 ≤ q.num.natAbs := by exact_mod_cast Nat.log2_self_le hnum
  have hden : (q.den : Rat) ≤ 2 ^ (q.den.log2 + 1) := by exact_mod_cast Nat.lt_log2_self.le
  have hq : q = q.num.natAbs / q.den := by
    rw [Nat.cast_natAbs, abs_of_pos (Rat.num_pos.mpr h)]
    exact (Rat.num_div_den q).symm
  calc power 2 ((q.num.natAbs.log2 : Int) - q.den.log2 - 1)
      = 2 ^ q.num.natAbs.log2 / 2 ^ (q.den.log2 + 1) := by
        rw [power_two, sub_sub, zpow_sub₀ two_ne_zero]
        exact_mod_cast rfl
    _ ≤ q.num.natAbs / q.den := div_le_div₀ (by positivity) hleading (by exact_mod_cast q.den_pos) hden
    _ = q := hq.symm

end QueryFederation.Number

namespace QueryFederation.Double

open Number

variable {x y : Double} {q bound : Rat}

/-- The place of a double among the numbers. -/
def place (x : Double) : WithBot (WithTop ℚ) := (Extended.ofDouble x).place

theorem lt_iff (hx : x ≠ nan) (hy : y ≠ nan) : x.lt y = true ↔ x.place < y.place := by
  rw [lt, Extended.order?_eq_compare (Extended.ofDouble_ne_nan hx) (Extended.ofDouble_ne_nan hy), beq_iff_eq,
    Option.some_inj, compare_lt_iff_lt]
  rfl

theorem le_iff (hx : x ≠ nan) (hy : y ≠ nan) : x.le y = true ↔ x.place ≤ y.place := by
  rw [le, Bool.or_eq_true, lt_iff hx hy, Extended.same,
    Extended.order?_eq_compare (Extended.ofDouble_ne_nan hx) (Extended.ofDouble_ne_nan hy), beq_iff_eq,
    Option.some_inj, compare_eq_iff_eq, le_iff_lt_or_eq]
  rfl

theorem finite_ne_nan (q : Rat) : finite q ≠ nan := nofun

theorem place_finite_le (h : q ≤ bound) : (finite q).place ≤ (finite bound).place :=
  Extended.strictMono_place.monotone h

theorem ofRat_ne_nan (q : Rat) : ofRat q ≠ nan := by
  rw [ofRat]
  dsimp only
  split_ifs <;> nofun

theorem place_ofRat_of_nonpos (h : q ≤ 0) : (ofRat q).place ≤ (finite 0).place := by
  have hround : 0 ≤ roundHalfEven (-q / power 2 (lastBit (-q))) := by
    have hsize : 0 ≤ -q / power 2 (lastBit (-q)) := by
      rw [power_two]
      exact div_nonneg (neg_nonneg.mpr h) (by positivity)
    have hnear := (abs_le.mp (abs_roundHalfEven_sub_le (-q / power 2 (lastBit (-q))))).1
    have hlarge : (-1 : Rat) < roundHalfEven (-q / power 2 (lastBit (-q))) := by linarith
    exact Int.lt_iff_add_one_le.mp (by exact_mod_cast hlarge)
  rcases h.eq_or_lt with rfl | hneg
  · exact le_rfl
  rw [ofRat, if_neg hneg.ne]
  simp only [decide_eq_true hneg, if_true]
  split_ifs
  · exact bot_le
  · exact le_rfl
  · refine place_finite_le (neg_nonpos.mpr (mul_nonneg (by exact_mod_cast hround) ?_))
    rw [power_two]
    positivity

/-- The double of a number up to one is hardly another number. -/
theorem exists_ofRat (hpos : 0 < q) (hone : q ≤ 1) : ∃ r, ofRat q = finite r ∧ |r - q| ≤ power 2 (-53) := by
  have hplace : power 2 (lastBit q) ≤ 2 * power 2 (-53) := by
    have hleading : (2 : Rat) ^ binaryExponent q ≤ 2 ^ (0 : Int) := by
      rw [← power_two, zpow_zero]
      exact (power_binaryExponent_le hpos).trans hone
    have hexponent : binaryExponent q ≤ 0 := (zpow_le_zpow_iff_right₀ one_lt_two).mp hleading
    calc power 2 (lastBit q) ≤ 2 ^ (-52 : Int) := by
          rw [power_two, lastBit]
          exact zpow_le_zpow_right₀ one_le_two (by omega)
      _ = 2 * power 2 (-53) := by
          rw [power_two]
          norm_num
  have hscale : (0 : Rat) < power 2 (lastBit q) := by
    rw [power_two]
    positivity
  generalize hrounded : (roundHalfEven (q / power 2 (lastBit q)) : Rat) * power 2 (lastBit q) = rounded
  have hnear : |rounded - q| ≤ power 2 (-53) := by
    have hscaled : rounded - q
        = (roundHalfEven (q / power 2 (lastBit q)) - q / power 2 (lastBit q)) * power 2 (lastBit q) := by
      rw [sub_mul, div_mul_cancel₀ _ hscale.ne', hrounded]
    calc |rounded - q| ≤ 1 / 2 * power 2 (lastBit q) := by
          rw [hscaled, abs_mul, abs_of_pos hscale]
          exact mul_le_mul_of_nonneg_right (abs_roundHalfEven_sub_le _) hscale.le
      _ ≤ power 2 (-53) := by linarith
  have hsmall : rounded < power 2 1024 := by
    have hone' : power 2 (-53) < 1 := by
      rw [power_two]
      norm_num
    calc rounded ≤ q + power 2 (-53) := by linarith [(abs_le.mp hnear).2]
      _ < 2 ^ (1 : Int) := by
          rw [zpow_one]
          linarith
      _ ≤ power 2 1024 := by
          rw [power_two]
          exact zpow_le_zpow_right₀ one_le_two (by decide)
  rw [ofRat, if_neg hpos.ne']
  simp only [decide_eq_false hpos.not_gt, Bool.false_eq_true, if_false, hrounded, if_neg hsmall.not_ge]
  split_ifs with hzero
  · exact ⟨0, rfl, hzero ▸ hnear⟩
  · exact ⟨rounded, rfl, hnear⟩

/-- A number that is not above one is hardly less than its double. -/
theorem place_ofRat_le (hbound : q ≤ bound) (hpos : 0 ≤ bound) (hone : bound ≤ 1) :
    (ofRat q).place ≤ (finite (bound + power 2 (-53))).place := by
  have hlast : (0 : Rat) < power 2 (-53) := by
    rw [power_two]
    positivity
  rcases le_or_gt q 0 with hq | hq
  · exact (place_ofRat_of_nonpos hq).trans (place_finite_le (by linarith))
  · obtain ⟨r, hr, hnear⟩ := exists_ofRat hq (hbound.trans hone)
    rw [hr]
    exact place_finite_le (by linarith [(abs_le.mp hnear).2])

/-- A number that is at least a power of two is not rounded to less. -/
theorem power_le_rounded {k : Int} (hk : -1074 ≤ k) (h : power 2 k ≤ q) :
    power 2 k ≤ (roundHalfEven (q / power 2 (lastBit q)) : Rat) * power 2 (lastBit q) := by
  have hscale : (0 : Rat) < power 2 (lastBit q) := by
    rw [power_two]
    positivity
  rcases le_or_gt (lastBit q) k with hplace | hplace
  · -- The power is a whole number of last places.
    obtain ⟨n, hn⟩ := Int.eq_ofNat_of_zero_le (sub_nonneg.mpr hplace)
    have hplaces : ((2 ^ n : Int) : Rat) * power 2 (lastBit q) = power 2 k := by
      rw [power_two, power_two, Int.cast_pow, Int.cast_ofNat, ← zpow_natCast, ← hn, ← zpow_add₀ two_ne_zero,
        sub_add_cancel]
    have hwhole : ((2 ^ n : Int) : Rat) ≤ q / power 2 (lastBit q) := by
      rw [le_div_iff₀ hscale, hplaces]
      exact h
    calc power 2 k = ((2 ^ n : Int) : Rat) * power 2 (lastBit q) := hplaces.symm
      _ ≤ _ := mul_le_mul_of_nonneg_right (by exact_mod_cast le_roundHalfEven hwhole) hscale.le
  · have hpos : 0 < q := by
      refine lt_of_lt_of_le ?_ h
      rw [power_two]
      positivity
    have hbelow : power 2 (lastBit q) ≤ q := by
      have hleading : lastBit q ≤ binaryExponent q := by
        rw [lastBit] at hplace ⊢
        omega
      calc power 2 (lastBit q) ≤ power 2 (binaryExponent q) := by
            rw [power_two, power_two]
            exact zpow_le_zpow_right₀ one_le_two hleading
        _ ≤ q := power_binaryExponent_le hpos
    have hsteps : (1 : Rat) ≤ roundHalfEven (q / power 2 (lastBit q)) := by
      exact_mod_cast one_le_roundHalfEven ((one_le_div hscale).mpr hbelow)
    calc power 2 k ≤ power 2 (lastBit q) := by
          rw [power_two, power_two]
          exact zpow_le_zpow_right₀ one_le_two hplace.le
      _ ≤ _ := le_mul_of_one_le_left hscale.le hsteps

/-- A number beyond the range of doubles is rounded to an infinite one. -/
theorem ofRat_of_power_le (h : power 2 1024 ≤ |q|) : ofRat q = infinite (decide (q < 0)) := by
  have hne : q ≠ 0 := by
    rintro rfl
    rw [abs_zero, power_two] at h
    exact absurd h (not_le.mpr (by positivity))
  have hsize : (if decide (q < 0) = true then -q else q) = |q| := by
    rcases lt_or_ge q 0 with hneg | hpos
    · rw [decide_eq_true hneg, if_pos rfl, abs_of_neg hneg]
    · rw [decide_eq_false hpos.not_gt, if_neg Bool.false_ne_true, abs_of_nonneg hpos]
  rw [ofRat, if_neg hne]
  dsimp only
  rw [hsize, if_pos (power_le_rounded (by decide) h)]

/-- A number that is at least one is not rounded to less. -/
theorem one_le_ofRat {q : Rat} (h : 1 ≤ q) : (finite 1).place ≤ (ofRat q).place := by
  have hpos : 0 < q := by linarith
  have hrounded := power_le_rounded (k := 0) (by decide) (by simpa [power_two] using h)
  rw [power_two, zpow_zero] at hrounded
  rw [ofRat, if_neg hpos.ne']
  simp only [decide_eq_false hpos.not_gt, Bool.false_eq_true, if_false]
  split_ifs with hinfinite hzero
  · exact le_top
  · rw [hzero] at hrounded
    norm_num at hrounded
  · exact place_finite_le hrounded

end QueryFederation.Double

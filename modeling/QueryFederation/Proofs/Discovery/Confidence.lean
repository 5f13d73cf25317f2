import Mathlib
import QueryFederation.Discovery.Suggestion
import QueryFederation.Proofs.Number.Rounding

/-!
# How sure candidates are

A declared key is certain. What names tell is sure to between sixty and ninety hundredths, however often hints confirm
it, and a hint of its own does not get beyond one half, whatever confidence it claims. So a candidate of a better kind
is always surer than one of another kind.
-/

namespace QueryFederation

namespace Double

variable {x y : Double} {bound : Rat}

theorem smaller_ne_nan (hx : x ≠ nan) : x.smaller y ≠ nan := by
  rw [smaller]
  split
  · rintro rfl
    rename_i hlt
    cases hlt
  · exact hx

theorem place_smaller_le (hx : x ≠ nan) : (x.smaller y).place ≤ x.place := by
  rw [smaller]
  split
  · rename_i hlt
    have hy : y ≠ nan := by
      rintro rfl
      cases hlt
    exact ((lt_iff hy hx).mp hlt).le
  · exact le_rfl

theorem roundTo_ne_nan (hx : x ≠ nan) (places : Int) : x.roundTo places ≠ nan := by
  cases x with
  | finite q =>
    rw [roundTo]
    dsimp only
    split_ifs
    · exact hx
    · cases isNegative (finite q) <;> nofun
    · cases isNegative (finite q) <;> nofun
    · exact ofRat_ne_nan _
  | nan | infinite | negativeZero => exact hx

end Double

namespace Discovery

open Double (nan finite)

theorem lastBit_le : Number.power 2 (-53) ≤ 1 / 20000 := by
  rw [Number.power_two]
  norm_num

/-- A confidence that is not above a bound is hardly above it once it is rounded. -/
theorem place_rounded_le {x : Double} {bound : Rat} (h : x.place ≤ (finite bound).place) (hpos : 0 ≤ bound)
    (hhalf : bound ≤ 1 / 2) : (rounded x).place ≤ (finite (bound + 1 / 10000)).place := by
  have hbelow : (finite bound).place ≤ (finite (bound + 1 / 10000)).place := Double.place_finite_le (by linarith)
  cases x with
  | finite q =>
    have hq : q ≤ bound := Extended.strictMono_place.le_iff_le.mp h
    have hplaces : Number.power 10 (-4) = 1 / 10000 := by
      rw [Number.power_eq_zpow]
      norm_num
    have hlast := lastBit_le
    have hnear := (abs_le.mp (Number.abs_roundToPlaces_sub_le q 4)).2
    rw [hplaces] at hnear
    rw [rounded, Double.roundTo, if_neg (by decide), if_neg (by decide)]
    dsimp only
    split_ifs
    · have hzero : (Double.zero (finite q).isNegative).place = (finite 0).place := by
        cases (finite q).isNegative <;> rfl
      rw [hzero]
      exact Double.place_finite_le (by linarith)
    · have hdouble : (Double.ofRat (Number.roundToPlaces q 4)).place
          ≤ (finite (bound + 1 / 20000 + Number.power 2 (-53))).place := by
        apply Double.place_ofRat_le <;> linarith
      exact hdouble.trans (Double.place_finite_le (by linarith))
  | nan | infinite | negativeZero => exact h.trans hbelow

/-! ### Hundredths -/

variable {m n : Nat}

theorem exists_ofHundredths (hpos : 0 < n) (hhigh : n ≤ 100) :
    ∃ r, ofHundredths n = finite r ∧ |r - n / 100| ≤ Number.power 2 (-53) := by
  have hn : (0 : Rat) < n := by exact_mod_cast hpos
  have hn' : (n : Rat) ≤ 100 := by exact_mod_cast hhigh
  exact Double.exists_ofRat (by positivity) (by linarith)

/-- More hundredths are more, up to one. -/
theorem place_ofHundredths_lt (hpos : 0 < m) (hlt : m < n) (hhigh : n ≤ 100) :
    (ofHundredths m).place < (ofHundredths n).place := by
  obtain ⟨r, hr, hnear⟩ := exists_ofHundredths hpos (hlt.le.trans hhigh)
  obtain ⟨r', hr', hnear'⟩ := exists_ofHundredths (hpos.trans hlt) hhigh
  have hlast := lastBit_le
  have hnext : (m : Rat) + 1 ≤ n := by exact_mod_cast hlt
  rw [hr, hr']
  exact Extended.strictMono_place (by linarith [(abs_le.mp hnear).2, (abs_le.mp hnear').1])

theorem ofHundredths_inj (hm : 0 < m) (hm' : m ≤ 100) (hn : 0 < n) (hn' : n ≤ 100) :
    ofHundredths m = ofHundredths n ↔ m = n := by
  refine ⟨fun h => ?_, congrArg ofHundredths⟩
  rcases lt_trichotomy m n with hlt | heq | hlt
  · exact absurd (congrArg Double.place h) (place_ofHundredths_lt hm hlt hn').ne
  · exact heq
  · exact absurd (congrArg Double.place h) (place_ofHundredths_lt hn hlt hm').ne'

/-- What a hint adds to the hundredths of a pattern, with whatever hints there have been. -/
theorem boosted_ofHundredths (hlow : 60 ≤ n) (hhigh : n ≤ 90) :
    boosted (ofHundredths n) = ofHundredths (min 90 (n + 5)) := by
  have hall : ∀ n < 91, 60 ≤ n → boosted (ofHundredths n) = ofHundredths (min 90 (n + 5)) := by decide +kernel
  exact hall n (by omega) hlow

/-! ### Kinds of evidence -/

namespace Evidence

/-- Better kinds of evidence first. -/
def tier : Evidence → Nat
  | declared => 0
  | naming _ => 1
  | hint => 2

/-- How sure evidence of its kind can be. -/
def Allows : Evidence → Double → Prop
  | declared, x => x = declaredConfidence
  | naming _, x => ∃ n, 60 ≤ n ∧ n ≤ 90 ∧ x = ofHundredths n
  | hint, x => x ≠ nan ∧ x.place ≤ (finite (1 / 2)).place

variable {e e' : Evidence} {x y : Double} {pattern : NamePattern}

theorem ofHundredths_between (hlow : 60 ≤ n) (hhigh : n ≤ 90) : (finite (1 / 2)).place < (ofHundredths n).place
    ∧ (ofHundredths n).place < declaredConfidence.place := by
  obtain ⟨r, hr, hnear⟩ := exists_ofHundredths (by omega) (by omega : n ≤ 100)
  have hlast := lastBit_le
  have hlow : (60 : Rat) ≤ n := by exact_mod_cast hlow
  have hhigh : (n : Rat) ≤ 90 := by exact_mod_cast hhigh
  rw [hr]
  exact ⟨Extended.strictMono_place (by linarith [(abs_le.mp hnear).1]),
    Extended.strictMono_place (by linarith [(abs_le.mp hnear).2])⟩

theorem Allows.ne_nan (h : e.Allows x) : x ≠ nan := by
  cases e with
  | declared =>
    cases h
    nofun
  | naming pattern =>
    obtain ⟨n, -, -, rfl⟩ := h
    exact Double.ofRat_ne_nan _
  | hint => exact h.1

/-- Evidence of a better kind is surer. -/
theorem Allows.place_lt (h : e.Allows x) (h' : e'.Allows y) (htier : e.tier < e'.tier) : y.place < x.place := by
  cases e with
  | declared =>
    cases h
    cases e' with
    | declared => exact absurd htier (lt_irrefl _)
    | naming pattern =>
      obtain ⟨n, hlow, hhigh, rfl⟩ := h'
      exact (ofHundredths_between hlow hhigh).2
    | hint =>
      exact h'.2.trans_lt (Extended.strictMono_place (by norm_num))
  | naming pattern =>
    obtain ⟨n, hlow, hhigh, rfl⟩ := h
    cases e' with
    | declared => exact absurd htier (Nat.not_lt_zero _)
    | naming pattern => exact absurd htier (lt_irrefl _)
    | hint => exact h'.2.trans_lt (ofHundredths_between hlow hhigh).1
  | hint => cases e' <;> simp [tier] at htier

/-- Nothing is surer than a declared key, and nothing else as sure. -/
theorem Allows.place_le_declared (h : e.Allows x) : x.place ≤ declaredConfidence.place := by
  cases e with
  | declared => exact (congrArg Double.place h).le
  | naming pattern | hint => exact (Allows.place_lt (e := declared) rfl h (by simp [tier])).le

theorem allows_pattern (pattern : NamePattern) : (naming pattern).Allows (ofHundredths pattern.hundredths) := by
  refine ⟨pattern.hundredths, ?_, ?_, rfl⟩ <;> cases pattern <;> decide

/-- A hint takes what names tell up to ninety hundredths at most. -/
theorem Allows.boosted (h : (naming pattern).Allows x) : (naming pattern).Allows (boosted x) := by
  obtain ⟨n, hlow, hhigh, rfl⟩ := h
  exact ⟨min 90 (n + 5), by omega, by omega, boosted_ofHundredths hlow hhigh⟩

theorem allows_hintConfidence (x : Double) : hint.Allows (hintConfidence x) := by
  have hceiling : hintCeiling ≠ nan := Double.ofRat_ne_nan _
  refine ⟨Double.roundTo_ne_nan (Double.smaller_ne_nan hceiling) 4, ?_⟩
  have hbelow : hintCeiling.place ≤ (finite (1 / 2 - 1 / 10000)).place := by
    have hlast := lastBit_le
    have hceiling : hintCeiling.place ≤ (finite (45 / 100 + Number.power 2 (-53))).place :=
      Double.place_ofRat_le (by norm_num) (by norm_num) (by norm_num)
    exact hceiling.trans (Double.place_finite_le (by linarith))
  have hrounded : (hintConfidence x).place ≤ (finite (1 / 2 - 1 / 10000 + 1 / 10000)).place :=
    place_rounded_le ((Double.place_smaller_le hceiling).trans hbelow) (by norm_num) (by norm_num)
  rwa [sub_add_cancel] at hrounded

end Evidence

end Discovery

end QueryFederation

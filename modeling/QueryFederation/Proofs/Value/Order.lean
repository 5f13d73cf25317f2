import Mathlib
import QueryFederation.Proofs.Value.Equality
import QueryFederation.Result.Sorting

/-!
# Places of values

Numbers of all types are in one order, that of what they are worth, with an infinity at either end; only the double that
is no number is nowhere. Texts are in the order of their characters. Both orders are total, so numbers and texts have
places in a linear order, by which `order?` compares numbers with numbers and texts with texts. So has what rows are
sorted by: its rank, and within the rank the place of a number or a text.
-/

namespace QueryFederation

/-! ### Numbers -/

namespace Extended

/-- The place of a number between the infinities. -/
def place : Extended → WithBot (WithTop ℚ)
  | nan | infinite true => ⊥
  | infinite false => ((⊤ : WithTop ℚ) : WithBot (WithTop ℚ))
  | finite q => ((q : WithTop ℚ) : WithBot (WithTop ℚ))

theorem strictMono_place : StrictMono fun q => (finite q).place := fun _ _ h =>
  WithBot.coe_lt_coe.mpr (WithTop.coe_lt_coe.mpr h)

theorem order?_finite (p q : ℚ) :
    order? (finite p) (finite q) = some (compare (finite p).place (finite q).place) := by
  rw [order?, orderRat]
  rcases lt_trichotomy p q with h | rfl | h
  · rw [if_pos h, compare_lt_iff_lt.mpr (strictMono_place h)]
  · rw [if_neg (lt_irrefl p), if_pos rfl, compare_eq_iff_eq.mpr rfl]
  · rw [if_neg (lt_asymm h), if_neg (ne_of_gt h), compare_gt_iff_gt.mpr (strictMono_place h)]

theorem order?_eq_compare : ∀ {x y : Extended}, x ≠ nan → y ≠ nan → x.order? y = some (compare x.place y.place)
  | nan, _, hx, _ => absurd rfl hx
  | _, nan, _, hy => absurd rfl hy
  | infinite true, infinite true, _, _ => congrArg some (compare_eq_iff_eq.mpr rfl).symm
  | infinite true, infinite false, _, _ => congrArg some (compare_lt_iff_lt.mpr (WithBot.bot_lt_coe _)).symm
  | infinite false, infinite true, _, _ => congrArg some (compare_gt_iff_gt.mpr (WithBot.bot_lt_coe _)).symm
  | infinite false, infinite false, _, _ => congrArg some (compare_eq_iff_eq.mpr rfl).symm
  | infinite true, finite _, _, _ => congrArg some (compare_lt_iff_lt.mpr (WithBot.bot_lt_coe _)).symm
  | infinite false, finite q, _, _ =>
    congrArg some (compare_gt_iff_gt.mpr (WithBot.coe_lt_coe.mpr (WithTop.coe_lt_top q))).symm
  | finite _, infinite true, _, _ => congrArg some (compare_gt_iff_gt.mpr (WithBot.bot_lt_coe _)).symm
  | finite p, infinite false, _, _ =>
    congrArg some (compare_lt_iff_lt.mpr (WithBot.coe_lt_coe.mpr (WithTop.coe_lt_top p))).symm
  | finite p, finite q, _, _ => order?_finite p q

theorem place_eq_iff {x y : Extended} (hx : x ≠ nan) (hy : y ≠ nan) : x.place = y.place ↔ x = y := by
  have hsame := same_iff x y
  rw [same, order?_eq_compare hx hy] at hsame
  simpa [hx] using hsame

theorem ofDouble_ne_nan {x : Double} (h : x ≠ .nan) : ofDouble x ≠ nan := by
  cases x with
  | nan => exact absurd rfl h
  | infinite | negativeZero | finite => exact Extended.noConfusion

end Extended

namespace Value

/-- The numbers that are in order: integers, decimals and all doubles but the one that is no number. -/
inductive IsQuantity : Value → Prop
  | integer (n : Int) : IsQuantity (.integer n)
  | double (x : Double) (h : x ≠ .nan) : IsQuantity (.double x)
  | decimal (d : Decimal) : IsQuantity (.decimal d)

/-- What a number is worth, as its place among the numbers. -/
def magnitude (v : Value) : WithBot (WithTop ℚ) := (v.number?.getD .nan).place

variable {v w : Value}

theorem IsQuantity.exists_number? (h : v.IsQuantity) : ∃ x, v.number? = some x ∧ x ≠ .nan := by
  cases h with
  | integer | decimal => exact ⟨_, rfl, Extended.noConfusion⟩
  | double x hx => exact ⟨_, rfl, Extended.ofDouble_ne_nan hx⟩

theorem order?_integer (m n : Int) :
    order? (.integer m) (.integer n) = some (some (compare (magnitude (.integer m)) (magnitude (.integer n)))) := by
  have hmono : StrictMono fun n : Int => magnitude (.integer n) := Extended.strictMono_place.comp Int.cast_strictMono
  rw [order?, ← cmp_eq_compare, ← cmp_eq_compare, hmono.cmp_map_eq]

/-- Numbers are ordered by what they are worth, whatever their types. -/
theorem IsQuantity.order?_eq (hv : v.IsQuantity) (hw : w.IsQuantity) :
    order? v w = some (some (compare v.magnitude w.magnitude)) := by
  obtain ⟨x, hx, hxnan⟩ := hv.exists_number?
  obtain ⟨y, hy, hynan⟩ := hw.exists_number?
  have hnumbers : some (x.order? y) = some (some (compare v.magnitude w.magnitude)) := by
    rw [Extended.order?_eq_compare hxnan hynan, magnitude, magnitude, hx, hy]
    rfl
  cases hv with
  | integer m =>
    cases hw with
    | integer n => exact order?_integer m n
    | double | decimal => simpa only [order?, hx, hy] using hnumbers
  | double | decimal => cases hw <;> simpa only [order?, hx, hy] using hnumbers

theorem IsQuantity.lt_iff (hv : v.IsQuantity) (hw : w.IsQuantity) :
    v.magnitude < w.magnitude ↔ order? v w = some (some .lt) := by
  rw [hv.order?_eq hw, Option.some_inj, Option.some_inj, compare_lt_iff_lt]

theorem IsQuantity.isHashable (h : v.IsQuantity) : v.isHashable = true := by
  cases h <;> rfl

theorem IsQuantity.worth_eq (h : v.IsQuantity) {x : Extended} (hx : v.number? = some x) :
    v.worth = Worth.ofNumber x := by
  cases h <;> cases hx <;> rfl

/-- Numbers are the same if they are worth the same. -/
theorem IsQuantity.same_iff (hv : v.IsQuantity) (hw : w.IsQuantity) :
    same v w = true ↔ v.magnitude = w.magnitude := by
  obtain ⟨x, hx, hxnan⟩ := hv.exists_number?
  obtain ⟨y, hy, hynan⟩ := hw.exists_number?
  rw [same_iff_worth hv.isHashable hw.isHashable, hv.worth_eq hx, hw.worth_eq hy, magnitude, magnitude, hx, hy]
  simp [Worth.ofNumber_eq_some, Extended.place_eq_iff hxnan hynan, hxnan, hynan]

theorem order?_text (s t : String) : order? (.text s) (.text t) = some (some (compare s t)) := by
  rw [order?]

end Value

/-! ### Sort keys -/

namespace SortKey

/-- The characters of a text; other values have none. -/
def characters : Value → String
  | .text s => s
  | _ => ""

/-- The place of a key among all: by its rank, then as a number, then as a text. -/
def place (key : SortKey) : ℕ ×ₗ (WithBot (WithTop ℚ) ×ₗ String) :=
  toLex (key.rank, toLex (key.value.magnitude, characters key.value))

/-- Numbers are of the first rank, and in the other ranks there are texts. -/
inductive IsPlaced : SortKey → Prop
  | number {v : Value} (h : v.IsQuantity) : IsPlaced ⟨0, v⟩
  | text (rank : Nat) (s : String) : IsPlaced ⟨rank + 1, .text s⟩

/-- Every value has a place but the double that is no number. -/
theorem isPlaced_ofValue {v : Value} (h : v ≠ .double .nan) : (ofValue v).IsPlaced := by
  cases v with
  | boolean | integer => exact .number (.integer _)
  | double x => exact .number (.double x fun hx => h (hx ▸ rfl))
  | text => exact .text 0 _
  | null | decimal | date | timestamp | bytes | list | record => exact .text 1 _

theorem characters_eq (h : v.IsQuantity) : characters v = "" := by
  cases h <;> rfl

theorem before_iff_of_order? {a b : SortKey} {o : Ordering} (h : Value.order? a.value b.value = some (some o)) :
    a.before b = true ↔ a.rank < b.rank ∨ a.rank = b.rank ∧ o = .lt := by
  rw [before, h]
  cases o <;> simp

theorem before_iff {a b : SortKey} (ha : a.IsPlaced) (hb : b.IsPlaced) : a.before b = true ↔ a.place < b.place := by
  rw [place, place, Prod.Lex.toLex_lt_toLex, Prod.Lex.toLex_lt_toLex]
  cases ha with
  | number hv =>
    cases hb with
    | number hw =>
      rw [before_iff_of_order? (hv.order?_eq hw), compare_lt_iff_lt, characters_eq hv, characters_eq hw]
      simp
    | text => simp [before]
  | text rank s =>
    cases hb with
    | number => simp [before]
    | text rank' t =>
      rw [before_iff_of_order? (Value.order?_text s t), compare_lt_iff_lt]
      simp only [characters, Value.magnitude, Value.number?, lt_irrefl, false_or, true_and]

end SortKey

end QueryFederation

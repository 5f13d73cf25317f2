import Mathlib.Data.Rat.Cast.Defs
import QueryFederation.Join.Key

/-!
# Equality of keys

Rows are looked up by values that are neither lists nor records. Among these, equality of meaning is equality of
something: of a text, a date, a number by its exact value. `worth` is that something, and values that are no number have
none, so equality is symmetric and transitive, and reflexive but for those.

The form in which keys are compared has only few kinds of values left, and equal ones are of one kind.
-/

namespace QueryFederation

namespace Extended

theorem same_iff (x y : Extended) : x.same y = true ↔ x = y ∧ x ≠ nan := by
  cases x with
  | nan => simp [same, order?]
  | infinite a =>
    cases y with
    | nan => simp [same, order?]
    | infinite b => cases a <;> cases b <;> simp [same, order?]
    | finite q => cases a <;> simp [same, order?]
  | finite p =>
    cases y with
    | nan => simp [same, order?]
    | infinite b => cases b <;> simp [same, order?]
    | finite q =>
      simp only [same, order?, orderRat, beq_iff_eq, Option.some.injEq, finite.injEq, ne_eq, reduceCtorEq,
        not_false_eq_true, and_true]
      split
      · rename_i hlt
        simp [Rat.ne_of_lt hlt]
      · split <;> simp_all

end Extended

namespace Value

/-- What equal values have in common. -/
inductive Worth where
  | null
  | number (x : Extended)
  | text (s : String)
  | date (d : Date)
  | timestamp (t : Timestamp)
  | bytes (bs : List UInt8)

/-- What a number is worth; one that is not a number is worth nothing. -/
def Worth.ofNumber : Extended → Option Worth
  | .nan => none
  | x => some (number x)

/-- What a value that rows can be looked up by is worth. -/
def worth : Value → Option Worth
  | null => some .null
  | boolean b => Worth.ofNumber (.finite (boolToInt b))
  | integer n => Worth.ofNumber (.finite n)
  | double x => Worth.ofNumber (.ofDouble x)
  | decimal d => Worth.ofNumber (.finite d.toRat)
  | text s => some (.text s)
  | date d => some (.date d)
  | timestamp t => some (.timestamp t)
  | bytes bs => some (.bytes bs)
  | list _ | record _ => none

theorem Worth.ofNumber_eq_some {x : Extended} {w : Worth} : ofNumber x = some w ↔ w = number x ∧ x ≠ .nan := by
  cases x <;> simp [ofNumber, eq_comm]

private theorem extended_same_iff_worth (x y : Extended) :
    x.same y = true ↔ ∃ w, Worth.ofNumber x = some w ∧ Worth.ofNumber y = some w := by
  rw [Extended.same_iff]
  simp only [Worth.ofNumber_eq_some]
  constructor
  · rintro ⟨rfl, hx⟩
    exact ⟨.number x, ⟨rfl, hx⟩, rfl, hx⟩
  · rintro ⟨w, ⟨rfl, hx⟩, hy, -⟩
    injection hy with hxy
    exact ⟨hxy, hx⟩

theorem same_iff_worth {a b : Value} (ha : a.isHashable = true) (hb : b.isHashable = true) :
    same a b = true ↔ ∃ w, a.worth = some w ∧ b.worth = some w := by
  cases a with
  | list => simp [isHashable] at ha
  | record => simp [isHashable] at ha
  | null => cases b <;> simp_all [same, number?, worth, Worth.ofNumber_eq_some, isHashable]
  | text | date | timestamp | bytes =>
    cases b <;> simp_all [same, number?, worth, Worth.ofNumber_eq_some, isHashable]
    exact eq_comm
  | boolean | double | decimal =>
    cases b <;> simp_all [same, number?, worth, Worth.ofNumber_eq_some, isHashable, extended_same_iff_worth]
  | integer n =>
    cases b with
    | integer m => simp [same, worth, ← extended_same_iff_worth, Extended.same_iff]
    | _ => simp_all [same, number?, worth, Worth.ofNumber_eq_some, isHashable, extended_same_iff_worth]

theorem same_comm {a b : Value} (ha : a.isHashable = true) (hb : b.isHashable = true) : same a b = same b a := by
  rw [Bool.eq_iff_iff, same_iff_worth ha hb, same_iff_worth hb ha]
  exact exists_congr fun _ => and_comm

theorem same_trans {a b c : Value} (ha : a.isHashable = true) (hb : b.isHashable = true) (hc : c.isHashable = true)
    (hab : same a b = true) (hbc : same b c = true) : same a c = true := by
  obtain ⟨w, haw, hbw⟩ := (same_iff_worth ha hb).mp hab
  obtain ⟨x, hbx, hcx⟩ := (same_iff_worth hb hc).mp hbc
  rw [hbw] at hbx
  exact (same_iff_worth ha hc).mpr ⟨x, haw.trans hbx, hcx⟩

/-! ### Keys in their form -/

/-- Is the value of one of the kinds that keys are made of? -/
def IsKeyForm : Value → Prop
  | null | integer _ | double _ | text _ | list _ | record _ => True
  | _ => False

theorem isKeyForm_doubleKey (x : Double) : (doubleKey x).IsKeyForm := by
  rw [doubleKey]
  split <;> trivial

theorem isKeyForm_joinKey (v : Value) : v.joinKey.IsKeyForm := by
  cases v with
  | text s =>
    simp only [joinKey, textKey]
    split
    · exact isKeyForm_doubleKey _
    · rename_i w hw hnumber
      simp only [ofNumericText?] at hnumber
      split at hnumber
      · cases hnumber
        trivial
      · obtain ⟨d, -, rfl⟩ := Option.map_eq_some_iff.mp hnumber
        exact absurd rfl (hw _)
    · trivial
  | double x => exact isKeyForm_doubleKey x
  | decimal d =>
    simp only [joinKey, decimalKey]
    split
    · trivial
    · exact isKeyForm_doubleKey _
  | _ => trivial

/-- Equal values in the form of keys are of one kind. -/
theorem keyKind_eq_of_same {a b : Value} (ha : a.IsKeyForm) (hb : b.IsKeyForm) (h : same a b = true) :
    a.keyKind = b.keyKind := by
  cases a <;> cases b <;> simp_all [IsKeyForm, same, number?, keyKind, kindName]

end Value

end QueryFederation

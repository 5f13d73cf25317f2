import Mathlib.Data.List.Perm.Basic
import QueryFederation.Join.HashJoin

/-!
# Nested loops

What a join of two lists of rows is: every pair of rows that agree in the columns they are joined on, and the rows
without a partner, with nulls for the other side, where the kind of the join keeps them. Two rows agree in a pair of
columns if their values have the same form as keys; a null agrees with nothing.

Joins are taken as multisets of rows, so the order of the rows of either side is of no account.
-/

namespace QueryFederation

/-- Are two values equal as keys? A null is equal to nothing. -/
def Value.sameKey (a b : Value) : Bool := !a.joinKey.isNull && !b.joinKey.isNull && same a.joinKey b.joinKey

/-- Do two rows agree in every pair of a left and a right column? -/
def Row.agree (pairs : List (String × String)) (left right : Row) : Bool :=
  pairs.all fun p => (Row.get left p.1).sameKey (Row.get right p.2)

namespace NestedLoop

/-- The pairs of rows that agree. -/
def pairsOf (agree : Row → Row → Bool) (left right : List Row) : List Row :=
  left.flatMap fun l => (right.filter (agree l)).map (Entries.merge l)

/-- The left rows without a partner, with nulls in the right columns. -/
def leftAlone (agree : Row → Row → Bool) (nulls : Row) (left right : List Row) : List Row :=
  (left.filter fun l => !right.any (agree l)).map fun l => Entries.merge l nulls

/-- The right rows without a partner, with nulls in the left columns. -/
def rightAlone (agree : Row → Row → Bool) (nulls : Row) (left right : List Row) : List Row :=
  (right.filter fun r => !left.any (agree · r)).map (Entries.merge nulls)

end NestedLoop

open NestedLoop in
/-- The join of two lists of rows on pairs of a left and a right column. -/
def nestedLoop (left right : List Row) (pairs : List (String × String)) (kind : JoinKind)
    (leftColumns rightColumns : List String) : List Row :=
  pairsOf (Row.agree pairs) left right
    ++ (if kind.keepsLeft then leftAlone (Row.agree pairs) (Row.nulls rightColumns) left right else [])
    ++ (if kind.keepsRight then rightAlone (Row.agree pairs) (Row.nulls leftColumns) left right else [])

/-- Every row of one side with every row of the other. -/
def crossProduct (left right : List Row) : List Row := left.flatMap fun l => right.map (Entries.merge l)

/-! ### Order is of no account -/

namespace NestedLoop

variable {agree : Row → Row → Bool} {nulls : Row} {left left' right right' : List Row}

theorem pairsOf_perm (hleft : left.Perm left') (hright : right.Perm right') :
    (pairsOf agree left right).Perm (pairsOf agree left' right') :=
  hleft.flatMap fun l _ => (hright.filter (agree l)).map _

theorem leftAlone_perm (hleft : left.Perm left') (hright : right.Perm right') :
    (leftAlone agree nulls left right).Perm (leftAlone agree nulls left' right') := by
  have hsame : (fun l => !right.any (agree l)) = fun l => !right'.any (agree l) := by
    funext l
    rw [hright.any_eq]
  rw [leftAlone, leftAlone, hsame]
  exact (hleft.filter _).map _

theorem rightAlone_perm (hleft : left.Perm left') (hright : right.Perm right') :
    (rightAlone agree nulls left right).Perm (rightAlone agree nulls left' right') := by
  have hsame : (fun r => !left.any (agree · r)) = fun r => !left'.any (agree · r) := by
    funext r
    rw [hleft.any_eq]
  rw [rightAlone, rightAlone, hsame]
  exact (hright.filter _).map _

end NestedLoop

theorem nestedLoop_perm {left left' right right' : List Row} (hleft : left.Perm left') (hright : right.Perm right')
    (pairs : List (String × String)) (kind : JoinKind) (leftColumns rightColumns : List String) :
    (nestedLoop left right pairs kind leftColumns rightColumns).Perm
      (nestedLoop left' right' pairs kind leftColumns rightColumns) := by
  refine (List.Perm.append (NestedLoop.pairsOf_perm hleft hright) ?_).append ?_
  · split
    · exact NestedLoop.leftAlone_perm hleft hright
    · exact .nil
  · split
    · exact NestedLoop.rightAlone_perm hleft hright
    · exact .nil

theorem crossProduct_perm {left left' right right' : List Row} (hleft : left.Perm left') (hright : right.Perm right') :
    (crossProduct left right).Perm (crossProduct left' right') :=
  hleft.flatMap fun _ _ => hright.map _

/-! ### Either side can be the outer loop -/

theorem map_filter_eq_flatMap {β γ : Type} (test : β → Bool) (f : β → γ) (bs : List β) :
    (bs.filter test).map f = bs.flatMap fun b => if test b then [f b] else [] := by
  induction bs with
  | nil => rfl
  | cons b bs ih => by_cases h : test b <;> simp [h, ih]

theorem flatMap_filter_eq {α β : Type} (test : α → Bool) (f : α → List β) (as : List α) :
    (as.filter test).flatMap f = as.flatMap fun a => if test a then f a else [] := by
  induction as with
  | nil => rfl
  | cons a as ih => by_cases h : test a <;> simp [h, ih]

theorem flatMap_perm_comm {α β γ : Type} (f : α → β → List γ) (as : List α) (bs : List β) :
    (as.flatMap fun a => bs.flatMap (f a)).Perm (bs.flatMap fun b => as.flatMap (f · b)) := by
  induction as with
  | nil => simp
  | cons a as ih =>
    simp only [List.flatMap_cons]
    exact (List.Perm.append_left _ ih).trans (List.flatMap_append_perm bs _ _)

/-- The pairs of two lists that pass a test come out alike whichever list is gone through first. -/
theorem flatMap_filter_perm_comm {α β γ : Type} (test : α → β → Bool) (pair : α → β → γ) (as : List α) (bs : List β) :
    (as.flatMap fun a => (bs.filter (test a)).map (pair a)).Perm
      (bs.flatMap fun b => (as.filter (test · b)).map (pair · b)) := by
  simp only [map_filter_eq_flatMap]
  exact flatMap_perm_comm _ as bs

end QueryFederation

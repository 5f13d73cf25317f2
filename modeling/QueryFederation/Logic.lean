import QueryFederation.Value.Basic

/-!
# Three-valued logic

A predicate over data that may be null is true, false or unknown. `Truth` has the unknown value as `none`. Filters
combine from the left, each by its own connective, and what is not true in the end selects nothing.

In expressions any value can stand where a truth value is expected. Only the truth values themselves decide a
conjunction or disjunction early; a value of another kind is taken for the one that does not decide.
-/

namespace QueryFederation

abbrev Truth := Option Bool

namespace Truth

def and : Truth → Truth → Truth
  | some false, _ | _, some false => some false
  | some true, some true => some true
  | _, _ => none

def or : Truth → Truth → Truth
  | some true, _ | _, some true => some true
  | some false, some false => some false
  | _, _ => none

def not : Truth → Truth
  | some b => some !b
  | none => none

def isTrue (t : Truth) : Bool := t = some true

end Truth

inductive Connective where
  | and
  | or
  deriving DecidableEq, Repr, Inhabited

namespace Connective

def name : Connective → String
  | and => "and"
  | or => "or"

def all : List Connective := [and, or]

def apply : Connective → Truth → Truth → Truth
  | and => Truth.and
  | or => Truth.or

end Connective

/-- What filters come to, from left to right. The first connective joins nothing. -/
def combined : List (Connective × Truth) → Truth
  | [] => some true
  | (_, first) :: others => others.foldl (fun acc (connective, result) => connective.apply acc result) first

def selects (results : List (Connective × Truth)) : Bool := (combined results).isTrue

namespace Value

/-- A value as an operand of a conjunction or disjunction; `other` stands for values of other kinds. -/
def truthOr (other : Bool) : Value → Truth
  | null => none
  | boolean b => some b
  | _ => some other

def and3 (a b : Value) : Truth := Truth.and (a.truthOr true) (b.truthOr true)

def or3 (a b : Value) : Truth := Truth.or (a.truthOr false) (b.truthOr false)

end Value

end QueryFederation

import Mathlib.Data.List.Basic
import QueryFederation.Expression.Dependencies

/-!
# Names and calls where they occur

Every call of an aggregate function and every name in an expression, each with the number of calls around it. What the
analysis knows of an expression can be read off this list: the names it mentions, whether it has a call, and that
nothing is wrong with it means that no call is in another, that columns are in a call, and that a name without a table
is an alias of another aggregate. Inlining replaces every occurrence of an alias by the occurrences in its expression.
-/

namespace QueryFederation

/-- A call, a name, or all columns of a table. -/
inductive Occurrence where
  | call
  | reference (r : Expression.Reference)
  | allColumns (table : String)
  deriving DecidableEq, Repr

namespace Occurrence

def reference? : Occurrence → Option Expression.Reference
  | reference r => some r
  | _ => none

def isAlias : Occurrence → Bool
  | reference (.aliasName _) => true
  | _ => false

def isAllColumns : Occurrence → Bool
  | allColumns _ => true
  | _ => false

/-- The occurrence with further calls around it. -/
def within (calls : Nat) (o : Occurrence × Nat) : Occurrence × Nat := (o.1, o.2 + calls)

theorem exists_of_isAlias {o : Occurrence} (h : o.isAlias = true) : ∃ name, o = reference (.aliasName name) := by
  cases o with
  | reference r =>
    cases r with
    | column table column => cases h
    | aliasName name => exact ⟨name, rfl⟩
  | _ => cases h

/-- Is an occurrence inside of so many calls as it should be? -/
def IsAllowed (names : Expression.Names) : Occurrence × Nat → Prop
  | (call, calls) => calls = 0
  | (reference (.column ..), calls) => calls = 1
  | (reference (.aliasName name), _) => name ∈ names.known ∧ name ≠ names.own
  | (allColumns _, _) => False

end Occurrence

namespace Expression

mutual

/-- The calls and names of an expression inside of some calls, in the order of its text. -/
def occurrences (calls : Nat) : Expression → List (Occurrence × Nat)
  | column qualifiers name => [(.reference (.ofNames qualifiers name), calls)]
  | tableStar qualifiers => [(.allColumns (tableName qualifiers), calls)]
  | star | text _ | number _ | null | boolean _ => []
  | paren e | neg e | not e | abs e | cast e _ => occurrences calls e
  | binary _ left right | is left right | nullif left right => occurrences calls left ++ occurrences calls right
  | coalesce args | round args | distinct args | construct _ args => occurrencesOfAll calls args
  | aggregate _ args => (.call, calls) :: occurrencesOfAll (calls + 1) args
  | case subject branches otherwise =>
    occurrencesOfOptional calls subject ++ occurrencesOfBranches calls branches ++ occurrencesOfOptional calls otherwise
  | conditional condition yes no =>
    occurrences calls condition ++ occurrences calls yes ++ occurrencesOfOptional calls no

def occurrencesOfAll (calls : Nat) : List Expression → List (Occurrence × Nat)
  | [] => []
  | e :: es => occurrences calls e ++ occurrencesOfAll calls es

def occurrencesOfOptional (calls : Nat) : Option Expression → List (Occurrence × Nat)
  | none => []
  | some e => occurrences calls e

def occurrencesOfBranches (calls : Nat) : List (Expression × Expression) → List (Occurrence × Nat)
  | [] => []
  | (condition, value) :: branches =>
    occurrences calls condition ++ occurrences calls value ++ occurrencesOfBranches calls branches

end

/-! ### Further calls around an expression -/

mutual

theorem occurrences_add (calls more : Nat) :
    ∀ e, occurrences (calls + more) e = (occurrences calls e).map (Occurrence.within more)
  | column .. | tableStar _ | star | text _ | number _ | null | boolean _ => rfl
  | paren e | neg e | not e | abs e | cast e _ => occurrences_add calls more e
  | binary _ left right | is left right | nullif left right => by
    rw [occurrences, occurrences, List.map_append, occurrences_add, occurrences_add]
  | coalesce args | round args | distinct args | construct _ args => occurrencesOfAll_add calls more args
  | aggregate _ args => by
    rw [occurrences, occurrences, Nat.add_right_comm, occurrencesOfAll_add, List.map_cons]
    rfl
  | case subject branches otherwise => by
    rw [occurrences, occurrences, List.map_append, List.map_append, occurrencesOfOptional_add,
      occurrencesOfBranches_add, occurrencesOfOptional_add]
  | conditional condition yes no => by
    rw [occurrences, occurrences, List.map_append, List.map_append, occurrences_add, occurrences_add,
      occurrencesOfOptional_add]

theorem occurrencesOfAll_add (calls more : Nat) :
    ∀ es, occurrencesOfAll (calls + more) es = (occurrencesOfAll calls es).map (Occurrence.within more)
  | [] => rfl
  | e :: es => by
    rw [occurrencesOfAll, occurrencesOfAll, List.map_append, occurrences_add, occurrencesOfAll_add]

theorem occurrencesOfOptional_add (calls more : Nat) :
    ∀ e, occurrencesOfOptional (calls + more) e = (occurrencesOfOptional calls e).map (Occurrence.within more)
  | none => rfl
  | some e => occurrences_add calls more e

theorem occurrencesOfBranches_add (calls more : Nat) :
    ∀ branches, occurrencesOfBranches (calls + more) branches
      = (occurrencesOfBranches calls branches).map (Occurrence.within more)
  | [] => rfl
  | (condition, value) :: branches => by
    rw [occurrencesOfBranches, occurrencesOfBranches, List.map_append, List.map_append, occurrences_add,
      occurrences_add, occurrencesOfBranches_add]

end

/-! ### What the analysis knows -/

mutual

theorem references_eq_filterMap (calls : Nat) :
    ∀ e, references e = (occurrences calls e).filterMap fun o => o.1.reference?
  | column .. | tableStar _ | star | text _ | number _ | null | boolean _ => rfl
  | paren e | neg e | not e | abs e | cast e _ => references_eq_filterMap calls e
  | binary _ left right | is left right | nullif left right => by
    rw [references, occurrences, List.filterMap_append, references_eq_filterMap calls, references_eq_filterMap calls]
  | coalesce args | round args | distinct args | construct _ args => referencesOfAll_eq_filterMap calls args
  | aggregate _ args => referencesOfAll_eq_filterMap (calls + 1) args
  | case subject branches otherwise => by
    rw [references, occurrences, List.filterMap_append, List.filterMap_append, referencesOfOptional_eq_filterMap calls,
      referencesOfBranches_eq_filterMap calls, referencesOfOptional_eq_filterMap calls]
  | conditional condition yes no => by
    rw [references, occurrences, List.filterMap_append, List.filterMap_append, references_eq_filterMap calls,
      references_eq_filterMap calls, referencesOfOptional_eq_filterMap calls]

theorem referencesOfAll_eq_filterMap (calls : Nat) :
    ∀ es, referencesOfAll es = (occurrencesOfAll calls es).filterMap fun o => o.1.reference?
  | [] => rfl
  | e :: es => by
    rw [referencesOfAll, occurrencesOfAll, List.filterMap_append, references_eq_filterMap calls,
      referencesOfAll_eq_filterMap calls]

theorem referencesOfOptional_eq_filterMap (calls : Nat) :
    ∀ e, referencesOfOptional e = (occurrencesOfOptional calls e).filterMap fun o => o.1.reference?
  | none => rfl
  | some e => references_eq_filterMap calls e

theorem referencesOfBranches_eq_filterMap (calls : Nat) :
    ∀ branches, referencesOfBranches branches = (occurrencesOfBranches calls branches).filterMap fun o => o.1.reference?
  | [] => rfl
  | (condition, value) :: branches => by
    rw [referencesOfBranches, occurrencesOfBranches, List.filterMap_append, List.filterMap_append,
      references_eq_filterMap calls, references_eq_filterMap calls, referencesOfBranches_eq_filterMap calls]

end

mutual

theorem aggregateCount_eq_countP (calls : Nat) :
    ∀ e, aggregateCount e = (occurrences calls e).countP fun o => o.1 = .call
  | column .. | tableStar _ | star | text _ | number _ | null | boolean _ => rfl
  | paren e | neg e | not e | abs e | cast e _ => aggregateCount_eq_countP calls e
  | binary _ left right | is left right | nullif left right => by
    rw [aggregateCount, occurrences, List.countP_append, aggregateCount_eq_countP calls, aggregateCount_eq_countP calls]
  | coalesce args | round args | distinct args | construct _ args => aggregateCountOfAll_eq_countP calls args
  | aggregate _ args => by
    rw [aggregateCount, occurrences, List.countP_cons_of_pos (by simp), aggregateCountOfAll_eq_countP (calls + 1)]
  | case subject branches otherwise => by
    rw [aggregateCount, occurrences, List.countP_append, List.countP_append,
      aggregateCountOfOptional_eq_countP calls, aggregateCountOfBranches_eq_countP calls,
      aggregateCountOfOptional_eq_countP calls]
  | conditional condition yes no => by
    rw [aggregateCount, occurrences, List.countP_append, List.countP_append, aggregateCount_eq_countP calls,
      aggregateCount_eq_countP calls, aggregateCountOfOptional_eq_countP calls]

theorem aggregateCountOfAll_eq_countP (calls : Nat) :
    ∀ es, aggregateCountOfAll es = (occurrencesOfAll calls es).countP fun o => o.1 = .call
  | [] => rfl
  | e :: es => by
    rw [aggregateCountOfAll, occurrencesOfAll, List.countP_append, aggregateCount_eq_countP calls,
      aggregateCountOfAll_eq_countP calls]

theorem aggregateCountOfOptional_eq_countP (calls : Nat) :
    ∀ e, aggregateCountOfOptional e = (occurrencesOfOptional calls e).countP fun o => o.1 = .call
  | none => rfl
  | some e => aggregateCount_eq_countP calls e

theorem aggregateCountOfBranches_eq_countP (calls : Nat) :
    ∀ branches, aggregateCountOfBranches branches = (occurrencesOfBranches calls branches).countP fun o => o.1 = .call
  | [] => rfl
  | (condition, value) :: branches => by
    rw [aggregateCountOfBranches, occurrencesOfBranches, List.countP_append, List.countP_append,
      aggregateCount_eq_countP calls, aggregateCount_eq_countP calls, aggregateCountOfBranches_eq_countP calls]

end

/-- The number of calls around a place, as far as the analysis tells places apart. -/
def Place.calls (place : Place) : Nat := if place.inAggregate then 1 else 0

section

variable {names : Names}

theorem isAllowed_of_referenceProblems_eq_nil {place : Place} {r : Reference} (h : referenceProblems names place r = []) :
    Occurrence.IsAllowed names (.reference r, place.calls) := by
  cases r with
  | column table name =>
    cases hplace : place.inAggregate with
    | true => simp [Occurrence.IsAllowed, Place.calls, hplace]
    | false => simp [referenceProblems, hplace] at h
  | aliasName name =>
    rw [referenceProblems] at h
    split at h
    · cases h
    · rename_i hknown
      split at h
      · cases h
      · rename_i hown
        exact ⟨by simpa using hknown, hown⟩

mutual

/-- Where nothing is wrong with an expression, every occurrence is as it should be. -/
theorem isAllowed_of_findings_eq_nil (place : Place) :
    ∀ e, findings names place e = [] → ∀ o ∈ occurrences place.calls e, Occurrence.IsAllowed names o
  | column qualifiers name => by
    intro h o ho
    rw [List.mem_singleton.mp ho]
    exact isAllowed_of_referenceProblems_eq_nil (List.map_eq_nil_iff.mp h)
  | tableStar _ => fun h => by cases h
  | star | text _ | number _ | null | boolean _ => fun _ _ ho => by cases ho
  | paren e | neg e | not e | abs e | cast e _ => isAllowed_of_findings_eq_nil place.inside e
  | binary _ left right | is left right | nullif left right => by
    intro h
    obtain ⟨hleft, hright⟩ := List.append_eq_nil_iff.mp h
    rw [occurrences, List.forall_mem_append]
    exact ⟨isAllowed_of_findings_eq_nil place.inside left hleft, isAllowed_of_findings_eq_nil place.inside right hright⟩
  | coalesce args | round args | distinct args => isAllowed_of_findingsOfAll_eq_nil place.inside args
  | construct c args => fun h => by cases h
  | aggregate function args => by
    intro h
    obtain ⟨hcall, hargs⟩ := List.append_eq_nil_iff.mp h
    have houter : place.calls = 0 := by
      cases hplace : place.inAggregate with
      | true =>
        rw [hplace] at hcall
        cases hcall
      | false => simp [Place.calls, hplace]
    rw [occurrences, List.forall_mem_cons, houter]
    exact ⟨rfl, isAllowed_of_findingsOfAll_eq_nil (place.argument function) args hargs⟩
  | case subject branches otherwise => by
    intro h
    obtain ⟨hfirst, hotherwise⟩ := List.append_eq_nil_iff.mp h
    obtain ⟨hsubject, hbranches⟩ := List.append_eq_nil_iff.mp hfirst
    rw [occurrences, List.forall_mem_append, List.forall_mem_append]
    exact ⟨⟨isAllowed_of_findingsOfOptional_eq_nil place.inside subject hsubject,
      isAllowed_of_findingsOfBranches_eq_nil place.inside.inside branches hbranches⟩,
      isAllowed_of_findingsOfOptional_eq_nil place.inside otherwise hotherwise⟩
  | conditional condition yes no => by
    intro h
    obtain ⟨hfirst, hno⟩ := List.append_eq_nil_iff.mp h
    obtain ⟨hcondition, hyes⟩ := List.append_eq_nil_iff.mp hfirst
    rw [occurrences, List.forall_mem_append, List.forall_mem_append]
    exact ⟨⟨isAllowed_of_findings_eq_nil place.inside condition hcondition,
      isAllowed_of_findings_eq_nil place.inside yes hyes⟩, isAllowed_of_findingsOfOptional_eq_nil place.inside no hno⟩

theorem isAllowed_of_findingsOfAll_eq_nil (place : Place) :
    ∀ es, findingsOfAll names place es = [] → ∀ o ∈ occurrencesOfAll place.calls es, Occurrence.IsAllowed names o
  | [] => fun _ _ ho => by cases ho
  | e :: es => by
    intro h
    obtain ⟨he, hes⟩ := List.append_eq_nil_iff.mp h
    rw [occurrencesOfAll, List.forall_mem_append]
    exact ⟨isAllowed_of_findings_eq_nil place e he, isAllowed_of_findingsOfAll_eq_nil place es hes⟩

theorem isAllowed_of_findingsOfOptional_eq_nil (place : Place) :
    ∀ e, findingsOfOptional names place e = [] →
      ∀ o ∈ occurrencesOfOptional place.calls e, Occurrence.IsAllowed names o
  | none => fun _ _ ho => by cases ho
  | some e => isAllowed_of_findings_eq_nil place e

theorem isAllowed_of_findingsOfBranches_eq_nil (place : Place) :
    ∀ branches, findingsOfBranches names place branches = [] →
      ∀ o ∈ occurrencesOfBranches place.calls branches, Occurrence.IsAllowed names o
  | [] => fun _ _ ho => by cases ho
  | (condition, value) :: branches => by
    intro h
    obtain ⟨hfirst, hbranches⟩ := List.append_eq_nil_iff.mp h
    obtain ⟨hcondition, hvalue⟩ := List.append_eq_nil_iff.mp hfirst
    rw [occurrencesOfBranches, List.forall_mem_append, List.forall_mem_append]
    exact ⟨⟨isAllowed_of_findings_eq_nil place condition hcondition, isAllowed_of_findings_eq_nil place value hvalue⟩,
      isAllowed_of_findingsOfBranches_eq_nil place branches hbranches⟩

end

/-- In an expression without problems every occurrence is as it should be. -/
theorem isAllowed_of_problems_eq_nil {e : Expression} (h : e.problems names = []) :
    ∀ o ∈ e.occurrences 0, Occurrence.IsAllowed names o := by
  rw [problems, List.map_eq_nil_iff, ← List.length_eq_zero_iff, List.length_mergeSort, List.length_eq_zero_iff] at h
  exact isAllowed_of_findings_eq_nil {} e h

end

/-! ### Inlining -/

/-- What an occurrence becomes when aliases are replaced. -/
def expand (resolved : Entries Expression) : Occurrence × Nat → List (Occurrence × Nat)
  | (.reference (.aliasName name), calls) =>
    match resolved.lookup name with
    | some e => occurrences calls e
    | none => [(.reference (.aliasName name), calls)]
  | o => [o]

mutual

theorem occurrences_inline (resolved : Entries Expression) (calls : Nat) :
    ∀ e, occurrences calls (inline resolved e) = (occurrences calls e).flatMap (expand resolved)
  | column qualifiers name => by
    rw [inline, occurrences, List.flatMap_singleton]
    cases hname : Reference.ofNames qualifiers name with
    | column table column => simp only [occurrences, hname, expand]
    | aliasName aliasName =>
      simp only [expand]
      cases resolved.lookup aliasName with
      | none => simp only [occurrences, hname]
      | some e => rfl
  | tableStar _ | star | text _ | number _ | null | boolean _ => rfl
  | paren e | neg e | not e | abs e | cast e _ => occurrences_inline resolved calls e
  | binary _ left right | is left right | nullif left right => by
    rw [inline, occurrences, occurrences, List.flatMap_append, occurrences_inline, occurrences_inline]
  | coalesce args | round args | distinct args | construct _ args => occurrencesOfAll_inline resolved calls args
  | aggregate _ args => by
    rw [inline, occurrences, occurrences, List.flatMap_cons, occurrencesOfAll_inline]
    rfl
  | case subject branches otherwise => by
    rw [inline, occurrences, occurrences, List.flatMap_append, List.flatMap_append, occurrencesOfOptional_inline,
      occurrencesOfBranches_inline, occurrencesOfOptional_inline]
  | conditional condition yes no => by
    rw [inline, occurrences, occurrences, List.flatMap_append, List.flatMap_append, occurrences_inline,
      occurrences_inline, occurrencesOfOptional_inline]

theorem occurrencesOfAll_inline (resolved : Entries Expression) (calls : Nat) :
    ∀ es, occurrencesOfAll calls (inlineAll resolved es) = (occurrencesOfAll calls es).flatMap (expand resolved)
  | [] => rfl
  | e :: es => by
    rw [inlineAll, occurrencesOfAll, occurrencesOfAll, List.flatMap_append, occurrences_inline, occurrencesOfAll_inline]

theorem occurrencesOfOptional_inline (resolved : Entries Expression) (calls : Nat) :
    ∀ e, occurrencesOfOptional calls (inlineOptional resolved e)
      = (occurrencesOfOptional calls e).flatMap (expand resolved)
  | none => rfl
  | some e => occurrences_inline resolved calls e

theorem occurrencesOfBranches_inline (resolved : Entries Expression) (calls : Nat) :
    ∀ branches, occurrencesOfBranches calls (inlineBranches resolved branches)
      = (occurrencesOfBranches calls branches).flatMap (expand resolved)
  | [] => rfl
  | (condition, value) :: branches => by
    rw [inlineBranches, occurrencesOfBranches, occurrencesOfBranches, List.flatMap_append, List.flatMap_append,
      occurrences_inline, occurrences_inline, occurrencesOfBranches_inline]

end

end Expression

end QueryFederation

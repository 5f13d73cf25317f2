import Mathlib
import QueryFederation.Proofs.Expression.Dependencies
import QueryFederation.Proofs.Expression.Occurrence
import QueryFederation.Proofs.Result.Materialization

/-!
# Aggregates without aliases

An alias can be computed first and looked up, or replaced by its expression. Both come to the same as long as aliases
are outside of calls: a call evaluates its argument for single rows, where no alias has a value.
-/

namespace QueryFederation

/-- If the first computation comes back, does the second come back with the same? -/
def Outcome.Refines {α : Type} (x y : Outcome α) : Prop := ∀ a, x = .ok a → y = .ok a

namespace Outcome.Refines

variable {α β : Type} {x y : Outcome α}

theorem refl (x : Outcome α) : Refines x x := fun _ h => h

theorem of_error {fault : Fault} : Refines (.error fault) y := fun _ h => by cases h

theorem bind {f g : α → Outcome β} (h : Refines x y) (hnext : ∀ a, Refines (f a) (g a)) :
    Refines (x >>= f) (y >>= g) := by
  intro b hb
  cases x with
  | error fault => cases hb
  | ok a =>
    rw [h a rfl]
    exact hnext a b hb

end Outcome.Refines

namespace Expression

/-- Are all aliases outside of calls? -/
def AliasesOutside (occurrences : List (Occurrence × Nat)) : Prop :=
  ∀ o ∈ occurrences, o.1.isAlias = true → o.2 = 0

instance (occurrences : List (Occurrence × Nat)) : Decidable (AliasesOutside occurrences) :=
  inferInstanceAs (Decidable (∀ o ∈ occurrences, o.1.isAlias = true → o.2 = 0))

theorem aliasesOutside_append {first second : List (Occurrence × Nat)} :
    AliasesOutside (first ++ second) ↔ AliasesOutside first ∧ AliasesOutside second :=
  List.forall_mem_append

theorem aliasesOutside_cons {o : Occurrence × Nat} {rest : List (Occurrence × Nat)} :
    AliasesOutside (o :: rest) ↔ (o.1.isAlias = true → o.2 = 0) ∧ AliasesOutside rest :=
  List.forall_mem_cons

/-! ### Inside of calls nothing changes -/

section

variable {resolved : Entries Expression}

mutual

theorem inline_of_inside (calls : Nat) : ∀ e, AliasesOutside (occurrences (calls + 1) e) → inline resolved e = e
  | column qualifiers name => by
    intro h
    rw [inline]
    cases hname : Reference.ofNames qualifiers name with
    | column table column => rfl
    | aliasName aliasName =>
      rw [occurrences, hname] at h
      cases h _ List.mem_cons_self rfl
  | tableStar _ | star | text _ | number _ | null | boolean _ => fun _ => rfl
  | paren e | neg e | not e | abs e | cast e _ => by
    intro h
    rw [inline, inline_of_inside calls e h]
  | binary _ left right | is left right | nullif left right => by
    intro h
    obtain ⟨hleft, hright⟩ := aliasesOutside_append.mp h
    rw [inline, inline_of_inside calls left hleft, inline_of_inside calls right hright]
  | coalesce args | round args | distinct args | construct _ args => by
    intro h
    rw [inline, inlineAll_of_inside calls args h]
  | aggregate _ args => by
    intro h
    rw [inline, inlineAll_of_inside (calls + 1) args (aliasesOutside_cons.mp h).2]
  | case subject branches otherwise => by
    intro h
    obtain ⟨hfirst, hotherwise⟩ := aliasesOutside_append.mp h
    obtain ⟨hsubject, hbranches⟩ := aliasesOutside_append.mp hfirst
    rw [inline, inlineOptional_of_inside calls subject hsubject, inlineBranches_of_inside calls branches hbranches,
      inlineOptional_of_inside calls otherwise hotherwise]
  | conditional condition yes no => by
    intro h
    obtain ⟨hfirst, hno⟩ := aliasesOutside_append.mp h
    obtain ⟨hcondition, hyes⟩ := aliasesOutside_append.mp hfirst
    rw [inline, inline_of_inside calls condition hcondition, inline_of_inside calls yes hyes,
      inlineOptional_of_inside calls no hno]

theorem inlineAll_of_inside (calls : Nat) :
    ∀ es, AliasesOutside (occurrencesOfAll (calls + 1) es) → inlineAll resolved es = es
  | [] => fun _ => rfl
  | e :: es => by
    intro h
    obtain ⟨he, hes⟩ := aliasesOutside_append.mp h
    rw [inlineAll, inline_of_inside calls e he, inlineAll_of_inside calls es hes]

theorem inlineOptional_of_inside (calls : Nat) :
    ∀ e, AliasesOutside (occurrencesOfOptional (calls + 1) e) → inlineOptional resolved e = e
  | none => fun _ => rfl
  | some e => fun h => congrArg some (inline_of_inside calls e h)

theorem inlineBranches_of_inside (calls : Nat) :
    ∀ branches, AliasesOutside (occurrencesOfBranches (calls + 1) branches) → inlineBranches resolved branches = branches
  | [] => fun _ => rfl
  | (condition, value) :: branches => by
    intro h
    obtain ⟨hfirst, hbranches⟩ := aliasesOutside_append.mp h
    obtain ⟨hcondition, hvalue⟩ := aliasesOutside_append.mp hfirst
    rw [inlineBranches, inline_of_inside calls condition hcondition, inline_of_inside calls value hvalue,
      inlineBranches_of_inside calls branches hbranches]

end

/-- Only null becomes null. -/
theorem inline_ne_null {e : Expression} (h : e ≠ null) : inline resolved e ≠ null := by
  cases e with
  | column qualifiers name =>
    rw [inline]
    split
    · simp
    · split <;> simp
  | null => exact absurd rfl h
  | _ => simp [inline]

end

/-! ### Outside of calls -/

section

variable {rows : List Row} {computed : Entries Value} {resolved : Entries Expression}

/-- Are all aliases outside of calls, and is there no star of a table? -/
def IsInlinable (occurrences : List (Occurrence × Nat)) : Prop :=
  ∀ o ∈ occurrences, (o.1.isAlias = true → o.2 = 0) ∧ o.1.isAllColumns = false

theorem isInlinable_append {first second : List (Occurrence × Nat)} :
    IsInlinable (first ++ second) ↔ IsInlinable first ∧ IsInlinable second :=
  List.forall_mem_append

/-- Does every name that has been computed have an expression with this value, and no other name an expression? -/
structure Substitutes (rows : List Row) (computed : Entries Value) (resolved : Entries Expression) : Prop where
  none_iff : ∀ name, computed.lookup name = none ↔ resolved.lookup name = none
  value : ∀ name v e, computed.lookup name = some v → resolved.lookup name = some e →
    evaluate (.group rows []) e = .ok v

theorem evaluate_is (scope : Scope) (left : Expression) {right : Expression} (h : right ≠ null) :
    evaluate scope (is left right) = do
      let a ← evaluate scope left
      return .boolean (a.same (← evaluate scope right)) := by
  rw [evaluate]
  exact h

mutual

/-- What an expression comes to with the computed values is what it comes to with their expressions. -/
theorem evaluate_inline (h : Substitutes rows computed resolved) :
    ∀ e, IsInlinable (occurrences 0 e) →
      Outcome.Refines (evaluate (.group rows computed) e) (evaluate (.group rows []) (inline resolved e))
  | column qualifiers name => by
    intro _
    by_cases htable : tableName qualifiers = ""
    · have hname : Reference.ofNames qualifiers name = .aliasName name.name := if_pos htable
      simp only [evaluate, inline, hname, Scope.column, htable]
      cases hcomputed : computed.lookup name.name with
      | none => exact .of_error
      | some v =>
        cases hresolved : resolved.lookup name.name with
        | none => rw [(h.none_iff _).mpr hresolved] at hcomputed; cases hcomputed
        | some e =>
          simp only [evaluate, h.value _ v e hcomputed hresolved]
          exact .refl _
    · simp only [evaluate, Scope.column, ne_eq, htable, not_false_eq_true, if_true]
      exact .of_error
  | tableStar qualifiers => by
    intro hout
    cases (hout _ List.mem_cons_self).2
  | star => fun _ => .of_error
  | text _ | number _ | null | boolean _ => fun _ => .refl _
  | paren e => by
    intro hout
    simpa only [evaluate, inline] using evaluate_inline h e hout
  | neg e | not e | abs e | cast e _ => by
    intro hout
    simp only [evaluate, inline]
    exact (evaluate_inline h e hout).bind fun _ => .refl _
  | binary op left right => by
    intro hout
    obtain ⟨hleft, hright⟩ := isInlinable_append.mp hout
    have hl := evaluate_inline h left hleft
    have hr := evaluate_inline h right hright
    cases op with
    | mod =>
      simp only [evaluate, inline]
      refine hr.bind fun divisor => ?_
      split
      · exact .refl _
      · exact hl.bind fun _ => .refl _
    | _ =>
      simp only [evaluate, inline]
      exact hl.bind fun _ => hr.bind fun _ => .refl _
  | is left right => by
    intro hout
    obtain ⟨hleft, hright⟩ := isInlinable_append.mp hout
    -- A literal null is tested for and not evaluated, and no alias becomes one.
    by_cases hnull : right = null
    · rw [hnull]
      simp only [evaluate, inline]
      exact (evaluate_inline h left hleft).bind fun _ => .refl _
    · rw [inline, evaluate_is _ _ hnull, evaluate_is _ _ (inline_ne_null hnull)]
      exact (evaluate_inline h left hleft).bind fun _ => (evaluate_inline h right hright).bind fun _ => .refl _
  | nullif left right => by
    intro hout
    obtain ⟨hleft, hright⟩ := isInlinable_append.mp hout
    simp only [evaluate, inline]
    exact (evaluate_inline h left hleft).bind fun _ => (evaluate_inline h right hright).bind fun _ => .refl _
  | coalesce args => by
    intro hout
    simpa only [evaluate, inline] using firstPresent_inline h args hout
  | round args => by
    intro hout
    simpa only [evaluate, inline] using roundArguments_inline h args hout
  | distinct items => fun _ => .of_error
  | construct c args => fun _ => .of_error
  | aggregate function args => by
    intro hout
    -- Values are of no use inside of a call, where rows are read; so nothing is replaced there.
    have hargs : AliasesOutside (occurrencesOfAll 1 args) := fun o ho => (hout o (List.mem_cons_of_mem _ ho)).1
    rw [inline, inlineAll_of_inside 0 args hargs]
    simp only [evaluate]
    exact .refl _
  | case subject branches otherwise => by
    intro hout
    obtain ⟨hfirst, hotherwise⟩ := isInlinable_append.mp hout
    obtain ⟨-, hbranches⟩ := isInlinable_append.mp hfirst
    simp only [evaluate, inline]
    refine (firstTrue_inline h branches hbranches).bind fun found => ?_
    cases found with
    | none => exact evaluateOptional_inline h otherwise hotherwise
    | some v => exact .refl _
  | conditional condition yes no => by
    intro hout
    obtain ⟨hfirst, hno⟩ := isInlinable_append.mp hout
    obtain ⟨hcondition, hyes⟩ := isInlinable_append.mp hfirst
    simp only [evaluate, inline]
    refine (evaluate_inline h condition hcondition).bind fun v => ?_
    split
    · exact evaluate_inline h yes hyes
    · exact evaluateOptional_inline h no hno

theorem firstPresent_inline (h : Substitutes rows computed resolved) :
    ∀ es, IsInlinable (occurrencesOfAll 0 es) →
      Outcome.Refines (firstPresent (.group rows computed) es) (firstPresent (.group rows []) (inlineAll resolved es))
  | [] => fun _ => .refl _
  | e :: es => by
    intro hout
    obtain ⟨he, hes⟩ := isInlinable_append.mp hout
    simp only [firstPresent, inlineAll]
    refine (evaluate_inline h e he).bind fun v => ?_
    split
    · exact firstPresent_inline h es hes
    · exact .refl _

theorem firstTrue_inline (h : Substitutes rows computed resolved) :
    ∀ branches, IsInlinable (occurrencesOfBranches 0 branches) →
      Outcome.Refines (firstTrue (.group rows computed) branches)
        (firstTrue (.group rows []) (inlineBranches resolved branches))
  | [] => fun _ => .refl _
  | (condition, value) :: branches => by
    intro hout
    obtain ⟨hfirst, hbranches⟩ := isInlinable_append.mp hout
    obtain ⟨hcondition, hvalue⟩ := isInlinable_append.mp hfirst
    simp only [firstTrue, inlineBranches]
    refine (evaluate_inline h condition hcondition).bind fun v => ?_
    split
    · exact (evaluate_inline h value hvalue).bind fun _ => .refl _
    · exact firstTrue_inline h branches hbranches

theorem evaluateOptional_inline (h : Substitutes rows computed resolved) :
    ∀ e, IsInlinable (occurrencesOfOptional 0 e) →
      Outcome.Refines (evaluateOptional (.group rows computed) e)
        (evaluateOptional (.group rows []) (inlineOptional resolved e))
  | none => fun _ => .refl _
  | some e => by
    intro hout
    simpa only [evaluateOptional, inlineOptional] using evaluate_inline h e hout

theorem roundArguments_inline (h : Substitutes rows computed resolved) :
    ∀ es, IsInlinable (occurrencesOfAll 0 es) →
      Outcome.Refines (roundArguments (.group rows computed) es)
        (roundArguments (.group rows []) (inlineAll resolved es))
  | [] => fun _ => .of_error
  | [e] => by
    intro hout
    simp only [roundArguments, inlineAll]
    exact (evaluate_inline h e (isInlinable_append.mp hout).1).bind fun _ => .refl _
  | e :: places :: es => by
    intro hout
    obtain ⟨he, hrest⟩ := isInlinable_append.mp hout
    simp only [roundArguments, inlineAll]
    refine (evaluate_inline h e he).bind fun v => ?_
    exact (evaluate_inline h places (isInlinable_append.mp hrest).1).bind fun _ => .refl _

end

end

end Expression

/-! ### All aggregates -/

/-- Aggregates as the analysis gives them, with nothing wrong about them. -/
structure Aggregates.AreAnalyzed (aggregates : Aggregates) (known : List String) : Prop where
  analyzed : ∀ entry ∈ aggregates, entry.2 = .ofTree entry.1 known entry.2.tree
  problems : ∀ entry ∈ aggregates, entry.2.problems = []

namespace Aggregates

open Expression

variable {aggregates : Aggregates} {known order : List String} {rows : List Row} {computed final : Entries Value}
  {resolved : Entries Expression} {entry : String × AnalyzedAggregate}

theorem AreAnalyzed.problems_eq (h : aggregates.AreAnalyzed known) (hentry : entry ∈ aggregates) :
    entry.2.problems = entry.2.tree.problems ⟨entry.1, known⟩
      ++ if entry.2.tree.aggregateCount = 0 && entry.2.aliasRefs.isEmpty then [.noAggregate] else [] := by
  rw [h.analyzed entry hentry]
  rfl

theorem AreAnalyzed.isAllowed (h : aggregates.AreAnalyzed known) (hentry : entry ∈ aggregates) :
    ∀ o ∈ entry.2.tree.occurrences 0, Occurrence.IsAllowed ⟨entry.1, known⟩ o :=
  isAllowed_of_problems_eq_nil (List.append_eq_nil_iff.mp ((h.problems_eq hentry).symm.trans (h.problems entry hentry))).1

theorem AreAnalyzed.isInlinable (h : aggregates.AreAnalyzed known) (hentry : entry ∈ aggregates)
    (hout : AliasesOutside (entry.2.tree.occurrences 0)) : IsInlinable (entry.2.tree.occurrences 0) := by
  intro o ho
  refine ⟨hout o ho, ?_⟩
  obtain ⟨occurrence, calls⟩ := o
  cases occurrence with
  | allColumns table => exact absurd (h.isAllowed hentry _ ho) id
  | _ => rfl

/-- Replaces the aliases of one aggregate more by the expressions that have been made before. -/
def inlineStep (aggregates : Aggregates) (resolved : Entries Expression) (aliasName : String) : Entries Expression :=
  match aggregates.lookup aliasName with
  | some a => resolved.put aliasName (a.tree.inline resolved)
  | none => resolved

theorem inlined_of_dependencyOrder (h : aggregates.dependencyOrder = .ok order) :
    aggregates.inlined = .ok (order.foldl aggregates.inlineStep []) := by
  rw [inlined, h]
  rfl

/-- One aggregate more is computed to the value of its expression without aliases. -/
theorem substitutes_step (h : Substitutes rows computed resolved)
    (hinlinable : ∀ entry ∈ aggregates, IsInlinable (entry.2.tree.occurrences 0)) {aliasName : String}
    (hstep : computeStep aggregates rows computed aliasName = .ok final) :
    Substitutes rows final (aggregates.inlineStep resolved aliasName) := by
  rw [inlineStep]
  rcases computeStep_eq_ok hstep with ⟨hnone, rfl⟩ | ⟨a, v, hsome, hv, rfl⟩
  · rwa [hnone]
  · rw [hsome]
    have hentry := Entries.mem_of_lookup_eq_some hsome
    have hvalue := evaluate_inline h a.tree (hinlinable _ hentry) v hv
    refine ⟨fun name => ?_, fun name w e hcomputed hresolved => ?_⟩
    · rw [Entries.lookup_put, Entries.lookup_put]
      split
      · simp
      · exact h.none_iff name
    · rw [Entries.lookup_put] at hcomputed hresolved
      split at hcomputed
      · rename_i heq
        rw [if_pos heq] at hresolved
        cases hcomputed
        cases hresolved
        exact hvalue
      · rename_i hne
        rw [if_neg hne] at hresolved
        exact h.value name w e hcomputed hresolved

theorem substitutes_foldlM (h : Substitutes rows computed resolved)
    (hinlinable : ∀ entry ∈ aggregates, IsInlinable (entry.2.tree.occurrences 0))
    (hfold : order.foldlM (computeStep aggregates rows) computed = .ok final) :
    Substitutes rows final (order.foldl aggregates.inlineStep resolved) := by
  induction order generalizing computed resolved with
  | nil =>
    cases hfold
    exact h
  | cons aliasName order ih =>
    rw [List.foldlM_cons] at hfold
    obtain ⟨next, hstep, hrest⟩ := exists_of_bind_eq_ok hfold
    exact ih (substitutes_step h hinlinable hstep) hrest

/--
If aliases are not in a circle and outside of calls, every aggregate that can be computed after those it uses has the
value of its expression without aliases.
-/
theorem inlined_evaluates_as_computed (h : aggregates.AreAnalyzed known) (hacyclic : aggregates.Acyclic)
    (hout : ∀ entry ∈ aggregates, AliasesOutside (entry.2.tree.occurrences 0)) :
    ∃ order resolved, aggregates.dependencyOrder = .ok order ∧ aggregates.inlined = .ok resolved
      ∧ ∀ rows computed, computeAggregates aggregates order rows = .ok computed →
        ∀ name ∈ aggregates.keys, ∃ e v, resolved.lookup name = some e ∧ computed.lookup name = some v
          ∧ e.evaluate (.group rows []) = .ok v := by
  obtain ⟨order, horder⟩ := exists_dependencyOrder_iff.mpr hacyclic
  refine ⟨order, _, horder, inlined_of_dependencyOrder horder, fun rows computed hcomputed name hname => ?_⟩
  have hinlinable : ∀ entry ∈ aggregates, IsInlinable (entry.2.tree.occurrences 0) := fun entry hentry =>
    h.isInlinable hentry (hout entry hentry)
  have hempty : Substitutes rows [] [] := ⟨fun _ => by simp, fun _ _ _ hsome => by cases hsome⟩
  have hsubstitutes := substitutes_foldlM hempty hinlinable ((computeAggregates_eq ..).symm.trans hcomputed)
  have hmem : name ∈ order := (ordered_of_dependencyOrder horder).2.mem_iff.mpr (keys_subset_names hname)
  have hkey : name ∈ computed.keys := (mem_keys_computeAggregates hcomputed).mpr ⟨hmem, hname⟩
  cases hv : computed.lookup name with
  | none => exact absurd hkey (Entries.lookup_eq_none_iff.mp hv)
  | some v =>
    cases he : (order.foldl aggregates.inlineStep []).lookup name with
    | none =>
      rw [(hsubstitutes.none_iff name).mpr he] at hv
      cases hv
    | some e => exact ⟨e, v, rfl, rfl, hsubstitutes.value name v e hv he⟩

/-- The amount of some orders, their number, and what is made of the two. -/
def amountAndNumber : Aggregates :=
  let known := ["amount", "number", "more", "most"]
  let name (s : String) : Expression := .column [] ⟨s, false⟩
  [("amount", .ofTree "amount" known (.aggregate .sum [.column [⟨"orders", false⟩] ⟨"amount", false⟩])),
    ("most", .ofTree "most" known (.conditional (.is (name "more") .null) (.null) (some (name "more")))),
    ("number", .ofTree "number" known (.aggregate .count [.star])),
    ("more", .ofTree "more" known (.binary .add (name "amount") (name "number")))]

def twoOrders : List Row := [[("orders_amount", .integer 3)], [("orders_amount", .integer 4)]]

/-- Three steps deep an alias has the value of its expression. -/
theorem amountAndNumber_evaluates :
    amountAndNumber.AreAnalyzed ["amount", "number", "more", "most"] ∧ amountAndNumber.Acyclic
      ∧ (∀ entry ∈ amountAndNumber, AliasesOutside (entry.2.tree.occurrences 0))
      ∧ ∃ resolved e, amountAndNumber.inlined = .ok resolved ∧ resolved.lookup "most" = some e
        ∧ e.evaluate (.group twoOrders []) = .ok (.integer 9) := by
  have hanalyzed : amountAndNumber.AreAnalyzed ["amount", "number", "more", "most"] := by
    constructor
    · simp only [amountAndNumber, List.forall_mem_cons]
      exact ⟨rfl, rfl, rfl, rfl, List.forall_mem_nil _⟩
    · simp only [amountAndNumber, List.forall_mem_cons]
      exact ⟨by cbv, by cbv, by cbv, by cbv, List.forall_mem_nil _⟩
  have horder : amountAndNumber.dependencyOrder = .ok ["amount", "number", "more", "most"] := by cbv
  have hacyclic : amountAndNumber.Acyclic := exists_dependencyOrder_iff.mp ⟨_, horder⟩
  have hout : ∀ entry ∈ amountAndNumber, AliasesOutside (entry.2.tree.occurrences 0) := by decide
  have hcomputed : computeAggregates amountAndNumber ["amount", "number", "more", "most"] twoOrders
      = .ok [("amount", .integer 7), ("number", .integer 2), ("more", .integer 9), ("most", .integer 9)] := by cbv
  obtain ⟨order, resolved, horder', hresolved, hevaluates⟩ := inlined_evaluates_as_computed hanalyzed hacyclic hout
  rw [horder, Except.ok.injEq] at horder'
  subst horder'
  obtain ⟨e, v, he, hv, hvalue⟩ := hevaluates twoOrders _ hcomputed "most" (by decide)
  cases hv
  exact ⟨hanalyzed, hacyclic, hout, resolved, e, hresolved, he, hvalue⟩

end Aggregates

end QueryFederation

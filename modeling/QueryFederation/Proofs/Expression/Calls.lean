import QueryFederation.Proofs.Expression.Inlining
import QueryFederation.Proofs.Items
import QueryFederation.Proofs.Value.Sum

/-!
# The calls of an expression

For a group an expression sees the rows only through its calls of aggregates. Names stand for values that have been
computed before, and everything else is done with the values of parts. So two groups for which the calls come to the
same are the same to the expression.

A call on integers and nulls comes to the same in whatever order the rows are: integers are summed exactly, and equal
ones cannot be told apart.
-/

namespace QueryFederation.Expression

mutual

/-- The calls of aggregates that are inside of no other call, each with its function and its arguments. -/
def calls : Expression → List (AggregateFunction × List Expression)
  | column .. | tableStar _ | star | text _ | number _ | null | boolean _ => []
  | paren e | neg e | not e | abs e | cast e _ => calls e
  | binary _ left right | is left right | nullif left right => calls left ++ calls right
  | coalesce args | round args | distinct args | construct _ args => callsOfAll args
  | aggregate function args => [(function, args)]
  | case subject branches otherwise =>
    callsOfOptional subject ++ callsOfBranches branches ++ callsOfOptional otherwise
  | conditional condition yes no => calls condition ++ calls yes ++ callsOfOptional no

def callsOfAll : List Expression → List (AggregateFunction × List Expression)
  | [] => []
  | e :: es => calls e ++ callsOfAll es

def callsOfOptional : Option Expression → List (AggregateFunction × List Expression)
  | none => []
  | some e => calls e

def callsOfBranches : List (Expression × Expression) → List (AggregateFunction × List Expression)
  | [] => []
  | (condition, value) :: branches => calls condition ++ calls value ++ callsOfBranches branches

end

variable {rows rows' : List Row} {computed : Entries Value}

/-- Does a call come to the same for both groups? -/
def SameCall (rows rows' : List Row) (computed : Entries Value) (call : AggregateFunction × List Expression) : Prop :=
  evaluate (.group rows computed) (aggregate call.1 call.2) = evaluate (.group rows' computed) (aggregate call.1 call.2)

mutual

theorem evaluate_congr : ∀ e, (∀ call ∈ calls e, SameCall rows rows' computed call) →
    evaluate (.group rows computed) e = evaluate (.group rows' computed) e
  | column .. | tableStar _ | star | text _ | number _ | null | boolean _ | distinct _ | construct .. => by
    intro _
    simp only [evaluate, Scope.column]
  | paren e | neg e | not e | abs e | cast e _ => by
    intro h
    simp only [evaluate, evaluate_congr e h]
  | binary op left right => by
    intro h
    obtain ⟨hleft, hright⟩ := List.forall_mem_append.mp h
    cases op <;> simp only [evaluate, evaluate_congr left hleft, evaluate_congr right hright]
  | is left right => by
    intro h
    obtain ⟨hleft, hright⟩ := List.forall_mem_append.mp h
    by_cases hnull : right = null
    · rw [hnull]
      simp only [evaluate, evaluate_congr left hleft]
    · rw [evaluate_is _ _ hnull, evaluate_is _ _ hnull, evaluate_congr left hleft, evaluate_congr right hright]
  | nullif left right => by
    intro h
    obtain ⟨hleft, hright⟩ := List.forall_mem_append.mp h
    simp only [evaluate, evaluate_congr left hleft, evaluate_congr right hright]
  | coalesce args => by
    intro h
    simp only [evaluate, firstPresent_congr args h]
  | round args => by
    intro h
    simp only [evaluate, roundArguments_congr args h]
  | aggregate function args => fun h => h _ (List.mem_singleton.mpr rfl)
  | case subject branches otherwise => by
    intro h
    obtain ⟨hfirst, hotherwise⟩ := List.forall_mem_append.mp h
    obtain ⟨-, hbranches⟩ := List.forall_mem_append.mp hfirst
    simp only [evaluate, firstTrue_congr branches hbranches, evaluateOptional_congr otherwise hotherwise]
  | conditional condition yes no => by
    intro h
    obtain ⟨hfirst, hno⟩ := List.forall_mem_append.mp h
    obtain ⟨hcondition, hyes⟩ := List.forall_mem_append.mp hfirst
    simp only [evaluate, evaluate_congr condition hcondition, evaluate_congr yes hyes, evaluateOptional_congr no hno]

theorem firstPresent_congr : ∀ es, (∀ call ∈ callsOfAll es, SameCall rows rows' computed call) →
    firstPresent (.group rows computed) es = firstPresent (.group rows' computed) es
  | [] => fun _ => rfl
  | e :: es => by
    intro h
    obtain ⟨he, hes⟩ := List.forall_mem_append.mp h
    simp only [firstPresent, evaluate_congr e he, firstPresent_congr es hes]

theorem firstTrue_congr : ∀ branches, (∀ call ∈ callsOfBranches branches, SameCall rows rows' computed call) →
    firstTrue (.group rows computed) branches = firstTrue (.group rows' computed) branches
  | [] => fun _ => rfl
  | (condition, value) :: branches => by
    intro h
    obtain ⟨hfirst, hbranches⟩ := List.forall_mem_append.mp h
    obtain ⟨hcondition, hvalue⟩ := List.forall_mem_append.mp hfirst
    simp only [firstTrue, evaluate_congr condition hcondition, evaluate_congr value hvalue,
      firstTrue_congr branches hbranches]

theorem evaluateOptional_congr : ∀ e, (∀ call ∈ callsOfOptional e, SameCall rows rows' computed call) →
    evaluateOptional (.group rows computed) e = evaluateOptional (.group rows' computed) e
  | none => fun _ => rfl
  | some e => fun h => by simp only [evaluateOptional, evaluate_congr e h]

theorem roundArguments_congr : ∀ es, (∀ call ∈ callsOfAll es, SameCall rows rows' computed call) →
    roundArguments (.group rows computed) es = roundArguments (.group rows' computed) es
  | [] => fun _ => rfl
  | [e] => by
    intro h
    simp only [roundArguments, evaluate_congr e (List.forall_mem_append.mp h).1]
  | e :: places :: es => by
    intro h
    obtain ⟨he, hrest⟩ := List.forall_mem_append.mp h
    simp only [roundArguments, evaluate_congr e he, evaluate_congr places (List.forall_mem_append.mp hrest).1]

end

/-! ### Calls on rows in another order -/

theorem distinctValues_integers (ns : List Int) :
    distinctValues (ns.map .integer) = (distinctItems ns).map .integer := by
  have hfold : ∀ seen : List Int,
      (ns.map Value.integer).foldl (fun seen v => if seen.any (Value.same v) then seen else seen ++ [v])
          (seen.map .integer)
        = (ns.foldl (fun seen n => if seen.contains n then seen else seen ++ [n]) seen).map .integer := by
    induction ns with
    | nil => exact fun seen => rfl
    | cons n ns ih =>
      intro seen
      have hseen : (seen.map Value.integer).any (Value.same (.integer n)) = seen.contains n := by
        rw [List.any_map, List.contains_eq_any_beq]
        rfl
      rw [List.map_cons, List.foldl_cons, List.foldl_cons, hseen, ← ih, apply_ite (List.map Value.integer),
        List.map_append]
      rfl
  exact hfold []

theorem aggregateValue_perm (call : Expression) (function : AggregateFunction) {ns ns' : List Int} (h : ns.Perm ns') :
    aggregateValue call function (ns.map .integer) = aggregateValue call function (ns'.map .integer) := by
  have hempty : (ns.map Value.integer).isEmpty = (ns'.map Value.integer).isEmpty := by
    rw [List.isEmpty_map, List.isEmpty_map, h.isEmpty_eq]
  have hnumbers : ∀ ms : List Int, (ms.map Value.integer).map Value.asNumber = ms.map .integer := fun ms => by
    rw [List.map_map]
    rfl
  cases function with
  | count => simp only [aggregateValue, List.length_map, h.length_eq]
  | sum => simp only [aggregateValue, hempty, hnumbers, Value.sum_integers, h.sum_eq]
  | avg => simp only [aggregateValue, hempty, hnumbers, Value.sum_integers, h.sum_eq, List.length_map, h.length_eq]
  | min => simp only [aggregateValue, hempty, Value.extreme_lt_integers, Value.min?_perm h]
  | max => simp only [aggregateValue, hempty, Value.extreme_gt_integers, Value.max?_perm h]

/-- The values of a call that are not null are integers, and the same ones for rows in another order. -/
theorem exists_present_perm {value : Row → Value} (hperm : rows.Perm rows')
    (hvalues : ∀ row ∈ rows, (value row).IsIntegerOrNull) :
    ∃ ns ns' : List Int, ns.Perm ns' ∧ (rows.map value).filter (!·.isNull) = ns.map .integer
      ∧ (rows'.map value).filter (!·.isNull) = ns'.map .integer := by
  have hpresent : ∀ items : List Row, (∀ row ∈ items, (value row).IsIntegerOrNull) →
      (items.map value).filter (!·.isNull) = (items.filterMap fun row => (value row).integer?).map .integer := by
    intro items hitems
    induction items with
    | nil => rfl
    | cons row items ih =>
      obtain ⟨hrow, hitems⟩ := List.forall_mem_cons.mp hitems
      rw [List.map_cons, List.filter_cons, List.filterMap_cons, ih hitems]
      generalize value row = v at hrow
      cases hrow <;> rfl
  exact ⟨_, _, hperm.filterMap _, hpresent rows hvalues,
    hpresent rows' fun row hrow => hvalues row (hperm.mem_iff.mpr hrow)⟩

theorem sameCall_of_perm {call : AggregateFunction × List Expression} (hperm : rows.Perm rows')
    (h : countsRows call.1 call.2 = false →
      ∀ row ∈ rows, ∃ v, evaluateFirst (.row row) call.2 = .ok v ∧ v.IsIntegerOrNull) (computed : Entries Value) :
    SameCall rows rows' computed call := by
  obtain ⟨function, args⟩ := call
  rw [SameCall, evaluate, evaluate]
  dsimp only at h ⊢
  cases hcounts : countsRows function args with
  | true => rw [if_pos rfl, if_pos rfl, hperm.length_eq]
  | false =>
    -- All arguments have a value, so the call does not fail before it comes to its function, in either order.
    have hvalues := h hcounts
    let value (row : Row) : Value := (evaluateFirst (.row row) args).toOption.getD .null
    have hvalue : ∀ row ∈ rows, evaluateFirst (.row row) args = .ok (value row) ∧ (value row).IsIntegerOrNull := by
      intro row hrow
      obtain ⟨v, hv, hinteger⟩ := hvalues row hrow
      have heq : value row = v := by
        simp only [value, hv]
        rfl
      exact heq.symm ▸ ⟨hv, hinteger⟩
    have hmapped : rows.mapM (fun row => evaluateFirst (.row row) args) = .ok (rows.map value) :=
      Outcome.mapM_of_forall fun row hrow => (hvalue row hrow).1
    have hmapped' : rows'.mapM (fun row => evaluateFirst (.row row) args) = .ok (rows'.map value) :=
      Outcome.mapM_of_forall fun row hrow => (hvalue row (hperm.mem_iff.mpr hrow)).1
    obtain ⟨ns, ns', hns, hpresent, hpresent'⟩ := exists_present_perm hperm fun row hrow => (hvalue row hrow).2
    rw [if_neg Bool.false_ne_true, if_neg Bool.false_ne_true, hmapped, hmapped']
    dsimp only [bind, Except.bind]
    rw [hpresent, hpresent', distinctValues_integers, distinctValues_integers, aggregateValue_perm _ _ hns,
      aggregateValue_perm _ _ (distinctItems_perm hns)]

end QueryFederation.Expression

import QueryFederation.Proofs.Expression.Inlining

/-!
# Names that a row lacks

Evaluation fails for many causes, but because a row lacks a name only where a name occurs in the expression and is
looked up in this row. Operations on values never fail for this cause, and for a group of rows only what is inside of
calls is looked up in rows. So if all rows have what occurs inside of calls, no evaluation for the group ends at a name
that is not there.
-/

namespace QueryFederation

namespace Outcome

variable {α β : Type} {P : String → Prop}

/-- If a name is lacking, is it one of those? -/
def LacksOnly (P : String → Prop) (x : Outcome α) : Prop := ∀ key, x = .error (.absentKey key) → P key

namespace LacksOnly

theorem of_ok {a : α} : LacksOnly P (.ok a : Outcome α) := fun _ h => by cases h

theorem bind {x : Outcome α} {f : α → Outcome β} (hx : LacksOnly P x) (hf : ∀ a, LacksOnly P (f a)) :
    LacksOnly P (x >>= f) := by
  cases x with
  | ok a => exact hf a
  | error fault =>
    intro key h
    cases h
    exact hx key rfl

theorem map {x : Outcome α} {f : α → β} (hx : LacksOnly P x) : LacksOnly P (x.map f) := by
  cases x with
  | ok a => exact of_ok
  | error fault =>
    intro key h
    cases h
    exact hx key rfl

theorem mapM {f : α → Outcome β} {items : List α} (h : ∀ item ∈ items, LacksOnly P (f item)) :
    LacksOnly P (items.mapM f) := by
  induction items with
  | nil => exact of_ok
  | cons item items ih =>
    obtain ⟨hitem, hitems⟩ := List.forall_mem_cons.mp h
    rw [List.mapM_cons]
    exact hitem.bind fun _ => (ih hitems).bind fun _ => of_ok

theorem foldlM {f : β → α → Outcome β} (h : ∀ b a, LacksOnly P (f b a)) (items : List α) (b : β) :
    LacksOnly P (items.foldlM f b) := by
  induction items generalizing b with
  | nil => exact of_ok
  | cons item items ih =>
    rw [List.foldlM_cons]
    exact (h b item).bind fun next => ih next

end LacksOnly

end Outcome

open Outcome

variable {P : String → Prop}

/-! ### Operations on values -/

namespace Value

theorem lacksOnly_toDouble (v : Value) : LacksOnly P v.toDouble := by
  intro key h
  unfold toDouble at h
  split at h <;> first | cases h | (split at h <;> cases h)

theorem lacksOnly_onNumbers {exact : Int → Int → Outcome Value} {rounded : Double → Double → Outcome Value}
    (hexact : ∀ m n, LacksOnly P (exact m n)) (hrounded : ∀ x y, LacksOnly P (rounded x y)) (a b : Value) :
    LacksOnly P (onNumbers exact rounded a b) := by
  rw [onNumbers]
  split
  · exact hexact _ _
  · split
    · exact (lacksOnly_toDouble a).bind fun _ => (lacksOnly_toDouble b).bind fun _ => hrounded _ _
    · exact fun _ h => by cases h

theorem lacksOnly_add (a b : Value) : LacksOnly P (add a b) := by
  unfold add
  split
  all_goals first | exact .of_ok | exact lacksOnly_onNumbers (fun _ _ => .of_ok) (fun _ _ => .of_ok) _ _

theorem lacksOnly_sub (a b : Value) : LacksOnly P (sub a b) :=
  lacksOnly_onNumbers (fun _ _ => .of_ok) (fun _ _ => .of_ok) a b

theorem lacksOnly_mul (a b : Value) : LacksOnly P (mul a b) := by
  rw [mul]
  split
  · exact .of_ok
  · exact .of_ok
  · exact lacksOnly_onNumbers (fun _ _ => .of_ok) (fun _ _ => .of_ok) a b

theorem lacksOnly_divInt (m n : Int) : LacksOnly P (divInt m n) := by
  intro key h
  rw [divInt] at h
  grind

theorem lacksOnly_div (a b : Value) : LacksOnly P (div a b) := by
  refine lacksOnly_onNumbers lacksOnly_divInt (fun x y key h => ?_) a b
  grind

theorem lacksOnly_mod (a b : Value) : LacksOnly P (mod a b) := by
  refine lacksOnly_onNumbers (fun m n key h => ?_) (fun x y key h => ?_) a b <;> grind

theorem lacksOnly_neg (v : Value) : LacksOnly P v.neg := by
  intro key h
  unfold neg at h
  split at h <;> cases h

theorem lacksOnly_abs (v : Value) : LacksOnly P v.abs := by
  intro key h
  unfold abs at h
  split at h <;> cases h

theorem lacksOnly_roundTo (v : Value) (places : Int) : LacksOnly P (v.roundTo places) := by
  intro key h
  unfold roundTo at h
  split at h <;> first | cases h | (split at h <;> cases h)

theorem lacksOnly_toInteger (v : Value) : LacksOnly P v.toInteger := by
  intro key h
  unfold toInteger at h
  grind [readInteger]

theorem lacksOnly_toReal (v : Value) : LacksOnly P v.toReal := by
  have hread : ∀ s, LacksOnly P (readDouble s) := fun s key h => by grind [readDouble]
  unfold toReal
  split
  · exact .of_ok
  · exact hread _
  · exact hread _
  · exact lacksOnly_toDouble v

theorem lacksOnly_sum (vs : List Value) : LacksOnly P (sum vs) := .foldlM lacksOnly_add vs _

theorem lacksOnly_extreme {better : Ordering} {onMixed : Fault} (hmixed : ∀ key, onMixed ≠ .absentKey key)
    (vs : List Value) : LacksOnly P (extreme better onMixed vs) := by
  cases vs with
  | nil => exact .of_ok
  | cons v vs =>
    refine .foldlM (fun best w => ?_) vs v
    split
    · exact fun key h => absurd (Except.error.inj h) (hmixed key)
    · exact .of_ok

theorem lacksOnly_ordered (holds : Ordering → Bool) (v target : Value) : LacksOnly P (ordered holds v target) := by
  intro key h
  rw [ordered] at h
  grind

theorem lacksOnly_parts (v : Value) : LacksOnly P v.parts := by
  intro key h
  unfold parts at h
  split at h <;> cases h

theorem lacksOnly_bounds (target : Value) : LacksOnly P target.bounds := by
  refine (lacksOnly_parts target).bind fun items => ?_
  split
  · exact .of_ok
  · exact fun _ h => by cases h

end Value

theorem FilterOperator.lacksOnly_holds (operator : FilterOperator) (v target : Value) :
    LacksOnly P (operator.holds v target) := by
  have hparts : ∀ f : List Value → Bool, LacksOnly P (do return some (f (← target.parts))) := fun f =>
    (Value.lacksOnly_parts target).bind fun _ => .of_ok
  unfold holds
  split
  · exact .of_ok
  · exact .of_ok
  · split
    · exact .of_ok
    · split
      · exact hparts _
      · exact hparts _
      · refine (Value.lacksOnly_bounds target).bind fun limits =>
          (Value.lacksOnly_ordered _ v limits.1).bind fun above => ?_
        split
        · exact Value.lacksOnly_ordered _ v limits.2
        · exact .of_ok
      all_goals first | exact .of_ok | exact Value.lacksOnly_ordered _ v target

namespace Expression

theorem lacksOnly_arithmetic {operation : Value → Value → Outcome Value} (h : ∀ a b, LacksOnly P (operation a b))
    (a b : Value) : LacksOnly P (arithmetic operation a b) := by
  rw [arithmetic]
  split
  · exact .of_ok
  · exact h _ _

theorem lacksOnly_quotient (a b : Value) : LacksOnly P (quotient a b) := by
  rw [quotient]
  split
  · exact .of_ok
  · split
    · exact .of_ok
    · exact Value.lacksOnly_div _ _

theorem lacksOnly_castValue (v : Value) (type : CastType) : LacksOnly P (castValue v type) := by
  rw [castValue]
  dsimp only
  split
  · exact .of_ok
  · split
    · split
      · exact fun _ h => by cases h
      · exact fun _ h => by cases h
      · exact (Value.lacksOnly_toInteger _).map
    · split
      · split
        · exact fun _ h => by cases h
        · exact fun _ h => by cases h
        · exact (Value.lacksOnly_toReal _).map
      · split <;> exact .of_ok

theorem lacksOnly_aggregateValue (call : Expression) (function : AggregateFunction) (present : List Value) :
    LacksOnly P (aggregateValue call function present) := by
  have hmixed : ∀ key, Fault.mixedTypes call.shown ≠ .absentKey key := fun _ h => by cases h
  unfold aggregateValue
  split
  · exact .of_ok
  · split
    · exact .of_ok
    · split
      · exact Value.lacksOnly_sum _
      · exact (Value.lacksOnly_sum _).bind fun _ => Value.lacksOnly_div _ _
      · exact Value.lacksOnly_extreme hmixed present
      · exact Value.lacksOnly_extreme hmixed present

theorem lacksOnly_binaryValue (operator : BinaryOperator) (a b : Value) :
    LacksOnly P (binaryValue operator a b) := by
  cases operator with
  | or | and => exact .of_ok
  | eq | ne | lt | le | gt | ge => exact (FilterOperator.lacksOnly_holds _ a b).map
  | add => exact lacksOnly_arithmetic Value.lacksOnly_add a b
  | sub => exact lacksOnly_arithmetic Value.lacksOnly_sub a b
  | mul => exact lacksOnly_arithmetic Value.lacksOnly_mul a b
  | mod => exact lacksOnly_arithmetic Value.lacksOnly_mod a b
  | div => exact lacksOnly_quotient a b

theorem lacksOnly_numeric {operation : Value → Outcome Value} (h : ∀ v, LacksOnly P (operation v)) (v : Value) :
    LacksOnly P (numeric operation v) := by
  rw [numeric]
  split
  · exact .of_ok
  · exact h _

/-! ### Names -/

/-- Has the row what occurs, as far as it can have it? -/
def Finds (P : String → Prop) (row : Row) : Occurrence → Prop
  | .call => True
  | .reference (.column table name) => outputName table name ∈ row.keys ∨ P (outputName table name)
  | .reference (.aliasName name) => name ∈ row.keys ∨ P name
  | .allColumns _ => False

/-- Is what occurs inside of so many calls there where it is looked up? For a group that is inside of a further call. -/
def ScopeFinds (P : String → Prop) (calls : Nat) : Scope → Occurrence × Nat → Prop
  | .row row, o => Finds P row o.1
  | .group rows _, o => calls < o.2 → ∀ row ∈ rows, Finds P row o.1

section

variable {scope : Scope} {calls : Nat}

theorem lacksOnly_column {table name : String}
    (h : ∀ row, scope = .row row →
      Finds P row (.reference (if table = "" then .aliasName name else .column table name))) :
    LacksOnly P (scope.column table name) := by
  intro key hkey
  cases scope with
  | row row =>
    have hfinds := h row rfl
    simp only [Scope.column] at hkey
    split at hkey
    · cases hkey
    · rename_i hnone
      have habsent := Entries.lookup_eq_none_iff.mp hnone
      cases hkey
      split at hfinds
      · rw [if_pos ‹_›] at habsent ⊢
        exact hfinds.resolve_left habsent
      · rw [if_neg ‹_›] at habsent ⊢
        exact hfinds.resolve_left habsent
  | group rows computed =>
    simp only [Scope.column] at hkey
    split at hkey
    · cases hkey
    · split at hkey <;> cases hkey

/-- What is inside of one more call is looked up in the rows of a group. -/
theorem scopeFinds_of_group {rows : List Row} {computed : Entries Value} {args : List Expression}
    (h : ∀ o ∈ occurrencesOfAll (calls + 1) args, ScopeFinds P calls (.group rows computed) o) {row : Row}
    (hrow : row ∈ rows) : ∀ o ∈ occurrencesOfAll (calls + 1) args, ScopeFinds P (calls + 1) (.row row) o := by
  intro o ho
  have hinside : calls < o.2 := by
    have hmore := occurrencesOfAll_add 0 (calls + 1) args
    rw [Nat.zero_add] at hmore
    rw [hmore] at ho
    obtain ⟨inner, -, rfl⟩ := List.mem_map.mp ho
    exact Nat.lt_of_lt_of_le (Nat.lt_succ_self calls) (Nat.le_add_left _ _)
  exact h o ho hinside row hrow

mutual

/-- Evaluation fails because of a lacking name only at a name that occurs. -/
theorem lacksOnly_evaluate (scope : Scope) (calls : Nat) :
    ∀ e, (∀ o ∈ occurrences calls e, ScopeFinds P calls scope o) → LacksOnly P (evaluate scope e)
  | column qualifiers name => by
    intro h
    rw [evaluate]
    refine lacksOnly_column fun row hrow => ?_
    subst hrow
    exact h _ List.mem_cons_self
  | tableStar qualifiers => by
    intro h
    rw [evaluate]
    refine lacksOnly_column fun row hrow => ?_
    subst hrow
    exact absurd (h _ List.mem_cons_self) id
  | text _ | number _ | null | boolean _ => fun _ => by
    rw [evaluate]
    exact .of_ok
  | star | distinct _ | construct _ _ => fun _ => by
    rw [evaluate]
    exact fun _ hkey => by cases hkey
  | paren e => by
    intro h
    rw [evaluate]
    exact lacksOnly_evaluate scope calls e h
  | neg e => by
    intro h
    rw [evaluate]
    exact (lacksOnly_evaluate scope calls e h).bind (lacksOnly_numeric Value.lacksOnly_neg)
  | abs e => by
    intro h
    rw [evaluate]
    exact (lacksOnly_evaluate scope calls e h).bind (lacksOnly_numeric Value.lacksOnly_abs)
  | not e => by
    intro h
    rw [evaluate]
    exact (lacksOnly_evaluate scope calls e h).bind fun _ => .of_ok
  | cast e type => by
    intro h
    rw [evaluate]
    exact (lacksOnly_evaluate scope calls e h).bind fun v => lacksOnly_castValue v type
  | binary operator left right => by
    intro h
    obtain ⟨hleft, hright⟩ := List.forall_mem_append.mp h
    have hl := lacksOnly_evaluate scope calls left hleft
    have hr := lacksOnly_evaluate scope calls right hright
    cases operator with
    | mod =>
      simp only [evaluate]
      refine hr.bind fun divisor => ?_
      split
      · exact .of_ok
      · exact hl.bind fun v => lacksOnly_binaryValue .mod v divisor
    | _ =>
      simp only [evaluate]
      exact hl.bind fun a => hr.bind fun b => lacksOnly_binaryValue _ a b
  | is left right => by
    intro h
    obtain ⟨hleft, hright⟩ := List.forall_mem_append.mp h
    by_cases hnull : right = null
    · rw [hnull]
      simp only [evaluate]
      exact (lacksOnly_evaluate scope calls left hleft).bind fun _ => .of_ok
    · rw [evaluate_is _ _ hnull]
      exact (lacksOnly_evaluate scope calls left hleft).bind fun _ =>
        (lacksOnly_evaluate scope calls right hright).bind fun _ => .of_ok
  | nullif left right => by
    intro h
    obtain ⟨hleft, hright⟩ := List.forall_mem_append.mp h
    rw [evaluate]
    exact (lacksOnly_evaluate scope calls left hleft).bind fun _ =>
      (lacksOnly_evaluate scope calls right hright).bind fun _ => .of_ok
  | coalesce args => by
    intro h
    rw [evaluate]
    exact lacksOnly_firstPresent scope calls args h
  | round args => by
    intro h
    rw [evaluate]
    exact lacksOnly_roundArguments scope calls args h
  | aggregate function args => by
    intro h
    cases scope with
    | row row =>
      simp only [evaluate]
      exact fun _ hkey => by cases hkey
    | group rows computed =>
      obtain ⟨-, hargs⟩ := List.forall_mem_cons.mp h
      have hvalues : LacksOnly P (rows.mapM fun row => evaluateFirst (.row row) args) := .mapM fun row hrow =>
        lacksOnly_evaluateFirst (.row row) (calls + 1) args (scopeFinds_of_group hargs hrow)
      simp only [evaluate]
      split
      · exact .of_ok
      · split
        · exact hvalues.bind fun _ => lacksOnly_aggregateValue _ _ _
        · exact fun _ hkey => by cases hkey
        · exact hvalues.bind fun _ => lacksOnly_aggregateValue _ _ _
  | case subject branches otherwise => by
    intro h
    obtain ⟨hfirst, hotherwise⟩ := List.forall_mem_append.mp h
    obtain ⟨-, hbranches⟩ := List.forall_mem_append.mp hfirst
    rw [evaluate]
    refine (lacksOnly_firstTrue scope calls branches hbranches).bind fun found => ?_
    cases found with
    | none => exact lacksOnly_evaluateOptional scope calls otherwise hotherwise
    | some v => exact .of_ok
  | conditional condition yes no => by
    intro h
    obtain ⟨hfirst, hno⟩ := List.forall_mem_append.mp h
    obtain ⟨hcondition, hyes⟩ := List.forall_mem_append.mp hfirst
    rw [evaluate]
    refine (lacksOnly_evaluate scope calls condition hcondition).bind fun v => ?_
    split
    · exact lacksOnly_evaluate scope calls yes hyes
    · exact lacksOnly_evaluateOptional scope calls no hno

theorem lacksOnly_evaluateFirst (scope : Scope) (calls : Nat) :
    ∀ es, (∀ o ∈ occurrencesOfAll calls es, ScopeFinds P calls scope o) → LacksOnly P (evaluateFirst scope es)
  | [] => fun _ => by
    rw [evaluateFirst]
    exact fun _ hkey => by cases hkey
  | distinct items :: _ => by
    intro h
    rw [evaluateFirst]
    exact lacksOnly_evaluateFirst scope calls items (List.forall_mem_append.mp h).1
  | column .. :: _ | tableStar _ :: _ | star :: _ | text _ :: _ | number _ :: _ | null :: _ | boolean _ :: _
  | paren _ :: _ | neg _ :: _ | not _ :: _ | abs _ :: _ | cast .. :: _ | binary .. :: _ | is .. :: _ | nullif .. :: _
  | coalesce _ :: _ | round _ :: _ | aggregate .. :: _ | construct .. :: _ | case .. :: _ | conditional .. :: _ => by
    intro h
    simp only [evaluateFirst]
    exact lacksOnly_evaluate scope calls _ (List.forall_mem_append.mp h).1

theorem lacksOnly_firstPresent (scope : Scope) (calls : Nat) :
    ∀ es, (∀ o ∈ occurrencesOfAll calls es, ScopeFinds P calls scope o) → LacksOnly P (firstPresent scope es)
  | [] => fun _ => by
    rw [firstPresent]
    exact .of_ok
  | e :: es => by
    intro h
    obtain ⟨he, hes⟩ := List.forall_mem_append.mp h
    rw [firstPresent]
    refine (lacksOnly_evaluate scope calls e he).bind fun v => ?_
    split
    · exact lacksOnly_firstPresent scope calls es hes
    · exact .of_ok

theorem lacksOnly_firstTrue (scope : Scope) (calls : Nat) :
    ∀ branches, (∀ o ∈ occurrencesOfBranches calls branches, ScopeFinds P calls scope o) →
      LacksOnly P (firstTrue scope branches)
  | [] => fun _ => by
    rw [firstTrue]
    exact .of_ok
  | (condition, value) :: branches => by
    intro h
    obtain ⟨hfirst, hbranches⟩ := List.forall_mem_append.mp h
    obtain ⟨hcondition, hvalue⟩ := List.forall_mem_append.mp hfirst
    rw [firstTrue]
    refine (lacksOnly_evaluate scope calls condition hcondition).bind fun v => ?_
    split
    · exact (lacksOnly_evaluate scope calls value hvalue).bind fun _ => .of_ok
    · exact lacksOnly_firstTrue scope calls branches hbranches

theorem lacksOnly_evaluateOptional (scope : Scope) (calls : Nat) :
    ∀ e, (∀ o ∈ occurrencesOfOptional calls e, ScopeFinds P calls scope o) → LacksOnly P (evaluateOptional scope e)
  | none => fun _ => by
    rw [evaluateOptional]
    exact .of_ok
  | some e => by
    intro h
    rw [evaluateOptional]
    exact lacksOnly_evaluate scope calls e h

theorem lacksOnly_roundArguments (scope : Scope) (calls : Nat) :
    ∀ es, (∀ o ∈ occurrencesOfAll calls es, ScopeFinds P calls scope o) → LacksOnly P (roundArguments scope es)
  | [] => fun _ => by
    rw [roundArguments]
    exact fun _ hkey => by cases hkey
  | [e] => by
    intro h
    rw [roundArguments]
    exact (lacksOnly_evaluate scope calls e (List.forall_mem_append.mp h).1).bind
      (lacksOnly_numeric fun v => Value.lacksOnly_roundTo v 0)
  | e :: places :: _ => by
    intro h
    obtain ⟨he, hothers⟩ := List.forall_mem_append.mp h
    obtain ⟨hplaces, -⟩ := List.forall_mem_append.mp hothers
    rw [roundArguments]
    refine (lacksOnly_evaluate scope calls e he).bind fun v => ?_
    refine (lacksOnly_evaluate scope calls places hplaces).bind fun w => ?_
    exact (Value.lacksOnly_toInteger w).bind fun n => lacksOnly_numeric (fun v => Value.lacksOnly_roundTo v n) v

end

end

end Expression

namespace Aggregates

open Expression

variable {aggregates : Aggregates} {known order : List String} {members : List Row}

/-- Is it the alias of an aggregate that is mentioned inside of a call? -/
def IsAliasInCall (aggregates : Aggregates) (key : String) : Prop :=
  ∃ entry ∈ aggregates, ∃ calls, 1 ≤ calls ∧ (.reference (.aliasName key), calls) ∈ entry.2.tree.occurrences 0

/-- An analyzed aggregate knows the columns that occur in it. -/
theorem AreAnalyzed.mem_columns (h : aggregates.AreAnalyzed known) {entry : String × AnalyzedAggregate}
    (hentry : entry ∈ aggregates) {table column : String} {calls : Nat}
    (ho : (.reference (.column table column), calls) ∈ entry.2.tree.occurrences 0) :
    (table, column) ∈ entry.2.columns := by
  rw [h.analyzed entry hentry, AnalyzedAggregate.ofTree]
  simp only [mem_distinctItems, List.mem_filterMap]
  refine ⟨.column table column, ?_, rfl⟩
  rw [references_eq_filterMap 0, List.mem_filterMap]
  exact ⟨_, ho, rfl⟩

/-- If rows have the columns that aggregates read, they lack nothing but aliases that are mentioned inside of calls. -/
theorem AreAnalyzed.lacksOnly_computeAggregates (h : aggregates.AreAnalyzed known)
    (hrows : ∀ row ∈ members, ∀ entry ∈ aggregates, ∀ c ∈ entry.2.columns, outputName c.1 c.2 ∈ row.keys)
    (order : List String) :
    LacksOnly aggregates.IsAliasInCall (computeAggregates aggregates order members) := by
  refine .foldlM (fun computed name => ?_) order []
  cases hlookup : aggregates.lookup name with
  | none => exact .of_ok
  | some a =>
    have hentry := Entries.mem_of_lookup_eq_some hlookup
    refine LacksOnly.bind (lacksOnly_evaluate (.group members computed) 0 a.tree ?_) fun _ => .of_ok
    rintro ⟨occurrence, calls⟩ ho hinside row hrow
    cases occurrence with
    | call => trivial
    | reference r =>
      cases r with
      | column table column => exact Or.inl (hrows row hrow _ hentry _ (h.mem_columns hentry ho))
      | aliasName used => exact Or.inr ⟨_, hentry, calls, hinside, ho⟩
    | allColumns table => exact h.isAllowed hentry _ ho

end Aggregates

end QueryFederation

import QueryFederation.Proofs.Expression.Inlining
import QueryFederation.Proofs.Row.Merge
import QueryFederation.Proofs.Value.Lane

/-!
# Expressions in lanes

Looking up names, comparing, deciding and choosing fail in words only, whatever the values are, and arithmetic has a
result as long as it stays in a lane. The rules say in which lane the values of an expression are, if the lanes of the
values under names are given. An expression that has a lane by the rules fails in words only.

There is no rule for means, for rounding to places, or for a conversion that leads from one lane to another.
-/

namespace QueryFederation

open Outcome Value

/-! ### Names -/

/-- Are the values under names in the lanes of the names? -/
def Entries.InLanes (lanes : String → Lane) (entries : Entries Value) : Prop :=
  ∀ entry ∈ entries, (lanes entry.1).Has entry.2

theorem Entries.InLanes.of_lookup {lanes : String → Lane} {entries : Entries Value} (h : entries.InLanes lanes)
    {name : String} {v : Value} (hv : entries.lookup name = some v) : (lanes name).Has v :=
  h _ (Entries.mem_of_lookup_eq_some hv)

/-- The name under which the values of a column are looked up. -/
def columnKey (table name : String) : String := if table = "" then name else outputName table name

namespace Scope

def InLanes (lanes : String → Lane) : Scope → Prop
  | row r => Entries.InLanes lanes r
  | group rows computed => (∀ r ∈ rows, Entries.InLanes lanes r) ∧ computed.InLanes lanes

theorem tells_column {lanes : String → Lane} {scope : Scope} (h : scope.InLanes lanes) (table name : String) :
    Tells (lanes (columnKey table name)).Has (scope.column table name) := by
  cases scope with
  | row r =>
    simp only [Scope.column]
    rw [← columnKey]
    split
    · rename_i v hv
      exact Entries.InLanes.of_lookup h hv
    · rfl
  | group rows computed =>
    by_cases htable : table = ""
    · rw [Scope.column, if_neg (by simpa using htable), columnKey, if_pos htable]
      split
      · rename_i v hv
        exact h.2.of_lookup hv
      · rfl
    · rw [Scope.column, if_pos htable]
      rfl

end Scope

namespace Expression

variable {lane : Lane} {a b v : Value}

/-! ### Operations on values -/

/-- An operation that keeps to its lane does so where null operands give null. -/
theorem tells_arithmetic {operation : Value → Value → Outcome Value} (hlane : lane ≠ .any)
    (hoperation : lane.Counts a.asNumber → lane.Counts b.asNumber →
      Tells lane.Counts (operation a.asNumber b.asNumber))
    (ha : lane.Has a) (hb : lane.Has b) : Tells lane.Has (arithmetic operation a b) := by
  rw [arithmetic]
  split
  · exact .null
  · rename_i hnull
    obtain ⟨ha', hb'⟩ : a.isNull = false ∧ b.isNull = false := by simpa using hnull
    exact (hoperation (ha.counts hlane ha') (hb.counts hlane hb')).imp fun _ => Lane.Counts.has

theorem tells_numeric {operation : Value → Outcome Value} (hlane : lane ≠ .any)
    (hoperation : lane.Counts v.asNumber → Tells lane.Counts (operation v.asNumber)) (hv : lane.Has v) :
    Tells lane.Has (numeric operation v) := by
  rw [numeric]
  split
  · exact .null
  · rename_i hnull
    exact (hoperation (hv.counts hlane (by simpa using hnull))).imp fun _ => Lane.Counts.has

theorem tells_quotient (ha : Lane.double.Has a) (hb : Lane.double.Has b) : Tells Lane.double.Has (quotient a b) := by
  rw [quotient]
  split
  · exact .null
  · rename_i hnull
    obtain ⟨ha', hb'⟩ : a.isNull = false ∧ b.isNull = false := by simpa using hnull
    split
    · exact .null
    · rename_i hzero
      refine (Lane.Counts.div (ha.counts (by decide) ha') (hb.counts (by decide) hb') (by simpa using hzero)).imp ?_
      exact fun _ => Lane.Counts.has

theorem tells_remainder (ha : Lane.whole.Has a) (hb : Lane.whole.Has b) (hzero : b.same (.integer 0) = false) :
    Tells Lane.whole.Has (arithmetic Value.mod a b) := by
  refine tells_arithmetic (by decide) (fun hcount hdivisor => hcount.mod hdivisor ?_) ha hb
  rwa [hb.asNumber_eq]

theorem has_ofTruth (t : Option Bool) : Lane.whole.Has (.ofTruth t) := by
  cases t with
  | none => exact .null
  | some b => exact .boolean b

theorem has_notValue (v : Value) : Lane.whole.Has (notValue v) := by
  rw [notValue]
  split
  · exact .null
  · exact .boolean _

theorem tells_compared {operator : BinaryOperator}
    (h : operator.isLogical = true ∨ operator.isComparison = true) (a b : Value) :
    Tells Lane.whole.Has (binaryValue operator a b) := by
  cases operator with
  | or | and => exact has_ofTruth _
  | eq | ne | lt | le | gt | ge =>
    exact (FilterOperator.tells_holds (by simp) (by simp)).map fun t _ => has_ofTruth t
  | add | sub | mul | div | mod => simp [BinaryOperator.isLogical, BinaryOperator.isComparison] at h

/-- Does the name of a type say that it is one of integers? This is asked first. -/
def isIntegerType (type : CastType) : Bool := Text.isPart "INT" (Text.upper (type.text none))

def isRealType (type : CastType) : Bool :=
  ["DEC", "NUM", "FLOAT", "DOUBLE", "REAL"].any (Text.isPart · (Text.upper (type.text none)))

section

variable {type : CastType}

theorem tells_castInteger (htype : isIntegerType type = true) (hv : Lane.whole.Has v) :
    Tells Lane.whole.Has (castValue v type) := by
  rw [isIntegerType] at htype
  simp only [castValue, htype]
  split
  · exact .null
  · rename_i hnull
    obtain ⟨n, hn⟩ := (hv.counts (by decide) (by simpa using hnull)).exists_toInteger
    rw [hn]
    exact .integer n

theorem tells_castReal (hinteger : isIntegerType type = false) (htype : isRealType type = true)
    (hv : Lane.double.Has v) : Tells Lane.double.Has (castValue v type) := by
  rw [isIntegerType] at hinteger
  rw [isRealType] at htype
  simp only [castValue, hinteger, htype]
  split
  · exact .null
  · rename_i hnull
    obtain ⟨x, hx⟩ := (hv.counts (by decide) (by simpa using hnull)).exists_toReal
    rw [hx]
    exact .double x

theorem tells_castOther (hinteger : isIntegerType type = false) (hreal : isRealType type = false) (v : Value) :
    Tells Lane.any.Has (castValue v type) := by
  rw [isIntegerType] at hinteger
  rw [isRealType] at hreal
  simp only [castValue, hinteger, hreal]
  split
  · exact Lane.Has.any _
  · rw [if_neg Bool.false_ne_true, if_neg Bool.false_ne_true]
    split <;> exact Lane.Has.any _

end

theorem mem_of_mem_distinctValues {vs : List Value} (h : v ∈ distinctValues vs) : v ∈ vs := by
  have hfold : ∀ seen : List Value,
      v ∈ vs.foldl (fun seen w => if seen.any (Value.same w) then seen else seen ++ [w]) seen → v ∈ seen ∨ v ∈ vs := by
    clear h
    induction vs with
    | nil => exact fun seen hseen => Or.inl hseen
    | cons w vs ih =>
      intro seen hseen
      obtain hseen | hvs := ih _ hseen
      · dsimp only at hseen
        split at hseen
        · exact Or.inl hseen
        · obtain hseen | hw := List.mem_append.mp hseen
          · exact Or.inl hseen
          · exact Or.inr (List.mem_singleton.mp hw ▸ List.mem_cons_self)
      · exact Or.inr (List.mem_cons_of_mem w hvs)
  exact (hfold [] h).resolve_left List.not_mem_nil

/-- The least or greatest value is one of them. -/
theorem tells_extreme (better : Ordering) (call : String) {vs : List Value} (hvs : ∀ v ∈ vs, lane.Has v) :
    Tells lane.Has (Value.extreme better (.mixedTypes call) vs) := by
  cases vs with
  | nil => exact .null
  | cons v vs =>
    obtain ⟨hv, hvs⟩ := List.forall_mem_cons.mp hvs
    refine Yields.foldlM (fun w hw best hbest => ?_) hv
    split
    · rfl
    · split
      · exact hvs w hw
      · exact hbest

theorem tells_count (call : Expression) (present : List Value) :
    Tells Lane.whole.Has (aggregateValue call .count present) :=
  Lane.Has.integer _

theorem tells_sum (call : Expression) {present : List Value} (hlane : lane ≠ .any)
    (hpresent : ∀ v ∈ present, lane.Has v ∧ v.isNull = false) :
    Tells lane.Has (aggregateValue call .sum present) := by
  cases present with
  | nil => exact .null
  | cons v vs =>
    have hcounts : ∀ w ∈ (v :: vs).map Value.asNumber, lane.Counts w := by
      intro w hw
      obtain ⟨u, hu, rfl⟩ := List.mem_map.mp hw
      exact (hpresent u hu).1.counts hlane (hpresent u hu).2
    exact (Lane.Counts.sum hcounts (by simp)).imp fun _ => Lane.Counts.has

theorem tells_extremeValue {function : AggregateFunction} (hfunction : function = .min ∨ function = .max)
    (call : Expression) {present : List Value} (hpresent : ∀ v ∈ present, lane.Has v ∧ v.isNull = false) :
    Tells lane.Has (aggregateValue call function present) := by
  have hvalues : ∀ v ∈ present, lane.Has v := fun v hv => (hpresent v hv).1
  cases present with
  | nil => obtain rfl | rfl := hfunction <;> exact .null
  | cons v vs => obtain rfl | rfl := hfunction <;> exact tells_extreme _ _ hvalues

/-! ### Rules -/

/-- The expression that a call of an aggregate takes the values of: its first argument, inside of a `DISTINCT`. -/
inductive IsArgument : List Expression → Expression → Prop
  | distinct {items others : List Expression} {e : Expression} (h : IsArgument items e) :
      IsArgument (distinct items :: others) e
  | first {e : Expression} {others : List Expression} (h : ∀ items, e ≠ distinct items) : IsArgument (e :: others) e

theorem IsArgument.evaluateFirst_eq {args : List Expression} {e : Expression} (h : IsArgument args e) (scope : Scope) :
    evaluateFirst scope args = evaluate scope e := by
  induction h with
  | distinct _ ih => rw [evaluateFirst, ih]
  | first h =>
    rw [evaluateFirst]
    exact h

/-- The values of an expression are in a lane, if those under names are in the lanes of the names. -/
inductive HasLane (lanes : String → Lane) : Expression → Lane → Prop
  | any {e : Expression} {lane : Lane} (h : HasLane lanes e lane) : HasLane lanes e .any
  | column (qualifiers : List Identifier) (name : Identifier) :
      HasLane lanes (column qualifiers name) (lanes (columnKey (tableName qualifiers) name.name))
  | tableStar (qualifiers : List Identifier) : HasLane lanes (tableStar qualifiers) .any
  | star : HasLane lanes star .any
  | distinct (items : List Expression) : HasLane lanes (distinct items) .any
  | construct (c : Construct) (args : List Expression) : HasLane lanes (construct c args) .any
  | text (s : String) : HasLane lanes (text s) .any
  | number {s : String} {lane : Lane} (h : lane.Has (Value.text s).asNumber) : HasLane lanes (number s) lane
  | null {lane : Lane} : HasLane lanes null lane
  | boolean (b : Bool) : HasLane lanes (boolean b) .whole
  | paren {e : Expression} {lane : Lane} (h : HasLane lanes e lane) : HasLane lanes (paren e) lane
  | not {e : Expression} (h : HasLane lanes e .any) : HasLane lanes (not e) .whole
  | neg {e : Expression} {lane : Lane} (hlane : lane ≠ .any) (h : HasLane lanes e lane) : HasLane lanes (neg e) lane
  | abs {e : Expression} {lane : Lane} (hlane : lane ≠ .any) (h : HasLane lanes e lane) : HasLane lanes (abs e) lane
  | round {e : Expression} (h : HasLane lanes e .whole) : HasLane lanes (round [e]) .whole
  | compared {operator : BinaryOperator} {left right : Expression}
      (hoperator : operator.isLogical = true ∨ operator.isComparison = true) (hleft : HasLane lanes left .any)
      (hright : HasLane lanes right .any) : HasLane lanes (binary operator left right) .whole
  | arithmetic {operator : BinaryOperator} {left right : Expression} {lane : Lane}
      (hoperator : operator = .add ∨ operator = .sub ∨ operator = .mul) (hlane : lane ≠ .any)
      (hleft : HasLane lanes left lane) (hright : HasLane lanes right lane) :
      HasLane lanes (binary operator left right) lane
  | quotient {left right : Expression} (hleft : HasLane lanes left .double) (hright : HasLane lanes right .double) :
      HasLane lanes (binary .div left right) .double
  | remainder {left right : Expression} (hleft : HasLane lanes left .whole) (hright : HasLane lanes right .whole) :
      HasLane lanes (binary .mod left right) .whole
  | is {left right : Expression} (hleft : HasLane lanes left .any) (hright : HasLane lanes right .any) :
      HasLane lanes (is left right) .whole
  | nullif {left right : Expression} {lane : Lane} (hleft : HasLane lanes left lane)
      (hright : HasLane lanes right .any) : HasLane lanes (nullif left right) lane
  | coalesce {args : List Expression} {lane : Lane} (hargs : ∀ arg ∈ args, HasLane lanes arg lane) :
      HasLane lanes (coalesce args) lane
  | case {operand : Option Expression} {branches : List (Expression × Expression)} {otherwise : Option Expression}
      {lane : Lane} (hconditions : ∀ branch ∈ branches, HasLane lanes branch.1 .any)
      (hvalues : ∀ branch ∈ branches, HasLane lanes branch.2 lane)
      (hotherwise : ∀ e ∈ otherwise, HasLane lanes e lane) : HasLane lanes (case operand branches otherwise) lane
  | conditional {condition yes : Expression} {no : Option Expression} {lane : Lane}
      (hcondition : HasLane lanes condition .any) (hyes : HasLane lanes yes lane)
      (hno : ∀ e ∈ no, HasLane lanes e lane) : HasLane lanes (conditional condition yes no) lane
  | castInteger {e : Expression} {type : CastType} (htype : isIntegerType type = true) (h : HasLane lanes e .whole) :
      HasLane lanes (cast e type) .whole
  | castReal {e : Expression} {type : CastType} (hinteger : isIntegerType type = false)
      (htype : isRealType type = true) (h : HasLane lanes e .double) : HasLane lanes (cast e type) .double
  | castOther {e : Expression} {type : CastType} (hinteger : isIntegerType type = false)
      (hreal : isRealType type = false) (h : HasLane lanes e .any) : HasLane lanes (cast e type) .any
  | countRows (args : List Expression) : HasLane lanes (aggregate .count (Expression.star :: args)) .whole
  | count {args : List Expression} {e : Expression} (hargument : IsArgument args e) (h : HasLane lanes e .any) :
      HasLane lanes (aggregate .count args) .whole
  | sum {args : List Expression} {e : Expression} {lane : Lane} (hargument : IsArgument args e) (hlane : lane ≠ .any)
      (h : HasLane lanes e lane) : HasLane lanes (aggregate .sum args) lane
  | extreme {function : AggregateFunction} {args : List Expression} {e : Expression} {lane : Lane}
      (hfunction : function = .min ∨ function = .max) (hargument : IsArgument args e) (h : HasLane lanes e lane) :
      HasLane lanes (aggregate function args) lane

/-! ### What the rules promise -/

section

variable {lanes : String → Lane} {scope : Scope} {args : List Expression} {e : Expression}

theorem tells_firstPresent (h : ∀ arg ∈ args, Tells lane.Has (evaluate scope arg)) :
    Tells lane.Has (firstPresent scope args) := by
  induction args with
  | nil =>
    rw [firstPresent]
    exact .null
  | cons arg args ih =>
    obtain ⟨harg, hargs⟩ := List.forall_mem_cons.mp h
    rw [firstPresent]
    refine harg.bind fun v hv => ?_
    split
    · exact ih hargs
    · exact hv

theorem tells_firstTrue {branches : List (Expression × Expression)}
    (hconditions : ∀ branch ∈ branches, Tells Lane.any.Has (evaluate scope branch.1))
    (hvalues : ∀ branch ∈ branches, Tells lane.Has (evaluate scope branch.2)) :
    Tells (fun found => ∀ v ∈ found, lane.Has v) (firstTrue scope branches) := by
  induction branches with
  | nil =>
    rw [firstTrue]
    exact fun _ hv => by cases hv
  | cons branch branches ih =>
    obtain ⟨hcondition, hconditions⟩ := List.forall_mem_cons.mp hconditions
    obtain ⟨hvalue, hvalues⟩ := List.forall_mem_cons.mp hvalues
    rw [firstTrue]
    refine hcondition.bind fun v _ => ?_
    split
    · refine hvalue.bind fun v hv => ?_
      rintro _ ⟨⟩
      exact hv
    · exact ih hconditions hvalues

theorem tells_evaluateOptional {optional : Option Expression}
    (h : ∀ e ∈ optional, Tells lane.Has (evaluate scope e)) : Tells lane.Has (evaluateOptional scope optional) := by
  cases optional with
  | none =>
    rw [evaluateOptional]
    exact .null
  | some e =>
    rw [evaluateOptional]
    exact h e rfl

/-- A call takes the values of its argument for the rows of the group, but no nulls, and each only once if it says so. -/
theorem tells_aggregate {function : AggregateFunction} {result : Lane} (hargument : IsArgument args e)
    (hscope : scope.InLanes lanes)
    (hvalues : ∀ inner : Scope, inner.InLanes lanes → Tells lane.Has (evaluate inner e))
    (hrows : ∀ n : Nat, countsRows function args = true → result.Has (.integer n))
    (hresult : ∀ present, (∀ v ∈ present, lane.Has v ∧ v.isNull = false) →
      Tells result.Has (aggregateValue (aggregate function args) function present)) :
    Tells result.Has (evaluate scope (aggregate function args)) := by
  cases scope with
  | row r =>
    simp only [evaluate]
    rfl
  | group rows computed =>
    have hmapped : Tells (fun vs => ∀ v ∈ vs, lane.Has v) (rows.mapM fun row => evaluateFirst (.row row) args) := by
      refine Yields.mapM fun row hrow => ?_
      rw [hargument.evaluateFirst_eq]
      exact hvalues _ (hscope.1 row hrow)
    have hpresent : ∀ vs : List Value, (∀ v ∈ vs, lane.Has v) → ∀ v ∈ vs.filter (!·.isNull),
        lane.Has v ∧ v.isNull = false := by
      intro vs hvs v hv
      obtain ⟨hmem, hnull⟩ := List.mem_filter.mp hv
      exact ⟨hvs v hmem, by simpa using hnull⟩
    simp only [evaluate]
    split
    · rename_i hcounts
      exact hrows _ hcounts
    · split
      · exact hmapped.bind fun vs hvs => hresult _ fun v hv => hpresent vs hvs v (mem_of_mem_distinctValues hv)
      · rfl
      · exact hmapped.bind fun vs hvs => hresult _ (hpresent vs hvs)

/-- An expression that has a lane fails in words, and has its values in the lane. -/
theorem HasLane.tells_evaluate (h : HasLane lanes e lane) :
    scope.InLanes lanes → Tells lane.Has (evaluate scope e) := by
  induction h generalizing scope with
  | any _ ih => exact fun hscope => (ih hscope).imp fun v _ => .any v
  | column qualifiers name =>
    intro hscope
    rw [evaluate]
    exact Scope.tells_column hscope _ _
  | tableStar qualifiers =>
    intro hscope
    rw [evaluate]
    exact (Scope.tells_column hscope _ _).imp fun v _ => .any v
  | star | distinct | construct =>
    intro _
    rw [evaluate]
    rfl
  | text s =>
    intro _
    rw [evaluate]
    exact Lane.Has.any _
  | number hnumber =>
    intro _
    rw [evaluate]
    exact hnumber
  | null =>
    intro _
    rw [evaluate]
    exact Lane.Has.null
  | boolean b =>
    intro _
    rw [evaluate]
    exact Lane.Has.boolean b
  | paren _ ih =>
    intro hscope
    rw [evaluate]
    exact ih hscope
  | not _ ih =>
    intro hscope
    rw [evaluate]
    exact (ih hscope).bind fun v _ => has_notValue v
  | neg hlane _ ih =>
    intro hscope
    rw [evaluate]
    exact (ih hscope).bind fun v hv => tells_numeric hlane Lane.Counts.neg hv
  | abs hlane _ ih =>
    intro hscope
    rw [evaluate]
    exact (ih hscope).bind fun v hv => tells_numeric hlane Lane.Counts.abs hv
  | round _ ih =>
    intro hscope
    rw [evaluate, roundArguments]
    exact (ih hscope).bind fun v hv => tells_numeric (by decide) (fun hcount => hcount.roundTo 0) hv
  | @compared operator left right hoperator _ _ ihleft ihright =>
    intro hscope
    cases operator with
    | mod => simp [BinaryOperator.isLogical, BinaryOperator.isComparison] at hoperator
    | _ =>
      simp only [evaluate]
      exact (ihleft hscope).bind fun a _ => (ihright hscope).bind fun b _ => tells_compared hoperator a b
  | arithmetic hoperator hlane _ _ ihleft ihright =>
    intro hscope
    obtain rfl | rfl | rfl := hoperator
    · simp only [evaluate]
      exact (ihleft hscope).bind fun a ha => (ihright hscope).bind fun b hb =>
        tells_arithmetic hlane Lane.Counts.add ha hb
    · simp only [evaluate]
      exact (ihleft hscope).bind fun a ha => (ihright hscope).bind fun b hb =>
        tells_arithmetic hlane Lane.Counts.sub ha hb
    · simp only [evaluate]
      exact (ihleft hscope).bind fun a ha => (ihright hscope).bind fun b hb =>
        tells_arithmetic hlane Lane.Counts.mul ha hb
  | quotient _ _ ihleft ihright =>
    intro hscope
    simp only [evaluate]
    exact (ihleft hscope).bind fun a ha => (ihright hscope).bind fun b hb => tells_quotient ha hb
  | remainder _ _ ihleft ihright =>
    intro hscope
    rw [evaluate]
    refine (ihright hscope).bind fun b hb => ?_
    split
    · exact Lane.Has.null
    · rename_i hzero
      exact (ihleft hscope).bind fun a ha => tells_remainder ha hb (by simpa using hzero)
  | @is left right _ _ ihleft ihright =>
    intro hscope
    by_cases hnull : right = Expression.null
    · rw [hnull, evaluate]
      exact (ihleft hscope).bind fun v _ => .boolean _
    · rw [evaluate_is _ _ hnull]
      exact (ihleft hscope).bind fun a _ => (ihright hscope).bind fun b _ => .boolean _
  | nullif _ _ ihleft ihright =>
    intro hscope
    rw [evaluate]
    refine (ihleft hscope).bind fun a ha => (ihright hscope).bind fun b _ => ?_
    split
    · exact Lane.Has.null
    · exact ha
  | coalesce _ ih =>
    intro hscope
    rw [evaluate]
    exact tells_firstPresent fun arg harg => ih arg harg hscope
  | case _ _ _ ihconditions ihvalues ihotherwise =>
    intro hscope
    rw [evaluate]
    refine (tells_firstTrue (fun branch hbranch => ihconditions branch hbranch hscope)
      fun branch hbranch => ihvalues branch hbranch hscope).bind fun found hfound => ?_
    cases found with
    | none => exact tells_evaluateOptional fun e he => ihotherwise e he hscope
    | some v => exact hfound v rfl
  | conditional _ _ _ ihcondition ihyes ihno =>
    intro hscope
    rw [evaluate]
    refine (ihcondition hscope).bind fun v _ => ?_
    split
    · exact ihyes hscope
    · exact tells_evaluateOptional fun e he => ihno e he hscope
  | castInteger htype _ ih =>
    intro hscope
    rw [evaluate]
    exact (ih hscope).bind fun v hv => tells_castInteger htype hv
  | castReal hinteger htype _ ih =>
    intro hscope
    rw [evaluate]
    exact (ih hscope).bind fun v hv => tells_castReal hinteger htype hv
  | castOther hinteger hreal _ ih =>
    intro hscope
    rw [evaluate]
    exact (ih hscope).bind fun v _ => tells_castOther hinteger hreal v
  | countRows args =>
    intro hscope
    cases scope with
    | row r =>
      simp only [evaluate]
      rfl
    | group rows computed =>
      simp only [evaluate]
      exact Lane.Has.integer _
  | count hargument _ ih =>
    intro hscope
    exact tells_aggregate hargument hscope (fun _ => ih) (fun n _ => .integer n) fun present _ => tells_count _ present
  | sum hargument hlane _ ih =>
    intro hscope
    exact tells_aggregate hargument hscope (fun _ => ih) (fun _ hrows => by cases hrows) fun present hpresent =>
      tells_sum _ hlane hpresent
  | extreme hfunction hargument _ ih =>
    intro hscope
    refine tells_aggregate hargument hscope (fun _ => ih) (fun _ hrows => ?_) fun present hpresent =>
      tells_extremeValue hfunction _ hpresent
    obtain rfl | rfl := hfunction <;> cases hrows

end

end Expression

end QueryFederation

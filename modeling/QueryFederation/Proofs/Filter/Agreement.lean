import QueryFederation.Proofs.Compilation.Folds
import QueryFederation.Proofs.Compilation.Pipeline
import QueryFederation.Proofs.Text.Like
import QueryFederation.Proofs.Value.Sum

/-!
# Filters in a store and in memory

A document store compares values as they are, and only texts can follow a pattern. In memory a number is compared with a
numeric text as a number, a decimal as a double, and of any value it is the text that follows a pattern. Both are one
rule over two ways of comparing, so they decide alike wherever the two ways come to the same, and in particular on
values that need no conversion.
-/

namespace QueryFederation

/-! ### Ways of comparing -/

/-- How values are compared with each other and with LIKE texts. -/
structure Comparison where
  same : Value → Value → Bool
  inOrder : (Ordering → Bool) → Value → Value → Bool
  follows : Value → Value → Bool

namespace Comparison

/-- A text follows the LIKE text as a document store reads it; no other value follows any. -/
def textFollows : Value → Value → Bool
  | .text s, .text like => (Text.Pattern.ofText (Text.Pattern.likeText like)).isFoundIn ⟨true, false⟩ s
  | _, _ => false

def asIs : Comparison := ⟨Value.same, Document.inOrder, textFollows⟩

def inOrderConverted (holds : Ordering → Bool) (w t : Value) : Bool :=
  Document.inOrder holds (w.coercePair t).1 (w.coercePair t).2

def converted : Comparison := ⟨Value.sameCoerced, inOrderConverted, Value.followsLike⟩

/-- Do two ways of comparing come to the same for a value and one value of a filter? -/
structure AgreeOn (c c' : Comparison) (operator : FilterOperator) (w t : Value) : Prop where
  same : c.same w t = c'.same w t
  inOrder (holds : Ordering → Bool) : c.inOrder holds w t = c'.inOrder holds w t
  follows : operator.isPattern = true → w.isNull = false → c.follows w t = c'.follows w t

end Comparison

namespace FilterOperator

/-- The values that a filter compares with. -/
def targets : FilterOperator → Value → List Value
  | isNull, _ | isNotNull, _ => []
  | isIn, .list items | notIn, .list items | between, .list items => items
  | _, v => [v]

/-- Whether a filter holds of a value, for a way of comparing. -/
def decides (operator : FilterOperator) (c : Comparison) (w v : Value) : Bool :=
  match operator, v with
  | isNull, _ => w.isNull
  | isNotNull, _ => !w.isNull
  | isIn, .list items => !w.isNull && items.any (c.same w)
  | notIn, .list items => !w.isNull && !items.any (c.same w)
  | between, .list [low, high] => c.inOrder (· != .lt) w low && c.inOrder (· != .gt) w high
  | like, v => !w.isNull && c.follows w v
  | notLike, v => !w.isNull && !c.follows w v
  | eq, v => !w.isNull && c.same w v
  | ne, v => !w.isNull && !c.same w v
  | gt, v => c.inOrder (· == .gt) w v
  | ge, v => c.inOrder (· != .lt) w v
  | lt, v => c.inOrder (· == .lt) w v
  | le, v => c.inOrder (· != .gt) w v
  | _, _ => false

/-- A filter is decided alike if the values it compares with are compared alike. -/
theorem decides_congr {operator : FilterOperator} {c c' : Comparison} {w v : Value}
    (h : ∀ t ∈ operator.targets v, c.AgreeOn c' operator w t) : operator.decides c w v = operator.decides c' w v := by
  have hitems : ∀ {items : List Value}, (∀ t ∈ items, c.AgreeOn c' operator w t) →
      items.any (c.same w) = items.any (c'.same w) := by
    intro items hall
    induction items with
    | nil => rfl
    | cons t items ih =>
      obtain ⟨ht, hrest⟩ := List.forall_mem_cons.mp hall
      rw [List.any_cons, List.any_cons, ht.same, ih hrest]
  cases operator with
  | isNull | isNotNull => rfl
  | isIn | notIn =>
    cases v with
    | list items =>
      have hany : items.any (c.same w) = items.any (c'.same w) := hitems h
      rw [decides, decides, hany]
    | _ => rfl
  | between =>
    cases v with
    | list items =>
      match items, h with
      | [low, high], h =>
        obtain ⟨hlow, hhigh⟩ := List.forall_mem_cons.mp h
        rw [decides, decides, hlow.inOrder, (List.forall_mem_singleton.mp hhigh).inOrder]
      | [], _ | [_], _ | _ :: _ :: _ :: _, _ => rfl
    | _ => rfl
  | like | notLike =>
    have hv := List.forall_mem_singleton.mp h
    cases hw : w.isNull with
    | true => simp [decides, hw]
    | false => rw [decides, decides, hv.follows rfl hw]
  | eq | ne =>
    rw [decides, decides, (List.forall_mem_singleton.mp h).same]
  | gt | ge | lt | le => exact (List.forall_mem_singleton.mp h).inOrder _

end FilterOperator

/-! ### In a store -/

namespace Document

variable {w v t : Value} {operator : FilterOperator}

theorem null_same (t : Value) : Value.same .null t = t.isNull := by
  cases t <;> rfl

theorem same_of_isNull (hw : w.isNull = true) (ht : t.isNull = false) : w.same t = false := by
  cases w with
  | null => rw [null_same, ht]
  | _ => cases hw

theorem inOrder_of_isNull (holds : Ordering → Bool) (h : (w.isNull || t.isNull) = true) : inOrder holds w t = false := by
  cases w with
  | null => cases t <;> rfl
  | _ =>
    cases t with
    | null => rfl
    | _ => cases h

private theorem ite_isNull (holds : Ordering → Bool) (w t : Value) :
    (if w.isNull || t.isNull then Except.ok false else .ok (inOrder holds w t) : Outcome Bool)
      = .ok (inOrder holds w t) := by
  split
  · rename_i h
    rw [inOrder_of_isNull holds h]
  · rfl

theorem compare_gt (w t : Value) : compare "$gt" w t = .ok (inOrder (· == .gt) w t) := ite_isNull _ w t

theorem compare_gte (w t : Value) : compare "$gte" w t = .ok (inOrder (· != .lt) w t) := ite_isNull _ w t

theorem compare_lt (w t : Value) : compare "$lt" w t = .ok (inOrder (· == .lt) w t) := ite_isNull _ w t

theorem compare_lte (w t : Value) : compare "$lte" w t = .ok (inOrder (· != .gt) w t) := ite_isNull _ w t

theorem compare_nin (w : Value) (items : List Value) :
    compare "$nin" w (.list (items ++ [.null])) = .ok (!w.isNull && !items.any w.same) := by
  have hany : (items ++ [Value.null]).any w.same = (w.isNull || items.any w.same) := by
    rw [List.any_append, List.any_cons, List.any_nil, Value.same_null, Bool.or_false, Bool.or_comm]
  change Except.ok (!(items ++ [Value.null]).any w.same) = _
  rw [hany, Bool.not_or]

theorem isNull_eq_false_of_eq (hv : FilterOperator.eq.valueProblem? v = none) : v.isNull = false := by
  cases v with
  | null => cases hv
  | _ => rfl

/-- A criterion of one operator is what the operator says. -/
theorem fieldMatches_single {name : String} (hdollar : name.startsWith "$" = true)
    (hplain : name ≠ "$options" ∧ name ≠ "$regex" ∧ name ≠ "$not") :
    fieldMatches w (.record [(name, t)]) = compare name w t := by
  have hoperators : hasOperators [(name, t)] = true := by simp [hasOperators, hdollar]
  rw [fieldMatches, if_pos hoperators, operatorsHold, if_neg hplain.1, if_neg hplain.2.1, if_neg hplain.2.2, operatorsHold]
  exact bind_ite_eq_self _

/-- A criterion of two operators is what both of them say. -/
theorem fieldMatches_pair {first second : String} {a b : Bool} {u : Value} (hdollar : first.startsWith "$" = true)
    (hfirst : first ≠ "$options" ∧ first ≠ "$regex" ∧ first ≠ "$not")
    (hsecond : second ≠ "$options" ∧ second ≠ "$regex" ∧ second ≠ "$not") (ha : compare first w t = .ok a)
    (hb : compare second w u = .ok b) : fieldMatches w (.record [(first, t), (second, u)]) = .ok (a && b) := by
  have hoperators : hasOperators [(first, t), (second, u)] = true := by simp [hasOperators, hdollar]
  rw [fieldMatches, if_pos hoperators, operatorsHold, if_neg hfirst.1, if_neg hfirst.2.1, if_neg hfirst.2.2, ha,
    operatorsHold, if_neg hsecond.1, if_neg hsecond.2.1, if_neg hsecond.2.2, hb]
  cases a <;> cases b <;> rfl

theorem fieldMatches_pattern (w : Value) (like : String) :
    fieldMatches w (.record [("$regex", .text (Text.Pattern.likeText like)), ("$options", .text "i")])
      = .ok (Comparison.textFollows w (.text like)) := by
  have hoperators : hasOperators [("$regex", .text (Text.Pattern.likeText like)), ("$options", .text "i")] = true := by
    simp [hasOperators]
  have hfollows : followsPattern [("$regex", .text (Text.Pattern.likeText like)), ("$options", .text "i")] w
      (.text (Text.Pattern.likeText like)) = .ok (Comparison.textFollows w (.text like)) := by
    have hcase : ignoresCase [("$regex", .text (Text.Pattern.likeText like)), ("$options", .text "i")] = .ok true := rfl
    rw [followsPattern, hcase]
    cases w <;> rfl
  rw [fieldMatches, if_pos hoperators, operatorsHold, if_neg (by decide), if_pos rfl, hfollows, operatorsHold, if_pos rfl,
    operatorsHold]
  exact bind_ite_eq_self _

theorem fieldMatches_noPattern (w : Value) (like : String) :
    fieldMatches w (.record [("$not", .record [("$regex", .text (Text.Pattern.likeText like)), ("$options", .text "i")]),
        ("$ne", .null)])
      = .ok (!w.isNull && !Comparison.textFollows w (.text like)) := by
  have hoperators : hasOperators [("$not", .record [("$regex", .text (Text.Pattern.likeText like)),
      ("$options", .text "i")]), ("$ne", .null)] = true := by simp [hasOperators]
  have hne : compare "$ne" w .null = .ok !w.isNull := congrArg (fun b => Except.ok !b) (Value.same_null w)
  rw [fieldMatches, if_pos hoperators, operatorsHold, if_neg (by decide), if_neg (by decide), if_pos rfl,
    fieldMatches_pattern, operatorsHold, if_neg (by decide), if_neg (by decide), if_neg (by decide), hne, operatorsHold]
  cases w.isNull <;> cases Comparison.textFollows w (.text like) <;> rfl

/-- A store decides a filter by comparing values as they are, if its pattern is a text and its list has no null. -/
theorem exists_operators_decides (hv : operator.valueProblem? v = none)
    (hpattern : operator.isPattern = true → ∃ like, v = .text like)
    (hlist : operator = .isIn → ∀ item ∈ operator.targets v, item.isNull = false) :
    ∃ row, operators operator v = .ok row ∧ ∀ w, fieldMatches w (.record row) = .ok (operator.decides .asIs w v) := by
  cases operator with
  | isNull =>
    refine ⟨_, rfl, fun w => ?_⟩
    rw [fieldMatches_single (by simp) (by decide)]
    exact congrArg Except.ok (Value.same_null w)
  | isNotNull =>
    refine ⟨_, rfl, fun w => ?_⟩
    rw [fieldMatches_single (by simp) (by decide)]
    exact congrArg (fun b => Except.ok !b) (Value.same_null w)
  | isIn =>
    obtain ⟨items, rfl⟩ := FilterOperator.exists_items_of_valueProblem? (Or.inl rfl) hv
    -- A missing field would be found among items that include null, though the operator is unknown for it.
    have hany : ∀ w : Value, items.any w.same = (!w.isNull && items.any w.same) := by
      intro w
      cases hw : w.isNull with
      | false => rfl
      | true =>
        rw [List.any_eq_false.mpr fun item hitem => by simp [same_of_isNull hw (hlist rfl item hitem)]]
        rfl
    refine ⟨_, rfl, fun w => ?_⟩
    rw [fieldMatches_single (by simp) (by decide)]
    exact congrArg Except.ok (hany w)
  | notIn =>
    obtain ⟨items, rfl⟩ := FilterOperator.exists_items_of_valueProblem? (Or.inr rfl) hv
    refine ⟨_, rfl, fun w => ?_⟩
    rw [fieldMatches_single (by simp) (by decide)]
    exact compare_nin w items
  | between =>
    obtain ⟨low, high, rfl⟩ := FilterOperator.exists_bounds_of_valueProblem? hv
    refine ⟨_, rfl, fun w => ?_⟩
    exact fieldMatches_pair (by simp) (by decide) (by decide) (compare_gte w low) (compare_lte w high)
  | like =>
    obtain ⟨like, rfl⟩ := hpattern rfl
    refine ⟨_, rfl, fun w => ?_⟩
    rw [fieldMatches_pattern]
    cases w <;> rfl
  | notLike =>
    obtain ⟨like, rfl⟩ := hpattern rfl
    exact ⟨_, rfl, fun w => fieldMatches_noPattern w like⟩
  | eq =>
    have hsame : ∀ w : Value, w.same v = (!w.isNull && w.same v) := by
      intro w
      cases hw : w.isNull with
      | false => rfl
      | true =>
        rw [same_of_isNull hw (isNull_eq_false_of_eq hv)]
        rfl
    refine ⟨_, rfl, fun w => ?_⟩
    rw [fieldMatches_single (by simp) (by decide)]
    exact congrArg Except.ok (hsame w)
  | ne =>
    refine ⟨_, rfl, fun w => ?_⟩
    rw [fieldMatches_single (by simp) (by decide)]
    have hany := compare_nin w [v]
    rw [List.any_cons, List.any_nil, Bool.or_false] at hany
    exact hany
  | gt => exact ⟨_, rfl, fun w => (fieldMatches_single (by simp) (by decide)).trans (compare_gt w v)⟩
  | ge => exact ⟨_, rfl, fun w => (fieldMatches_single (by simp) (by decide)).trans (compare_gte w v)⟩
  | lt => exact ⟨_, rfl, fun w => (fieldMatches_single (by simp) (by decide)).trans (compare_lt w v)⟩
  | le => exact ⟨_, rfl, fun w => (fieldMatches_single (by simp) (by decide)).trans (compare_lte w v)⟩

theorem exists_condition_decides {name : String} (hand : name ≠ "$and") (hor : name ≠ "$or")
    (hv : operator.valueProblem? v = none) (hpattern : operator.isPattern = true → ∃ like, v = .text like)
    (hlist : operator = .isIn → ∀ item ∈ operator.targets v, item.isNull = false) :
    ∃ query, condition name operator v = .ok query
      ∧ ∀ doc, queryMatches doc (.record query) = .ok (operator.decides .asIs (field doc name) v) := by
  obtain ⟨row, hrow, hmatches⟩ := exists_operators_decides hv hpattern hlist
  refine ⟨[(name, .record row)], ?_, fun doc => (queryMatches_field hand hor _).trans (hmatches _)⟩
  rw [condition, hrow]
  rfl

end Document

/-! ### In memory -/

namespace Value

theorem isNull_fst_coercePair (w t : Value) (h : w.isNull = true) : (w.coercePair t).1.isNull = true := by
  cases w with
  | null =>
    rw [coercePair]
    split <;> rfl
  | _ => cases h

theorem isNull_snd_coercePair (w t : Value) (h : t.isNull = true) : (w.coercePair t).2.isNull = true := by
  cases t with
  | null =>
    rw [coercePair]
    split <;> rfl
  | _ => cases h

/-- No value but null is equal to null. -/
theorem sameCoerced_null {w : Value} (h : w.isNull = false) : w.sameCoerced .null = false := by
  cases w with
  | null => cases h
  | _ => rfl

theorem ordered_eq_true_iff (holds : Ordering → Bool) (w t : Value) :
    ordered holds w t = .ok (some true) ↔ Comparison.inOrderConverted holds w t = true := by
  rw [ordered, Comparison.inOrderConverted]
  split
  · rename_i hnull
    have hnulls : ((w.coercePair t).1.isNull || (w.coercePair t).2.isNull) = true := by
      rw [Bool.or_eq_true] at hnull ⊢
      exact hnull.imp (isNull_fst_coercePair w t) (isNull_snd_coercePair w t)
    simp [Document.inOrder_of_isNull holds hnulls]
  · dsimp only
    rw [Document.inOrder]
    rcases order? (w.coercePair t).1 (w.coercePair t).2 with _ | _ | o <;> simp

end Value

namespace FilterOperator

variable {operator : FilterOperator} {w v : Value}

theorem holds_isNull (w v : Value) : isNull.holds w v = .ok (some w.isNull) := rfl

theorem holds_isNotNull (w v : Value) : isNotNull.holds w v = .ok (some !w.isNull) := rfl

/-- A null value leaves every filter unknown but for the tests for null. -/
theorem holds_of_isNull (hnull : operator ≠ isNull) (hnotNull : operator ≠ isNotNull) (hw : w.isNull = true) :
    operator.holds w v = .ok none := by
  cases operator with
  | isNull => exact absurd rfl hnull
  | isNotNull => exact absurd rfl hnotNull
  | _ => exact if_pos hw

theorem decides_of_isNull (hnull : operator ≠ isNull) (hw : w.isNull = true) :
    operator.decides .converted w v = false := by
  have horder : ∀ holds t, Comparison.converted.inOrder holds w t = false := fun holds t =>
    Document.inOrder_of_isNull holds (by rw [Value.isNull_fst_coercePair w t hw, Bool.true_or])
  cases operator with
  | isNull => exact absurd rfl hnull
  | gt | ge | lt | le => exact horder _ v
  | between =>
    rw [decides.eq_def]
    split <;> simp_all
  | _ => cases v <;> simp [decides, hw]

section

variable (hw : w.isNull = false)

include hw

theorem holds_isIn (items : List Value) : isIn.holds w (.list items) = .ok (some (items.any w.sameCoerced)) :=
  if_neg (by simp [hw])

theorem holds_notIn (items : List Value) : notIn.holds w (.list items) = .ok (some !items.any w.sameCoerced) :=
  if_neg (by simp [hw])

theorem holds_between (low high : Value) : between.holds w (.list [low, high]) = (do
    match ← Value.ordered (· != .lt) w low with
    | some true => Value.ordered (· != .gt) w high
    | other => return other) :=
  if_neg (by simp [hw])

theorem holds_like (v : Value) : like.holds w v = .ok (some (w.followsLike v)) := if_neg (by simp [hw])

theorem holds_notLike (v : Value) : notLike.holds w v = .ok (some !w.followsLike v) := if_neg (by simp [hw])

theorem holds_eq (v : Value) : eq.holds w v = .ok (some (w.sameCoerced v)) := if_neg (by simp [hw])

theorem holds_ne (v : Value) : ne.holds w v = .ok (some !w.sameCoerced v) := if_neg (by simp [hw])

theorem holds_gt (v : Value) : gt.holds w v = Value.ordered (· == .gt) w v := if_neg (by simp [hw])

theorem holds_ge (v : Value) : ge.holds w v = Value.ordered (· != .lt) w v := if_neg (by simp [hw])

theorem holds_lt (v : Value) : lt.holds w v = Value.ordered (· == .lt) w v := if_neg (by simp [hw])

theorem holds_le (v : Value) : le.holds w v = Value.ordered (· != .gt) w v := if_neg (by simp [hw])

theorem holds_between_eq_true_iff (low high : Value) :
    between.holds w (.list [low, high]) = .ok (some true)
      ↔ Value.ordered (· != .lt) w low = .ok (some true) ∧ Value.ordered (· != .gt) w high = .ok (some true) := by
  rw [holds_between hw]
  rcases Value.ordered (· != .lt) w low with fault | _ | _ | _
  · exact iff_of_false nofun fun h => nomatch h.1
  · exact iff_of_false nofun fun h => nomatch h.1
  · exact iff_of_false nofun fun h => nomatch h.1
  · exact (and_iff_right rfl).symm

end

/-- In memory a filter is decided by comparing converted values. -/
theorem holds_eq_true_iff (hv : operator.valueProblem? v = none) :
    operator.holds w v = .ok (some true) ↔ operator.decides .converted w v = true := by
  cases hw : w.isNull with
  | true =>
    by_cases hnull : operator = isNull
    · subst hnull
      simp [holds_isNull, decides]
    by_cases hnotNull : operator = isNotNull
    · subst hnotNull
      simp [holds_isNotNull, decides]
    rw [holds_of_isNull hnull hnotNull hw, decides_of_isNull hnull hw]
    simp
  | false =>
    cases operator with
    | isNull => simp [holds_isNull, decides]
    | isNotNull => simp [holds_isNotNull, decides]
    | isIn =>
      obtain ⟨items, rfl⟩ := exists_items_of_valueProblem? (Or.inl rfl) hv
      simp [holds_isIn hw, decides, hw, Comparison.converted]
    | notIn =>
      obtain ⟨items, rfl⟩ := exists_items_of_valueProblem? (Or.inr rfl) hv
      simp [holds_notIn hw, decides, hw, Comparison.converted]
    | between =>
      obtain ⟨low, high, rfl⟩ := exists_bounds_of_valueProblem? hv
      rw [holds_between_eq_true_iff hw, Value.ordered_eq_true_iff, Value.ordered_eq_true_iff, decides, Bool.and_eq_true]
      rfl
    | like => simp [holds_like hw, decides, hw, Comparison.converted]
    | notLike => simp [holds_notLike hw, decides, hw, Comparison.converted]
    | eq => simp [holds_eq hw, decides, hw, Comparison.converted]
    | ne => simp [holds_ne hw, decides, hw, Comparison.converted]
    | gt =>
      rw [holds_gt hw]
      exact Value.ordered_eq_true_iff _ w v
    | ge =>
      rw [holds_ge hw]
      exact Value.ordered_eq_true_iff _ w v
    | lt =>
      rw [holds_lt hw]
      exact Value.ordered_eq_true_iff _ w v
    | le =>
      rw [holds_le hw]
      exact Value.ordered_eq_true_iff _ w v

theorem decides_of_holds (hv : operator.valueProblem? v = none) {truth : Truth} (h : operator.holds w v = .ok truth) :
    operator.decides .converted w v = truth.isTrue := by
  rw [Bool.eq_iff_iff, ← holds_eq_true_iff hv, h, Truth.isTrue, decide_eq_true_iff, Except.ok.injEq]

end FilterOperator

/-! ### In both -/

namespace Comparison

variable {operator : FilterOperator} {w v t : Value}

/-- The two ways of comparing agree on values that need no conversion, and on texts without line feeds. -/
theorem agreeOn_of_unconverted (hconvert : w.coercePair t = (w, t))
    (ht : operator.isPattern = true → ∃ like, t = .text like)
    (hw : operator.isPattern = true → w.isNull = false → ∃ s, w = .text s ∧ '\n' ∉ s.toList) :
    asIs.AgreeOn converted operator w t where
  same := by
    change w.same t = (w.coercePair t).1.same (w.coercePair t).2
    rw [hconvert]
  inOrder holds := by
    change Document.inOrder holds w t = inOrderConverted holds w t
    rw [inOrderConverted, hconvert]
  follows hpattern hpresent := by
    obtain ⟨like, rfl⟩ := ht hpattern
    obtain ⟨s, rfl, hs⟩ := hw hpattern hpresent
    exact (Text.Pattern.isFoundIn_anyLineFeed _ hs).symm

theorem decides_asIs_eq_converted (hpattern : operator.isPattern = true → ∃ like, v = .text like)
    (hconvert : ∀ t ∈ operator.targets v, w.coercePair t = (w, t))
    (hw : operator.isPattern = true → w.isNull = false → ∃ s, w = .text s ∧ '\n' ∉ s.toList) :
    operator.decides asIs w v = operator.decides converted w v := by
  refine FilterOperator.decides_congr fun t ht => agreeOn_of_unconverted (hconvert t ht) (fun hop => ?_) hw
  obtain ⟨like, rfl⟩ := hpattern hop
  cases operator with
  | like | notLike => exact ⟨like, List.mem_singleton.mp ht⟩
  | _ => cases hop

end Comparison

namespace Document

variable {operator : FilterOperator} {v : Value}

/-- A store decides a filter on the values as they are, and in memory it is decided on converted values. So both select
the same documents where no value of the filter needs conversion, and a pattern meets a text or nothing. -/
theorem matches_iff_holds {name : String} (hand : name ≠ "$and") (hor : name ≠ "$or")
    (hv : operator.valueProblem? v = none) (hpattern : operator.isPattern = true → ∃ like, v = .text like)
    (hlist : operator = .isIn → ∀ item ∈ operator.targets v, item.isNull = false) (doc : Row)
    (hfeeds : operator.isPattern = true → ∀ s, field doc name = .text s → '\n' ∉ s.toList) :
    ∃ query, condition name operator v = .ok query
      ∧ queryMatches doc (.record query) = .ok (operator.decides .asIs (field doc name) v)
      ∧ (operator.holds (field doc name) v = .ok (some true)
        ↔ operator.decides .converted (field doc name) v = true)
      ∧ ((∀ t ∈ operator.targets v, (field doc name).coercePair t = (field doc name, t)) →
        (operator.isPattern = true → (field doc name).isNull = true ∨ ∃ s, field doc name = .text s) →
        (queryMatches doc (.record query) = .ok true ↔ operator.holds (field doc name) v = .ok (some true))) := by
  obtain ⟨query, hcondition, hquery⟩ := exists_condition_decides hand hor hv hpattern hlist
  have hholds := FilterOperator.holds_eq_true_iff (w := field doc name) hv
  refine ⟨query, hcondition, hquery doc, hholds, fun hconvert htext => ?_⟩
  have hagree := Comparison.decides_asIs_eq_converted hpattern hconvert fun hop hpresent => by
    obtain ⟨s, hs⟩ := (htext hop).resolve_left (by simp [hpresent])
    exact ⟨s, hs, hfeeds hop s hs⟩
  rw [hquery, hholds, hagree, Except.ok.injEq]

/-- A text that needs no conversion is found in a store as in memory. -/
theorem billing_matches_as_it_holds :
    FilterOperator.like.valueProblem? (.text "bill%") = none
      ∧ ∃ query, condition "tag" .like (.text "bill%") = .ok query
        ∧ queryMatches [("tag", .text "Billing")] (.record query) = .ok true := by
  have hvalue : FilterOperator.like.valueProblem? (.text "bill%") = none := rfl
  have htext : field [("tag", .text "Billing")] "tag" = .text "Billing" := by cbv
  have hfeeds : ∀ s, field [("tag", .text "Billing")] "tag" = .text s → '\n' ∉ s.toList := by
    intro s hs
    rw [htext] at hs
    cases hs
    decide
  have hconvert : ∀ t ∈ FilterOperator.like.targets (.text "bill%"),
      (field [("tag", .text "Billing")] "tag").coercePair t = (field [("tag", .text "Billing")] "tag", t) := by
    intro t ht
    rw [List.mem_singleton.mp ht, htext]
    rfl
  have hholds : FilterOperator.like.holds (field [("tag", .text "Billing")] "tag") (.text "bill%") = .ok (some true) := by
    rw [FilterOperator.holds_eq_true_iff hvalue, htext]
    decide +kernel
  obtain ⟨query, hquery, -, -, hagree⟩ := matches_iff_holds (show "tag" ≠ "$and" by decide) (by decide) hvalue
    (fun _ => ⟨_, rfl⟩) (fun hop => by cases hop) [("tag", .text "Billing")] fun _ => hfeeds
  exact ⟨hvalue, query, hquery, (hagree hconvert fun _ => Or.inr ⟨_, htext⟩).mpr hholds⟩

/-- A number is found in a numeric text in memory, but not in a store. -/
theorem numericText_matches_apart :
    FilterOperator.eq.valueProblem? (.integer 10) = none
      ∧ ∃ query, condition "x" .eq (.integer 10) = .ok query
        ∧ queryMatches [("x", .text "10")] (.record query) = .ok false
        ∧ FilterOperator.eq.holds (field [("x", .text "10")] "x") (.integer 10) = .ok (some true) :=
  ⟨rfl, _, rfl, by cbv, (FilterOperator.holds_eq_true_iff rfl).mpr (by cbv)⟩

end Document

end QueryFederation

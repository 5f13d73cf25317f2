import QueryFederation.Document.Pipeline
import QueryFederation.Filter.Comparison
import QueryFederation.Proofs.Number.Rounding
import QueryFederation.Proofs.Outcome
import QueryFederation.Result.Sorting

/-!
# Values of one kind and their sums

Numbers are in order with numbers, and texts with texts, without being converted. So values of one kind are compared
alike wherever they are compared: as they are, after numeric texts have become numbers, or by their place in a result.

Numbers can also be summed, divided by how many they are, and put in order. The only thing that can go wrong is that a
number would have to be a double beyond their range.
-/

namespace QueryFederation.Value

theorem eq_null_of_isNull {v : Value} (h : v.isNull = true) : v = .null := by
  cases v with
  | null => rfl
  | _ => cases h

theorem same_null (v : Value) : v.same .null = v.isNull := by
  cases v <;> rfl

/-- The kinds of values that can be compared as they are. -/
inductive Kind where
  | number
  | text
  deriving DecidableEq, Repr

namespace Kind

/-- The values of a kind. Integers and doubles are numbers, but for the double that is no number. -/
inductive Has : Kind → Value → Prop
  | integer (n : Int) : Has number (.integer n)
  | double (x : Double) (h : x ≠ .nan) : Has number (.double x)
  | text (s : String) : Has text (.text s)

def HasOrNull (kind : Kind) (v : Value) : Prop := v.isNull = true ∨ kind.Has v

variable {kind : Kind} {v w : Value}

theorem HasOrNull.has (h : kind.HasOrNull v) (hv : v.isNull = false) : kind.Has v := h.resolve_left (by simp [hv])

theorem isNumber_of_has_text (h : text.HasOrNull v) : v.isNumber = false := by
  rcases h with h | h
  · rw [eq_null_of_isNull h]
    rfl
  · cases h
    rfl

theorem asNumber_of_has_number (h : number.HasOrNull v) : v.asNumber = v := by
  rcases h with h | h
  · rw [eq_null_of_isNull h]
    rfl
  · cases h <;> rfl

/-- Values of one kind are not converted to be compared. -/
theorem coercePair_of_has (hv : kind.HasOrNull v) (hw : kind.Has w) : v.coercePair w = (v, w) := by
  cases kind with
  | number => rw [coercePair, asNumber_of_has_number hv, asNumber_of_has_number (Or.inr hw), ite_self]
  | text =>
    rw [coercePair, isNumber_of_has_text hv, isNumber_of_has_text (Or.inr hw)]
    rfl

theorem exists_order (hv : kind.Has v) (hw : kind.Has w) : ∃ o, order? v w = some o := by
  cases hv <;> cases hw <;> exact ⟨_, rfl⟩

/-- Among values of one kind, the place in a result is the order. -/
theorem sortKey_before (hv : kind.Has v) (hw : kind.Has w) :
    (SortKey.ofValue v).before (SortKey.ofValue w) = Document.before v w := by
  cases hv <;> cases hw <;> rfl

end Kind

end QueryFederation.Value

namespace QueryFederation.Value

variable {a b v : Value} {vs : List Value}

/-! ### Sums -/

/-- The values that arithmetic leads to: unlike a number of a source, a double may have come to be no number. -/
inductive IsNumeral : Value → Prop
  | integer (n : Int) : IsNumeral (.integer n)
  | double (x : Double) : IsNumeral (.double x)

theorem Kind.Has.isNumeral (h : Kind.number.Has v) : v.IsNumeral := by
  cases h with
  | integer n => exact .integer n
  | double x => exact .double x

theorem IsNumeral.toDouble (h : v.IsNumeral) : Outcome.OkOr .overflow (fun _ => True) v.toDouble := by
  cases h with
  | integer n =>
    rw [Value.toDouble]
    split
    · trivial
    · rfl
  | double x => trivial

theorem IsNumeral.add (ha : a.IsNumeral) (hb : b.IsNumeral) : Outcome.OkOr .overflow IsNumeral (a.add b) := by
  have hdoubles : Outcome.OkOr .overflow IsNumeral
      (do return .double ((← a.toDouble).add (← b.toDouble))) :=
    ha.toDouble.bind fun x _ => hb.toDouble.bind fun y _ => .double (x.add y)
  cases ha with
  | integer m =>
    cases hb with
    | integer n => exact .integer (m + n)
    | double y => exact hdoubles
  | double x => cases hb <;> exact hdoubles

theorem sum_isNumeral (h : ∀ v ∈ vs, v.IsNumeral) : Outcome.OkOr .overflow IsNumeral (sum vs) :=
  Outcome.OkOr.foldlM (fun _ hv _ htotal => htotal.add (h _ hv)) (.integer 0)

theorem sum_integers (ns : List Int) : sum (ns.map integer) = .ok (.integer ns.sum) := by
  have hfold : ∀ start : Int, (ns.map integer).foldlM Value.add (integer start) = .ok (integer (start + ns.sum)) := by
    induction ns with
    | nil =>
      intro start
      rw [List.sum_nil, Int.add_zero]
      rfl
    | cons n ns ih =>
      intro start
      rw [List.map_cons, List.foldlM_cons, List.sum_cons, ← Int.add_assoc]
      exact ih (start + n)
  rw [sum, hfold 0, Int.zero_add]

theorem map_asNumber (h : ∀ v ∈ vs, Kind.number.Has v) : vs.map asNumber = vs := by
  refine (List.map_congr_left fun v hv => ?_).trans (List.map_id vs)
  exact Kind.asNumber_of_has_number (Or.inr (h v hv))

/-! ### Means -/

theorem divInt_okOr (m : Int) {n : Int} (hn : n ≠ 0) : Outcome.OkOr .overflow IsNumeral (divInt m n) := by
  rw [divInt, if_neg hn]
  split
  · exact .double _
  · split
    · rfl
    · exact .double _

/-- An integer that is not zero is no zero among the doubles either. -/
theorem toDouble_integer {n : Int} (hn : n ≠ 0) :
    Outcome.OkOr .overflow (fun y => y.isZero = false) (toDouble (.integer n)) := by
  have hzero := Double.isZero_ofRat_intCast hn
  rw [toDouble, Double.ofInt?]
  generalize Double.ofRat n = x at hzero ⊢
  cases x with
  | infinite negative => rfl
  | nan | negativeZero | finite => exact hzero

/-- So numbers can be divided by it. -/
theorem IsNumeral.div_count (h : v.IsNumeral) {n : Nat} (hn : n ≠ 0) :
    Outcome.OkOr .overflow IsNumeral (v.div (.integer n)) := by
  cases h with
  | integer m => exact divInt_okOr m (Int.natCast_ne_zero.mpr hn)
  | double x =>
    have hquotient : ∀ y : Double, y.isZero = false → Outcome.OkOr .overflow IsNumeral
        (if y.isZero then .error .divisionByZero else .ok (.double (x.div y))) := by
      intro y hy
      rw [hy]
      exact .double _
    exact (toDouble_integer (Int.natCast_ne_zero.mpr hn)).bind hquotient

/-! ### Extremes -/

/-- Values of one kind are all in order, so there is an extreme whatever would be said of others. -/
theorem exists_extreme {kind : Kind} (h : ∀ v ∈ vs, kind.Has v) (better : Ordering) :
    ∃ v, ∀ fault, extreme better fault vs = .ok v := by
  cases vs with
  | nil => exact ⟨.null, fun _ => rfl⟩
  | cons best vs =>
    obtain ⟨hbest, hvs⟩ := List.forall_mem_cons.mp h
    clear h
    simp only [extreme]
    induction vs generalizing best with
    | nil => exact ⟨best, fun _ => rfl⟩
    | cons w vs ih =>
      obtain ⟨hw, hvs⟩ := List.forall_mem_cons.mp hvs
      obtain ⟨o, ho⟩ := Kind.exists_order hw hbest
      have hnext : kind.Has (if o = some better then w else best) := by
        split
        · exact hw
        · exact hbest
      obtain ⟨v, hv⟩ := ih _ hnext hvs
      refine ⟨v, fun fault => ?_⟩
      rw [List.foldlM_cons, ho]
      exact hv fault

/-! ### Integers -/

/-- Is the value null or an integer, and not a truth value that counts as one? -/
inductive IsIntegerOrNull : Value → Prop
  | null : IsIntegerOrNull .null
  | integer (n : Int) : IsIntegerOrNull (.integer n)

/-- The extreme of integers comes about by picking one of two, time and again. -/
theorem extreme_integers {better : Ordering} {pick : Int → Int → Int}
    (hpick : ∀ best n : Int, (if compare n best = better then n else best) = pick best n) (fault : Fault) (n : Int)
    (ns : List Int) : extreme better fault ((n :: ns).map integer) = .ok (.integer (ns.foldl pick n)) := by
  rw [List.map_cons, extreme]
  induction ns generalizing n with
  | nil => rfl
  | cons next ns ih =>
    have hnext : (if some (compare next n) = some better then integer next else integer n)
        = .integer (pick n next) := by
      simp only [Option.some_inj, ← hpick]
      split <;> rfl
    rw [List.map_cons, List.foldlM_cons, List.foldl_cons, order?]
    dsimp only
    rw [hnext]
    exact ih (pick n next)

theorem min?_perm {ns ns' : List Int} (h : ns.Perm ns') : ns.min? = ns'.min? :=
  Option.ext fun m => by simp only [List.min?_eq_some_iff, h.mem_iff]

theorem max?_perm {ns ns' : List Int} (h : ns.Perm ns') : ns.max? = ns'.max? :=
  Option.ext fun m => by simp only [List.max?_eq_some_iff, h.mem_iff]

theorem extreme_lt_integers (fault : Fault) (ns : List Int) :
    extreme .lt fault (ns.map integer) = .ok (ns.min?.elim .null .integer) := by
  cases ns with
  | nil => rfl
  | cons n ns =>
    refine extreme_integers (fun best n => ?_) fault n ns
    simp only [compare_lt_iff_lt]
    omega

theorem extreme_gt_integers (fault : Fault) (ns : List Int) :
    extreme .gt fault (ns.map integer) = .ok (ns.max?.elim .null .integer) := by
  cases ns with
  | nil => rfl
  | cons n ns =>
    refine extreme_integers (fun best n => ?_) fault n ns
    simp only [compare_gt_iff_gt]
    omega

end QueryFederation.Value

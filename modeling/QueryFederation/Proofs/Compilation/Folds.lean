import Mathlib
import QueryFederation.Compilation.Document
import QueryFederation.Document.Match
import QueryFederation.Proofs.Logic
import QueryFederation.Proofs.Outcome

/-!
# Three folds of filters

Filters are joined from the left in three ways: to a term of SQL, to a nested query for a document store, and as bare
outcomes. A term has a truth value in three-valued logic once its conditions have theirs, whereas a query only knows
which of its conditions match. Whether the outcomes come to true depends on nothing more than which of them are true, so
the three agree, and an unknown outcome may as well be false.
-/

namespace QueryFederation

/-! ### Outcomes -/

/-- What a connective makes of two conditions of which it is known whether they are true. -/
def Connective.joins : Connective → Bool → Bool → Bool
  | and => (· && ·)
  | or => (· || ·)

theorem Connective.isTrue_apply (connective : Connective) (a b : Truth) :
    (connective.apply a b).isTrue = connective.joins a.isTrue b.isTrue := by
  cases connective <;> rcases a with _ | _ | _ <;> rcases b with _ | _ | _ <;> rfl

theorem isTrue_foldl (results : List (Connective × Truth)) (first : Truth) :
    (results.foldl (fun acc (connective, result) => connective.apply acc result) first).isTrue
      = results.foldl (fun acc r => r.1.joins acc r.2.isTrue) first.isTrue := by
  induction results generalizing first with
  | nil => rfl
  | cons r results ih => rw [List.foldl_cons, List.foldl_cons, ih, Connective.isTrue_apply]

theorem selects_cons (first : Connective × Truth) (others : List (Connective × Truth)) :
    selects (first :: others) = others.foldl (fun acc r => r.1.joins acc r.2.isTrue) first.2.isTrue :=
  isTrue_foldl others first.2

/-- Is the second truth value the first, or false for an unknown one? -/
def Truth.SettledAs (t settled : Truth) : Prop := settled = t ∨ t = none ∧ settled = some false

theorem Truth.SettledAs.isTrue_eq {t settled : Truth} (h : t.SettledAs settled) : settled.isTrue = t.isTrue := by
  rcases h with rfl | ⟨rfl, rfl⟩ <;> rfl

namespace FilterPredicate

/-- The outcomes of filters, each under the connective of its filter. -/
def results (filters : List FilterPredicate) (outcomes : List Truth) : List (Connective × Truth) :=
  List.zipWith (fun f t => (f.connective, t)) filters outcomes

/-- Do two lists of outcomes have the same connectives, and is the same true in them? -/
abbrev SelectAlike (results others : List (Connective × Truth)) : Prop :=
  List.Forall₂ (fun r s : Connective × Truth => r.1 = s.1 ∧ r.2.isTrue = s.2.isTrue) results others

theorem selects_eq_of_selectAlike {results others : List (Connective × Truth)} (h : SelectAlike results others) :
    selects results = selects others := by
  cases h with
  | nil => rfl
  | cons hfirst hothers =>
    rw [selects_cons, selects_cons, hfirst.2]
    generalize Truth.isTrue _ = acc
    induction hothers generalizing acc with
    | nil => rfl
    | cons hnext _ ih =>
      rw [List.foldl_cons, List.foldl_cons, hnext.1, hnext.2]
      exact ih _

theorem selectAlike_of_settledAs {outcomes settled : List Truth} (h : List.Forall₂ Truth.SettledAs outcomes settled)
    (filters : List FilterPredicate) : SelectAlike (results filters settled) (results filters outcomes) := by
  induction h generalizing filters with
  | nil => cases filters <;> exact .nil
  | cons hfirst _ ih =>
    cases filters with
    | nil => exact .nil
    | cons f filters => exact .cons ⟨rfl, hfirst.isTrue_eq⟩ (ih filters)

end FilterPredicate

open FilterPredicate (results SelectAlike selects_eq_of_selectAlike selectAlike_of_settledAs)

/-! ### Terms of SQL -/

namespace Sql

namespace Term

/-- How many conditions a conjunction or disjunction joins. -/
def conditionCount : Term → Nat
  | binary .and left right | binary .or left right => conditionCount left + conditionCount right
  | _ => 1

/-- The truth value of a term whose conditions have the given outcomes, from left to right. -/
def truth : Term → List Truth → Truth
  | binary .and left right, outcomes =>
    Truth.and (truth left (outcomes.take left.conditionCount)) (truth right (outcomes.drop left.conditionCount))
  | binary .or left right, outcomes =>
    Truth.or (truth left (outcomes.take left.conditionCount)) (truth right (outcomes.drop left.conditionCount))
  | _, outcomes => outcomes.headD none

/-- A term that is one condition has the outcome of that condition. -/
structure IsCondition (term : Term) : Prop where
  conditionCount : term.conditionCount = 1
  truth (t : Truth) : term.truth [t] = t

theorem conditionCount_joined (connective : Connective) (left : Term) {term : Term} (h : term.IsCondition) :
    (binary connective.operator left term).conditionCount = left.conditionCount + 1 := by
  cases connective <;> rw [← h.conditionCount] <;> rfl

theorem truth_joined (connective : Connective) {left term : Term} (h : term.IsCondition) {before : List Truth}
    (hbefore : before.length = left.conditionCount) (t : Truth) :
    (binary connective.operator left term).truth (before ++ [t]) = connective.apply (left.truth before) t := by
  cases connective <;>
    · simp only [Connective.operator, truth, Connective.apply]
      rw [List.take_left' hbefore, List.drop_left' hbefore, h.truth t]

end Term

/-- The truth value of the condition of a statement; without one every row is selected. -/
def conditionTruth (condition : Option Term) (outcomes : List Truth) : Truth :=
  condition.elim (some true) (·.truth outcomes)

end Sql

theorem FilterOperator.isCondition_term {operator : FilterOperator} {subject term : Sql.Term} {v : Value}
    (h : operator.term subject v = .ok term) : term.IsCondition := by
  cases operator with
  | isIn | notIn | between =>
    obtain ⟨_, -, h⟩ := exists_of_bind_eq_ok h
    cases h
    exact ⟨rfl, fun _ => rfl⟩
  | _ =>
    cases h
    exact ⟨rfl, fun _ => rfl⟩

namespace Description

/-- Joins the term of one filter more. -/
def conditionStep (before : Option Sql.Term) (f : FilterPredicate) : Outcome (Option Sql.Term) := do
  let term ← f.operator.term (.column (some f.table) f.column) f.value
  return some (Sql.Term.joined f.connective.operator before term)

theorem condition_eq (d : Description) : d.condition = d.filters.foldlM conditionStep none := rfl

variable {filters : List FilterPredicate} {condition : Option Sql.Term} {outcomes : List Truth}

theorem exists_conditionStep_iff {before : Option Sql.Term} {f : FilterPredicate} :
    (∃ next, conditionStep before f = .ok next)
      ↔ ∃ term, f.operator.term (.column (some f.table) f.column) f.value = .ok term := by
  rw [conditionStep]
  cases f.operator.term (.column (some f.table) f.column) f.value with
  | ok term => exact iff_of_true ⟨_, rfl⟩ ⟨term, rfl⟩
  | error fault => exact iff_of_false nofun nofun

theorem exists_condition_iff (d : Description) : (∃ condition, d.condition = .ok condition)
    ↔ ∀ f ∈ d.filters, ∃ term, f.operator.term (.column (some f.table) f.column) f.value = .ok term := by
  rw [condition_eq]
  generalize (none : Option Sql.Term) = before
  refine ⟨?_, fun h => exists_foldlM_eq_ok (fun f hf _ => exists_conditionStep_iff.mpr (h f hf)) before⟩
  generalize d.filters = filters
  induction filters generalizing before with
  | nil => exact fun _ => List.forall_mem_nil _
  | cons f filters ih =>
    rintro ⟨condition, h⟩
    rw [List.foldlM_cons] at h
    obtain ⟨next, hstep, h⟩ := exists_of_bind_eq_ok h
    exact List.forall_mem_cons.mpr ⟨exists_conditionStep_iff.mp ⟨next, hstep⟩, ih next ⟨condition, h⟩⟩

/-- Filters that are joined to a term carry on with its truth value. -/
theorem exists_truth_of_foldlM {left : Sql.Term} (h : filters.foldlM conditionStep (some left) = .ok condition) :
    ∃ term, condition = some term
      ∧ ∀ before outcomes, before.length = left.conditionCount → outcomes.length = filters.length →
        term.truth (before ++ outcomes)
          = (results filters outcomes).foldl (fun acc (connective, result) => connective.apply acc result)
            (left.truth before) := by
  -- Along the filters that are still to be joined; the outcomes of those that have been stand in front.
  induction filters generalizing left with
  | nil =>
    cases h
    refine ⟨left, rfl, fun before outcomes _ hlength => ?_⟩
    rw [List.eq_nil_of_length_eq_zero hlength, List.append_nil]
    rfl
  | cons f filters ih =>
    rw [List.foldlM_cons] at h
    obtain ⟨next, hstep, h⟩ := exists_of_bind_eq_ok h
    obtain ⟨term, hterm, hnext⟩ := exists_of_bind_eq_ok hstep
    cases hnext
    have hcondition := FilterOperator.isCondition_term hterm
    obtain ⟨whole, rfl, hwhole⟩ := ih h
    refine ⟨whole, rfl, fun before outcomes hbefore hlength => ?_⟩
    obtain ⟨t, rest, rfl⟩ := List.exists_cons_of_length_eq_add_one hlength
    have hjoined : (before ++ [t]).length
        = (Sql.Term.binary f.connective.operator left term).conditionCount := by
      rw [Sql.Term.conditionCount_joined f.connective left hcondition, List.length_append, hbefore, List.length_singleton]
    rw [List.append_cons, hwhole (before ++ [t]) rest hjoined (Nat.succ.inj hlength), Sql.Term.joined,
      Sql.Term.truth_joined f.connective hcondition hbefore]
    rfl

/-- The condition of a statement has the truth value that its filters come to. -/
theorem conditionTruth_eq_combined {d : Description} (h : d.condition = .ok condition)
    (hlength : outcomes.length = d.filters.length) :
    Sql.conditionTruth condition outcomes = combined (results d.filters outcomes) := by
  rw [condition_eq] at h
  cases hfilters : d.filters with
  | nil =>
    rw [hfilters] at h
    cases h
    rfl
  | cons f filters =>
    rw [hfilters, List.foldlM_cons] at h
    obtain ⟨next, hstep, h⟩ := exists_of_bind_eq_ok h
    obtain ⟨first, hfirst, hnext⟩ := exists_of_bind_eq_ok hstep
    cases hnext
    have hcondition := FilterOperator.isCondition_term hfirst
    obtain ⟨term, rfl, hterm⟩ := exists_truth_of_foldlM h
    rw [hfilters] at hlength
    obtain ⟨t, rest, rfl⟩ := List.exists_cons_of_length_eq_add_one hlength
    have htruth := hterm [t] rest hcondition.conditionCount.symm (Nat.succ.inj hlength)
    rw [Sql.Term.joined, hcondition.truth t] at htruth
    exact htruth

end Description

/-! ### Queries for documents -/

namespace Document

variable {α : Type} {doc : Row} {read : α → Outcome (Connective × Row)} {items : List α}
  {results others : List (Connective × Truth)}

/-- Does a document match the query, if there is one? -/
def accepts (doc : Row) (query : Option Row) : Outcome Bool :=
  query.elim (.ok true) fun q => queryMatches doc (.record q)

theorem bind_ite_eq_self (x : Outcome Bool) : (do if ← x then .ok true else return false) = x := by
  rcases x with _ | _ | _ <;> rfl

theorem queryMatches_and (queries : List Value) :
    queryMatches doc (.record [("$and", .list queries)]) = allOf doc queries := by
  simp only [queryMatches, fieldsMatch, if_true, allMatch]
  exact bind_ite_eq_self _

theorem queryMatches_or (queries : List Value) :
    queryMatches doc (.record [("$or", .list queries)]) = anyOf doc queries := by
  simp only [queryMatches, fieldsMatch, if_neg (show "$or" ≠ "$and" by decide), if_true, anyMatches]
  exact bind_ite_eq_self _

/-- A query for one field looks at its value. -/
theorem queryMatches_field {name : String} (hand : name ≠ "$and") (hor : name ≠ "$or") (criteria : Value) :
    queryMatches doc (.record [(name, criteria)]) = fieldMatches (field doc name) criteria := by
  simp only [queryMatches, fieldsMatch, if_neg hand, if_neg hor]
  exact bind_ite_eq_self _

theorem queryMatches_joined {before next : Row} {a b : Bool} (connective : Connective)
    (hbefore : queryMatches doc (.record before) = .ok a) (hnext : queryMatches doc (.record next) = .ok b) :
    queryMatches doc (.record (joined (some before) connective next)) = .ok (connective.joins a b) := by
  cases connective with
  | and =>
    rw [joined, queryMatches_and, allOf, hbefore, allOf, hnext]
    cases a <;> cases b <;> rfl
  | or =>
    rw [joined, queryMatches_or, anyOf, hbefore, anyOf, hnext]
    cases a <;> cases b <;> rfl

/-- Every item is read as a query that a document matches exactly if the outcome in its place is true. -/
def Reflects (doc : Row) (read : α → Outcome (Connective × Row)) (items : List α)
    (results : List (Connective × Truth)) : Prop :=
  List.Forall₂ (fun item r => ∃ q, read item = .ok (r.1, q) ∧ queryMatches doc (.record q) = .ok r.2.isTrue) items results

/-- Queries that are joined to another carry on with whether that one matches. -/
theorem exists_foldlM_matches (h : Reflects doc read items results) {before : Row} {acc : Bool}
    (hbefore : queryMatches doc (.record before) = .ok acc) :
    ∃ q, items.foldlM (fun before f => do
        let (connective, next) ← read f
        return some (joined before connective next)) (some before) = .ok (some q)
      ∧ queryMatches doc (.record q) = .ok (results.foldl (fun acc r => r.1.joins acc r.2.isTrue) acc) := by
  induction h generalizing before acc with
  | nil => exact ⟨before, rfl, hbefore⟩
  | cons hitem _ ih =>
    obtain ⟨next, hread, hnext⟩ := hitem
    obtain ⟨q, hfolded, hq⟩ := ih (queryMatches_joined _ hbefore hnext)
    refine ⟨q, ?_, hq⟩
    rw [List.foldlM_cons, hread]
    exact hfolded

/-- The nested query accepts what the filters select. -/
theorem exists_folded_accepts (h : Reflects doc read items results) :
    ∃ query, folded read items = .ok query ∧ accepts doc query = .ok (selects results) := by
  cases h with
  | nil => exact ⟨none, rfl, rfl⟩
  | cons hfirst hothers =>
    obtain ⟨first, hread, hmatches⟩ := hfirst
    obtain ⟨q, hfolded, hq⟩ := exists_foldlM_matches hothers hmatches
    refine ⟨some q, ?_, ?_⟩
    · rw [folded, List.foldlM_cons, hread]
      exact hfolded
    · rw [selects_cons]
      exact hq

theorem reflects_iff_of_selectAlike (h : SelectAlike results others) :
    Reflects doc read items results ↔ Reflects doc read items others := by
  induction h generalizing items with
  | nil => exact Iff.rfl
  | cons hfirst _ ih =>
    cases items with
    | nil => exact iff_of_false nofun nofun
    | cons item items =>
      rw [Reflects, Reflects, List.forall₂_cons, List.forall₂_cons, hfirst.1, hfirst.2]
      exact and_congr_right fun _ => ih

end Document

/-! ### All three -/

namespace Description

/-- The condition of a statement, the outcomes of the filters and a nested query select alike, and nothing changes if
unknown outcomes become false. There is a condition if every filter can be written as a term. -/
theorem folds_select_alike (d : Description) :
    ((∃ condition, d.condition = .ok condition)
        ↔ ∀ f ∈ d.filters, ∃ term, f.operator.term (.column (some f.table) f.column) f.value = .ok term)
      ∧ ∀ outcomes : List Truth, outcomes.length = d.filters.length →
        (∀ condition, d.condition = .ok condition →
            (Sql.conditionTruth condition outcomes = some true ↔ selects (results d.filters outcomes) = true))
        ∧ (∀ (doc : Row) (α : Type) (read : α → Outcome (Connective × Row)) (leaves : List α),
            Document.Reflects doc read leaves (results d.filters outcomes) →
            ∃ query, Document.folded read leaves = .ok query
              ∧ Document.accepts doc query = .ok (selects (results d.filters outcomes)))
        ∧ ∀ settled, List.Forall₂ Truth.SettledAs outcomes settled →
          (∀ condition, d.condition = .ok condition →
            (Sql.conditionTruth condition settled = some true ↔ Sql.conditionTruth condition outcomes = some true))
          ∧ selects (results d.filters settled) = selects (results d.filters outcomes)
          ∧ ∀ (doc : Row) (α : Type) (read : α → Outcome (Connective × Row)) (leaves : List α),
            Document.Reflects doc read leaves (results d.filters settled)
              ↔ Document.Reflects doc read leaves (results d.filters outcomes) := by
  have hselects : ∀ outcomes, outcomes.length = d.filters.length → ∀ condition, d.condition = .ok condition →
      (Sql.conditionTruth condition outcomes = some true ↔ selects (results d.filters outcomes) = true) := by
    intro outcomes hlength condition hcondition
    rw [conditionTruth_eq_combined hcondition hlength, selects_iff]
  refine ⟨exists_condition_iff d, fun outcomes hlength => ⟨hselects outcomes hlength, ?_, fun settled hsettled => ?_⟩⟩
  · exact fun doc α read leaves hleaves => Document.exists_folded_accepts hleaves
  · have halike := selectAlike_of_settledAs hsettled d.filters
    have heq := selects_eq_of_selectAlike halike
    refine ⟨fun condition hcondition => ?_, heq, fun doc α read leaves => Document.reflects_iff_of_selectAlike halike⟩
    have hsettledLength := hsettled.length_eq.symm.trans hlength
    rw [hselects settled hsettledLength condition hcondition, hselects outcomes hlength condition hcondition, heq]

/-- Orders from one country or of a large amount, if they have a note. -/
def notedOrders : Description where
  tables := [⟨"orders", "shop", "orders", none⟩]
  columns := [{ table := "orders", column := "id" }]
  filters := [⟨"orders", "country", .eq, .text "DE", .and⟩, ⟨"orders", "amount", .gt, .integer 40, .or⟩,
    ⟨"orders", "note", .isNotNull, .null, .and⟩]

/-- A large order with a note but without a country is selected by all three. -/
theorem largeOrder_of_notedOrders :
    ∃ condition, notedOrders.condition = .ok condition
      ∧ Sql.conditionTruth condition [none, some true, some true] = some true
      ∧ Sql.conditionTruth condition [some false, some true, some true] = some true
      ∧ ∃ query, Document.folded (fun f : FilterPredicate => do
            return (f.connective, ← Document.condition f.column f.operator f.value)) notedOrders.filters = .ok query
        ∧ Document.accepts [("amount", .integer 50), ("note", .text "gift")] query = .ok true := by
  have hterms : ∀ f ∈ notedOrders.filters,
      ∃ term, f.operator.term (.column (some f.table) f.column) f.value = .ok term := by
    rw [notedOrders, List.forall_mem_cons, List.forall_mem_cons, List.forall_mem_cons]
    exact ⟨⟨_, rfl⟩, ⟨_, rfl⟩, ⟨_, rfl⟩, List.forall_mem_nil _⟩
  have hleaves : Document.Reflects [("amount", .integer 50), ("note", .text "gift")] (fun f : FilterPredicate => do
      return (f.connective, ← Document.condition f.column f.operator f.value)) notedOrders.filters
        (results notedOrders.filters [none, some true, some true]) := by
    refine .cons ⟨[("country", .record [("$eq", .text "DE")])], rfl, ?_⟩
      (.cons ⟨[("amount", .record [("$gt", .integer 40)])], rfl, ?_⟩
        (.cons ⟨[("note", .record [("$ne", .null)])], rfl, ?_⟩ .nil)) <;> cbv
  have hsettled : List.Forall₂ Truth.SettledAs [none, some true, some true] [some false, some true, some true] :=
    .cons (Or.inr ⟨rfl, rfl⟩) (.cons (Or.inl rfl) (.cons (Or.inl rfl) .nil))
  obtain ⟨hiff, hall⟩ := folds_select_alike notedOrders
  obtain ⟨condition, hcondition⟩ := hiff.mpr hterms
  obtain ⟨hselects, hquery, hsettle⟩ := hall [none, some true, some true] rfl
  have htrue : Sql.conditionTruth condition [none, some true, some true] = some true :=
    (hselects condition hcondition).mpr rfl
  exact ⟨condition, hcondition, htrue, ((hsettle _ hsettled).1 condition hcondition).mpr htrue, hquery _ _ _ _ hleaves⟩

end Description

end QueryFederation

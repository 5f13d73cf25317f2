import Mathlib.Data.List.Basic
import QueryFederation.Logic

/-!
# Folds of truth values

What filters come to from left to right is true if all of them are true, whatever connects them. It takes no more than
one alternative for it to be true without that: everything before an alternative that is true is forgotten.
-/

namespace QueryFederation

namespace Truth

theorem and_eq_true {a b : Truth} : Truth.and a b = some true ↔ a = some true ∧ b = some true := by
  cases a with
  | none => cases b with
    | none => simp [Truth.and]
    | some b => cases b <;> simp [Truth.and]
  | some a => cases b with
    | none => cases a <;> simp [Truth.and]
    | some b => cases a <;> cases b <;> simp [Truth.and]

theorem or_true (a : Truth) : Truth.or a (some true) = some true := by
  cases a with
  | none => rfl
  | some a => cases a <;> rfl

theorem or_false (a : Truth) : Truth.or a (some false) = a := by
  rcases a with _ | _ | _ <;> rfl

theorem false_or (a : Truth) : Truth.or (some false) a = a := by
  rcases a with _ | _ | _ <;> rfl

theorem or_assoc (a b c : Truth) : (a.or b).or c = a.or (b.or c) := by
  rcases a with _ | _ | _ <;> rcases b with _ | _ | _ <;> rcases c with _ | _ | _ <;> rfl

theorem or_eq_true {a b : Truth} : Truth.or a b = some true ↔ a = some true ∨ b = some true := by
  rcases a with _ | _ | _ <;> rcases b with _ | _ | _ <;> decide

theorem or_eq_false {a b : Truth} : Truth.or a b = some false ↔ a = some false ∧ b = some false := by
  rcases a with _ | _ | _ <;> rcases b with _ | _ | _ <;> decide

theorem not_eq_true {a : Truth} : a.not = some true ↔ a = some false := by
  rcases a with _ | _ | _ <;> decide

end Truth

/-- A true result keeps what is true. -/
theorem Connective.apply_true (connective : Connective) : connective.apply (some true) (some true) = some true := by
  cases connective <;> rfl

theorem Connective.eq_or {connective : Connective} (h : connective ≠ .and) : connective = .or := by
  cases connective with
  | and => exact absurd rfl h
  | or => rfl

variable {results : List (Connective × Truth)}

theorem foldl_eq_true_of_forall (h : ∀ r ∈ results, r.2 = some true) :
    results.foldl (fun acc (connective, result) => connective.apply acc result) (some true) = some true := by
  induction results with
  | nil => rfl
  | cons r results ih =>
    obtain ⟨connective, result⟩ := r
    obtain ⟨hresult, hrest⟩ := List.forall_mem_cons.mp h
    cases hresult
    rw [List.foldl_cons]
    dsimp only
    rw [Connective.apply_true]
    exact ih hrest

theorem foldl_eq_true_of_conjunction (h : ∀ r ∈ results, r.1 = .and) (first : Truth) :
    results.foldl (fun acc (connective, result) => connective.apply acc result) first = some true
      ↔ first = some true ∧ ∀ r ∈ results, r.2 = some true := by
  induction results generalizing first with
  | nil => simp
  | cons r results ih =>
    obtain ⟨connective, result⟩ := r
    obtain ⟨hconnective, hrest⟩ := List.forall_mem_cons.mp h
    cases hconnective
    rw [List.foldl_cons, ih hrest, List.forall_mem_cons, ← and_assoc]
    exact and_congr_left' Truth.and_eq_true

theorem selects_iff : selects results = true ↔ combined results = some true := by
  rw [selects, Truth.isTrue, decide_eq_true_iff]

theorem selects_of_forall (h : ∀ r ∈ results, r.2 = some true) : selects results = true := by
  rw [selects_iff]
  cases results with
  | nil => rfl
  | cons first others =>
    obtain ⟨hfirst, hothers⟩ := List.forall_mem_cons.mp h
    rw [combined, hfirst]
    exact foldl_eq_true_of_forall hothers

/-- A conjunction of filters selects what all of them select. -/
theorem selects_of_conjunction (h : ∀ r ∈ results.tail, r.1 = .and) :
    selects results = true ↔ ∀ r ∈ results, r.2 = some true := by
  rw [selects_iff]
  cases results with
  | nil => simp [combined]
  | cons first others =>
    rw [List.forall_mem_cons]
    exact foldl_eq_true_of_conjunction h first.2

/-- A true alternative decides over all filters before it. -/
theorem selects_of_alternative {before after : List (Connective × Truth)} (hbefore : before ≠ [])
    (h : ∀ r ∈ after, r.2 = some true) : selects (before ++ (.or, some true) :: after) = true := by
  obtain ⟨first, others, rfl⟩ := List.exists_cons_of_ne_nil hbefore
  rw [selects_iff, List.cons_append, combined, List.foldl_append, List.foldl_cons]
  dsimp only [Connective.apply]
  rw [Truth.or_true]
  exact foldl_eq_true_of_forall h

end QueryFederation

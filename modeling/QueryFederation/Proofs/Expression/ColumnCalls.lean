import QueryFederation.Proofs.Expression.Lanes
import QueryFederation.Proofs.Expression.SingleCalls
import QueryFederation.Proofs.Outcome

/-!
# Values of calls over a column

For a group of rows that all have a column, a call over the column is what its function makes of the values that are not
null, or of the different ones among them.
-/

namespace QueryFederation

/-- What is true of the value under a key is true of what the row has there. -/
theorem Row.get_of_exists_lookup {P : Value → Prop} {row : Row} {key : String}
    (h : ∃ v, row.lookup key = some v ∧ P v) : P (Row.get row key) := by
  obtain ⟨v, hlookup, hv⟩ := h
  rw [Row.get, hlookup]
  exact hv

namespace Expression

/-- The values of rows under a key that are not null. -/
def presentUnder (key : String) (rows : List Row) : List Value :=
  (rows.map fun row => Row.get row key).filter (!·.isNull)

variable {t c : String} {rows : List Row}

theorem evaluate_plainColumn {row : Row} {v : Value} (h : row.lookup (columnKey t c) = some v) :
    evaluate (.row row) (plainColumn t c) = .ok v := by
  change (Scope.row row).column t c = .ok v
  simp only [Scope.column]
  rw [← columnKey, h]

theorem evaluate_columnCall (function : AggregateFunction) (isDistinct : Bool)
    (h : ∀ row ∈ rows, ∃ v, row.lookup (columnKey t c) = some v) (computed : Entries Value) :
    evaluate (.group rows computed) (columnCall function isDistinct t c)
      = aggregateValue (columnCall function isDistinct t c) function
        (if isDistinct then distinctValues (presentUnder (columnKey t c) rows)
          else presentUnder (columnKey t c) rows) := by
  have hvalue : ∀ row ∈ rows, evaluate (.row row) (plainColumn t c) = .ok (Row.get row (columnKey t c)) := by
    intro row hrow
    obtain ⟨v, hv⟩ := h row hrow
    rw [evaluate_plainColumn hv, Row.get, hv]
    rfl
  have hvalues : rows.mapM (fun row => evaluate (.row row) (plainColumn t c))
      = .ok (rows.map fun row => Row.get row (columnKey t c)) := Outcome.mapM_of_forall hvalue
  have hcounts : ∀ args, args = [plainColumn t c] ∨ args = [distinct [plainColumn t c]] →
      countsRows function args = false := by
    rintro _ (rfl | rfl) <;> cases function <;> rfl
  cases isDistinct with
  | true =>
    rw [columnCall, evaluate, if_pos rfl, hcounts _ (Or.inr rfl)]
    change (rows.mapM (fun row => evaluate (.row row) (plainColumn t c)) >>= _) = _
    rw [hvalues]
    rfl
  | false =>
    rw [columnCall, evaluate, if_neg Bool.false_ne_true, hcounts _ (Or.inl rfl)]
    change (rows.mapM (fun row => evaluate (.row row) (plainColumn t c)) >>= _) = _
    rw [hvalues]
    rfl

end Expression

end QueryFederation

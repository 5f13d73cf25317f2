import QueryFederation.Proofs.Expression.ColumnCalls
import QueryFederation.Proofs.Result.Sorting

/-!
# First rows and extremes

The least and the greatest number of a column are found by what numbers are worth. Rows are sorted by ranks, and there
decimals are not among the other numbers but behind them, by their texts. So the first of sorted rows need not have the
extreme of the column: it does, whichever of the rows are sorted, if and only if decimals that are worth less than
another number are worth less than a decimal with a greater text. Without decimals this always holds.
-/

namespace QueryFederation

open Expression

/-! ### Extremes of numbers -/

namespace Value

variable {v w : Value} {vs : List Value}

/-- The extreme of numbers is one of them, and none is better. -/
theorem exists_extreme_of_places {β : Type} [LinearOrder β] (placeOf : Value → β) {better : Ordering}
    (hbetter : ∀ v w : Value, compare v.magnitude w.magnitude = better ↔ placeOf v < placeOf w)
    (h : ∀ v ∈ vs, v.IsQuantity) (hne : vs ≠ []) :
    ∃ m ∈ vs, (∀ fault, extreme better fault vs = .ok m) ∧ ∀ v ∈ vs, placeOf m ≤ placeOf v := by
  cases vs with
  | nil => exact absurd rfl hne
  | cons best vs =>
    clear hne
    induction vs generalizing best with
    | nil => exact ⟨best, List.mem_cons_self, fun _ => rfl, fun v hv => by rw [List.mem_singleton.mp hv]⟩
    | cons w vs ih =>
      obtain ⟨hbest, hothers⟩ := List.forall_mem_cons.mp h
      obtain ⟨hw, hvs⟩ := List.forall_mem_cons.mp hothers
      have hstep : ∀ fault, extreme better fault (best :: w :: vs)
          = extreme better fault ((if placeOf w < placeOf best then w else best) :: vs) := by
        intro fault
        rw [extreme, List.foldlM_cons, hw.order?_eq hbest]
        simp only [Option.some_inj, hbetter]
        rfl
      split at hstep <;> rename_i hlt
      · obtain ⟨m, hm, hextreme, hleast⟩ := ih w hothers
        refine ⟨m, List.mem_cons_of_mem _ hm, fun fault => (hstep fault).trans (hextreme fault), ?_⟩
        exact List.forall_mem_cons.mpr ⟨(hleast w List.mem_cons_self).trans hlt.le, hleast⟩
      · obtain ⟨m, hm, hextreme, hleast⟩ := ih best (List.forall_mem_cons.mpr ⟨hbest, hvs⟩)
        obtain ⟨hbest', hrest⟩ := List.forall_mem_cons.mp hleast
        refine ⟨m, ?_, fun fault => (hstep fault).trans (hextreme fault), ?_⟩
        · exact (List.mem_cons.mp hm).elim (fun heq => heq ▸ List.mem_cons_self) fun hm =>
            List.mem_cons_of_mem _ (List.mem_cons_of_mem _ hm)
        · exact List.forall_mem_cons.mpr ⟨hbest', List.forall_mem_cons.mpr ⟨hbest'.trans (not_lt.mp hlt), hrest⟩⟩

theorem exists_least (h : ∀ v ∈ vs, v.IsQuantity) (hne : vs ≠ []) :
    ∃ m ∈ vs, (∀ fault, extreme .lt fault vs = .ok m) ∧ ∀ v ∈ vs, m.magnitude ≤ v.magnitude :=
  exists_extreme_of_places magnitude (fun _ _ => compare_lt_iff_lt) h hne

theorem exists_greatest (h : ∀ v ∈ vs, v.IsQuantity) (hne : vs ≠ []) :
    ∃ m ∈ vs, (∀ fault, extreme .gt fault vs = .ok m) ∧ ∀ v ∈ vs, v.magnitude ≤ m.magnitude :=
  exists_extreme_of_places (fun v => OrderDual.toDual v.magnitude) (fun _ _ => compare_gt_iff_gt) h hne

/-! ### Decimals among sorted numbers -/

/-- Numbers are of the first rank, but for decimals. -/
theorem IsQuantity.exists_decimal_or (h : v.IsQuantity) :
    (∃ d, v = .decimal d) ∨ SortKey.ofValue v = ⟨0, v⟩ ∧ ∀ d, v ≠ .decimal d := by
  cases h with
  | decimal d => exact Or.inl ⟨d, rfl⟩
  | integer | double => exact Or.inr ⟨rfl, fun _ => Value.noConfusion⟩

theorem before_decimal_iff (d d' : Decimal) :
    (SortKey.ofValue (.decimal d)).before (SortKey.ofValue (.decimal d')) = true ↔ d.toText < d'.toText := by
  have horder : order? (SortKey.ofValue (.decimal d)).value (SortKey.ofValue (.decimal d')).value
      = some (some (compare d.toText d'.toText)) := order?_text _ _
  rw [SortKey.before_iff_of_order? horder, compare_lt_iff_lt]
  simp [SortKey.ofValue]

/--
A number that is worth less than another is sorted before it, unless it is a decimal and the other is none or has no
greater text.
-/
theorem before_of_lt_iff (hv : v.IsQuantity) (hw : w.IsQuantity) :
    (v.magnitude < w.magnitude → (SortKey.ofValue v).before (SortKey.ofValue w) = true)
      ↔ ∀ d, v = .decimal d → v.magnitude < w.magnitude → ∃ d', w = .decimal d' ∧ d.toText < d'.toText := by
  obtain ⟨d, rfl⟩ | ⟨hkey, hv'⟩ := hv.exists_decimal_or
  · obtain ⟨d', rfl⟩ | ⟨hkey', hw'⟩ := hw.exists_decimal_or
    · simp [before_decimal_iff]
    · have hbehind : (SortKey.ofValue (.decimal d)).before (SortKey.ofValue w) = false := by
        rw [hkey']
        rfl
      simp [hbehind, hw']
  · refine iff_of_true (fun hlt => ?_) fun d heq => absurd heq (hv' d)
    obtain ⟨d', rfl⟩ | ⟨hkey', -⟩ := hw.exists_decimal_or
    · rw [hkey]
      rfl
    · rw [hkey, hkey', SortKey.before_iff_of_order? (hv.order?_eq hw), compare_lt_iff_lt]
      exact Or.inr ⟨rfl, hlt⟩

end Value

/-! ### First rows -/

namespace Row

variable {t c key : String} {rows : List Row} {row other : Row}

/-- Have all rows numbers under the key? -/
def HaveQuantities (key : String) (rows : List Row) : Prop := ∀ row ∈ rows, ∃ v, row.lookup key = some v ∧ v.IsQuantity

/-- Has the first of the rows, sorted by a column, what the function makes of the column? -/
def FirstHas (function : AggregateFunction) (isDescending : Bool) (t c : String) (rows : List Row) : Prop :=
  ∃ first others v, sortRows [⟨columnKey t c, isDescending⟩] rows = first :: others
    ∧ (∀ computed, evaluate (.group rows computed) (columnCall function false t c) = .ok v)
    ∧ Value.same (Row.get first (columnKey t c)) v = true

theorem HaveQuantities.isQuantity (h : HaveQuantities key rows) (hrow : row ∈ rows) :
    (Row.get row key).IsQuantity := Row.get_of_exists_lookup (h row hrow)

theorem HaveQuantities.of_subset {chosen : List Row} (h : HaveQuantities key rows) (hchosen : chosen ⊆ rows) :
    HaveQuantities key chosen := fun row hrow => h row (hchosen hrow)

theorem HaveQuantities.presentUnder_eq (h : HaveQuantities key rows) :
    presentUnder key rows = rows.map fun row => Row.get row key := by
  refine List.filter_eq_self.mpr (List.forall_mem_map.mpr fun row hrow => ?_)
  have hv := h.isQuantity hrow
  generalize Row.get row key = v at hv
  cases hv <;> rfl

/-- A call over a column of numbers has the extreme of them that its function looks for. -/
theorem HaveQuantities.evaluate_extreme (h : HaveQuantities (columnKey t c) rows) (hne : rows ≠ [])
    {function : AggregateFunction} {better : Ordering} (hfunction : ∀ call v vs, aggregateValue call function (v :: vs)
      = Value.extreme better (.mixedTypes call.shown) (v :: vs)) {m : Value}
    (hm : ∀ fault, Value.extreme better fault (rows.map fun row => Row.get row (columnKey t c)) = .ok m)
    (computed : Entries Value) : evaluate (.group rows computed) (columnCall function false t c) = .ok m := by
  rw [evaluate_columnCall _ _ (fun row hrow => (h row hrow).imp fun _ => And.left), if_neg Bool.false_ne_true,
    h.presentUnder_eq]
  obtain ⟨row, others, rfl⟩ := List.exists_cons_of_ne_nil hne
  exact (hfunction _ _ _).trans (hm _)

theorem HaveQuantities.forall_isQuantity (h : HaveQuantities key rows) :
    ∀ v ∈ rows.map fun row => Row.get row key, v.IsQuantity :=
  List.forall_mem_map.mpr fun _ hrow => h.isQuantity hrow

/-- There is a row with the least number of all. -/
theorem HaveQuantities.exists_least (h : HaveQuantities (columnKey t c) rows) (hne : rows ≠ []) :
    ∃ least ∈ rows, (∀ computed, evaluate (.group rows computed) (columnCall .min false t c)
        = .ok (Row.get least (columnKey t c)))
      ∧ ∀ row ∈ rows, (Row.get least (columnKey t c)).magnitude ≤ (Row.get row (columnKey t c)).magnitude := by
  obtain ⟨m, hm, hextreme, hleast⟩ := Value.exists_least h.forall_isQuantity (by simpa using hne)
  obtain ⟨least, hmem, rfl⟩ := List.mem_map.mp hm
  exact ⟨least, hmem, h.evaluate_extreme hne (fun _ _ _ => rfl) hextreme, fun row hrow =>
    hleast _ (List.mem_map_of_mem hrow)⟩

theorem HaveQuantities.exists_greatest (h : HaveQuantities (columnKey t c) rows) (hne : rows ≠ []) :
    ∃ greatest ∈ rows, (∀ computed, evaluate (.group rows computed) (columnCall .max false t c)
        = .ok (Row.get greatest (columnKey t c)))
      ∧ ∀ row ∈ rows, (Row.get row (columnKey t c)).magnitude ≤ (Row.get greatest (columnKey t c)).magnitude := by
  obtain ⟨m, hm, hextreme, hgreatest⟩ := Value.exists_greatest h.forall_isQuantity (by simpa using hne)
  obtain ⟨greatest, hmem, rfl⟩ := List.mem_map.mp hm
  exact ⟨greatest, hmem, h.evaluate_extreme hne (fun _ _ _ => rfl) hextreme, fun row hrow =>
    hgreatest _ (List.mem_map_of_mem hrow)⟩

/-! ### Sorted rows with numbers -/

theorem HaveQuantities.isAbsent_eq (h : HaveQuantities key rows) (hrow : row ∈ rows) (isDescending : Bool) :
    SortColumn.isAbsent ⟨key, isDescending⟩ row = false := by
  have hv := h.isQuantity hrow
  rw [SortColumn.isAbsent]
  generalize Row.get row key = v at hv
  cases hv <;> rfl

theorem HaveQuantities.places (h : HaveQuantities key rows) (hrow : row ∈ rows) (isDescending : Bool) :
    SortColumn.Places ⟨key, isDescending⟩ row := by
  have hv := h.isQuantity hrow
  rw [SortColumn.Places]
  generalize Row.get row key = v at hv
  cases hv with
  | double x hx => exact fun heq => hx (Value.double.inj heq)
  | integer | decimal => exact Value.noConfusion

/-- No row precedes the first of the sorted rows. -/
theorem HaveQuantities.exists_first (h : HaveQuantities key rows) (hne : rows ≠ []) (isDescending : Bool) :
    ∃ first others, sortRows [⟨key, isDescending⟩] rows = first :: others ∧ first ∈ rows
      ∧ ∀ row ∈ rows, ¬SortColumn.Precedes ⟨key, isDescending⟩ row first := by
  have hplaces : ∀ row ∈ rows, SortColumn.Places ⟨key, isDescending⟩ row := fun row hrow => h.places hrow _
  have hsorted : sortItems id ⟨key, isDescending⟩ rows = sortRows [⟨key, isDescending⟩] rows := by
    simpa [sortRows] using map_sortItems id hplaces
  have hperm := sortItems_perm id ⟨key, isDescending⟩ rows
  have hpairwise := pairwise_sortItems id hplaces (List.pairwise_of_forall fun _ _ => trivial)
  rw [hsorted] at hperm hpairwise
  cases hrows : sortRows [⟨key, isDescending⟩] rows with
  | nil => exact absurd (List.nil_perm.mp (hrows ▸ hperm)) hne
  | cons first others =>
    rw [hrows] at hperm hpairwise
    have hfirst : first ∈ rows := hperm.mem_iff.mp List.mem_cons_self
    refine ⟨first, others, rfl, hfirst, fun row hrow => ?_⟩
    obtain rfl | hother := List.mem_cons.mp (hperm.mem_iff.mpr hrow)
    · exact fun hself => hself.asymm (hplaces row hfirst) (hplaces row hfirst) hself
    · obtain hprecedes | ⟨hties, -⟩ := (List.pairwise_cons.mp hpairwise).1 row hother
      · exact hprecedes.asymm (hplaces first hfirst) (hplaces row hrow)
      · exact hties.2

/-- Of two rows the second is the first when they are sorted only if it precedes the other. -/
theorem HaveQuantities.sortRows_pair (h : HaveQuantities key [other, row]) (isDescending : Bool) :
    sortRows [⟨key, isDescending⟩] [other, row]
      = if SortColumn.allows ⟨key, isDescending⟩ other row then [other, row] else [row, other] := by
  have hother : (Row.get other key).isNull = false := h.isAbsent_eq List.mem_cons_self isDescending
  have hrow : (Row.get row key).isNull = false :=
    h.isAbsent_eq (List.mem_cons_of_mem _ List.mem_cons_self) isDescending
  simp [sortRows, sortByColumn, hother, hrow, List.mergeSort, List.cons_merge_cons]

/-- Sorted rows start with the least number if rows with less are sorted before those with more. -/
theorem HaveQuantities.firstHas_min (h : HaveQuantities (columnKey t c) rows) (hne : rows ≠ [])
    (hbefore : ∀ row ∈ rows, ∀ other ∈ rows,
      (Row.get row (columnKey t c)).magnitude < (Row.get other (columnKey t c)).magnitude →
        (SortKey.ofValue (Row.get row (columnKey t c))).before (.ofValue (Row.get other (columnKey t c))) = true) :
    FirstHas .min false t c rows := by
  obtain ⟨first, others, hsorted, hfirst, hnone⟩ := h.exists_first hne false
  obtain ⟨least, hmem, hevaluate, hleast⟩ := h.exists_least hne
  refine ⟨first, others, _, hsorted, hevaluate, ?_⟩
  rw [(h.isQuantity hfirst).same_iff (h.isQuantity hmem)]
  refine le_antisymm (not_lt.mp fun hlt => hnone least hmem ?_) (hleast first hfirst)
  exact ⟨h.isAbsent_eq hmem false, Or.inr (hbefore least hmem first hfirst hlt)⟩

theorem HaveQuantities.firstHas_max (h : HaveQuantities (columnKey t c) rows) (hne : rows ≠ [])
    (hbefore : ∀ row ∈ rows, ∀ other ∈ rows,
      (Row.get row (columnKey t c)).magnitude < (Row.get other (columnKey t c)).magnitude →
        (SortKey.ofValue (Row.get row (columnKey t c))).before (.ofValue (Row.get other (columnKey t c))) = true) :
    FirstHas .max true t c rows := by
  obtain ⟨first, others, hsorted, hfirst, hnone⟩ := h.exists_first hne true
  obtain ⟨greatest, hmem, hevaluate, hgreatest⟩ := h.exists_greatest hne
  refine ⟨first, others, _, hsorted, hevaluate, ?_⟩
  rw [(h.isQuantity hfirst).same_iff (h.isQuantity hmem)]
  refine le_antisymm (hgreatest first hfirst) (not_lt.mp fun hlt => hnone greatest hmem ?_)
  exact ⟨h.isAbsent_eq hmem true, Or.inr (hbefore first hfirst greatest hmem hlt)⟩

/-- If the least of two numbers comes first whichever was first, it is sorted before the other. -/
theorem HaveQuantities.before_of_firstHas_min (h : HaveQuantities (columnKey t c) [other, row])
    (hfirst : FirstHas .min false t c [other, row])
    (hlt : (Row.get row (columnKey t c)).magnitude < (Row.get other (columnKey t c)).magnitude) :
    (SortKey.ofValue (Row.get row (columnKey t c))).before (.ofValue (Row.get other (columnKey t c))) = true := by
  obtain ⟨first, others, v, hsorted, hevaluate, hsame⟩ := hfirst
  obtain ⟨least, hmem, hleast, hall⟩ := h.exists_least (List.cons_ne_nil _ _)
  obtain rfl : Row.get least (columnKey t c) = v := Except.ok.inj ((hleast []).symm.trans (hevaluate []))
  by_contra hbefore
  have hallows : SortColumn.allows ⟨columnKey t c, false⟩ other row = true := by
    simpa [SortColumn.allows] using hbefore
  rw [h.sortRows_pair, if_pos hallows] at hsorted
  obtain ⟨rfl, -⟩ := List.cons.inj hsorted
  rw [(h.isQuantity List.mem_cons_self).same_iff (h.isQuantity hmem)] at hsame
  exact absurd (hall row (List.mem_cons_of_mem _ List.mem_cons_self)) (not_le.mpr (hsame ▸ hlt))

/--
Whichever of the rows are sorted by a column of numbers, the first has the least number of the column in rising order
and the greatest in falling order, if and only if a decimal that is worth less than another number of the column is
worth less than a decimal with a greater text.
-/
theorem sorting_finds_extremes_iff (h : HaveQuantities (columnKey t c) rows) :
    (∀ chosen, chosen ≠ [] → chosen ⊆ rows → FirstHas .min false t c chosen ∧ FirstHas .max true t c chosen)
      ↔ ∀ row ∈ rows, ∀ other ∈ rows, ∀ d, Row.get row (columnKey t c) = .decimal d →
        (Row.get row (columnKey t c)).magnitude < (Row.get other (columnKey t c)).magnitude →
          ∃ d', Row.get other (columnKey t c) = .decimal d' ∧ d.toText < d'.toText := by
  have hiff : ∀ row ∈ rows, ∀ other ∈ rows, _ := fun row hrow other hother =>
    Value.before_of_lt_iff (h.isQuantity hrow) (h.isQuantity hother)
  constructor
  · intro hfirst row hrow other hother
    have hpair : [other, row] ⊆ rows := List.cons_subset.mpr ⟨hother, List.cons_subset.mpr ⟨hrow, List.nil_subset _⟩⟩
    exact (hiff row hrow other hother).mp fun hlt =>
      (h.of_subset hpair).before_of_firstHas_min (hfirst _ (List.cons_ne_nil _ _) hpair).1 hlt
  · intro hdecimals chosen hne hchosen
    have hbefore : ∀ row ∈ chosen, ∀ other ∈ chosen, _ := fun row hrow other hother =>
      (hiff row (hchosen hrow) other (hchosen hother)).mpr (hdecimals row (hchosen hrow) other (hchosen hother))
    exact ⟨(h.of_subset hchosen).firstHas_min hne hbefore, (h.of_subset hchosen).firstHas_max hne hbefore⟩

/-- A price that is a whole number between two that are decimals. -/
def risingPrices : List Row :=
  [[("o_price", .decimal ⟨false, 9, 0⟩)], [("o_price", .integer 7)], [("o_price", .decimal ⟨false, 8, 0⟩)]]

theorem risingPrices_find_extremes : HaveQuantities (columnKey "o" "price") risingPrices
    ∧ ∀ chosen, chosen ≠ [] → chosen ⊆ risingPrices →
      FirstHas .min false "o" "price" chosen ∧ FirstHas .max true "o" "price" chosen := by
  have hquantities : HaveQuantities (columnKey "o" "price") risingPrices := by
    simp only [HaveQuantities, risingPrices, List.forall_mem_cons]
    exact ⟨⟨_, rfl, .decimal _⟩, ⟨_, rfl, .integer _⟩, ⟨_, rfl, .decimal _⟩, List.forall_mem_nil _⟩
  refine ⟨hquantities, (sorting_finds_extremes_iff hquantities).mpr fun row hrow other hother d hd hlt => ?_⟩
  rw [(hquantities.isQuantity hrow).lt_iff (hquantities.isQuantity hother)] at hlt
  simp only [risingPrices, List.mem_cons, List.not_mem_nil, or_false] at hrow hother
  obtain rfl | rfl | rfl := hrow
  · obtain rfl | rfl | rfl := hother <;> exact absurd hlt (by decide_cbv)
  · exact Value.noConfusion hd
  · obtain rfl := Value.decimal.inj hd
    obtain rfl | rfl | rfl := hother
    · exact ⟨_, rfl, by decide⟩
    · exact absurd hlt (by decide_cbv)
    · exact absurd hlt (by decide_cbv)

/-- Two prices that are decimals, of which the lower has the greater text. -/
def pricesOfItems : List Row := [[("o_price", .decimal ⟨false, 9, 0⟩)], [("o_price", .decimal ⟨false, 10, 0⟩)]]

theorem lowestPrice_not_first : HaveQuantities (columnKey "o" "price") pricesOfItems
    ∧ sortRows [⟨columnKey "o" "price", false⟩] pricesOfItems = pricesOfItems.reverse
    ∧ (∀ computed, evaluate (.group pricesOfItems computed) (columnCall .min false "o" "price")
      = .ok (.decimal ⟨false, 9, 0⟩))
    ∧ ¬FirstHas .min false "o" "price" pricesOfItems := by
  have hquantities : HaveQuantities (columnKey "o" "price") pricesOfItems := by
    simp only [HaveQuantities, pricesOfItems, List.forall_mem_cons]
    exact ⟨⟨_, rfl, .decimal _⟩, ⟨_, rfl, .decimal _⟩, List.forall_mem_nil _⟩
  have hbefore : (SortKey.ofValue (.decimal ⟨false, 10, 0⟩)).before (.ofValue (.decimal ⟨false, 9, 0⟩)) = true :=
    (Value.before_decimal_iff _ _).mpr (by decide)
  have hallows : SortColumn.allows ⟨columnKey "o" "price", false⟩ [("o_price", .decimal ⟨false, 9, 0⟩)]
      [("o_price", .decimal ⟨false, 10, 0⟩)] = false := congrArg Bool.not hbefore
  have hsorted : sortRows [⟨columnKey "o" "price", false⟩] pricesOfItems = pricesOfItems.reverse :=
    (hquantities.sortRows_pair false).trans (if_neg (ne_true_of_eq_false hallows))
  have hleast : ∀ computed, evaluate (.group pricesOfItems computed) (columnCall .min false "o" "price")
      = .ok (.decimal ⟨false, 9, 0⟩) :=
    hquantities.evaluate_extreme (List.cons_ne_nil _ _) (fun _ _ _ => rfl) fun _ => by cbv
  refine ⟨hquantities, hsorted, hleast, ?_⟩
  rintro ⟨first, others, v, hrows, hevaluate, hsame⟩
  obtain rfl := Except.ok.inj ((hleast []).symm.trans (hevaluate []))
  obtain ⟨rfl, -⟩ := List.cons.inj (hsorted.symm.trans hrows)
  exact absurd hsame (by decide_cbv)

end Row

end QueryFederation

import QueryFederation.Proofs.Value.Order

/-!
# The order of sorted rows

Rows are sorted by one column after the other, from the last to the first. Each pass puts rows in the order of its
column and keeps those that tie there in the order in which the passes before have put them, so in the end rows are in
the order of the first column in which they differ, and rows that tie in all columns are in their own order. Rows
without a value in a column come last there, be it ascending or descending.
-/

namespace QueryFederation

/-! ### Stable sorts -/

theorem pairwise_zipIdx {α : Type} {R : α → α → Prop} {items : List α} (h : items.Pairwise R) {p q : α × Nat}
    (hp : p ∈ items.zipIdx) (hq : q ∈ items.zipIdx) (hlt : p.2 < q.2) : R p.1 q.1 := by
  obtain ⟨hi, hpi⟩ := List.getElem?_eq_some_iff.mp (List.mem_zipIdx_iff_getElem?.mp hp)
  obtain ⟨hj, hqj⟩ := List.getElem?_eq_some_iff.mp (List.mem_zipIdx_iff_getElem?.mp hq)
  exact hpi ▸ hqj ▸ List.pairwise_iff_getElem.mp h p.2 q.2 hi hj hlt

/-- What ties keeps its order when it is sorted. -/
theorem pairwise_mergeSort_stable {α : Type} (le : α → α → Bool) {R : α → α → Prop} {items : List α}
    (htrans : ∀ a b c, le a b = true → le b c = true → le a c = true) (htotal : ∀ a b, (le a b || le b a) = true)
    (h : items.Pairwise R) :
    (items.mergeSort le).Pairwise fun a b => le a b = true ∧ (le b a = true → R a b) := by
  -- Items are told apart by their places, by which those that tie are sorted.
  have hsorted := List.pairwise_mergeSort (List.zipIdxLE_trans htrans) (List.zipIdxLE_total htotal) items.zipIdx
  have hperm := List.mergeSort_perm items.zipIdx (List.zipIdxLE le)
  have hplaces : (items.zipIdx.mergeSort (List.zipIdxLE le)).Pairwise fun p q => p.2 ≠ q.2 := by
    rw [← List.pairwise_map, hperm.map Prod.snd |>.pairwise_iff Ne.symm, List.zipIdx_map_snd]
    exact List.nodup_range'
  rw [← List.mergeSort_zipIdx, List.pairwise_map]
  refine (hsorted.and hplaces).imp_of_mem fun {p q} hp hq hle => ?_
  obtain ⟨hle, hne⟩ := hle
  rw [List.zipIdxLE] at hle
  split at hle
  · rename_i hpq
    refine ⟨hpq, fun hqp => ?_⟩
    rw [if_pos hqp, decide_eq_true_eq] at hle
    exact pairwise_zipIdx h (hperm.mem_iff.mp hp) (hperm.mem_iff.mp hq) (lt_of_le_of_ne hle hne)
  · cases hle

/-! ### Order by one column -/

namespace SortColumn

def isAbsent (column : SortColumn) (row : Row) : Bool := (Row.get row column.name).isNull

def key (column : SortColumn) (row : Row) : SortKey := .ofValue (Row.get row column.name)

/-- Does the first row come before the second under the column, whatever their order was? -/
def Precedes (column : SortColumn) (a b : Row) : Prop :=
  column.isAbsent a = false ∧ (column.isAbsent b = true ∨ (if column.isDescending then
    (column.key b).before (column.key a) else (column.key a).before (column.key b)) = true)

instance (column : SortColumn) (a b : Row) : Decidable (column.Precedes a b) := inferInstanceAs (Decidable (_ ∧ _))

def Ties (column : SortColumn) (a b : Row) : Prop := ¬column.Precedes a b ∧ ¬column.Precedes b a

variable {column : SortColumn} {a b : Row}

theorem not_precedes_of_isAbsent (h : column.isAbsent a = true) : ¬column.Precedes a b := by
  rintro ⟨hpresent, -⟩
  rw [h] at hpresent
  cases hpresent

theorem allows_iff (ha : column.isAbsent a = false) (hb : column.isAbsent b = false) :
    column.allows a b = true ↔ ¬column.Precedes b a := by
  rw [Precedes, ha, hb, allows]
  cases column.isDescending <;> simp [key]

/-- Has the row a value under the column that is in an order with others? -/
def Places (column : SortColumn) (row : Row) : Prop := Row.get row column.name ≠ .double .nan

/-- Rows in the order of the places of their values, or in the opposite order. -/
def placesAllow (column : SortColumn) (a b : Row) : Bool :=
  if column.isDescending then decide ((column.key b).place ≤ (column.key a).place)
  else decide ((column.key a).place ≤ (column.key b).place)

theorem allows_eq_placesAllow (ha : column.Places a) (hb : column.Places b) :
    column.allows a b = column.placesAllow a b := by
  have hab := SortKey.before_iff (SortKey.isPlaced_ofValue ha) (SortKey.isPlaced_ofValue hb)
  have hba := SortKey.before_iff (SortKey.isPlaced_ofValue hb) (SortKey.isPlaced_ofValue ha)
  rw [allows, placesAllow]
  split
  · rw [Bool.eq_iff_iff, Bool.not_eq_true', ← Bool.not_eq_true, decide_eq_true_iff]
    exact hab.not.trans not_lt
  · rw [Bool.eq_iff_iff, Bool.not_eq_true', ← Bool.not_eq_true, decide_eq_true_iff]
    exact hba.not.trans not_lt

theorem placesAllow_trans (a b c : Row) (hab : column.placesAllow a b = true) (hbc : column.placesAllow b c = true) :
    column.placesAllow a c = true := by
  rw [placesAllow] at *
  split at hab <;> rename_i hdirection
  · rw [if_pos hdirection, decide_eq_true_iff] at *
    exact le_trans hbc hab
  · rw [if_neg hdirection, decide_eq_true_iff] at *
    exact le_trans hab hbc

theorem placesAllow_total (a b : Row) : (column.placesAllow a b || column.placesAllow b a) = true := by
  rw [placesAllow, placesAllow, Bool.or_eq_true]
  split
  · simpa only [decide_eq_true_iff] using le_total _ _
  · simpa only [decide_eq_true_iff] using le_total _ _

theorem Precedes.asymm (ha : column.Places a) (hb : column.Places b) (h : column.Precedes a b) :
    ¬column.Precedes b a := by
  have hab := SortKey.before_iff (SortKey.isPlaced_ofValue ha) (SortKey.isPlaced_ofValue hb)
  have hba := SortKey.before_iff (SortKey.isPlaced_ofValue hb) (SortKey.isPlaced_ofValue ha)
  rintro ⟨hpresent, hother⟩
  obtain ⟨hpresent', hother'⟩ := h
  rw [hpresent', or_iff_right Bool.false_ne_true] at hother
  rw [hpresent, or_iff_right Bool.false_ne_true] at hother'
  split at hother <;> rename_i hdirection
  · rw [if_pos hdirection] at hother'
    exact lt_asymm (hab.mp hother) (hba.mp hother')
  · rw [if_neg hdirection] at hother'
    exact lt_asymm (hba.mp hother) (hab.mp hother')

end SortColumn

/-! ### One pass -/

section

variable {α : Type} (rowOf : α → Row) {column : SortColumn} {R : α → α → Prop} {items : List α}

/-- Sorts by a column what stands for rows. -/
def sortItems (column : SortColumn) (items : List α) : List α :=
  (items.filter fun item => !column.isAbsent (rowOf item)).mergeSort
    (fun a b => column.placesAllow (rowOf a) (rowOf b)) ++ items.filter fun item => column.isAbsent (rowOf item)

theorem sortItems_perm (column : SortColumn) (items : List α) : (sortItems rowOf column items).Perm items := by
  refine ((List.mergeSort_perm _ _).append_right _).trans (List.perm_append_comm.trans ?_)
  exact List.filter_append_perm (fun item => column.isAbsent (rowOf item)) items

theorem map_sortItems (hplaces : ∀ item ∈ items, column.Places (rowOf item)) :
    (sortItems rowOf column items).map rowOf = sortByColumn column (items.map rowOf) := by
  have hallows : ∀ a ∈ items.filter fun item => !column.isAbsent (rowOf item),
      ∀ b ∈ items.filter fun item => !column.isAbsent (rowOf item),
        column.placesAllow (rowOf a) (rowOf b) = column.allows (rowOf a) (rowOf b) := fun a ha b hb =>
    (SortColumn.allows_eq_placesAllow (hplaces a (List.mem_of_mem_filter ha))
      (hplaces b (List.mem_of_mem_filter hb))).symm
  rw [sortItems, List.map_append, List.map_mergeSort hallows, sortByColumn, List.filter_map, List.filter_map]
  rfl

/-- A pass puts rows in the order of its column, and those that tie there stay in their order. -/
theorem pairwise_sortItems (hplaces : ∀ item ∈ items, column.Places (rowOf item)) (h : items.Pairwise R) :
    (sortItems rowOf column items).Pairwise fun a b =>
      column.Precedes (rowOf a) (rowOf b) ∨ column.Ties (rowOf a) (rowOf b) ∧ R a b := by
  have hpresent : ∀ item ∈ (items.filter fun item => !column.isAbsent (rowOf item)).mergeSort
      (fun a b => column.placesAllow (rowOf a) (rowOf b)),
      column.Places (rowOf item) ∧ column.isAbsent (rowOf item) = false := by
    intro item hitem
    obtain ⟨hmem, habsent⟩ := List.mem_filter.mp (List.mem_mergeSort.mp hitem)
    exact ⟨hplaces item hmem, by simpa using habsent⟩
  have habsent : ∀ item ∈ items.filter fun item => column.isAbsent (rowOf item),
      column.isAbsent (rowOf item) = true := fun item hitem => (List.mem_filter.mp hitem).2
  have hsorted := pairwise_mergeSort_stable (fun a b => column.placesAllow (rowOf a) (rowOf b))
    (fun _ _ _ => SortColumn.placesAllow_trans _ _ _) (fun _ _ => SortColumn.placesAllow_total _ _)
    (h.filter fun item => !column.isAbsent (rowOf item))
  refine List.pairwise_append.mpr ⟨?_, ?_, ?_⟩
  · refine hsorted.imp_of_mem fun {a b} ha hb hle => ?_
    obtain ⟨hplace, ha⟩ := hpresent a ha
    obtain ⟨hplace', hb⟩ := hpresent b hb
    rw [← SortColumn.allows_eq_placesAllow hplace hplace', ← SortColumn.allows_eq_placesAllow hplace' hplace,
      SortColumn.allows_iff ha hb, SortColumn.allows_iff hb ha] at hle
    by_cases hprecedes : column.Precedes (rowOf a) (rowOf b)
    · exact Or.inl hprecedes
    · exact Or.inr ⟨⟨hprecedes, hle.1⟩, hle.2 hprecedes⟩
  · refine (h.filter _).imp_of_mem fun {a b} ha hb hab => Or.inr ⟨⟨?_, ?_⟩, hab⟩
    · exact SortColumn.not_precedes_of_isAbsent (habsent a ha)
    · exact SortColumn.not_precedes_of_isAbsent (habsent b hb)
  · exact fun a ha b hb => Or.inl ⟨(hpresent a ha).2, Or.inl (habsent b hb)⟩

end

/-! ### Order by several columns -/

namespace Row

/-- Does the first row come before the second under the first column in which they do not tie? -/
def PrecedesBy (columns : List SortColumn) (a b : Row) : Prop :=
  ∃ before column after, columns = before ++ column :: after ∧ (∀ other ∈ before, other.Ties a b)
    ∧ column.Precedes a b

def TiesBy (columns : List SortColumn) (a b : Row) : Prop := ∀ column ∈ columns, column.Ties a b

/-- Does the first of two rows, each with its place among the rows, come before the second when rows are sorted? -/
def ComesBefore (columns : List SortColumn) (a b : Row × Nat) : Prop :=
  PrecedesBy columns a.1 b.1 ∨ TiesBy columns a.1 b.1 ∧ a.2 < b.2

variable {column : SortColumn} {columns : List SortColumn} {a b : Row}

theorem not_precedesBy_nil : ¬PrecedesBy [] a b := by
  rintro ⟨before, column, after, hnil, -⟩
  exact List.append_ne_nil_of_right_ne_nil _ (List.cons_ne_nil _ _) hnil.symm

theorem precedesBy_cons_iff :
    PrecedesBy (column :: columns) a b ↔ column.Precedes a b ∨ column.Ties a b ∧ PrecedesBy columns a b := by
  constructor
  · rintro ⟨_ | ⟨first, before⟩, next, after, heq, hbefore, hnext⟩
    · obtain ⟨rfl, -⟩ := List.cons.inj heq
      exact Or.inl hnext
    · obtain ⟨rfl, rfl⟩ := List.cons.inj heq
      obtain ⟨hfirst, hbefore⟩ := List.forall_mem_cons.mp hbefore
      exact Or.inr ⟨hfirst, before, next, after, rfl, hbefore, hnext⟩
  · rintro (hfirst | ⟨htie, before, next, after, rfl, hbefore, hnext⟩)
    · exact ⟨[], column, columns, rfl, List.forall_mem_nil _, hfirst⟩
    · exact ⟨column :: before, next, after, rfl, List.forall_mem_cons.mpr ⟨htie, hbefore⟩, hnext⟩

theorem TiesBy.symm (h : TiesBy columns a b) : TiesBy columns b a := fun column hcolumn => (h column hcolumn).symm

theorem TiesBy.not_precedesBy (h : TiesBy columns a b) : ¬PrecedesBy columns a b := by
  rintro ⟨before, column, after, rfl, -, hcolumn⟩
  exact (h column (by simp)).1 hcolumn

/-- Two rows are not both before each other. -/
theorem PrecedesBy.asymm (ha : ∀ column ∈ columns, column.Places a) (hb : ∀ column ∈ columns, column.Places b)
    (h : PrecedesBy columns a b) : ¬PrecedesBy columns b a := by
  induction columns with
  | nil => exact not_precedesBy_nil
  | cons column columns ih =>
    obtain ⟨ha, hothers⟩ := List.forall_mem_cons.mp ha
    obtain ⟨hb, hothers'⟩ := List.forall_mem_cons.mp hb
    rw [precedesBy_cons_iff] at h ⊢
    rintro (hfirst | ⟨htie, hrest⟩)
    · exact h.elim (hfirst.asymm hb ha) fun hrest => hrest.1.2 hfirst
    · exact h.elim htie.2 fun hrest' => ih hothers hothers' hrest'.2 hrest

theorem ComesBefore.asymm {p q : Row × Nat} (hp : ∀ column ∈ columns, column.Places p.1)
    (hq : ∀ column ∈ columns, column.Places q.1) (h : ComesBefore columns p q) : ¬ComesBefore columns q p := by
  obtain hprecedes | ⟨hties, hplace⟩ := h
  · rintro (hback | ⟨hties, -⟩)
    · exact hprecedes.asymm hp hq hback
    · exact hties.symm.not_precedesBy hprecedes
  · rintro (hback | ⟨-, hback⟩)
    · exact hties.symm.not_precedesBy hback
    · exact Nat.lt_asymm hplace hback

end Row

open Row

/-- After all passes rows are in the order of all columns, and those that tie in all of them are in their own order. -/
theorem exists_sortRows {α : Type} (rowOf : α → Row) {columns : List SortColumn} {R : α → α → Prop} {items : List α}
    (hplaces : ∀ item ∈ items, ∀ column ∈ columns, column.Places (rowOf item)) (h : items.Pairwise R) :
    ∃ sorted : List α, sorted.Perm items ∧ sorted.map rowOf = sortRows columns (items.map rowOf)
      ∧ sorted.Pairwise fun a b =>
        PrecedesBy columns (rowOf a) (rowOf b) ∨ TiesBy columns (rowOf a) (rowOf b) ∧ R a b := by
  induction columns with
  | nil => exact ⟨items, .refl _, rfl, h.imp fun hab => Or.inr ⟨List.forall_mem_nil _, hab⟩⟩
  | cons column columns ih =>
    obtain ⟨sorted, hperm, hsorted, hpairwise⟩ := ih fun item hitem next hnext =>
      hplaces item hitem next (List.mem_cons_of_mem _ hnext)
    have hcolumn : ∀ item ∈ sorted, column.Places (rowOf item) := fun item hitem =>
      hplaces item (hperm.mem_iff.mp hitem) column List.mem_cons_self
    refine ⟨sortItems rowOf column sorted, (sortItems_perm _ _ _).trans hperm, ?_,
      (pairwise_sortItems rowOf hcolumn hpairwise).imp ?_⟩
    · rw [map_sortItems rowOf hcolumn, hsorted]
      rfl
    · rintro a b (hfirst | ⟨htie, hrest | ⟨hties, hab⟩⟩)
      · exact Or.inl (precedesBy_cons_iff.mpr (Or.inl hfirst))
      · exact Or.inl (precedesBy_cons_iff.mpr (Or.inr ⟨htie, hrest⟩))
      · exact Or.inr ⟨List.forall_mem_cons.mpr ⟨htie, hties⟩, hab⟩

theorem pairwise_zipIdx_lt {α : Type} (items : List α) : items.zipIdx.Pairwise fun p q => p.2 < q.2 := by
  rw [← List.pairwise_map, List.zipIdx_map_snd]
  exact List.pairwise_lt_range'

/--
Sorted rows are the rows in another order. Of any two of them that comes first which precedes the other under the first
column in which they do not tie: in the order of the column, and with a value before without one. Rows that tie in all
columns are in the order in which they were.
-/
theorem sortRows_stable_lexicographic {columns : List SortColumn} {rows : List Row}
    (h : ∀ row ∈ rows, ∀ column ∈ columns, Row.get row column.name ≠ .double .nan) :
    ∃ arranged : List (Row × Nat), arranged.Perm rows.zipIdx ∧ sortRows columns rows = arranged.map (·.1)
      ∧ arranged.Pairwise fun a b => ComesBefore columns a b ∧ ¬ComesBefore columns b a := by
  have hplaces : ∀ p ∈ rows.zipIdx, ∀ column ∈ columns, column.Places p.1 := fun p hp =>
    h p.1 (List.fst_mem_of_mem_zipIdx hp)
  obtain ⟨arranged, hperm, hsorted, hpairwise⟩ := exists_sortRows (·.1) hplaces (pairwise_zipIdx_lt rows)
  rw [List.zipIdx_map_fst] at hsorted
  refine ⟨arranged, hperm, hsorted.symm, hpairwise.imp_of_mem fun {a b} ha hb hab => ⟨hab, ?_⟩⟩
  exact ComesBefore.asymm (hplaces a (hperm.mem_iff.mp ha)) (hplaces b (hperm.mem_iff.mp hb)) hab

/-- Tickets of several states, two of them without one, and two that tie in their state and their day. -/
def ticketsByState : List Row :=
  [[("t_state", .text "open"), ("t_day", .integer 3)], [("t_state", .null), ("t_day", .integer 2)],
    [("t_state", .text "open"), ("t_day", .double (.finite 3))], [("t_day", .integer 1)],
    [("t_state", .text "shut"), ("t_day", .integer 4)]]

def latestState : List SortColumn := [⟨"t_state", true⟩, ⟨"t_day", false⟩]

/-- The states come in falling order and the tickets without one last, these by their days. -/
theorem sortRows_ticketsByState :
    (∀ row ∈ ticketsByState, ∀ column ∈ latestState, Row.get row column.name ≠ .double .nan)
      ∧ (∃ arranged : List (Row × Nat), arranged.Perm ticketsByState.zipIdx
        ∧ sortRows latestState ticketsByState = arranged.map (·.1)
        ∧ arranged.Pairwise fun a b => ComesBefore latestState a b ∧ ¬ComesBefore latestState b a)
      ∧ sortRows latestState ticketsByState
        = [[("t_state", .text "shut"), ("t_day", .integer 4)], [("t_state", .text "open"), ("t_day", .integer 3)],
          [("t_state", .text "open"), ("t_day", .double (.finite 3))], [("t_day", .integer 1)],
          [("t_state", .null), ("t_day", .integer 2)]] := by
  have hnumbers : ∀ row ∈ ticketsByState, ∀ column ∈ latestState, Row.get row column.name ≠ .double .nan := by
    simp [ticketsByState, latestState, Row.get, List.lookup]
  exact ⟨hnumbers, sortRows_stable_lexicographic hnumbers, by cbv⟩

end QueryFederation

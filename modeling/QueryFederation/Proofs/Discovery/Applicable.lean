import Mathlib
import QueryFederation.Proofs.Discovery.TableOrder

/-!
# Suggestions that can be followed

A join can be made of two different tables on columns that they have. What names tell is of such columns, and a hint is
taken only if it names such columns. A declared key leads to a table that has the column it refers to, but nobody looks
whether the table that declares it has its own column. So the suggestions that cannot be followed are the keys that a
table declares for a column it does not have.
-/

namespace QueryFederation.Discovery

variable {tables : List TableSchema} {hints : List Hint} {threshold : Double} {c : Candidate}

/-- Is it a column of one of the tables? -/
def IsColumnOf (t : TableSchema) (column : ColumnRef) : Prop :=
  t.aliasName = column.table ∧ t.hasColumn column.column = true

/-- Does the candidate join two different tables on columns that they have? -/
def Candidate.IsApplicableTo (tables : List TableSchema) (c : Candidate) : Prop :=
  ∃ t ∈ tables, ∃ other ∈ tables, t ≠ other ∧ IsColumnOf t c.left ∧ IsColumnOf other c.right

instance (t : TableSchema) (column : ColumnRef) : Decidable (IsColumnOf t column) := inferInstanceAs (Decidable (_ ∧ _))

instance (tables : List TableSchema) (c : Candidate) : Decidable (c.IsApplicableTo tables) :=
  inferInstanceAs
    (Decidable (∃ t ∈ tables, ∃ other ∈ tables, t ≠ other ∧ IsColumnOf t c.left ∧ IsColumnOf other c.right))

/-- Does a table declare a key that leads to a column of another table, for a column that it does not have itself? -/
structure IsUnfounded (tables : List TableSchema) (t : TableSchema) (key : ForeignKey) (other : TableSchema) :
    Prop where
  table_mem : t ∈ tables
  key_mem : key ∈ t.foreignKeys
  other_mem : other ∈ tables
  ne : other ≠ t
  isReferenced : isReferenced key other = true
  hasReferenced : other.hasColumn key.referencedColumn = true
  lacksColumn : t.hasColumn key.column = false

theorem TableSchema.hasColumn_of_mem {t : TableSchema} {column : ColumnDescriptor} (h : column ∈ t.columns) :
    t.hasColumn column.name = true :=
  List.find?_isSome.mpr ⟨column, h, decide_eq_true rfl⟩

/-- Different tables have different aliases. -/
theorem ne_of_sublist (hnodup : (tables.map (·.aliasName)).Nodup) {t other : TableSchema}
    (h : [t, other].Sublist tables) : t ≠ other := by
  have hpair : ([t, other].map (·.aliasName)).Nodup := hnodup.sublist (h.map _)
  rintro rfl
  simp at hpair

theorem isApplicableTo_of_mem_namingCandidates (hnodup : (tables.map (·.aliasName)).Nodup)
    (h : c ∈ namingCandidates tables) : c.IsApplicableTo tables := by
  obtain ⟨left, right, hsublist, hleft, hright, hc⟩ := exists_of_mem_namingCandidates h
  obtain ⟨⟨pattern, reason⟩, -, rfl⟩ := Option.map_eq_some_iff.mp hc
  exact ⟨left.table, hsublist.subset (by simp), right.table, hsublist.subset (by simp),
    ne_of_sublist hnodup hsublist, ⟨rfl, TableSchema.hasColumn_of_mem hleft⟩, rfl, TableSchema.hasColumn_of_mem hright⟩

theorem exists_isColumnOf_of_find? {column : ColumnRef} {t : TableSchema}
    (ht : (tables.reverse.find? fun t => t.aliasName = column.table) = some t)
    (hcolumn : t.hasColumn column.column = true) : ∃ t ∈ tables, IsColumnOf t column :=
  ⟨t, List.mem_reverse.mp (List.mem_of_find?_eq_some ht), by simpa using List.find?_some ht, hcolumn⟩

theorem isColumnOf_of_isApplicable {hint : Hint} (h : isApplicable tables hint = true) :
    hint.left.table ≠ hint.right.table
      ∧ (∃ t ∈ tables, IsColumnOf t hint.left) ∧ ∃ t ∈ tables, IsColumnOf t hint.right := by
  simp only [isApplicable, Bool.and_eq_true, decide_eq_true_eq] at h
  obtain ⟨⟨hne, hleft⟩, hright⟩ := h
  refine ⟨hne, ?_, ?_⟩
  · split at hleft
    · exact exists_isColumnOf_of_find? ‹_› hleft
    · cases hleft
  · split at hright
    · exact exists_isColumnOf_of_find? ‹_› hright
    · cases hright

theorem isApplicableTo_hintCandidate {hint : Hint} (h : isApplicable tables hint = true) :
    (hintCandidate hint).IsApplicableTo tables := by
  obtain ⟨hne, ⟨t, ht, hleft⟩, other, hother, hright⟩ := isColumnOf_of_isApplicable h
  refine ⟨t, ht, other, hother, ?_, hleft, hright⟩
  rintro rfl
  exact hne (hleft.1.symm.trans hright.1)

theorem IsApplicableTo.confirmed (h : c.IsApplicableTo tables) : (confirmed c).IsApplicableTo tables := by
  rw [Discovery.confirmed]
  split
  · exact h
  · exact h

/-- A candidate is a declared key, just as it is declared, or it can be followed. -/
theorem declared_or_isApplicableTo (hnodup : (tables.map (·.aliasName)).Nodup) :
    ∀ c ∈ candidates tables hints, c ∈ declaredCandidates tables ∨ c.IsApplicableTo tables := by
  refine forall_mem_candidates (fun c hc => ?_) (fun c hc => ?_) fun hint _ hhint =>
    .inr (isApplicableTo_hintCandidate hhint)
  · exact (List.mem_append.mp hc).imp_right (isApplicableTo_of_mem_namingCandidates hnodup)
  · refine hc.imp (fun hdeclared => ?_) IsApplicableTo.confirmed
    obtain ⟨t, -, key, -, other, -, -, -, -, rfl⟩ := mem_declaredCandidates.mp hdeclared
    exact hdeclared

/-- What joins the column of a key, whichever side it is on, cannot be followed if the table does not have it. -/
theorem hasColumn_of_joins (hnodup : (tables.map (·.aliasName)).Nodup) {t : TableSchema} (ht : t ∈ tables)
    {column : String} {b : ColumnRef} (h : c.joins ⟨t.aliasName, column⟩ b = true) (hc : c.IsApplicableTo tables) :
    t.hasColumn column = true := by
  obtain ⟨left, hleft, right, hright, -, hleftColumn, hrightColumn⟩ := hc
  rw [Candidate.joins, Bool.or_eq_true, Bool.and_eq_true, Bool.and_eq_true, decide_eq_true_eq, decide_eq_true_eq,
    decide_eq_true_eq, decide_eq_true_eq] at h
  rcases h with ⟨heq, -⟩ | ⟨-, heq⟩
  · rw [heq] at hleftColumn
    obtain rfl := List.inj_on_of_nodup_map hnodup hleft ht hleftColumn.1
    exact hleftColumn.2
  · rw [heq] at hrightColumn
    obtain rfl := List.inj_on_of_nodup_map hnodup hright ht hrightColumn.1
    exact hrightColumn.2

theorem isApplicableTo_declaredCandidate_iff (hnodup : (tables.map (·.aliasName)).Nodup) {t other : TableSchema}
    {key : ForeignKey} (ht : t ∈ tables) (hother : other ∈ tables) (hne : other ≠ t)
    (hreferenced : other.hasColumn key.referencedColumn = true) :
    (declaredCandidate t key other).IsApplicableTo tables ↔ t.hasColumn key.column = true := by
  constructor
  · exact hasColumn_of_joins hnodup ht (Candidate.joins_iff.mpr rfl)
  · exact fun hcolumn => ⟨t, ht, other, hother, hne.symm, ⟨rfl, hcolumn⟩, rfl, hreferenced⟩

/-- Whatever hints there are, a key that a table declares is among the suggestions, unless the threshold is too high. -/
theorem exists_suggest_of_mem_declaredCandidates (h : c ∈ declaredCandidates tables) (hints : List Hint)
    (hthreshold : threshold.le (.finite 1) = true) : ∃ found ∈ suggest tables hints threshold, found.pair = c.pair := by
  have hclaim : (c.pair, Standing.declared) ∈ (suggest tables hints threshold).map Candidate.claim :=
    mem_map_claim_suggest.mpr ⟨standing?_of_mem_declaredCandidates h, hthreshold⟩
  obtain ⟨found, hfound, heq⟩ := List.mem_map.mp hclaim
  exact ⟨found, hfound, congrArg Prod.fst heq⟩

/--
Whatever hints there are, the suggestions that cannot be followed are the keys that a table declares for a column that
it does not have. So all suggestions can be followed exactly if no table declares such a key, or the threshold is too
high for declared keys.
-/
theorem suggest_isApplicable_iff (hnodup : (tables.map (·.aliasName)).Nodup) (hints : List Hint) (threshold : Double) :
    (∀ c ∈ suggest tables hints threshold, ¬c.IsApplicableTo tables
        ↔ ∃ t key other, IsUnfounded tables t key other ∧ c = declaredCandidate t key other)
      ∧ ((∀ c ∈ suggest tables hints threshold, c.IsApplicableTo tables)
        ↔ (threshold.le (.finite 1) = true → ∀ t key other, ¬IsUnfounded tables t key other)) := by
  have hfollowed : ∀ c ∈ suggest tables hints threshold, ¬c.IsApplicableTo tables
      ↔ ∃ t key other, IsUnfounded tables t key other ∧ c = declaredCandidate t key other := by
    intro c hc
    constructor
    · intro hnot
      have hdeclared := (declared_or_isApplicableTo hnodup c (mem_suggest.mp hc).1).resolve_right hnot
      obtain ⟨t, ht, key, hkey, other, hother, hne, hreferenced, hcolumn, rfl⟩ := mem_declaredCandidates.mp hdeclared
      have hne : other ≠ t := fun heq => hne (congrArg _ heq)
      rw [isApplicableTo_declaredCandidate_iff hnodup ht hother hne hcolumn, Bool.not_eq_true] at hnot
      exact ⟨t, key, other, ⟨ht, hkey, hother, hne, hreferenced, hcolumn, hnot⟩, rfl⟩
    · rintro ⟨t, key, other, h, rfl⟩
      rw [isApplicableTo_declaredCandidate_iff hnodup h.table_mem h.other_mem h.ne h.hasReferenced, h.lacksColumn]
      exact Bool.false_ne_true
  refine ⟨hfollowed, fun hall hthreshold t key other h => ?_, fun hnone c hc => ?_⟩
  · have hne : other.aliasName ≠ t.aliasName := fun heq =>
      h.ne (List.inj_on_of_nodup_map hnodup h.other_mem h.table_mem heq)
    have hmem : declaredCandidate t key other ∈ declaredCandidates tables :=
      mem_declaredCandidates.mpr
        ⟨t, h.table_mem, key, h.key_mem, other, h.other_mem, hne, h.isReferenced, h.hasReferenced, rfl⟩
    -- The key may be suggested in the words of another one, which is declared on the other side.
    obtain ⟨c, hc, hpair⟩ := exists_suggest_of_mem_declaredCandidates hmem hints hthreshold
    have hcolumn := hasColumn_of_joins hnodup h.table_mem (Candidate.joins_iff.mpr hpair) (hall c hc)
    rw [h.lacksColumn] at hcolumn
    cases hcolumn
  · by_contra hnot
    obtain ⟨t, key, other, h, rfl⟩ := (hfollowed c hc).mp hnot
    exact hnone (mem_suggest.mp hc).2 t key other h

/-- All that is suggested for orders and their buyers can be followed. -/
theorem suggest_ordersOfBuyers_isApplicable : (ordersOfBuyers.map (·.aliasName)).Nodup
    ∧ ∀ c ∈ suggest ordersOfBuyers [equalNumbers] defaultThreshold, c.IsApplicableTo ordersOfBuyers := by
  have hnodup : (ordersOfBuyers.map (·.aliasName)).Nodup := by simp [ordersOfBuyers]
  have hcolumns : ∀ t ∈ ordersOfBuyers, ∀ key ∈ t.foreignKeys, t.hasColumn key.column = true := by decide +kernel
  refine ⟨hnodup, (suggest_isApplicable_iff hnodup [equalNumbers] defaultThreshold).2.mpr fun _ t key other h => ?_⟩
  exact absurd (hcolumns t h.table_mem key h.key_mem) (by simp [h.lacksColumn])

/-- Orders that declare who has bought them, but have no column for it. -/
def ordersWithoutBuyers : List TableSchema :=
  [{ aliasName := "orders", columns := [⟨"id", "int"⟩], foreignKeys := [⟨"buyer", "buyers", "id"⟩] },
    { aliasName := "buyers", columns := [⟨"id", "int"⟩] }]

/-- The key is suggested all the same. -/
theorem suggest_ordersWithoutBuyers : (ordersWithoutBuyers.map (·.aliasName)).Nodup
    ∧ ∃ c ∈ suggest ordersWithoutBuyers [] defaultThreshold, ¬c.IsApplicableTo ordersWithoutBuyers := by
  refine ⟨by simp [ordersWithoutBuyers], ?_⟩
  rw [suggest, List.mergeSort_of_pairwise (by decide +kernel)]
  decide +kernel

end QueryFederation.Discovery

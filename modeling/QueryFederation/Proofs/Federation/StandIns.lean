import QueryFederation.Proofs.Federation.SubDescriptions
import QueryFederation.Proofs.Join.Pushdown

/-!
# Columns that stand in

A partition of which no column is needed is asked for one nonetheless, since the number of its rows counts. Which one it
is depends on what its source says, so validation has not seen its name, and in joined rows this can be the name of a
needed column of another table. Then the rows that are joined later put their value in place of the earlier one.

If the names of all partitions are distinct this cannot happen: under the names of a partition, every joined row has
what one row of the partition has, or nulls. The names are distinct if no alias starts with another one and an
underscore.
-/

namespace QueryFederation

/-! ### Parts of joined rows -/

/-- Rows without repeated names, and without names that are no columns. -/
structure NamedRows.IsTable (relation : NamedRows) : Prop where
  keyed : relation.IsKeyed
  named : ∀ row ∈ relation.rows, row.keys ⊆ relation.columns

/-- Has a joined row, under the columns of some rows, what one of these has, or nulls? -/
def NamedRows.IsShownBy (part : NamedRows) (row : Row) : Prop :=
  (∃ r ∈ part.rows, ∀ name ∈ part.columns, row.lookup name = r.lookup name)
    ∨ ∀ name ∈ part.columns, row.lookup name = some .null

section

variable {relation placed added next part : NamedRows} {row : Row} {step : JoinStep} {name : String}

/-- What a step takes from one side, which may be the nulls of this side. -/
theorem NamedRows.IsTable.side (h : relation.IsTable) (hrow : row ∈ relation.rows ∨ row = Row.nulls relation.columns) :
    row.keys.Nodup ∧ row.keys ⊆ relation.columns := by
  rcases hrow with hrow | rfl
  · exact ⟨h.keyed row hrow, h.named row hrow⟩
  · exact ⟨Row.nodup_keys_nulls _, fun _ hname => Row.mem_keys_nulls.mp hname⟩

theorem NamedRows.isShownBy_side (h : row ∈ relation.rows ∨ row = Row.nulls relation.columns) :
    relation.IsShownBy row := by
  rcases h with hrow | rfl
  · exact Or.inl ⟨row, hrow, fun _ _ => rfl⟩
  · exact Or.inr fun _ hname => Row.lookup_nulls hname

/-- What is under some names passes on to a row that has the same there. -/
theorem NamedRows.IsShownBy.congr {other : Row} (h : part.IsShownBy row)
    (hsame : ∀ name ∈ part.columns, other.lookup name = row.lookup name) : part.IsShownBy other := by
  rcases h with ⟨r, hr, heq⟩ | hnulls
  · exact Or.inl ⟨r, hr, fun name hname => (hsame name hname).trans (heq name hname)⟩
  · exact Or.inr fun name hname => (hsame name hname).trans (hnulls name hname)

section

variable (attaches : step.Attaches placed added next) (hplaced : placed.IsTable) (hadded : added.IsTable)
  (hapart : placed.columns.Disjoint added.columns)

include attaches hplaced hadded

theorem JoinStep.Attaches.isTable : next.IsTable := by
  constructor
  · intro row hrow
    obtain ⟨l, r, rfl, hl, -⟩ := JoinStep.exists_of_mem_expected (attaches.rows.mem_iff.mp hrow)
    exact Entries.nodup_keys_merge _ (hplaced.side hl).1
  · intro row hrow name hname
    obtain ⟨l, r, rfl, hl, hr⟩ := JoinStep.exists_of_mem_expected (attaches.rows.mem_iff.mp hrow)
    rw [attaches.columns, List.mem_append]
    exact (Entries.mem_keys_merge.mp hname).imp (fun h => (hplaced.side hl).2 h) fun h => (hadded.side hr).2 h

include hapart

/-- A step whose sides have no name in common leaves what was placed as it was, and shows what it adds. -/
theorem JoinStep.Attaches.isShownBy (hrow : row ∈ next.rows) :
    (∃ l, (l ∈ placed.rows ∨ l = Row.nulls placed.columns) ∧ ∀ name ∈ placed.columns, row.lookup name = l.lookup name)
      ∧ added.IsShownBy row := by
  obtain ⟨l, r, rfl, hl, hr⟩ := JoinStep.exists_of_mem_expected (attaches.rows.mem_iff.mp hrow)
  obtain ⟨-, hleft⟩ := hplaced.side hl
  obtain ⟨hnodup, hright⟩ := hadded.side hr
  refine ⟨⟨l, hl, fun name hname => ?_⟩, (NamedRows.isShownBy_side hr).congr fun name hname => ?_⟩
  · have hnone : name ∉ r.keys := fun hkey => hapart hname (hright hkey)
    rw [Entries.lookup_merge l hnodup, Entries.lookup_eq_none_of_notMem_keys hnone, Option.none_or]
  · have hnone : name ∉ l.keys := fun hkey => hapart (hleft hkey) hname
    rw [Entries.lookup_merge l hnodup, Entries.lookup_eq_none_of_notMem_keys hnone, Option.or_none]

end

/-- In the end every row that was joined shows a part of all the rows that were placed or added. -/
theorem JoinRun.isShownBy {relation : List String → NamedRows} {steps : List JoinStep} {start joined : NamedRows}
    (run : JoinRun relation start steps joined) (hstart : start.IsTable)
    (htables : ∀ step ∈ steps, (relation step.nodes).IsTable)
    (hnodup : (start.columns ++ steps.flatMap fun step => (relation step.nodes).columns).Nodup)
    (hpart : (part.columns ⊆ start.columns ∧ ∀ row ∈ start.rows, part.IsShownBy row)
      ∨ ∃ step ∈ steps, part = relation step.nodes) :
    ∀ row ∈ joined.rows, part.IsShownBy row := by
  induction run with
  | done placed =>
    intro row hrow
    rcases hpart with ⟨-, hshown⟩ | ⟨step, hstep, -⟩
    · exact hshown row hrow
    · cases hstep
  | @step placed next joined step steps attaches rest ih =>
    obtain ⟨hadded, htables⟩ := List.forall_mem_cons.mp htables
    rw [List.flatMap_cons, ← List.append_assoc] at hnodup
    have hapart := List.disjoint_of_nodup_append (List.nodup_append.mp hnodup).1
    refine ih (attaches.isTable hstart hadded) htables (attaches.columns ▸ hnodup) ?_
    rcases hpart with ⟨hsubset, hshown⟩ | ⟨other, hother, rfl⟩
    · refine Or.inl ⟨?_, fun row hrow => ?_⟩
      · rw [attaches.columns]
        exact List.Subset.trans hsubset (List.subset_append_left _ _)
      · obtain ⟨⟨l, hl, hsame⟩, -⟩ := attaches.isShownBy hstart hadded hapart hrow
        refine NamedRows.IsShownBy.congr ?_ fun name hname => hsame name (hsubset hname)
        rcases hl with hl | rfl
        · exact hshown l hl
        · exact Or.inr fun name hname => Row.lookup_nulls (hsubset hname)
    · rcases List.mem_cons.mp hother with rfl | hother
      · refine Or.inl ⟨?_, fun row hrow => (attaches.isShownBy hstart hadded hapart hrow).2⟩
        rw [attaches.columns]
        exact List.subset_append_right _ _
      · exact Or.inr ⟨other, hother, rfl⟩

end

/-! ### Names that are told apart -/

/-- What is before a separator is the same, or one of the two has the separator after all of the other. -/
theorem eq_or_isPrefix_of_append_cons {α : Type} {before before' after after' : List α} {x : α}
    (h : before ++ x :: after = before' ++ x :: after') :
    (before = before' ∧ after = after') ∨ before ++ [x] <+: before' ∨ before' ++ [x] <+: before := by
  have hlonger : ∀ {short between rest rest' : List α}, x :: rest = between ++ x :: rest' →
      (between = [] ∧ rest = rest') ∨ short ++ [x] <+: short ++ between := by
    intro short between rest rest' heq
    cases between with
    | nil => exact Or.inl ⟨rfl, (List.cons.inj heq).2⟩
    | cons y between =>
      obtain ⟨rfl, -⟩ := List.cons.inj heq
      exact Or.inr (List.prefix_append_right_inj _ |>.mpr ⟨between, rfl⟩)
  rcases List.append_eq_append_iff.mp h with ⟨between, rfl, heq⟩ | ⟨between, rfl, heq⟩
  · rcases hlonger heq with ⟨rfl, rfl⟩ | hbegins
    · exact Or.inl ⟨(List.append_nil _).symm, rfl⟩
    · exact Or.inr (Or.inl hbegins)
  · rcases hlonger heq with ⟨rfl, rfl⟩ | hbegins
    · exact Or.inl ⟨List.append_nil _, rfl⟩
    · exact Or.inr (Or.inr hbegins)

/-- If neither alias starts with the other and an underscore, columns of their tables have different names. -/
theorem ColumnRef.eq_of_outputName {c c' : ColumnRef} (h : c.outputName = c'.outputName)
    (hbegins : c.table ≠ c'.table →
      ¬(c.table ++ "_").toList <+: c'.table.toList ∧ ¬(c'.table ++ "_").toList <+: c.table.toList) : c = c' := by
  have hlists := congrArg String.toList h
  simp only [outputName, QueryFederation.outputName, String.toList_append, List.append_assoc] at hlists hbegins
  rcases eq_or_isPrefix_of_append_cons hlists with ⟨htable, hcolumn⟩ | hstarts
  · obtain ⟨table, column⟩ := c
    obtain ⟨table', column'⟩ := c'
    obtain rfl : table = table' := String.toList_inj.mp htable
    obtain rfl : column = column' := String.toList_inj.mp hcolumn
    rfl
  · by_cases htable : c.table = c'.table
    · have hlength : ∀ {a b : List Char}, a.length = b.length → ¬a ++ ['_'] <+: b := fun heq hle => by
        have := hle.length_le
        rw [List.length_append, List.length_singleton] at this
        omega
      exact absurd hstarts (not_or.mpr ⟨hlength (by rw [htable]), hlength (by rw [htable])⟩)
    · exact absurd hstarts (not_or.mpr (hbegins htable))

/-- Rows that are decoded have no other names than those that were expected of them. -/
theorem isTable_of_decodeRows {answer : RowSet} {source : Option String} {expected : List String} {rows : List Row}
    (h : decodeRows answer source expected = .ok rows) : NamedRows.IsTable ⟨expected, rows⟩ := by
  rw [decodeRows] at h
  dsimp only at h
  split at h
  · cases h
  have hrows : ∀ row ∈ rows, row.keys.Nodup ∧ row.keys ⊆ expected := by
    intro row hrow
    obtain ⟨values, -, hvalues⟩ := exists_left_of_forall₂ (Outcome.forall₂_of_mapM_eq_ok h) hrow
    obtain ⟨pairs, hpairs, hvalues⟩ := exists_of_bind_eq_ok hvalues
    cases hvalues
    refine ⟨Entries.nodup_keys_ofPairs _, fun name hname => ?_⟩
    obtain ⟨pair, hpair, rfl⟩ := List.mem_map.mp (Entries.mem_keys_ofPairs.mp hname)
    obtain ⟨name, hmem, hvalue⟩ := exists_left_of_forall₂ (Outcome.forall₂_of_mapM_eq_ok hpairs) hpair
    obtain ⟨v, -, hvalue⟩ := exists_of_bind_eq_ok hvalue
    cases hvalue
    exact hmem
  exact ⟨fun row hrow => (hrows row hrow).1, fun row hrow => (hrows row hrow).2⟩

/-! ### Partitions as they are asked -/

/-- The columns that stand in for partitions of which none is needed. -/
def FederationPlan.standIns (plan : FederationPlan) (asked : List Partition) : List ColumnRef :=
  (plan.partitions.zip asked).flatMap fun pair => if pair.1.columns.isEmpty then pair.2.columns else []

namespace Partition

variable {p q : Partition} {partitions asked : List Partition}

theorem flatMap_outputNames (partitions : List Partition) :
    partitions.flatMap (·.outputNames) = (partitions.flatMap (·.columns)).map (·.outputName) := by
  rw [List.map_flatMap]
  rfl

theorem IsAskedAs.columns_eq (h : p.IsAskedAs q) :
    q.columns = p.columns ++ if p.columns.isEmpty then q.columns else [] := by
  rcases h with rfl | ⟨hnone, name, rfl⟩
  · cases hcolumns : q.columns <;> simp
  · simp [hnone]

/-- What is asked for is what is needed, and what stands in where nothing is. -/
theorem columns_asked_perm (h : List.Forall₂ IsAskedAs partitions asked) :
    (asked.flatMap (·.columns)).Perm (partitions.flatMap (·.columns)
      ++ (partitions.zip asked).flatMap fun pair => if pair.1.columns.isEmpty then pair.2.columns else []) := by
  induction h with
  | nil => exact .nil
  | @cons p q partitions asked hask _ ih =>
    rw [List.flatMap_cons, List.flatMap_cons, List.zip_cons_cons, List.flatMap_cons]
    have hcolumns := hask.columns_eq
    generalize (if p.columns.isEmpty then q.columns else []) = standIn at hcolumns ⊢
    rw [hcolumns, List.append_assoc, List.append_assoc]
    refine List.Perm.append_left _ ((List.Perm.append_left _ ih).trans ?_)
    rw [← List.append_assoc, ← List.append_assoc]
    exact List.perm_append_comm.append_right _

theorem aliases_asked (h : List.Forall₂ IsAskedAs partitions asked) :
    asked.map (·.aliases) = partitions.map (·.aliases) := by
  induction h with
  | nil => rfl
  | cons hask _ ih => rw [List.map_cons, List.map_cons, ih, hask.aliases_eq]

end Partition

theorem FederationPlan.IsAnsweredBy.asked {plan : FederationPlan} {answers : List (Partition × List Row)}
    (h : plan.IsAnsweredBy answers) : List.Forall₂ Partition.IsAskedAs plan.partitions (answers.map (·.1)) :=
  List.forall₂_map_right_iff.mpr (h.imp fun _ _ => And.left)

namespace Description

variable {d : Description} {aggregates : Aggregates} {canJoin : String → Bool} {plan : FederationPlan}
  {cleanup : Cleanup} {asked : List Partition}

namespace PlannedAs

variable {root : List String} {others : List (List String)} (h : d.PlannedAs aggregates canJoin plan root others)

include h

theorem nodup_asked_iff (hconsistent : d.IsConsistent aggregates)
    (hasked : List.Forall₂ Partition.IsAskedAs plan.partitions asked) :
    (asked.flatMap (·.outputNames)).Nodup ↔ ((plan.standIns asked).map (·.outputName)).Nodup
      ∧ ∀ c ∈ plan.standIns asked, c.outputName ∉ plan.partitions.flatMap (·.outputNames) := by
  have hneeded := h.nodup_outputNames hconsistent
  rw [Partition.flatMap_outputNames asked, ((Partition.columns_asked_perm hasked).map _).nodup_iff, List.map_append, List.nodup_append',
    ← FederationPlan.standIns, ← Partition.flatMap_outputNames]
  refine (and_iff_right hneeded).trans (and_congr_right fun _ => ?_)
  constructor
  · exact fun hdisjoint c hc hmem => hdisjoint hmem (List.mem_map_of_mem hc)
  · rintro hapart name hmem hname
    obtain ⟨c, hc, rfl⟩ := List.mem_map.mp hname
    exact hapart c hc hmem

/-- No table is asked for in two partitions. -/
theorem pairwise_asked (hnodup : d.aliases.Nodup)
    (hasked : List.Forall₂ Partition.IsAskedAs plan.partitions asked) :
    asked.Pairwise fun q q' => q.aliases.Disjoint q'.aliases := by
  have hall := (h.flatMap_aliases_perm hnodup).nodup_iff.mpr hnodup
  rw [← List.pairwise_map (R := List.Disjoint), Partition.aliases_asked hasked, List.pairwise_map]
  exact (List.nodup_flatMap.mp hall).2

/-- Names are told apart by aliases of which none starts with another one and an underscore. -/
theorem nodup_asked_of_aliases (hconsistent : d.IsConsistent aggregates)
    (hasked : List.Forall₂ Partition.IsAskedAs plan.partitions asked)
    (hbegins : ∀ a ∈ d.aliases, ∀ b ∈ d.aliases, a ≠ b → ¬(a ++ "_").toList <+: b.toList) :
    (asked.flatMap (·.outputNames)).Nodup := by
  have hnodup := hconsistent.nodup_aliases
  have hcolumns : ∀ q ∈ asked, q.columns.Nodup ∧ ∀ c ∈ q.columns, c.table ∈ q.aliases ∧ c.table ∈ d.aliases := by
    intro q hq
    obtain ⟨p, hp, hask⟩ := exists_left_of_forall₂ hasked hq
    have hpart := h.hasPart hconsistent hp
    rcases hask with rfl | ⟨hnone, name, rfl⟩
    · refine ⟨hpart.nodup_names.of_map _, fun c hc => ?_⟩
      obtain ⟨-, htable⟩ := hpart.columns c hc
      exact ⟨htable, hpart.subset htable⟩
    · obtain ⟨first, rest, haliases⟩ := List.exists_cons_of_ne_nil hpart.ne_nil
      have hfirst : first ∈ p.aliases := haliases ▸ List.mem_cons_self
      simp only [Partition.withColumn, hnone, haliases, List.nil_append, List.headD_cons, List.nodup_singleton, true_and,
        List.forall_mem_singleton]
      exact ⟨List.mem_cons_self, hpart.subset hfirst⟩
  have hapart := h.pairwise_asked hnodup hasked
  have hflat : (asked.flatMap (·.columns)).Nodup :=
    List.nodup_flatMap.mpr ⟨fun q hq => (hcolumns q hq).1, hapart.imp_of_mem fun hq hq' hdisjoint c hc hc' =>
      hdisjoint ((hcolumns _ hq).2 c hc).1 ((hcolumns _ hq').2 c hc').1⟩
  rw [Partition.flatMap_outputNames]
  refine List.Nodup.map_on (fun c hc c' hc' hname => ?_) hflat
  obtain ⟨q, hq, hc⟩ := List.mem_flatMap.mp hc
  obtain ⟨q', hq', hc'⟩ := List.mem_flatMap.mp hc'
  have htable := ((hcolumns q hq).2 c hc).2
  have htable' := ((hcolumns q' hq').2 c' hc').2
  exact ColumnRef.eq_of_outputName hname fun hne =>
    ⟨hbegins _ htable _ htable' hne, hbegins _ htable' _ htable (Ne.symm hne)⟩

/-- The rows of a group are those that its partition has been answered with. -/
theorem rowsOfGroup_asked (hnodup : d.aliases.Nodup) {answers : List (Partition × List Row)}
    (hasked : List.Forall₂ Partition.IsAskedAs plan.partitions (answers.map (·.1))) {answer : Partition × List Row}
    (hanswer : answer ∈ answers) : rowsOfGroup answers answer.1.aliases = ⟨answer.1.outputNames, answer.2⟩ := by
  have hapart := List.pairwise_map.mp (h.pairwise_asked hnodup hasked)
  have hsymm : Std.Symm fun answer other : Partition × List Row => answer.1.aliases.Disjoint other.1.aliases :=
    ⟨fun _ _ => List.Disjoint.symm⟩
  obtain ⟨p, hp, hask⟩ := exists_left_of_forall₂ hasked (List.mem_map_of_mem hanswer)
  obtain ⟨first, rest, haliases⟩ := List.exists_cons_of_ne_nil (h.aliases_ne_nil hp)
  rw [← hask.aliases_eq] at haliases
  have hfirst : first ∈ answer.1.aliases := haliases ▸ List.mem_cons_self
  rw [rowsOfGroup]
  cases hfound : answers.find? fun other => other.1.aliases.contains (answer.1.aliases.headD "") with
  | none =>
    have hnot := List.find?_eq_none.mp hfound answer hanswer
    rw [haliases, List.headD_cons, ← haliases, List.contains_iff_mem] at hnot
    exact absurd hfirst hnot
  | some found =>
    have hmem : first ∈ found.1.aliases := by
      have hcontains := List.find?_some hfound
      rwa [haliases, List.headD_cons, List.contains_iff_mem] at hcontains
    have heq : found = answer := by
      by_contra hne
      exact hapart.forall (List.mem_of_find?_eq_some hfound) hanswer hne hmem hfirst
    rw [heq]

/-- If all names are distinct, joined rows show of each partition one of its rows, or nulls. -/
theorem isShownBy_of_execute (hnodup : d.aliases.Nodup) {answers : List (Partition × List Row)}
    (hanswers : plan.IsAnsweredBy answers) (hnames : (answers.flatMap (·.1.outputNames)).Nodup) {isExpired : Bool}
    {joined : NamedRows} (hjoined : (plan.join.execute (rowsOfGroup answers)).answer isExpired = .ok joined)
    {answer : Partition × List Row} (hanswer : answer ∈ answers) :
    ∀ row ∈ joined.rows, NamedRows.IsShownBy ⟨answer.1.outputNames, answer.2⟩ row := by
  have hasked := hanswers.asked
  have hgroups : (root :: plan.join.steps.map (·.nodes)).Perm (answers.map (·.1.aliases)) := by
    have haliases := Partition.aliases_asked hasked
    rw [List.map_map] at haliases
    exact (h.planFrom.nodes_perm.cons root).trans (h.groups_perm.trans (List.Perm.of_eq haliases.symm))
  have hrows : ∀ answer ∈ answers, rowsOfGroup answers answer.1.aliases = ⟨answer.1.outputNames, answer.2⟩ :=
    fun answer hanswer => h.rowsOfGroup_asked hnodup hasked hanswer
  have htable : ∀ group ∈ root :: plan.join.steps.map (·.nodes), (rowsOfGroup answers group).IsTable := by
    intro group hgroup
    obtain ⟨other, hother, rfl⟩ := List.mem_map.mp (hgroups.mem_iff.mp hgroup)
    obtain ⟨p, -, -, reply, source, hdecoded⟩ := exists_left_of_forall₂ hanswers hother
    rw [hrows other hother]
    exact isTable_of_decodeRows hdecoded
  have hcolumns : ((root :: plan.join.steps.map (·.nodes)).flatMap fun group =>
      (rowsOfGroup answers group).columns).Nodup := by
    have hsame : (answers.map (·.1.aliases)).flatMap (fun group => (rowsOfGroup answers group).columns)
        = answers.flatMap (·.1.outputNames) := by
      rw [List.flatMap_map]
      exact List.flatMap_congr fun other hother => by rw [hrows other hother]
    rw [(hgroups.flatMap_right _).nodup_iff, hsame]
    exact hnames
  rw [List.flatMap_cons, List.flatMap_map, ← h.root_eq] at hcolumns
  rw [← hrows answer hanswer]
  refine (JoinRun.of_execute hjoined).isShownBy (h.root_eq ▸ htable root List.mem_cons_self)
    (fun step hstep => htable _ (List.mem_cons_of_mem _ (List.mem_map_of_mem hstep))) hcolumns ?_
  rcases List.mem_cons.mp (hgroups.mem_iff.mpr (List.mem_map_of_mem hanswer)) with hroot | hstep
  · rw [hroot, h.root_eq]
    exact Or.inl ⟨List.Subset.refl _, fun row hrow => NamedRows.isShownBy_side (Or.inl hrow)⟩
  · obtain ⟨step, hstep, hnodes⟩ := List.mem_map.mp hstep
    exact Or.inr ⟨step, hstep, by rw [hnodes]⟩

end PlannedAs

/--
The names under which partitions are asked are distinct exactly if the columns that stand in have names of their own,
and always if no alias starts with another one and an underscore. If they are distinct, every joined row has under the
names of each partition what one row of this partition has, or nulls.
-/
theorem standIns_apart_iff (h : (d.validate cleanup).isValid = true) (canJoin : String → Bool) :
    ∃ aggregates plan, d.analyzedAggregates (d.validate cleanup).replacements = .ok aggregates
      ∧ d.federationPlan? aggregates canJoin = some plan
      ∧ ∀ answers, plan.IsAnsweredBy answers →
        ((answers.flatMap (·.1.outputNames)).Nodup ↔ ((plan.standIns (answers.map (·.1))).map (·.outputName)).Nodup
          ∧ ∀ c ∈ plan.standIns (answers.map (·.1)), c.outputName ∉ plan.partitions.flatMap (·.outputNames))
        ∧ ((∀ a ∈ d.aliases, ∀ b ∈ d.aliases, a ≠ b → ¬(a ++ "_").toList <+: b.toList) →
          (answers.flatMap (·.1.outputNames)).Nodup)
        ∧ ((answers.flatMap (·.1.outputNames)).Nodup → ∀ isExpired joined,
          (plan.join.execute (rowsOfGroup answers)).answer isExpired = .ok joined →
            ∀ row ∈ joined.rows, ∀ answer ∈ answers, NamedRows.IsShownBy ⟨answer.1.outputNames, answer.2⟩ row) := by
  have hconsistent := isConsistent_of_isValid h
  obtain ⟨plan, hplan⟩ := exists_federationPlan? hconsistent.nodup_aliases hconsistent.primary_mem
    (d.aggregateFindings cleanup).analyzed canJoin
  obtain ⟨root, others, hparts⟩ := federationPlan?_eq_some hplan
  refine ⟨_, plan, analyzedAggregates_of_isValid h, hplan, fun answers hanswers => ?_⟩
  have hasked := hanswers.asked
  have hnames : answers.flatMap (·.1.outputNames) = (answers.map (·.1)).flatMap (·.outputNames) := by
    rw [List.flatMap_map]
  refine ⟨?_, fun hbegins => ?_, fun hdistinct isExpired joined hjoined row hrow answer hanswer => ?_⟩
  · rw [hnames]
    exact hparts.nodup_asked_iff hconsistent hasked
  · rw [hnames]
    exact hparts.nodup_asked_of_aliases hconsistent hasked hbegins
  · exact hparts.isShownBy_of_execute hconsistent.nodup_aliases hanswers hdistinct hjoined hanswer row hrow

/-! ### Orders beside customers -/

/-- The customer of every order, beside all customers, of which no column is needed. -/
def ordersBeside (customers : String) : Description where
  tables := [⟨"t", "shop", "orders", none⟩, ⟨customers, "crm", "customers", none⟩]
  columns := [{ table := "t", column := "customer_id" }]

/-- The plan of `ordersBeside`. -/
def ordersBesidePlan (customers : String) : FederationPlan where
  partitions := [
    { sourceId := "shop", aliases := ["t"], columns := [⟨"t", "customer_id"⟩] },
    { sourceId := "crm", aliases := [customers] }]
  join := ⟨["t"], [{ nodes := [customers], kind := none }]⟩
  residual := []

/-- One order of customer 7 and one customer, whose number is asked for. -/
def ordersBesideAnswers (customers : String) : List (Partition × List Row) :=
  let orders : Partition := { sourceId := "shop", aliases := ["t"], columns := [⟨"t", "customer_id"⟩] }
  let others : Partition := { sourceId := "crm", aliases := [customers], columns := [⟨customers, "id"⟩] }
  [(orders, [[("t_customer_id", .integer 7)]]), (others, [[(outputName customers "id", .integer 1)]])]

theorem isAnsweredBy_ordersBesideAnswers (customers : String) :
    (ordersBesidePlan customers).IsAnsweredBy (ordersBesideAnswers customers) := by
  refine .cons ⟨Or.inl rfl, ?_⟩ (.cons ⟨Or.inr ⟨rfl, "id", rfl⟩, ?_⟩ .nil)
  · exact ⟨⟨["t_customer_id"], [[.integer 7]]⟩, some "shop", by cbv⟩
  · refine ⟨⟨[outputName customers "id"], [[.integer 1]]⟩, some "crm", ?_⟩
    simp [decodeRows, Partition.outputNames, ColumnRef.outputName, valueAt]
    rfl

/-- Customers that go by `c` leave the customer of an order alone. -/
theorem ordersBesideCustomers_apart : ((ordersBeside "c").validate .strip).isValid = true
    ∧ ((ordersBesideAnswers "c").flatMap (·.1.outputNames)).Nodup
    ∧ ∃ joined, ((ordersBesidePlan "c").join.execute (rowsOfGroup (ordersBesideAnswers "c"))).answer false = .ok joined
      ∧ joined.rows = [[("t_customer_id", .integer 7), ("c_id", .integer 1)]]
      ∧ ∀ row ∈ joined.rows, ∀ answer ∈ ordersBesideAnswers "c",
        NamedRows.IsShownBy ⟨answer.1.outputNames, answer.2⟩ row := by
  have hvalid : ((ordersBeside "c").validate .strip).isValid = true := by
    rw [isValid_iff]
    exact ⟨by cbv, by cbv, by cbv, by cbv, by cbv, by cbv, nameErrors_eq_nil_iff.mpr ⟨by decide +kernel, by decide⟩,
      by cbv, by cbv, by cbv⟩
  obtain ⟨aggregates, plan, haggregates, hplan, hanswered⟩ := standIns_apart_iff hvalid fun _ => true
  obtain rfl : [] = aggregates := Except.ok.inj haggregates
  have hplan' : (ordersBeside "c").federationPlan? [] (fun _ => true) = some (ordersBesidePlan "c") := by cbv
  obtain rfl := Option.some.inj (hplan'.symm.trans hplan)
  obtain ⟨-, happart, hshown⟩ := hanswered _ (isAnsweredBy_ordersBesideAnswers "c")
  have hnames := happart (by decide +kernel)
  have hjoined : ((ordersBesidePlan "c").join.execute (rowsOfGroup (ordersBesideAnswers "c"))).answer false
      = .ok ⟨["t_customer_id", "c_id"], [[("t_customer_id", .integer 7), ("c_id", .integer 1)]]⟩ := by cbv
  exact ⟨hvalid, hnames, _, hjoined, rfl, hshown hnames false _ hjoined⟩

/-- With customers that go by `t_customer`, joined rows have the number of a customer in place of the order's. -/
theorem ordersBesideCustomers_overwritten : ((ordersBeside "t_customer").validate .strip).isValid = true
    ∧ (ordersBeside "t_customer").federationPlan? [] (fun _ => true) = some (ordersBesidePlan "t_customer")
    ∧ (ordersBesidePlan "t_customer").IsAnsweredBy (ordersBesideAnswers "t_customer")
    ∧ (ordersBesideAnswers "t_customer").flatMap (·.1.outputNames) = ["t_customer_id", "t_customer_id"]
    ∧ (rowsOfGroup (ordersBesideAnswers "t_customer") ["t"]).rows = [[("t_customer_id", .integer 7)]]
    ∧ ((ordersBesidePlan "t_customer").join.execute (rowsOfGroup (ordersBesideAnswers "t_customer"))).answer false
      = .ok ⟨["t_customer_id", "t_customer_id"], [[("t_customer_id", .integer 1)]]⟩ := by
  refine ⟨?_, by cbv, isAnsweredBy_ordersBesideAnswers _, by cbv, by cbv, by cbv⟩
  rw [isValid_iff]
  exact ⟨by cbv, by cbv, by cbv, by cbv, by cbv, by cbv, nameErrors_eq_nil_iff.mpr ⟨by decide +kernel, by decide⟩,
    by cbv, by cbv, by cbv⟩

end Description

end QueryFederation

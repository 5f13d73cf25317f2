import QueryFederation.Proofs.Federation.InnerSteps
import QueryFederation.Proofs.Join.Plan

/-!
# Partial combinations

What a description with outer joins means by a given plan. A partial combination has a row for each of some tables. It
is formed if it fills a set of tables that the plan can fill, and meets every condition between two tables it fills. Of
those that are formed the maximal ones are wanted: a row without a partner is kept, but not one that has a partner.

A step forms what its two sides form together if it meets the conditions between them, and what one side forms alone if
the step keeps this side.
-/

namespace QueryFederation

/-- A row for each of some tables. -/
abbrev PartialCombination := String → Option Row

/-- All ways to choose a row, or none, of each of the given tables. -/
def partialCombinations (tables : String → List Row) : List String → List PartialCombination
  | [] => [fun _ => none]
  | aliasName :: rest =>
    (none :: (tables aliasName).map some).flatMap fun row =>
      (partialCombinations tables rest).map fun c => Function.update c aliasName row

namespace PartialCombination

/-- The rows; a table that has none has an empty one. -/
def rows (c : PartialCombination) : Combination := fun aliasName => (c aliasName).getD []

/-- Are all rows those of the given tables? -/
def IsOf (tables : String → List Row) (placed : List String) (c : PartialCombination) : Prop :=
  ∀ aliasName row, c aliasName = some row → aliasName ∈ placed ∧ row ∈ tables aliasName

/-- Does it have rows of exactly these tables? -/
def Fills (s : Finset String) (c : PartialCombination) : Prop := ∀ aliasName, (c aliasName).isSome = true ↔ aliasName ∈ s

/-- Does it have all rows of the other one? -/
def Extends (c other : PartialCombination) : Prop := ∀ aliasName row, other aliasName = some row → c aliasName = some row

/-- The rows of both, where those of the first one come first. -/
def combine (c added : PartialCombination) : PartialCombination := fun aliasName => (c aliasName).or (added aliasName)

structure IsFormed (joins : List JoinCondition) (fills : Finset (Finset String)) (c : PartialCombination) : Prop where
  filled : ∃ s ∈ fills, c.Fills s
  joins : ∀ j ∈ joins, (c j.leftTable).isSome = true → (c j.rightTable).isSome = true → c.rows.joins j = true

/-- Formed, and not extended by anything else that is formed of the tables. -/
structure IsMaximal (tables : String → List Row) (joins : List JoinCondition) (fills : Finset (Finset String))
    (placed : List String) (c : PartialCombination) : Prop where
  formed : c.IsFormed joins fills
  extends_of_extends : ∀ c' : PartialCombination, c'.IsOf tables placed → c'.IsFormed joins fills →
    c'.Extends c → c.Extends c'

variable {tables : String → List Row} {joins : List JoinCondition} {placed group : List String} {s t : Finset String}
  {c c' added added' : PartialCombination}

/-! ### Choosing rows -/

theorem mem_partialCombinations (hnodup : placed.Nodup) : c ∈ partialCombinations tables placed ↔ c.IsOf tables placed := by
  induction placed generalizing c with
  | nil =>
    rw [partialCombinations, List.mem_singleton]
    constructor
    · rintro rfl aliasName row hrow
      cases hrow
    · intro h
      funext aliasName
      cases hrow : c aliasName with
      | none => rfl
      | some row => exact absurd (h _ _ hrow).1 List.not_mem_nil
  | cons first rest ih =>
    obtain ⟨hfirst, hnodup⟩ := List.nodup_cons.mp hnodup
    simp only [partialCombinations, List.mem_flatMap, List.mem_map]
    constructor
    · rintro ⟨row, hrow, c, hc, rfl⟩ aliasName r hr
      by_cases heq : aliasName = first
      · subst heq
        rw [Function.update_self] at hr
        subst hr
        simp only [List.mem_cons, reduceCtorEq, List.mem_map, Option.some.injEq, exists_eq_right, false_or] at hrow
        exact ⟨List.mem_cons_self, hrow⟩
      · rw [Function.update_of_ne heq] at hr
        obtain ⟨hmem, htable⟩ := (ih hnodup).mp hc _ _ hr
        exact ⟨List.mem_cons_of_mem _ hmem, htable⟩
    · intro h
      refine ⟨c first, ?_, Function.update c first none, (ih hnodup).mpr fun aliasName row hrow => ?_, ?_⟩
      · cases hrow : c first with
        | none => exact List.mem_cons_self
        | some row => exact List.mem_cons_of_mem _ (List.mem_map_of_mem (h _ _ hrow).2)
      · by_cases heq : aliasName = first
        · subst heq
          rw [Function.update_self] at hrow
          cases hrow
        · rw [Function.update_of_ne heq] at hrow
          obtain ⟨hmem, htable⟩ := h _ _ hrow
          exact ⟨(List.mem_cons.mp hmem).resolve_left heq, htable⟩
      · rw [Function.update_idem, Function.update_eq_self]

theorem IsOf.mem (hc : c.IsOf tables placed) {aliasName : String} (h : (c aliasName).isSome = true) :
    aliasName ∈ placed := by
  obtain ⟨row, hrow⟩ := Option.isSome_iff_exists.mp h
  exact (hc _ _ hrow).1

theorem IsOf.eq_none (hc : c.IsOf tables placed) {aliasName : String} (h : aliasName ∉ placed) : c aliasName = none := by
  rw [← Option.not_isSome_iff_eq_none]
  exact fun hsome => h (hc.mem hsome)

theorem isOf_empty (tables : String → List Row) (placed : List String) : IsOf tables placed fun _ => none := by
  intro aliasName row hrow
  cases hrow

theorem fills_empty_iff : c.Fills ∅ ↔ c = fun _ => none := by
  simp only [Fills, Finset.notMem_empty, iff_false, Bool.not_eq_true, Option.isSome_eq_false_iff, Option.isNone_iff_eq_none]
  exact funext_iff.symm

theorem Extends.isSome (h : c'.Extends c) {aliasName : String} (hsome : (c aliasName).isSome = true) :
    (c' aliasName).isSome = true := by
  obtain ⟨row, hrow⟩ := Option.isSome_iff_exists.mp hsome
  rw [h _ _ hrow]
  rfl

theorem Extends.trans {c'' : PartialCombination} (h : c''.Extends c') (h' : c'.Extends c) : c''.Extends c :=
  fun aliasName row hrow => h aliasName row (h' aliasName row hrow)

/-- A condition that is met is one between tables that are filled. -/
theorem isSome_of_joins {j : JoinCondition} (h : c.rows.joins j = true) :
    (c j.leftTable).isSome = true ∧ (c j.rightTable).isSome = true := by
  have hvalue : ∀ column : ColumnRef, (c.rows.value column).joinKey.isNull = false → (c column.table).isSome = true := by
    intro column hvalue
    cases hrow : c column.table with
    | some row => rfl
    | none =>
      rw [Combination.value, rows, hrow] at hvalue
      cases hvalue
  simp only [Combination.joins, Value.sameKey, Bool.and_eq_true, Bool.not_eq_true'] at h
  exact ⟨hvalue _ h.1.1, hvalue _ h.1.2⟩

/-! ### Two sides -/

section

variable (hdisjoint : placed.Disjoint group) (hc : c.IsOf tables placed) (hadded : added.IsOf tables group)

include hc hadded in
theorem IsOf.combine : (c.combine added).IsOf tables (placed ++ group) := by
  intro aliasName row hrow
  rcases Option.or_eq_some_iff.mp hrow with hrow | ⟨-, hrow⟩
  · obtain ⟨hmem, htable⟩ := hc _ _ hrow
    exact ⟨List.mem_append_left _ hmem, htable⟩
  · obtain ⟨hmem, htable⟩ := hadded _ _ hrow
    exact ⟨List.mem_append_right _ hmem, htable⟩

include hdisjoint

include hadded in
theorem combine_of_mem {aliasName : String} (h : aliasName ∈ placed) : c.combine added aliasName = c aliasName := by
  rw [PartialCombination.combine, hadded.eq_none (hdisjoint h), Option.or_none]

include hc in
theorem combine_of_mem_group {aliasName : String} (h : aliasName ∈ group) :
    c.combine added aliasName = added aliasName := by
  rw [PartialCombination.combine, hc.eq_none fun hmem => hdisjoint hmem h, Option.none_or]

include hc hadded

theorem rows_combine : (c.combine added).rows = c.rows.combine placed added.rows := by
  funext aliasName
  by_cases hmem : aliasName ∈ placed
  · rw [Combination.combine, if_pos hmem, rows, combine_of_mem hdisjoint hadded hmem, rows]
  · rw [Combination.combine, if_neg hmem, rows, PartialCombination.combine, hc.eq_none hmem, Option.none_or, rows]

theorem fills_combine_iff (hs : ∀ a ∈ s, a ∈ placed) (ht : ∀ a ∈ t, a ∈ group) :
    (c.combine added).Fills (s ∪ t) ↔ c.Fills s ∧ added.Fills t := by
  simp only [Fills, PartialCombination.combine, Option.isSome_or, Bool.or_eq_true, Finset.mem_union]
  constructor
  · intro h
    refine ⟨fun a => ⟨fun hsome => ?_, fun ha => ?_⟩, fun a => ⟨fun hsome => ?_, fun ha => ?_⟩⟩
    · exact ((h a).mp (Or.inl hsome)).resolve_right fun hmem => hdisjoint (hc.mem hsome) (ht a hmem)
    · exact ((h a).mpr (Or.inl ha)).resolve_right fun hsome => hdisjoint (hs a ha) (hadded.mem hsome)
    · exact ((h a).mp (Or.inr hsome)).resolve_left fun hmem => hdisjoint (hs a hmem) (hadded.mem hsome)
    · exact ((h a).mpr (Or.inr ha)).resolve_left fun hsome => hdisjoint (hc.mem hsome) (ht a ha)
  · exact fun ⟨h, h'⟩ a => or_congr (h a) (h' a)

theorem extends_combine_iff (hc' : c'.IsOf tables placed) (hadded' : added'.IsOf tables group) :
    (c'.combine added').Extends (c.combine added) ↔ c'.Extends c ∧ added'.Extends added := by
  constructor
  · intro h
    refine ⟨fun a row hrow => ?_, fun a row hrow => ?_⟩
    · have hmem := (hc a row hrow).1
      have hsame : c'.combine added' a = c' a := combine_of_mem hdisjoint hadded' hmem
      exact hsame.symm.trans (h a row ((combine_of_mem hdisjoint hadded hmem).trans hrow))
    · have hmem := (hadded a row hrow).1
      have hsame : c'.combine added' a = added' a := combine_of_mem_group hdisjoint hc' hmem
      exact hsame.symm.trans (h a row ((combine_of_mem_group hdisjoint hc hmem).trans hrow))
  · rintro ⟨h, h'⟩ a row hrow
    by_cases hmem : a ∈ placed
    · rw [combine_of_mem hdisjoint hadded' hmem]
      exact h a row ((combine_of_mem hdisjoint hadded hmem).symm.trans hrow)
    · rw [PartialCombination.combine, hc'.eq_none hmem, Option.none_or]
      rw [PartialCombination.combine, hc.eq_none hmem, Option.none_or] at hrow
      exact h' a row hrow

/-- Conditions between filled tables are those of either side and those between the two. -/
theorem joins_combine_iff : (∀ j ∈ joins, (c.combine added j.leftTable).isSome = true →
      (c.combine added j.rightTable).isSome = true → (c.combine added).rows.joins j = true)
    ↔ (∀ j ∈ joins, (c j.leftTable).isSome = true → (c j.rightTable).isSome = true → c.rows.joins j = true)
      ∧ (∀ j ∈ joins, (added j.leftTable).isSome = true → (added j.rightTable).isSome = true → added.rows.joins j = true)
      ∧ ∀ j ∈ conditionsBetween joins placed group, (c.combine added j.leftTable).isSome = true →
        (c.combine added j.rightTable).isSome = true → (c.combine added).rows.joins j = true := by
  have hout : ∀ {a}, (added a).isSome = true → a ∉ placed := fun hsome hmem => hdisjoint hmem (hadded.mem hsome)
  have hsome : ∀ {a}, (c.combine added a).isSome = true ↔ (c a).isSome = true ∨ (added a).isSome = true := by
    intro a
    rw [PartialCombination.combine, Option.isSome_or, Bool.or_eq_true]
  have hplaced : ∀ j, (c j.leftTable).isSome = true → (c j.rightTable).isSome = true →
      (c.combine added).rows.joins j = c.rows.joins j := fun j hl hr => by
    rw [rows_combine hdisjoint hc hadded, Combination.joins_combine_of_mem (hc.mem hl) (hc.mem hr)]
  have hgroup : ∀ j, (added j.leftTable).isSome = true → (added j.rightTable).isSome = true →
      (c.combine added).rows.joins j = added.rows.joins j := fun j hl hr => by
    rw [rows_combine hdisjoint hc hadded, Combination.joins_combine_of_notMem (hout hl) (hout hr)]
  constructor
  · intro h
    refine ⟨fun j hj hl hr => ?_, fun j hj hl hr => ?_, fun j hj => h j (mem_conditionsBetween.mp hj).1⟩
    · exact hplaced j hl hr ▸ h j hj (hsome.mpr (Or.inl hl)) (hsome.mpr (Or.inl hr))
    · exact hgroup j hl hr ▸ h j hj (hsome.mpr (Or.inr hl)) (hsome.mpr (Or.inr hr))
  · rintro ⟨h, h', hbetween⟩ j hj hl hr
    rcases hsome.mp hl with hleft | hleft <;> rcases hsome.mp hr with hright | hright
    · exact (hplaced j hleft hright).trans (h j hj hleft hright)
    · exact hbetween j (mem_conditionsBetween.mpr ⟨hj, Or.inl ⟨hc.mem hleft, hadded.mem hright⟩⟩) hl hr
    · exact hbetween j (mem_conditionsBetween.mpr ⟨hj, Or.inr ⟨hc.mem hright, hadded.mem hleft⟩⟩) hl hr
    · exact (hgroup j hleft hright).trans (h' j hj hleft hright)

end

/-! ### One step -/

/-- Do both together meet the conditions between their tables? -/
def links (joins : List JoinCondition) (placed group : List String) (c added : PartialCombination) : Bool :=
  (conditionsBetween joins placed group).all (c.combine added).rows.joins

theorem links_iff : links joins placed group c added = true
    ↔ ∀ j ∈ conditionsBetween joins placed group, (c.combine added).rows.joins j = true := List.all_eq_true

theorem combine_empty (c : PartialCombination) : (c.combine fun _ => none) = c := by
  funext aliasName
  exact Option.or_none

theorem empty_combine (added : PartialCombination) : combine (fun _ => none) added = added := by
  funext aliasName
  exact Option.none_or

theorem exists_eq_combine (h : c.IsOf tables (placed ++ group)) :
    ∃ c' added : PartialCombination, c'.IsOf tables placed ∧ added.IsOf tables group ∧ c = c'.combine added := by
  refine ⟨fun a => if a ∈ placed then c a else none, fun a => if a ∈ placed then none else c a, ?_, ?_, ?_⟩
  · intro a row hrow
    dsimp only at hrow
    split at hrow
    · exact ⟨‹_›, (h a row hrow).2⟩
    · cases hrow
  · intro a row hrow
    dsimp only at hrow
    split at hrow
    · cases hrow
    · obtain ⟨hmem, htable⟩ := h a row hrow
      exact ⟨(List.mem_append.mp hmem).resolve_left ‹_›, htable⟩
  · funext a
    rw [combine]
    split
    · exact Option.or_none.symm
    · exact Option.none_or.symm

theorem Extends.joins_eq_true (h : c'.Extends c) {j : JoinCondition} (hj : c.rows.joins j = true) : c'.rows.joins j = true := by
  obtain ⟨hleft, hright⟩ := isSome_of_joins hj
  have hsame : ∀ {a}, (c a).isSome = true → c'.rows a = c.rows a := by
    intro a hsome
    obtain ⟨row, hrow⟩ := Option.isSome_iff_exists.mp hsome
    rw [rows, rows, h a row hrow, hrow]
  rw [Combination.joins, Combination.value, Combination.value] at hj ⊢
  rwa [hsame hleft, hsame hright]

theorem Extends.refl (c : PartialCombination) : c.Extends c := fun _ _ => id

theorem extends_empty (c : PartialCombination) : c.Extends fun _ => none := by
  intro aliasName row hrow
  cases hrow

section

variable {sets sets' : Finset (Finset String)} (hwithin : AreWithin placed sets) (hwithin' : AreWithin group sets')

include hwithin in
theorem IsFormed.not_extends (h : c.IsFormed joins sets) : ¬Extends (fun _ => none) c := by
  intro hextends
  obtain ⟨s, hs, hfills⟩ := h.filled
  obtain ⟨⟨a, ha⟩, -⟩ := hwithin s hs
  cases hextends.isSome ((hfills a).mpr ha)

/-- Whatever is formed is a part of something maximal. -/
theorem IsFormed.exists_isMaximal (hc : c.IsOf tables placed) (h : c.IsFormed joins sets) :
    ∃ c' : PartialCombination, c'.IsOf tables placed ∧ c'.IsMaximal tables joins sets placed ∧ c'.Extends c := by
  obtain ⟨s, hs, hfills⟩ := h.filled
  -- What extends it fills one of finitely many sets; a largest of them cannot be extended.
  let larger : Set (Finset String) := fun s => s ∈ sets ∧ ∃ c' : PartialCombination, c'.IsOf tables placed
    ∧ c'.IsFormed joins sets ∧ c'.Extends c ∧ c'.Fills s
  have hfinite : larger.Finite := sets.finite_toSet.subset fun _ => And.left
  obtain ⟨m, -, ⟨-, c', hc', hformed, hextends, hfills'⟩, hlargest⟩ :=
    hfinite.exists_le_maximal (a := s) ⟨hs, c, hc, h, .refl c, hfills⟩
  refine ⟨c', hc', ⟨hformed, fun c'' hc'' hformed' hextends' a row hrow => ?_⟩, hextends⟩
  obtain ⟨s', hs', hfills''⟩ := hformed'.filled
  have hle : m ≤ s' := fun b hb => (hfills'' b).mp (hextends'.isSome ((hfills' b).mpr hb))
  have hmem : a ∈ m := hlargest ⟨hs', c'', hc'', hformed', hextends'.trans hextends, hfills''⟩ hle
    ((hfills'' a).mp (by rw [hrow]; rfl))
  obtain ⟨row', hrow'⟩ := Option.isSome_iff_exists.mp ((hfills' a).mpr hmem)
  rw [hextends' a row' hrow', Option.some.injEq] at hrow
  rw [hrow', hrow]

variable (hdisjoint : placed.Disjoint group)

include hwithin hwithin' hdisjoint

theorem isFormed_combine_iff (hc : c.IsOf tables placed) (hadded : added.IsOf tables group) :
    (c.combine added).IsFormed joins
        ((JoinStep.between joins placed group).fills sets sets')
      ↔ (c.IsFormed joins sets ∧ added.IsFormed joins sets' ∧ links joins placed group c added = true)
        ∨ ((JoinStep.between joins placed group).keepsPlaced = true
          ∧ c.IsFormed joins sets ∧ added = fun _ => none)
        ∨ ((JoinStep.between joins placed group).keepsAdded = true
          ∧ (c = fun _ => none) ∧ added.IsFormed joins sets') := by
  constructor
  · rintro ⟨⟨s, hs, hfills⟩, hjoins⟩
    rcases JoinStep.mem_fills.mp hs with ⟨t, ht, u, hu, hspans, rfl⟩ | ⟨hkeeps, hs⟩ | ⟨hkeeps, hs⟩
    · obtain ⟨hct, hau⟩ := (fills_combine_iff hdisjoint hc hadded (hwithin t ht).2 (hwithin' u hu).2).mp hfills
      obtain ⟨hjoins, hjoins', hbetween⟩ := (joins_combine_iff hdisjoint hc hadded).mp hjoins
      refine Or.inl ⟨⟨⟨t, ht, hct⟩, hjoins⟩, ⟨⟨u, hu, hau⟩, hjoins'⟩, links_iff.mpr fun j hj => ?_⟩
      obtain ⟨hl, hr⟩ := (JoinStep.spans_ofConditions hdisjoint (hwithin t ht).2 (hwithin' u hu).2).mp hspans j hj
      exact hbetween j hj ((hfills _).mpr hl) ((hfills _).mpr hr)
    · rw [← Finset.union_empty s, fills_combine_iff hdisjoint hc hadded (hwithin s hs).2 (by simp), fills_empty_iff] at hfills
      obtain ⟨hfills, rfl⟩ := hfills
      rw [combine_empty] at hjoins
      exact Or.inr (Or.inl ⟨hkeeps, ⟨⟨s, hs, hfills⟩, hjoins⟩, rfl⟩)
    · rw [← Finset.empty_union s, fills_combine_iff hdisjoint hc hadded (by simp) (hwithin' s hs).2, fills_empty_iff] at hfills
      obtain ⟨rfl, hfills⟩ := hfills
      rw [empty_combine] at hjoins
      exact Or.inr (Or.inr ⟨hkeeps, rfl, ⟨⟨s, hs, hfills⟩, hjoins⟩⟩)
  · rintro (⟨⟨⟨t, ht, hct⟩, hjoins⟩, ⟨⟨u, hu, hau⟩, hjoins'⟩, hlinks⟩ | ⟨hkeeps, ⟨⟨s, hs, hfills⟩, hjoins⟩, rfl⟩
      | ⟨hkeeps, rfl, ⟨⟨s, hs, hfills⟩, hjoins⟩⟩)
    · rw [links_iff] at hlinks
      have hfills := (fills_combine_iff hdisjoint hc hadded (hwithin t ht).2 (hwithin' u hu).2).mpr ⟨hct, hau⟩
      refine ⟨⟨t ∪ u, JoinStep.mem_fills.mpr (Or.inl ⟨t, ht, u, hu, ?_, rfl⟩), hfills⟩,
        (joins_combine_iff hdisjoint hc hadded).mpr ⟨hjoins, hjoins', fun j hj _ _ => hlinks j hj⟩⟩
      refine (JoinStep.spans_ofConditions hdisjoint (hwithin t ht).2 (hwithin' u hu).2).mpr fun j hj => ?_
      obtain ⟨hl, hr⟩ := isSome_of_joins (hlinks j hj)
      exact ⟨(hfills _).mp hl, (hfills _).mp hr⟩
    · rw [combine_empty]
      exact ⟨⟨s, JoinStep.mem_fills.mpr (Or.inr (Or.inl ⟨hkeeps, hs⟩)), hfills⟩, hjoins⟩
    · rw [empty_combine]
      exact ⟨⟨s, JoinStep.mem_fills.mpr (Or.inr (Or.inr ⟨hkeeps, hs⟩)), hfills⟩, hjoins⟩

omit hwithin hwithin' in
theorem links_of_extends (hc : c.IsOf tables placed) (hadded : added.IsOf tables group) (hc' : c'.IsOf tables placed)
    (hadded' : added'.IsOf tables group) (h : c'.Extends c) (h' : added'.Extends added)
    (hlinks : links joins placed group c added = true) : links joins placed group c' added' = true :=
  links_iff.mpr fun j hj =>
    ((extends_combine_iff hdisjoint hc hadded hc' hadded').mpr ⟨h, h'⟩).joins_eq_true (links_iff.mp hlinks j hj)

omit hwithin hwithin' in
/-- What cannot be extended as a whole cannot be extended on the left, as long as the right goes with what is larger. -/
theorem IsMaximal.left {all : Finset (Finset String)} (hc : c.IsOf tables placed) (hadded : added.IsOf tables group)
    (h : (c.combine added).IsMaximal tables joins all (placed ++ group)) (hformed : c.IsFormed joins sets)
    (hlarger : ∀ c' : PartialCombination, c'.IsOf tables placed → c'.IsFormed joins sets → c'.Extends c →
      (c'.combine added).IsFormed joins all) : c.IsMaximal tables joins sets placed := by
  refine ⟨hformed, fun c' hc' hformed' hmost => ?_⟩
  have := h.extends_of_extends (c'.combine added) (hc'.combine hadded) (hlarger c' hc' hformed' hmost)
    ((extends_combine_iff hdisjoint hc hadded hc' hadded).mpr ⟨hmost, .refl _⟩)
  exact ((extends_combine_iff hdisjoint hc' hadded hc hadded).mp this).1

omit hwithin hwithin' in
theorem IsMaximal.right {all : Finset (Finset String)} (hc : c.IsOf tables placed) (hadded : added.IsOf tables group)
    (h : (c.combine added).IsMaximal tables joins all (placed ++ group)) (hformed : added.IsFormed joins sets')
    (hlarger : ∀ added' : PartialCombination, added'.IsOf tables group → added'.IsFormed joins sets' →
      added'.Extends added → (c.combine added').IsFormed joins all) : added.IsMaximal tables joins sets' group := by
  refine ⟨hformed, fun added' hadded' hformed' hmost => ?_⟩
  have := h.extends_of_extends (c.combine added') (hc.combine hadded') (hlarger added' hadded' hformed' hmost)
    ((extends_combine_iff hdisjoint hc hadded hc hadded').mpr ⟨.refl _, hmost⟩)
  exact ((extends_combine_iff hdisjoint hc hadded' hc hadded).mp this).2

/-- A maximal combination is one of two sides that link, or one of a side that is kept and links to nothing maximal. -/
theorem IsMaximal.of_combine (hc : c.IsOf tables placed) (hadded : added.IsOf tables group)
    (h : (c.combine added).IsMaximal tables joins
      ((JoinStep.between joins placed group).fills sets sets') (placed ++ group)) :
    (c.IsMaximal tables joins sets placed ∧ added.IsMaximal tables joins sets' group
        ∧ links joins placed group c added = true)
      ∨ ((JoinStep.between joins placed group).keepsPlaced = true
        ∧ c.IsMaximal tables joins sets placed ∧ (added = fun _ => none)
        ∧ ∀ other : PartialCombination, other.IsOf tables group → other.IsMaximal tables joins sets' group →
          links joins placed group c other = false)
      ∨ ((JoinStep.between joins placed group).keepsAdded = true
        ∧ (c = fun _ => none) ∧ added.IsMaximal tables joins sets' group
        ∧ ∀ other : PartialCombination, other.IsOf tables placed → other.IsMaximal tables joins sets placed →
          links joins placed group other added = false) := by
  have hformed : ∀ {c added : PartialCombination}, c.IsOf tables placed → added.IsOf tables group →
      ((c.combine added).IsFormed joins _ ↔ _) := fun hc hadded =>
    isFormed_combine_iff hwithin hwithin' hdisjoint hc hadded
  rcases (hformed hc hadded).mp h.formed with ⟨hleft, hright, hlinks⟩ | ⟨hkeeps, hleft, rfl⟩ | ⟨hkeeps, rfl, hright⟩
  · refine Or.inl ⟨h.left hdisjoint hc hadded hleft fun c' hc' hleft' hmost => ?_,
      h.right hdisjoint hc hadded hright fun added' hadded' hright' hmost => ?_, hlinks⟩
    · exact (hformed hc' hadded).mpr
        (Or.inl ⟨hleft', hright, links_of_extends hdisjoint hc hadded hc' hadded hmost (.refl _) hlinks⟩)
    · exact (hformed hc hadded').mpr
        (Or.inl ⟨hleft, hright', links_of_extends hdisjoint hc hadded hc hadded' (.refl _) hmost hlinks⟩)
  · refine Or.inr (Or.inl ⟨hkeeps, h.left hdisjoint hc hadded hleft fun c' hc' hleft' _ => ?_, rfl,
      fun other hother hmaximal => ?_⟩)
    · exact (hformed hc' hadded).mpr (Or.inr (Or.inl ⟨hkeeps, hleft', rfl⟩))
    · by_contra hlinks
      have := h.extends_of_extends (c.combine other) (hc.combine hother)
        ((hformed hc hother).mpr (Or.inl ⟨hleft, hmaximal.formed, eq_true_of_ne_false hlinks⟩))
        ((extends_combine_iff hdisjoint hc hadded hc hother).mpr ⟨.refl _, extends_empty _⟩)
      exact hmaximal.formed.not_extends hwithin' ((extends_combine_iff hdisjoint hc hother hc hadded).mp this).2
  · refine Or.inr (Or.inr ⟨hkeeps, rfl, h.right hdisjoint hc hadded hright fun added' hadded' hright' _ => ?_,
      fun other hother hmaximal => ?_⟩)
    · exact (hformed hc hadded').mpr (Or.inr (Or.inr ⟨hkeeps, rfl, hright'⟩))
    · by_contra hlinks
      have := h.extends_of_extends (other.combine added) (hother.combine hadded)
        ((hformed hother hadded).mpr (Or.inl ⟨hmaximal.formed, hright, eq_true_of_ne_false hlinks⟩))
        ((extends_combine_iff hdisjoint hc hadded hother hadded).mpr ⟨extends_empty _, .refl _⟩)
      exact hmaximal.formed.not_extends hwithin ((extends_combine_iff hdisjoint hother hadded hc hadded).mp this).1

/-- What is maximal on both sides and links is maximal. -/
theorem IsMaximal.combine (hc : c.IsOf tables placed) (hadded : added.IsOf tables group)
    (h : c.IsMaximal tables joins sets placed) (h' : added.IsMaximal tables joins sets' group)
    (hlinks : links joins placed group c added = true) : (c.combine added).IsMaximal tables joins
      ((JoinStep.between joins placed group).fills sets sets') (placed ++ group) := by
  refine ⟨(isFormed_combine_iff hwithin hwithin' hdisjoint hc hadded).mpr (Or.inl ⟨h.formed, h'.formed, hlinks⟩),
    fun larger hlarger hformed hextends => ?_⟩
  obtain ⟨c', added', hc', hadded', rfl⟩ := exists_eq_combine hlarger
  obtain ⟨hmost, hmost'⟩ := (extends_combine_iff hdisjoint hc hadded hc' hadded').mp hextends
  refine (extends_combine_iff hdisjoint hc' hadded' hc hadded).mpr ?_
  rcases (isFormed_combine_iff hwithin hwithin' hdisjoint hc' hadded').mp hformed with
    ⟨hleft, hright, -⟩ | ⟨-, -, rfl⟩ | ⟨-, rfl, -⟩
  · exact ⟨h.extends_of_extends c' hc' hleft hmost, h'.extends_of_extends added' hadded' hright hmost'⟩
  · exact absurd hmost' (h'.formed.not_extends hwithin')
  · exact absurd hmost (h.formed.not_extends hwithin)

/-- What is maximal on the left is maximal if the step keeps it and it links to nothing. -/
theorem IsMaximal.alone_left (hc : c.IsOf tables placed) (h : c.IsMaximal tables joins sets placed)
    (hkeeps : (JoinStep.between joins placed group).keepsPlaced = true)
    (halone : ∀ other : PartialCombination, other.IsOf tables group → other.IsMaximal tables joins sets' group →
      links joins placed group c other = false) : c.IsMaximal tables joins
      ((JoinStep.between joins placed group).fills sets sets') (placed ++ group) := by
  have hnone := isOf_empty tables group
  rw [← combine_empty c]
  refine ⟨(isFormed_combine_iff hwithin hwithin' hdisjoint hc hnone).mpr (Or.inr (Or.inl ⟨hkeeps, h.formed, rfl⟩)),
    fun larger hlarger hformed hextends => ?_⟩
  obtain ⟨c', added', hc', hadded', rfl⟩ := exists_eq_combine hlarger
  obtain ⟨hmost, -⟩ := (extends_combine_iff hdisjoint hc hnone hc' hadded').mp hextends
  refine (extends_combine_iff hdisjoint hc' hadded' hc hnone).mpr ?_
  rcases (isFormed_combine_iff hwithin hwithin' hdisjoint hc' hadded').mp hformed with
    ⟨hleft, hright, hlinks⟩ | ⟨-, hleft, rfl⟩ | ⟨-, rfl, -⟩
  · obtain ⟨other, hother, hmaximal, hmore⟩ := hright.exists_isMaximal hadded'
    have := links_of_extends hdisjoint hc' hadded' hc hother (h.extends_of_extends c' hc' hleft hmost) hmore hlinks
    rw [halone other hother hmaximal] at this
    cases this
  · exact ⟨h.extends_of_extends c' hc' hleft hmost, .refl _⟩
  · exact absurd hmost (h.formed.not_extends hwithin)

theorem IsMaximal.alone_right (hadded : added.IsOf tables group) (h : added.IsMaximal tables joins sets' group)
    (hkeeps : (JoinStep.between joins placed group).keepsAdded = true)
    (halone : ∀ other : PartialCombination, other.IsOf tables placed → other.IsMaximal tables joins sets placed →
      links joins placed group other added = false) : added.IsMaximal tables joins
      ((JoinStep.between joins placed group).fills sets sets') (placed ++ group) := by
  have hnone := isOf_empty tables placed
  rw [← empty_combine added]
  refine ⟨(isFormed_combine_iff hwithin hwithin' hdisjoint hnone hadded).mpr (Or.inr (Or.inr ⟨hkeeps, rfl, h.formed⟩)),
    fun larger hlarger hformed hextends => ?_⟩
  obtain ⟨c', added', hc', hadded', rfl⟩ := exists_eq_combine hlarger
  obtain ⟨-, hmost⟩ := (extends_combine_iff hdisjoint hnone hadded hc' hadded').mp hextends
  refine (extends_combine_iff hdisjoint hc' hadded' hnone hadded).mpr ?_
  rcases (isFormed_combine_iff hwithin hwithin' hdisjoint hc' hadded').mp hformed with
    ⟨hleft, hright, hlinks⟩ | ⟨-, -, rfl⟩ | ⟨-, rfl, hright⟩
  · obtain ⟨other, hother, hmaximal, hmore⟩ := hleft.exists_isMaximal hc'
    have := links_of_extends hdisjoint hc' hadded' hother hadded hmore
      (h.extends_of_extends added' hadded' hright hmost) hlinks
    rw [halone other hother hmaximal] at this
    cases this
  · exact absurd hmost (h.formed.not_extends hwithin')
  · exact ⟨.refl _, h.extends_of_extends added' hadded' hright hmost⟩

end

end PartialCombination

end QueryFederation

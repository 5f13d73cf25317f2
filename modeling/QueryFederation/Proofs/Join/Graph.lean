import Mathlib.Algebra.BigOperators.Group.List.Basic
import Mathlib.Data.List.Perm.Basic
import Mathlib.Logic.Relation
import QueryFederation.Join.Graph

/-!
# Connected tables

Two tables are joined if some condition has its ends in them, and one reaches the other if there is a way along joined
tables. Spreading from some tables finds what they reach, as long as conditions lead to none but the tables at hand: it
adds only what is joined to something found, and it stops when what is found is closed. The connected parts are what is
found in this way, one after the other, so they divide the tables into the classes of this relation.
-/

namespace QueryFederation

variable {joins : List JoinCondition} {placed group found rest tables : List String} {a b : String}

/-- Does a condition have its ends in the two tables? -/
def Joined (joins : List JoinCondition) (a b : String) : Prop :=
  ∃ j ∈ joins, j.leftTable = a ∧ j.rightTable = b ∨ j.rightTable = a ∧ j.leftTable = b

instance (joins : List JoinCondition) (a b : String) : Decidable (Joined joins a b) :=
  inferInstanceAs (Decidable (∃ j ∈ joins, j.leftTable = a ∧ j.rightTable = b ∨ j.rightTable = a ∧ j.leftTable = b))

/-- Is there a way from one table to the other, from one joined table to the next? -/
def Reaches (joins : List JoinCondition) : String → String → Prop := Relation.ReflTransGen (Joined joins)

theorem JoinCondition.isWithin_iff {j : JoinCondition} :
    j.isWithin tables = true ↔ j.leftTable ∈ tables ∧ j.rightTable ∈ tables := by
  rw [isWithin, Bool.and_eq_true, List.contains_iff_mem, List.contains_iff_mem]

/-- Conditions between some tables lead to none but these. -/
theorem Joined.mem_of_within (h : Joined (joins.filter (·.isWithin tables)) a b) : b ∈ tables := by
  obtain ⟨j, hj, hends⟩ := h
  have hwithin := JoinCondition.isWithin_iff.mp (List.mem_filter.mp hj).2
  rcases hends with ⟨-, rfl⟩ | ⟨-, rfl⟩
  · exact hwithin.2
  · exact hwithin.1

theorem Joined.symm (h : Joined joins a b) : Joined joins b a := by
  obtain ⟨j, hj, hends⟩ := h
  exact ⟨j, hj, hends.symm.imp And.symm And.symm⟩

theorem Reaches.symm (h : Reaches joins a b) : Reaches joins b a := by
  induction h with
  | refl => exact .refl
  | tail _ hjoined ih => exact .head hjoined.symm ih

theorem Reaches.mono {more : List JoinCondition} (hmore : joins ⊆ more) (h : Reaches joins a b) : Reaches more a b :=
  Relation.ReflTransGen.mono (fun _ _ ⟨j, hj, hends⟩ => ⟨j, hmore hj, hends⟩) _ _ h

/-- What is closed under conditions is not left by a way along them. -/
theorem Reaches.mem_of_closed (hclosed : ∀ x ∈ found, ∀ y, Joined joins x y → y ∈ found) (h : Reaches joins a b)
    (ha : a ∈ found) : b ∈ found := by
  induction h with
  | refl => exact ha
  | tail _ hjoined ih => exact hclosed _ ih _ hjoined

/-- A way that starts inside of what is closed under conditions takes conditions inside of it only. -/
theorem Reaches.within (hclosed : ∀ x ∈ found, ∀ y, Joined joins x y → y ∈ found) (h : Reaches joins a b)
    (ha : a ∈ found) : Reaches (joins.filter (·.isWithin found)) a b := by
  induction h with
  | refl => exact .refl
  | @tail x y hreaches hjoined ih =>
    have hx : x ∈ found := Reaches.mem_of_closed hclosed hreaches ha
    have hy : y ∈ found := hclosed x hx y hjoined
    obtain ⟨j, hj, hends⟩ := hjoined
    refine ih.tail ⟨j, List.mem_filter.mpr ⟨hj, JoinCondition.isWithin_iff.mpr ?_⟩, hends⟩
    rcases hends with ⟨rfl, rfl⟩ | ⟨rfl, rfl⟩
    · exact ⟨hx, hy⟩
    · exact ⟨hy, hx⟩

theorem mem_conditionsBetween {j : JoinCondition} : j ∈ conditionsBetween joins placed group
    ↔ j ∈ joins ∧ (j.leftTable ∈ placed ∧ j.rightTable ∈ group ∨ j.rightTable ∈ placed ∧ j.leftTable ∈ group) := by
  simp only [conditionsBetween, JoinCondition.links, List.mem_filter, Bool.or_eq_true, Bool.and_eq_true,
    List.contains_iff_mem]

/-- Between two lists of tables there is no condition if no table of one is joined to a table of the other. -/
theorem conditionsBetween_eq_nil_iff :
    conditionsBetween joins placed group = [] ↔ ∀ a ∈ placed, ∀ b ∈ group, ¬Joined joins a b := by
  rw [List.eq_nil_iff_forall_not_mem]
  constructor
  · rintro h a ha b hb ⟨j, hj, ⟨rfl, rfl⟩ | ⟨rfl, rfl⟩⟩
    · exact h j (mem_conditionsBetween.mpr ⟨hj, Or.inl ⟨ha, hb⟩⟩)
    · exact h j (mem_conditionsBetween.mpr ⟨hj, Or.inr ⟨ha, hb⟩⟩)
  · intro h j hj
    obtain ⟨hmem, ⟨hleft, hright⟩ | ⟨hright, hleft⟩⟩ := mem_conditionsBetween.mp hj
    · exact h _ hleft _ hright ⟨j, hmem, Or.inl ⟨rfl, rfl⟩⟩
    · exact h _ hright _ hleft ⟨j, hmem, Or.inr ⟨rfl, rfl⟩⟩

/-! ### Spreading -/

theorem touches_iff : touches joins found b = true ↔ ∃ a ∈ found, Joined joins a b := by
  simp only [touches, JoinCondition.links, List.any_eq_true, Bool.or_eq_true, Bool.and_eq_true, List.contains_iff_mem,
    List.mem_singleton, Joined]
  constructor
  · rintro ⟨j, hj, ⟨hleft, hright⟩ | ⟨hright, hleft⟩⟩
    · exact ⟨_, hleft, j, hj, Or.inl ⟨rfl, hright⟩⟩
    · exact ⟨_, hright, j, hj, Or.inr ⟨rfl, hleft⟩⟩
  · rintro ⟨_, ha, j, hj, ⟨rfl, hright⟩ | ⟨rfl, hleft⟩⟩
    · exact ⟨j, hj, Or.inl ⟨ha, hright⟩⟩
    · exact ⟨j, hj, Or.inr ⟨ha, hleft⟩⟩

theorem mem_linked : b ∈ linked joins found rest ↔ b ∈ rest ∧ ∃ a ∈ found, Joined joins a b := by
  rw [linked, List.mem_filter, touches_iff]

theorem mem_unlinked : b ∈ unlinked joins found rest ↔ b ∈ rest ∧ ¬∃ a ∈ found, Joined joins a b := by
  rw [unlinked, List.mem_filter, Bool.not_eq_true', ← touches_iff, Bool.not_eq_true]

theorem subset_spread : found ⊆ spread joins found rest := by
  fun_induction spread joins found rest with
  | case1 found rest hnone => exact fun _ h => h
  | case2 found rest hsome ih => exact fun _ h => ih (List.mem_append_left _ h)

theorem spread_subset : spread joins found rest ⊆ found ++ rest := by
  fun_induction spread joins found rest with
  | case1 found rest hnone => exact List.subset_append_left _ _
  | case2 found rest hsome ih =>
    intro b hb
    rcases List.mem_append.mp (ih hb) with hb | hb
    · rcases List.mem_append.mp hb with hb | hb
      · exact List.mem_append_left _ hb
      · exact List.mem_append_right _ (mem_linked.mp hb).1
    · exact List.mem_append_right _ (mem_unlinked.mp hb).1

theorem reaches_of_mem_spread (h : b ∈ spread joins found rest) : ∃ a ∈ found, Reaches joins a b := by
  fun_induction spread joins found rest with
  | case1 found rest hnone => exact ⟨b, h, .refl⟩
  | case2 found rest hsome ih =>
    obtain ⟨c, hc, hreaches⟩ := ih h
    rcases List.mem_append.mp hc with hc | hc
    · exact ⟨c, hc, hreaches⟩
    · obtain ⟨-, a, ha, hjoined⟩ := mem_linked.mp hc
      exact ⟨a, ha, .head hjoined hreaches⟩

theorem mem_spread_of_joined (ha : a ∈ spread joins found rest) (hb : b ∈ rest) (h : Joined joins a b) :
    b ∈ spread joins found rest := by
  fun_induction spread joins found rest with
  | case1 found rest hnone =>
    have hlinked : b ∈ linked joins found rest := mem_linked.mpr ⟨hb, a, ha, h⟩
    rw [hnone] at hlinked
    cases hlinked
  | case2 found rest hsome ih =>
    by_cases hlinked : b ∈ linked joins found rest
    · exact subset_spread (List.mem_append_right _ hlinked)
    · refine ih ha (mem_unlinked.mpr ⟨hb, fun hfound => hlinked (mem_linked.mpr ⟨hb, hfound⟩)⟩)

/-- Where conditions lead to no other tables, spreading finds what is reached. -/
theorem mem_spread_iff (hclosed : ∀ x ∈ found ++ rest, ∀ y, Joined joins x y → y ∈ found ++ rest) :
    b ∈ spread joins found rest ↔ ∃ a ∈ found, Reaches joins a b := by
  refine ⟨reaches_of_mem_spread, fun ⟨a, ha, hreaches⟩ => hreaches.mem_of_closed ?_ (subset_spread ha)⟩
  intro x hx y hjoined
  rcases List.mem_append.mp (hclosed x (spread_subset hx) y hjoined) with hy | hy
  · exact subset_spread hy
  · exact mem_spread_of_joined hx hy hjoined

/-! ### Connected parts -/

theorem flatten_components_perm (joins : List JoinCondition) (tables : List String) :
    (components joins tables).flatten.Perm tables := by
  fun_induction components joins tables with
  | case1 => exact .nil
  | case2 table rest found ih =>
    rw [List.flatten_cons, List.cons_append]
    refine List.Perm.cons table ((List.Perm.append_left _ ih).trans ?_)
    exact List.filter_append_perm _ rest

theorem ne_nil_of_mem_components {joins : List JoinCondition} {tables group : List String}
    (h : group ∈ components joins tables) : group ≠ [] := by
  fun_induction components joins tables with
  | case1 => cases h
  | case2 table rest found ih =>
    rcases List.mem_cons.mp h with rfl | h
    · exact List.cons_ne_nil _ _
    · exact ih h

/-- A connected part has all that one of its tables reaches, and nothing else. -/
theorem mem_iff_reaches_of_mem_components (hclosed : ∀ x ∈ tables, ∀ y, Joined joins x y → y ∈ tables)
    {part : List String} (hpart : part ∈ components joins tables) (ha : a ∈ part) : b ∈ part ↔ Reaches joins a b := by
  fun_induction components joins tables with
  | case1 => cases hpart
  | case2 table rest found ih =>
    have hfound : ∀ {c}, c ∈ found ↔ Reaches joins table c := by
      intro c
      have hspread : c ∈ found ↔ ∃ a ∈ [table], Reaches joins a c := mem_spread_iff hclosed
      rw [hspread]
      simp
    rcases List.mem_cons.mp hpart with rfl | hpart
    · have hmem : ∀ {c}, c ∈ table :: rest.filter found.contains ↔ Reaches joins table c := by
        intro c
        rw [List.mem_cons, List.mem_filter, List.contains_iff_mem, ← hfound]
        refine ⟨?_, fun hc => ?_⟩
        · rintro (rfl | ⟨-, hc⟩)
          · exact subset_spread (List.mem_singleton.mpr rfl)
          · exact hc
        · rcases List.mem_cons.mp (spread_subset hc) with rfl | hrest
          · exact Or.inl rfl
          · exact Or.inr ⟨hrest, hc⟩
      rw [hmem]
      have ha := hmem.mp ha
      exact ⟨fun hb => ha.symm.trans hb, fun hb => ha.trans hb⟩
    · refine ih ?_ hpart
      intro x hx y hjoined
      rw [without, List.mem_filter, Bool.not_eq_true', ← Bool.not_eq_true, List.contains_iff_mem] at hx ⊢
      -- What is joined to a table that was not found has not been found either.
      have hy : y ∉ found := fun hy => hx.2 (hfound.mpr ((hfound.mp hy).tail hjoined.symm))
      rcases List.mem_cons.mp (hclosed x (List.mem_cons_of_mem _ hx.1) y hjoined) with rfl | hrest
      · exact absurd (subset_spread (List.mem_singleton.mpr rfl)) hy
      · exact ⟨hrest, hy⟩

/-- The tables of a connected part are connected by the conditions inside of it. -/
theorem reaches_within_of_mem_components (hclosed : ∀ x ∈ tables, ∀ y, Joined joins x y → y ∈ tables)
    {part : List String} (hpart : part ∈ components joins tables) (ha : a ∈ part) (hb : b ∈ part) :
    Reaches (joins.filter (·.isWithin part)) a b := by
  have hmem : ∀ x ∈ part, ∀ y, y ∈ part ↔ Reaches joins x y := fun x hx y =>
    mem_iff_reaches_of_mem_components hclosed hpart hx
  have hpartClosed : ∀ x ∈ part, ∀ y, Joined joins x y → y ∈ part := fun x hx y hjoined =>
    (hmem x hx y).mpr (.single hjoined)
  exact Reaches.within hpartClosed ((hmem a ha b).mp hb) ha

theorem length_components_le (joins : List JoinCondition) (tables : List String) :
    (components joins tables).length ≤ tables.length := by
  rw [← (flatten_components_perm joins tables).length_eq, List.length_flatten, ← List.length_map List.length]
  apply List.length_le_sum_of_one_le
  intro n hn
  obtain ⟨part, hpart, rfl⟩ := List.mem_map.mp hn
  exact List.length_pos_iff.mpr (ne_nil_of_mem_components hpart)

end QueryFederation

import Mathlib.Data.List.Nodup
import Mathlib.Data.List.Perm.Subperm
import QueryFederation.Join.Graph

/-!
# Items without repetition

The ways in which a description drops repeated items keep every item once, and change nothing if there was no
repetition.
-/

namespace QueryFederation

variable {α : Type} [BEq α] [LawfulBEq α]

private theorem mem_foldl_distinct {items seen : List α} {a : α} :
    a ∈ items.foldl (fun seen item => if seen.contains item then seen else seen ++ [item]) seen
      ↔ a ∈ seen ∨ a ∈ items := by
  induction items generalizing seen with
  | nil => simp
  | cons item items ih =>
    rw [List.foldl_cons, ih, List.mem_cons]
    split
    · rename_i hseen
      rw [List.contains_iff_mem] at hseen
      constructor
      · rintro (h | h)
        · exact Or.inl h
        · exact Or.inr (Or.inr h)
      · rintro (h | rfl | h)
        · exact Or.inl h
        · exact Or.inl hseen
        · exact Or.inr h
    · rw [List.mem_append, List.mem_singleton, or_assoc]

private theorem nodup_foldl_distinct {items seen : List α} (h : seen.Nodup) :
    (items.foldl (fun seen item => if seen.contains item then seen else seen ++ [item]) seen).Nodup := by
  induction items generalizing seen with
  | nil => exact h
  | cons item items ih =>
    rw [List.foldl_cons]
    split
    · exact ih h
    · rename_i hseen
      rw [List.contains_iff_mem] at hseen
      refine ih (List.nodup_append.mpr ⟨h, List.nodup_singleton item, ?_⟩)
      rintro a ha b hb rfl
      exact hseen (List.mem_singleton.mp hb ▸ ha)

@[simp] theorem mem_distinctItems {items : List α} {a : α} : a ∈ distinctItems items ↔ a ∈ items := by
  rw [distinctItems, mem_foldl_distinct]
  simp

theorem nodup_distinctItems (items : List α) : (distinctItems items).Nodup :=
  nodup_foldl_distinct List.nodup_nil

theorem distinctItems_perm {items items' : List α} (h : items.Perm items') :
    (distinctItems items).Perm (distinctItems items') :=
  (List.perm_ext_iff_of_nodup (nodup_distinctItems items) (nodup_distinctItems items')).mpr fun a => by
    simp only [mem_distinctItems, h.mem_iff]

theorem nodup_of_repeated_eq_nil {items : List α} (h : repeated items = []) : items.Nodup := by
  rw [List.nodup_iff_count_le_one]
  intro a
  by_contra hcount
  have hmem : a ∈ items := List.count_pos_iff.mp (by omega)
  rw [repeated, List.filter_eq_nil_iff] at h
  exact h (a, items.count a) (List.mem_map_of_mem (mem_distinctItems.mpr hmem)) (by simpa using hcount)

theorem repeated_eq_nil_of_nodup {items : List α} (h : items.Nodup) : repeated items = [] := by
  rw [repeated, List.filter_eq_nil_iff]
  intro entry hentry
  obtain ⟨a, -, rfl⟩ := List.mem_map.mp hentry
  have hcount := List.nodup_iff_count_le_one.mp h a
  simpa using hcount

omit [BEq α] [LawfulBEq α] in
/-- A list without repetition has at most one item if all of its items are equal. -/
theorem length_le_one_iff_of_nodup {items : List α} (h : items.Nodup) :
    items.length ≤ 1 ↔ ∀ a ∈ items, ∀ b ∈ items, a = b := by
  constructor
  · intro hlength a ha b hb
    obtain ⟨i, hi, rfl⟩ := List.getElem_of_mem ha
    obtain ⟨k, hk, rfl⟩ := List.getElem_of_mem hb
    obtain rfl : i = k := by omega
    rfl
  · intro hall
    match items, h with
    | [], _ => exact Nat.zero_le 1
    | [_], _ => exact Nat.le_refl 1
    | a :: b :: others, h =>
      have heq : a = b := hall a List.mem_cons_self b (List.mem_cons_of_mem _ List.mem_cons_self)
      exact absurd (heq ▸ List.mem_cons_self) (List.nodup_cons.mp h).1

theorem distinctItems_eq_singleton {items : List α} {a : α} (hne : items ≠ []) (h : ∀ item ∈ items, item = a) :
    distinctItems items = [a] := by
  have hmem : ∀ {b}, b ∈ distinctItems items ↔ b = a := by
    intro b
    rw [mem_distinctItems]
    refine ⟨h b, fun hb => ?_⟩
    obtain ⟨item, hitem⟩ := List.exists_mem_of_ne_nil items hne
    rw [hb, ← h item hitem]
    exact hitem
  have hperm : (distinctItems items).Perm [a] :=
    (List.perm_ext_iff_of_nodup (nodup_distinctItems items) (List.nodup_singleton a)).mpr fun b => by simpa using hmem
  exact List.perm_singleton.mp hperm

theorem lastOccurrences_of_nodup {items : List α} (h : items.Nodup) : lastOccurrences items = items := by
  induction items with
  | nil => rfl
  | cons item items ih =>
    obtain ⟨hitem, hrest⟩ := List.nodup_cons.mp h
    rw [lastOccurrences, if_neg (by simpa using hitem), ih hrest]

end QueryFederation

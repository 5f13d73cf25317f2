import Mathlib.Data.List.Nodup
import QueryFederation.Value.Basic

/-!
# Rows as mappings

What the rest of the theory knows about rows built by puts: which keys they have, and what is under a key. A row with
distinct keys is determined as a mapping by `lookup`, and as a list if it was merged from rows without common keys,
because merging them is then appending.
-/

namespace QueryFederation

namespace Entries

variable {α : Type}

theorem lookup_eq_none_of_notMem_keys {entries : Entries α} {key : String} (h : key ∉ entries.keys) :
    entries.lookup key = none := by
  rw [List.lookup_eq_none_iff]
  intro entry hentry
  have hne : key ≠ entry.1 := fun he => h (he ▸ List.mem_map_of_mem hentry)
  simpa using hne

theorem lookup_of_mem {entries : Entries α} (hnodup : entries.keys.Nodup) {key : String} {v : α}
    (h : (key, v) ∈ entries) : entries.lookup key = some v := by
  induction entries with
  | nil => cases h
  | cons entry rest ih =>
    obtain ⟨k, w⟩ := entry
    obtain ⟨hk, hrest⟩ := List.nodup_cons.mp hnodup
    rw [List.lookup_cons]
    rcases List.mem_cons.mp h with heq | hmem
    · cases heq
      rw [beq_self_eq_true]
    · have hne : (key == k) = false := by
        rw [beq_eq_false_iff_ne]
        rintro rfl
        exact hk (List.mem_map.mpr ⟨_, hmem, rfl⟩)
      rw [hne]
      exact ih hrest hmem

theorem lookup_eq_none_iff {entries : Entries α} {key : String} : entries.lookup key = none ↔ key ∉ entries.keys := by
  refine ⟨fun h hmem => ?_, lookup_eq_none_of_notMem_keys⟩
  obtain ⟨entry, hentry, rfl⟩ := List.mem_map.mp hmem
  simpa using List.lookup_eq_none_iff.mp h entry hentry

theorem mem_of_lookup_eq_some {entries : Entries α} {key : String} {v : α} (h : entries.lookup key = some v) :
    (key, v) ∈ entries := by
  obtain ⟨before, after, rfl, -⟩ := List.lookup_eq_some_iff.mp h
  exact List.mem_append_right _ List.mem_cons_self

theorem put_of_notMem_keys {entries : Entries α} {key : String} (v : α) (h : key ∉ entries.keys) :
    put entries key v = entries ++ [(key, v)] := by
  induction entries with
  | nil => rfl
  | cons entry rest ih =>
    obtain ⟨k, w⟩ := entry
    simp only [keys, List.map_cons, List.mem_cons, not_or] at h
    rw [put, if_neg (Ne.symm h.1), ih h.2]
    rfl

theorem mem_keys_put {entries : Entries α} {key other : String} {v : α} :
    other ∈ (put entries key v).keys ↔ other = key ∨ other ∈ entries.keys := by
  induction entries with
  | nil => simp [put, keys]
  | cons entry rest ih =>
    obtain ⟨k, w⟩ := entry
    by_cases hk : k = key
    · subst hk
      simp [put, keys]
    · rw [put, if_neg hk]
      simp only [keys, List.map_cons, List.mem_cons] at ih ⊢
      rw [ih]
      tauto

theorem nodup_keys_put {entries : Entries α} (key : String) (v : α) (h : entries.keys.Nodup) :
    (put entries key v).keys.Nodup := by
  induction entries with
  | nil => simp [put, keys]
  | cons entry rest ih =>
    obtain ⟨k, w⟩ := entry
    obtain ⟨hk, hrest⟩ := List.nodup_cons.mp h
    by_cases hkey : k = key
    · subst hkey
      rw [put, if_pos rfl]
      exact h
    · rw [put, if_neg hkey]
      refine List.nodup_cons.mpr ⟨fun hmem => ?_, ih hrest⟩
      rcases mem_keys_put.mp hmem with he | hin
      · exact hkey he
      · exact hk hin

theorem mem_of_mem_put {entries : Entries α} {key : String} {v : α} {entry : String × α}
    (h : entry ∈ put entries key v) : entry = (key, v) ∨ entry ∈ entries := by
  induction entries with
  | nil => exact Or.inl (List.mem_singleton.mp h)
  | cons first rest ih =>
    obtain ⟨k, w⟩ := first
    rw [put] at h
    split at h
    · rename_i hk
      subst hk
      exact (List.mem_cons.mp h).imp_right (List.mem_cons_of_mem _)
    · rcases List.mem_cons.mp h with rfl | h
      · exact Or.inr List.mem_cons_self
      · exact (ih h).imp_right (List.mem_cons_of_mem _)

/-! ### Merging -/

theorem merge_nil (first : Entries α) : merge first [] = first := rfl

theorem merge_cons (first : Entries α) (key : String) (v : α) (rest : Entries α) :
    merge first ((key, v) :: rest) = merge (put first key v) rest := rfl

theorem ofPairs_eq_merge (pairs : List (String × α)) : ofPairs pairs = merge [] pairs := rfl

theorem mem_keys_merge {first second : Entries α} {key : String} :
    key ∈ (merge first second).keys ↔ key ∈ first.keys ∨ key ∈ second.keys := by
  induction second generalizing first with
  | nil => simp [merge_nil, keys]
  | cons entry rest ih =>
    obtain ⟨k, w⟩ := entry
    rw [merge_cons, ih, mem_keys_put]
    simp only [keys, List.map_cons, List.mem_cons]
    tauto

theorem nodup_keys_merge {first : Entries α} (second : Entries α) (h : first.keys.Nodup) :
    (merge first second).keys.Nodup := by
  induction second generalizing first with
  | nil => exact h
  | cons entry rest ih => exact ih (nodup_keys_put _ _ h)

/-- Merging brings in no other entries than those of the two. -/
theorem mem_of_mem_merge {first second : Entries α} {entry : String × α} (h : entry ∈ merge first second) :
    entry ∈ first ∨ entry ∈ second := by
  induction second generalizing first with
  | nil => exact Or.inl h
  | cons other rest ih =>
    rcases ih h with hput | hrest
    · rcases mem_of_mem_put hput with rfl | hfirst
      · exact Or.inr List.mem_cons_self
      · exact Or.inl hfirst
    · exact Or.inr (List.mem_cons_of_mem _ hrest)

/-- On a key of both rows the second has its way. -/
theorem lookup_merge (first : Entries α) {second : Entries α} (h : second.keys.Nodup) (key : String) :
    (merge first second).lookup key = (second.lookup key).or (first.lookup key) := by
  induction second generalizing first with
  | nil => rfl
  | cons entry rest ih =>
    obtain ⟨k, w⟩ := entry
    obtain ⟨hk, hrest⟩ := List.nodup_cons.mp h
    rw [merge_cons, ih (put first k w) hrest, lookup_put, List.lookup_cons]
    by_cases hkey : key = k
    · subst hkey
      rw [lookup_eq_none_of_notMem_keys hk]
      simp
    · have hb : (key == k) = false := by simp [hkey]
      simp [hkey, hb]

/-- Rows without common keys are merged by appending them. -/
theorem merge_eq_append {first second : Entries α} (hnodup : second.keys.Nodup)
    (hdisjoint : first.keys.Disjoint second.keys) : merge first second = first ++ second := by
  induction second generalizing first with
  | nil => simp [merge_nil]
  | cons entry rest ih =>
    obtain ⟨k, w⟩ := entry
    obtain ⟨hk, hrest⟩ := List.nodup_cons.mp hnodup
    have hnot : k ∉ first.keys := fun hmem => hdisjoint hmem (by simp [keys])
    rw [merge_cons, put_of_notMem_keys w hnot, ih hrest]
    · simp
    · intro other hfirst hother
      simp only [keys, List.map_append, List.map_cons, List.map_nil, List.mem_append, List.mem_singleton] at hfirst
      rcases hfirst with hfirst | rfl
      · exact hdisjoint hfirst (by simp only [keys, List.map_cons, List.mem_cons]; exact Or.inr hother)
      · exact hk hother

theorem ofPairs_eq_self {pairs : List (String × α)} (h : (pairs.map (·.1)).Nodup) : ofPairs pairs = pairs := by
  rw [ofPairs_eq_merge, merge_eq_append h (by simp [keys])]
  rfl

theorem mem_keys_ofPairs {pairs : List (String × α)} {key : String} :
    key ∈ (ofPairs pairs).keys ↔ key ∈ pairs.map (·.1) := by
  rw [ofPairs_eq_merge, mem_keys_merge]
  simp [keys]

theorem nodup_keys_ofPairs (pairs : List (String × α)) : (ofPairs pairs).keys.Nodup :=
  nodup_keys_merge pairs List.nodup_nil

/-- What comes from a name is under it. -/
theorem lookup_ofPairs_map (f : String → α) {names : List String} {name : String} (h : name ∈ names) :
    (ofPairs (names.map fun name => (name, f name))).lookup name = some (f name) := by
  have hkey : name ∈ (ofPairs (names.map fun name => (name, f name))).keys := by
    rw [mem_keys_ofPairs, List.map_map]
    exact List.mem_map_of_mem h
  obtain ⟨⟨_, v⟩, hentry, rfl⟩ := List.mem_map.mp hkey
  rw [lookup_of_mem (nodup_keys_ofPairs _) hentry]
  rcases mem_of_mem_merge hentry with hnone | hmem
  · cases hnone
  · obtain ⟨_, -, heq⟩ := List.mem_map.mp hmem
    cases heq
    rfl

/-! ### Values made of values -/

section

variable {β : Type} (f : α → β)

theorem map_put (entries : Entries α) (key : String) (v : α) :
    (put entries key v).map (fun (k, w) => (k, f w)) = put (entries.map fun (k, w) => (k, f w)) key (f v) := by
  induction entries with
  | nil => rfl
  | cons entry rest ih =>
    obtain ⟨k, w⟩ := entry
    rw [put, List.map_cons, put]
    split
    · rfl
    · rw [List.map_cons, ih]

theorem map_ofPairs (pairs : List (String × α)) :
    (ofPairs pairs).map (fun (k, v) => (k, f v)) = ofPairs (pairs.map fun (k, v) => (k, f v)) := by
  have hmerge : ∀ first : Entries α, (merge first pairs).map (fun (k, v) => (k, f v))
      = merge (first.map fun (k, v) => (k, f v)) (pairs.map fun (k, v) => (k, f v)) := by
    induction pairs with
    | nil => exact fun first => rfl
    | cons pair pairs ih =>
      intro first
      rw [merge_cons, ih, map_put]
      rfl
  exact hmerge []

end

end Entries

namespace Row

theorem mem_keys_nulls {columns : List String} {key : String} :
    key ∈ (Row.nulls columns).keys ↔ key ∈ columns := by
  rw [Row.nulls, Entries.mem_keys_ofPairs]
  simp

theorem nodup_keys_nulls (columns : List String) : (Row.nulls columns).keys.Nodup :=
  Entries.nodup_keys_ofPairs _

theorem lookup_nulls {columns : List String} {key : String} (h : key ∈ columns) :
    (Row.nulls columns).lookup key = some .null :=
  Entries.lookup_ofPairs_map (fun _ => Value.null) h

theorem project_of_nodup {columns : List String} (h : columns.Nodup) (row : Row) :
    Row.project columns row = columns.map fun column => (column, Row.get row column) := by
  apply Entries.ofPairs_eq_self
  rw [List.map_map]
  exact (List.map_id columns).symm ▸ h

theorem get_project {columns : List String} {key : String} (h : key ∈ columns) (row : Row) :
    Row.get (Row.project columns row) key = Row.get row key := by
  rw [Row.get, Row.project, Entries.lookup_ofPairs_map (Row.get row) h, Option.getD_some]

end Row

end QueryFederation

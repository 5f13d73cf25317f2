import Mathlib.Data.Finite.Defs
import Mathlib.Data.Fintype.EquivFin
import Mathlib.Logic.Relation
import Mathlib.Order.WellFounded
import QueryFederation.Expression.Dependencies
import QueryFederation.Proofs.Items
import QueryFederation.Proofs.Row.Merge

/-!
# The order of aggregates

Sorting gives all names, each after those it uses: a name is taken when none of those it uses is left. Names are left
over only if every one of them uses another that is left; then some of them are in a circle, because there are finitely
many. So there is an order exactly if no aggregate uses itself, be it through others.
-/

namespace QueryFederation

namespace Aggregates

variable {aggregates : Aggregates} {order remaining done : List String} {a b : String}

/-- Does the first aggregate use the second? -/
def Uses (aggregates : Aggregates) (a b : String) : Prop := b ∈ aggregates.uses a

def Acyclic (aggregates : Aggregates) : Prop := ∀ a, ¬Relation.TransGen aggregates.Uses a a

/-- Names of which each comes after those it uses. -/
inductive Ordered (aggregates : Aggregates) : List String → Prop
  | nil : Ordered aggregates []
  | snoc {before : List String} {name : String} (rest : Ordered aggregates before)
      (ready : ∀ used ∈ aggregates.uses name, used ∈ before) : Ordered aggregates (before ++ [name])

theorem Ordered.forall_mem {P : String → Prop} (h : Ordered aggregates order)
    (step : ∀ name, (∀ used ∈ aggregates.uses name, P used) → P name) : ∀ name ∈ order, P name := by
  induction h with
  | nil => exact List.forall_mem_nil _
  | snoc rest ready ih =>
    intro name hname
    rcases List.mem_append.mp hname with hname | hname
    · exact ih name hname
    · rw [List.mem_singleton.mp hname]
      exact step _ fun used hused => ih used (ready used hused)

/-! ### Names -/

theorem mem_uses : b ∈ aggregates.uses a ↔ ∃ entry, aggregates.lookup a = some entry ∧ b ∈ entry.aliasRefs ∧ b ≠ a := by
  rw [uses]
  cases aggregates.lookup a with
  | none => simp
  | some entry => simp

theorem keys_subset_names : aggregates.keys ⊆ aggregates.names := by
  intro name hname
  obtain ⟨entry, hentry, rfl⟩ := List.mem_map.mp hname
  rw [names, mem_distinctItems]
  exact List.mem_flatMap.mpr ⟨entry, hentry, List.mem_cons_self⟩

theorem uses_subset_names : aggregates.uses a ⊆ aggregates.names := by
  intro used hused
  obtain ⟨entry, hentry, hmem, hne⟩ := mem_uses.mp hused
  rw [names, mem_distinctItems]
  refine List.mem_flatMap.mpr ⟨(a, entry), Entries.mem_of_lookup_eq_some hentry, List.mem_cons_of_mem _ ?_⟩
  exact List.mem_mergeSort.mpr (List.mem_filter.mpr ⟨hmem, decide_eq_true hne⟩)

/-! ### Sorting -/

private theorem foldl_smallest_mem (names : List String) (best : String) :
    names.foldl (fun best other => if other < best then other else best) best ∈ best :: names := by
  induction names generalizing best with
  | nil => exact List.mem_singleton.mpr rfl
  | cons name names ih =>
    rw [List.foldl_cons]
    rcases List.mem_cons.mp (ih (if name < best then name else best)) with heq | hmem
    · rw [heq]
      split
      · exact List.mem_cons_of_mem _ List.mem_cons_self
      · exact List.mem_cons_self
    · exact List.mem_cons_of_mem _ (List.mem_cons_of_mem _ hmem)

theorem mem_of_smallest?_eq_some {names : List String} (h : smallest? names = some a) : a ∈ names := by
  cases names with
  | nil => cases h
  | cons name names =>
    cases h
    exact foldl_smallest_mem names name

theorem smallest?_eq_none {names : List String} (h : smallest? names = none) : names = [] := by
  cases names with
  | nil => rfl
  | cons name names => cases h

/-- Is it one of the names that are left, and none of those that it uses? -/
theorem mem_ready : a ∈ (remaining.filter fun name => (aggregates.uses name).all fun used => !remaining.contains used)
    ↔ a ∈ remaining ∧ ∀ used ∈ aggregates.uses a, used ∉ remaining := by
  simp [List.mem_filter]

/-- Sorting what remains goes on with an order, and loses and repeats no name. -/
theorem ordered_sorted (bound : Nat) (h : Ordered aggregates done)
    (hclosed : ∀ name ∈ remaining, ∀ used ∈ aggregates.uses name, used ∈ done ∨ used ∈ remaining)
    (hnodup : remaining.Nodup) : Ordered aggregates (done ++ (aggregates.sorted bound remaining).1)
      ∧ ((aggregates.sorted bound remaining).1 ++ (aggregates.sorted bound remaining).2).Perm remaining := by
  induction bound generalizing done remaining with
  | zero => exact ⟨by rwa [sorted, List.append_nil], .refl _⟩
  | succ bound ih =>
    rw [sorted]
    split
    · exact ⟨by rwa [List.append_nil], .refl _⟩
    · rename_i name hsmallest
      obtain ⟨hmem, hready⟩ := mem_ready.mp (mem_of_smallest?_eq_some hsmallest)
      have hnext : Ordered aggregates (done ++ [name]) :=
        .snoc h fun used hused => (hclosed name hmem used hused).resolve_right (hready used hused)
      have hrest : ∀ other ∈ remaining.filter (· ≠ name), ∀ used ∈ aggregates.uses other,
          used ∈ done ++ [name] ∨ used ∈ remaining.filter (· ≠ name) := by
        intro other hother used hused
        by_cases heq : used = name
        · exact Or.inl (List.mem_append_right _ (List.mem_singleton.mpr heq))
        · refine (hclosed other (List.mem_of_mem_filter hother) used hused).imp (List.mem_append_left _) fun hused => ?_
          exact List.mem_filter.mpr ⟨hused, decide_eq_true heq⟩
      obtain ⟨hordered, hperm⟩ := ih hnext hrest (hnodup.filter _)
      refine ⟨?_, ?_⟩
      · rw [List.append_assoc] at hordered
        exact hordered
      · refine (hperm.cons name).trans ?_
        have hnodup' : (name :: remaining.filter (· ≠ name)).Nodup := List.nodup_cons.mpr ⟨by simp, hnodup.filter _⟩
        rw [List.perm_ext_iff_of_nodup hnodup' hnodup]
        intro other
        by_cases heq : other = name
        · simp [heq, hmem]
        · simp [heq]

/-- Names are left over only if each of them uses another of them. -/
theorem exists_uses_of_mem_left (aggregates : Aggregates) {bound : Nat} (hbound : remaining.length ≤ bound) :
    ∀ name ∈ (aggregates.sorted bound remaining).2, ∃ used ∈ (aggregates.sorted bound remaining).2,
      aggregates.Uses name used := by
  induction bound generalizing remaining with
  | zero =>
    rw [List.length_eq_zero_iff.mp (Nat.le_zero.mp hbound)]
    exact List.forall_mem_nil _
  | succ bound ih =>
    rw [sorted]
    split
    · rename_i hnone
      intro name hname
      by_contra hready
      have hmem := mem_ready.mpr ⟨hname, fun used hused hleft => hready ⟨used, hleft, hused⟩⟩
      rw [smallest?_eq_none hnone] at hmem
      cases hmem
    · rename_i name hsmallest
      refine ih ?_
      have hlt : (remaining.filter (· ≠ name)).length < remaining.length := by
        refine List.length_filter_lt_length_iff_exists.mpr ⟨name, ?_, by simp⟩
        exact (mem_ready.mp (mem_of_smallest?_eq_some hsmallest)).1
      omega

/-- Among finitely many names without a circle, one uses none of the others. -/
theorem Acyclic.exists_minimal (h : aggregates.Acyclic) {names : List String} (hne : names ≠ []) :
    ∃ name ∈ names, ∀ used ∈ names, ¬aggregates.Uses name used := by
  have : IsTrans {name // name ∈ names} fun a b => Relation.TransGen aggregates.Uses b.1 a.1 :=
    ⟨fun _ _ _ hab hbc => hbc.trans hab⟩
  have : Std.Irrefl fun a b : {name // name ∈ names} => Relation.TransGen aggregates.Uses b.1 a.1 := ⟨fun a => h a.1⟩
  have hwf := Finite.wellFounded_of_trans_of_irrefl
    fun a b : {name // name ∈ names} => Relation.TransGen aggregates.Uses b.1 a.1
  obtain ⟨first, hfirst⟩ := List.exists_mem_of_ne_nil _ hne
  obtain ⟨⟨name, hname⟩, -, hminimal⟩ := hwf.has_min Set.univ ⟨⟨first, hfirst⟩, trivial⟩
  exact ⟨name, hname, fun used hused huses => hminimal ⟨used, hused⟩ trivial (.single huses)⟩

/-! ### Dependency orders -/

theorem dependencyOrder_eq_ok : aggregates.dependencyOrder = .ok order
    ↔ aggregates.sorted aggregates.names.length aggregates.names = (order, []) := by
  rw [dependencyOrder]
  obtain ⟨sorted, left⟩ := aggregates.sorted aggregates.names.length aggregates.names
  cases left with
  | nil => simp
  | cons name left => simp

theorem ordered_of_dependencyOrder (h : aggregates.dependencyOrder = .ok order) :
    Ordered aggregates order ∧ order.Perm aggregates.names := by
  have hclosed : ∀ name ∈ aggregates.names, ∀ used ∈ aggregates.uses name, used ∈ [] ∨ used ∈ aggregates.names :=
    fun _ _ _ hused => Or.inr (uses_subset_names hused)
  have hsorted := ordered_sorted aggregates.names.length .nil hclosed (nodup_distinctItems _)
  rwa [dependencyOrder_eq_ok.mp h, List.nil_append, List.append_nil] at hsorted

/-- There is an order of the aggregates if and only if none of them uses itself, be it through others. -/
theorem exists_dependencyOrder_iff : (∃ order, aggregates.dependencyOrder = .ok order) ↔ aggregates.Acyclic := by
  constructor
  · rintro ⟨order, horder⟩ a hcircle
    obtain ⟨hordered, hperm⟩ := ordered_of_dependencyOrder horder
    have hmem : a ∈ order := by
      obtain ⟨b, -, huses⟩ := Relation.TransGen.tail'_iff.mp hcircle
      exact hperm.mem_iff.mpr (uses_subset_names huses)
    -- No name from which a circle can be reached is in an order.
    have hnone : ∀ name ∈ order, ∀ c, Relation.ReflTransGen aggregates.Uses name c →
        ¬Relation.TransGen aggregates.Uses c c := by
      refine hordered.forall_mem fun name ih c hreaches hcircle => ?_
      rcases Relation.ReflTransGen.cases_head hreaches with rfl | ⟨used, huses, hreaches⟩
      · obtain ⟨used, huses, hback⟩ := Relation.TransGen.head'_iff.mp hcircle
        exact ih used huses name hback hcircle
      · exact ih used huses c hreaches hcircle
    exact hnone a hmem a .refl hcircle
  · intro hacyclic
    cases hsorted : aggregates.sorted aggregates.names.length aggregates.names with
    | mk order left =>
      have hstuck : ∀ name ∈ left, ∃ used ∈ left, aggregates.Uses name used := by
        have hleft := exists_uses_of_mem_left aggregates (Nat.le_refl aggregates.names.length)
        rwa [hsorted] at hleft
      have hnone : left = [] := by
        by_contra hne
        obtain ⟨name, hname, hminimal⟩ := hacyclic.exists_minimal hne
        obtain ⟨used, hused, huses⟩ := hstuck name hname
        exact hminimal used hused huses
      exact ⟨order, dependencyOrder_eq_ok.mpr (by rw [hsorted, hnone])⟩

end Aggregates

end QueryFederation

import Mathlib
import QueryFederation.Proofs.Expression.Dependencies
import QueryFederation.Proofs.Outcome

/-!
# The first order, or a circle

Whoever always takes the smallest name that is ready gets the first of all orders in the order of lists: another order
starts with a name that is ready too, so it starts with the same name or with a greater one. If there is no order, the
search finds a circle. It walks along the users of a name and keeps the names on its way apart from those that it is
through with. A name is cleared only after all of its users, so no circle leads through cleared names, and a search that
clears every name has shown that there is none. A search that stops has met a name on its way, and from there on the way
is a circle.
-/

namespace QueryFederation

namespace Aggregates

variable {aggregates : Aggregates} {order remaining done before after path cleared : List String} {a b name : String}

/-! ### The first order -/

theorem Ordered.uses_subset (h : Ordered aggregates (before ++ name :: after)) :
    aggregates.uses name ⊆ before := by
  generalize hnames : before ++ name :: after = names at h
  induction h generalizing after with
  | nil => exact absurd hnames (by simp)
  | snoc rest ready ih =>
    rcases List.eq_nil_or_concat after with rfl | ⟨init, last, rfl⟩
    · obtain ⟨rfl, hname⟩ := List.append_inj' hnames rfl
      obtain rfl := List.singleton_inj.mp hname
      exact ready
    · rw [List.concat_eq_append, ← List.cons_append, ← List.append_assoc] at hnames
      exact ih (List.append_inj' hnames rfl).1

private theorem foldl_smallest_le (names : List String) (best : String) :
    ∀ name ∈ best :: names, names.foldl (fun best other => if other < best then other else best) best ≤ name := by
  induction names generalizing best with
  | nil => exact List.forall_mem_singleton.mpr le_rfl
  | cons first names ih =>
    rw [List.foldl_cons]
    obtain ⟨hbest, hrest⟩ := List.forall_mem_cons.mp (ih (if first < best then first else best))
    refine List.forall_mem_cons.mpr ⟨hbest.trans ?_, List.forall_mem_cons.mpr ⟨hbest.trans ?_, hrest⟩⟩
    · split
      · exact le_of_lt ‹_›
      · exact le_rfl
    · split
      · exact le_rfl
      · exact not_lt.mp ‹_›

theorem le_of_smallest?_eq_some {names : List String} (h : smallest? names = some a) (hb : b ∈ names) : a ≤ b := by
  cases names with
  | nil => cases hb
  | cons first names =>
    cases h
    exact foldl_smallest_le names first b hb

/-- What sorting goes on with comes before whatever else an order could go on with. -/
theorem lex_sorted (bound : Nat) (hbound : remaining.length ≤ bound) {other : List String}
    (hother : Ordered aggregates (done ++ other)) (hperm : other.Perm remaining) (hnodup : (done ++ other).Nodup) :
    other = (aggregates.sorted bound remaining).1 ∨ List.Lex (· < ·) (aggregates.sorted bound remaining).1 other := by
  induction bound generalizing done remaining other with
  | zero =>
    obtain rfl := List.length_eq_zero_iff.mp (Nat.le_zero.mp hbound)
    exact Or.inl hperm.eq_nil
  | succ bound ih =>
    cases other with
    | nil =>
      obtain rfl := hperm.nil_eq
      exact Or.inl rfl
    | cons first rest =>
      have hfirst : first ∈ remaining := hperm.mem_iff.mp List.mem_cons_self
      -- The other order starts with a name that is ready, because what it uses is done.
      have hready : first ∈ remaining.filter fun name =>
          (aggregates.uses name).all fun used => !remaining.contains used := by
        refine mem_ready.mpr ⟨hfirst, fun used hused hremaining => ?_⟩
        exact List.disjoint_of_nodup_append hnodup (hother.uses_subset hused) (hperm.mem_iff.mpr hremaining)
      rw [sorted]
      split
      · rename_i hnone
        rw [smallest?_eq_none hnone] at hready
        cases hready
      · rename_i name hsmallest
        rcases (le_of_smallest?_eq_some hsmallest hready).eq_or_lt with rfl | hlt
        · have hnotMem : name ∉ rest := (List.nodup_cons.mp hnodup.of_append_right).1
          have hrest : rest.Perm (remaining.filter (· ≠ name)) := by
            have hfilter := hperm.filter (· ≠ name)
            rwa [List.filter_cons_of_neg (by simp), List.filter_eq_self.mpr fun used hused => ?_] at hfilter
            exact decide_eq_true fun heq => hnotMem (heq ▸ hused)
          have hlength : (remaining.filter (· ≠ name)).length ≤ bound := by
            rw [← hrest.length_eq]
            have := hperm.length_eq
            rw [List.length_cons] at this
            omega
          rw [List.append_cons] at hother hnodup
          rcases ih hlength hother hrest hnodup with heq | hlex
          · exact Or.inl (congrArg (name :: ·) heq)
          · exact Or.inr (List.Lex.cons hlex)
        · exact Or.inr (List.Lex.rel hlt)

/-! ### Names that are cleared -/

/-- Names of which each has its users behind it. -/
inductive Cleared (aggregates : Aggregates) : List String → Prop
  | nil : Cleared aggregates []
  | cons {rest : List String} {name : String} (users : aggregates.usersOf name ⊆ rest)
      (others : Cleared aggregates rest) : Cleared aggregates (name :: rest)

theorem mem_usersOf : a ∈ aggregates.usersOf b ↔ aggregates.Uses a b := by
  rw [usersOf, List.mem_filter, List.contains_iff_mem, Uses, and_iff_right_iff_imp]
  intro huses
  obtain ⟨entry, hentry, -⟩ := mem_uses.mp huses
  exact List.mem_map_of_mem (Entries.mem_of_lookup_eq_some hentry)

theorem usersOf_subset_names : aggregates.usersOf name ⊆ aggregates.names :=
  List.Subset.trans (List.filter_subset_self _) keys_subset_names

/-- From a cleared name on, one comes to an end along users. -/
theorem Cleared.acc (h : Cleared aggregates cleared) : ∀ name ∈ cleared, Acc aggregates.Uses name := by
  induction h with
  | nil => exact List.forall_mem_nil _
  | cons users others ih =>
    refine List.forall_mem_cons.mpr ⟨⟨_, fun user huser => ?_⟩, ih⟩
    exact ih user (users (mem_usersOf.mpr huser))

theorem Cleared.acyclic (h : Cleared aggregates cleared) (hall : aggregates.names ⊆ cleared) : aggregates.Acyclic := by
  intro name hcircle
  have hnames : name ∈ aggregates.names := by
    obtain ⟨used, -, huses⟩ := Relation.TransGen.tail'_iff.mp hcircle
    exact uses_subset_names huses
  have hacc := (h.acc name (hall hnames)).transGen
  clear hnames
  induction hacc with
  | intro name hrest ih => exact ih name hcircle hcircle

/-! ### The search -/

/-- A path back to its start along which every name is used by the next, and none comes twice on the way. -/
structure IsCircle (aggregates : Aggregates) (path : List String) : Prop where
  closed : ∃ first others, path = first :: others ++ [first] ∧ (first :: others).Nodup
  linked : path.IsChain fun used user => aggregates.Uses user used

/-- What a search has to keep: it goes along users, and is nowhere twice. -/
structure IsWay (aggregates : Aggregates) (path : List String) : Prop where
  nodup : path.Nodup
  subset : path ⊆ aggregates.names
  linked : path.IsChain fun used user => aggregates.Uses user used

theorem IsWay.snoc (h : IsWay aggregates (path ++ [name])) (huser : a ∈ aggregates.usersOf name)
    (hnew : a ∉ path ++ [name]) : IsWay aggregates (path ++ [name] ++ [a]) where
  nodup := List.nodup_append'.mpr ⟨h.nodup, List.nodup_singleton a, List.disjoint_singleton.mpr hnew⟩
  subset := List.append_subset.mpr ⟨h.subset, List.cons_subset.mpr ⟨usersOf_subset_names huser, List.nil_subset _⟩⟩
  linked := List.isChain_append.mpr ⟨h.linked, List.isChain_singleton a, by simpa using mem_usersOf.mp huser⟩

/-- A way that comes back to one of its names is a circle from there on. -/
theorem IsWay.isCircle (h : IsWay aggregates (path ++ [name])) (huser : a ∈ aggregates.usersOf name)
    (hback : a ∈ path ++ [name]) : IsCircle aggregates ((path ++ [name]).dropWhile (· ≠ a) ++ [a]) := by
  obtain ⟨before, after, hway, hbefore⟩ := List.eq_append_cons_of_mem hback
  have hlast : (a :: after).getLast? = some name := by
    have hends := congrArg List.getLast? hway
    rwa [List.getLast?_append_of_ne_nil _ (List.cons_ne_nil _ _), List.getLast?_append_of_ne_nil _ (List.cons_ne_nil _ _),
      List.getLast?_singleton, eq_comm] at hends
  have hcircle : (path ++ [name]).dropWhile (· ≠ a) = a :: after := by
    have hne : ∀ other ∈ before, decide (other ≠ a) = true := fun other hother =>
      decide_eq_true fun heq => hbefore (heq ▸ hother)
    rw [hway, List.dropWhile_append_of_pos hne, List.dropWhile_cons_of_neg (by simp)]
  have hsuffix : a :: after <:+ path ++ [name] := ⟨before, hway.symm⟩
  rw [hcircle]
  refine ⟨⟨a, after, rfl, h.nodup.sublist hsuffix.sublist⟩, List.isChain_append.mpr ⟨h.linked.suffix hsuffix, ?_, ?_⟩⟩
  · exact List.isChain_singleton a
  · rw [hlast]
    simpa using mem_usersOf.mp huser

/-- One step of the search: on to a user of the last name on the way. -/
def visit (aggregates : Aggregates) (bound : Nat) (path cleared : List String) (next : String) :
    Except (List String) (List String) :=
  if path.contains next then .error (path.dropWhile (· ≠ next) ++ [next])
  else if cleared.contains next then .ok cleared
  else aggregates.search bound path cleared next

theorem search_succ (bound : Nat) : aggregates.search (bound + 1) path cleared name = (do
    let cleared ← (aggregates.usersOf name).foldlM (aggregates.visit bound (path ++ [name])) cleared
    return name :: cleared) :=
  rfl

/-- A search that stops has found a circle. -/
theorem isCircle_of_search {bound : Nat} {circle : List String} (hway : IsWay aggregates (path ++ [name]))
    (h : aggregates.search bound path cleared name = .error circle) : IsCircle aggregates circle := by
  induction bound generalizing path cleared name with
  | zero => cases h
  | succ bound ih =>
    rw [search_succ] at h
    obtain hstep | ⟨acc, -, hdone⟩ := bind_eq_error_iff.mp h
    · obtain ⟨before, next, after, acc, husers, -, hvisit⟩ := foldlM_eq_error_iff.mp hstep
      have huser : next ∈ aggregates.usersOf name := husers ▸ List.mem_append_right _ List.mem_cons_self
      rw [visit] at hvisit
      split at hvisit
      · rename_i hback
        cases hvisit
        exact hway.isCircle huser (List.contains_iff_mem.mp hback)
      split at hvisit
      · cases hvisit
      · rename_i hnew _
        exact ih (hway.snoc huser fun hback => hnew (List.contains_iff_mem.mpr hback)) hvisit
    · cases hdone

/-- A fold that comes back has done with every item what its steps do, and lost nothing of what it had. -/
private theorem subset_of_foldlM {f : List String → String → Except (List String) (List String)}
    {items start result : List String} {P : List String → Prop} (hstart : P start)
    (hstep : ∀ item ∈ items, ∀ acc next, P acc → f acc item = .ok next → P next ∧ acc ⊆ next ∧ item ∈ next)
    (h : items.foldlM f start = .ok result) : P result ∧ start ⊆ result ∧ items ⊆ result := by
  induction items generalizing start with
  | nil =>
    cases h
    exact ⟨hstart, List.Subset.refl _, List.nil_subset _⟩
  | cons item items ih =>
    obtain ⟨hitem, hitems⟩ := List.forall_mem_cons.mp hstep
    rw [List.foldlM_cons] at h
    obtain ⟨next, hnext, h⟩ := exists_of_bind_eq_ok h
    obtain ⟨hP, hkept, hmem⟩ := hitem start next hstart hnext
    obtain ⟨hresult, hsubset, hrest⟩ := ih hP hitems h
    exact ⟨hresult, List.Subset.trans hkept hsubset, List.cons_subset.mpr ⟨hsubset hmem, hrest⟩⟩

/-- A search that comes back has cleared the name where it started. Its bound lets it go on, as a way has room. -/
theorem cleared_of_search {bound : Nat} {result : List String} (hway : IsWay aggregates (path ++ [name]))
    (hbound : aggregates.names.length < path.length + bound) (hcleared : Cleared aggregates cleared)
    (h : aggregates.search bound path cleared name = .ok result) :
    Cleared aggregates result ∧ cleared ⊆ result ∧ name ∈ result := by
  have hroom := hway.nodup.length_le_of_subset hway.subset
  rw [List.length_append, List.length_singleton] at hroom
  induction bound generalizing path cleared name result with
  | zero => omega
  | succ bound ih =>
    rw [search_succ] at h
    obtain ⟨acc, hacc, hdone⟩ := exists_of_bind_eq_ok h
    cases hdone
    have hstep : ∀ next ∈ aggregates.usersOf name, ∀ acc result, Cleared aggregates acc →
        aggregates.visit bound (path ++ [name]) acc next = .ok result →
          Cleared aggregates result ∧ acc ⊆ result ∧ next ∈ result := by
      intro next huser acc result hacc hvisit
      rw [visit] at hvisit
      split at hvisit
      · cases hvisit
      split at hvisit
      · rename_i hmem
        cases hvisit
        exact ⟨hacc, List.Subset.refl _, List.contains_iff_mem.mp hmem⟩
      · rename_i hnew _
        have hnext := hway.snoc huser fun hback => hnew (List.contains_iff_mem.mpr hback)
        have hroom' := hnext.nodup.length_le_of_subset hnext.subset
        rw [List.length_append, List.length_singleton] at hroom'
        refine ih hnext ?_ hacc hvisit hroom'
        rw [List.length_append, List.length_singleton]
        omega
    obtain ⟨hcleared, hkept, husers⟩ := subset_of_foldlM hcleared hstep hacc
    exact ⟨.cons husers hcleared, List.subset_cons_of_subset _ hkept, List.mem_cons_self⟩

/-- If names use each other in circles, the path that is reported is one of them. -/
theorem isCircle_circle (h : ¬aggregates.Acyclic) : IsCircle aggregates aggregates.circle := by
  have hstart : ∀ name ∈ aggregates.names, IsWay aggregates ([] ++ [name]) := fun name hname =>
    ⟨List.nodup_singleton name, List.cons_subset.mpr ⟨hname, List.nil_subset _⟩, List.isChain_singleton name⟩
  rw [circle]
  split
  · rename_i cleared hcleared
    refine absurd ?_ h
    have hstep : ∀ name ∈ aggregates.names, ∀ acc result, Cleared aggregates acc →
        (if acc.contains name then .ok acc else aggregates.search (aggregates.names.length + 1) [] acc name)
          = Except.ok result → Cleared aggregates result ∧ acc ⊆ result ∧ name ∈ result := by
      intro name hname acc result hacc hvisit
      split at hvisit
      · rename_i hmem
        cases hvisit
        exact ⟨hacc, List.Subset.refl _, List.contains_iff_mem.mp hmem⟩
      · exact cleared_of_search (hstart name hname) (by simp) hacc hvisit
    obtain ⟨hcleared, -, hall⟩ := subset_of_foldlM .nil hstep hcleared
    exact hcleared.acyclic hall
  · rename_i path hpath
    obtain ⟨before, name, after, acc, hnames, -, hsearch⟩ := foldlM_eq_error_iff.mp hpath
    have hname : name ∈ aggregates.names := hnames ▸ List.mem_append_right _ List.mem_cons_self
    split at hsearch
    · cases hsearch
    · exact isCircle_of_search (hstart name hname) hsearch

/-! ### Dependency orders -/

theorem names_perm_keys (hnodup : aggregates.keys.Nodup)
    (hknown : ∀ entry ∈ aggregates, entry.2.aliasRefs ⊆ aggregates.keys) :
    aggregates.names.Perm aggregates.keys := by
  refine (List.perm_ext_iff_of_nodup (nodup_distinctItems _) hnodup).mpr fun name => ⟨fun hname => ?_, fun hname => ?_⟩
  · rw [mem_distinctItems, List.mem_flatMap] at hname
    obtain ⟨entry, hentry, hname⟩ := hname
    rcases List.mem_cons.mp hname with rfl | hname
    · exact List.mem_map_of_mem hentry
    · exact hknown entry hentry (List.mem_of_mem_filter (List.mem_mergeSort.mp hname))
  · exact keys_subset_names hname

/--
If no aggregate uses itself, be it through others, all of them are put in an order, each after those that it uses, and
this order comes before every other one of the kind. Otherwise the aggregates are refused, and the path that is reported
comes back to where it starts, passes every other name once, and has each name used by the next.
-/
theorem dependencyOrder_isLeast_or_circular (hnodup : aggregates.keys.Nodup)
    (hknown : ∀ entry ∈ aggregates, entry.2.aliasRefs ⊆ aggregates.keys) :
    (aggregates.Acyclic → ∃ order, aggregates.dependencyOrder = .ok order ∧ order.Perm aggregates.keys
      ∧ Ordered aggregates order
      ∧ ∀ other, other.Perm aggregates.keys → Ordered aggregates other → other = order ∨ List.Lex (· < ·) order other)
    ∧ (¬aggregates.Acyclic → ∃ path, aggregates.dependencyOrder = .error (.circular path)
      ∧ (ExpressionError.circular path).message = "circular aggregate references: " ++ " -> ".intercalate path
      ∧ IsCircle aggregates path) := by
  have hkeys := names_perm_keys hnodup hknown
  constructor
  · intro hacyclic
    obtain ⟨order, horder⟩ := exists_dependencyOrder_iff.mpr hacyclic
    obtain ⟨hordered, hperm⟩ := ordered_of_dependencyOrder horder
    refine ⟨order, horder, hperm.trans hkeys, hordered, fun other hother hafter => ?_⟩
    have hafter' : Ordered aggregates ([] ++ other) := hafter
    have hleast := lex_sorted aggregates.names.length le_rfl hafter' (hother.trans hkeys.symm)
      (hother.nodup_iff.mpr hnodup)
    rwa [dependencyOrder_eq_ok.mp horder] at hleast
  · intro hcyclic
    cases horder : aggregates.dependencyOrder with
    | ok order => exact absurd (exists_dependencyOrder_iff.mp ⟨order, horder⟩) hcyclic
    | error error =>
      refine ⟨aggregates.circle, ?_, rfl, isCircle_circle hcyclic⟩
      rw [← horder, dependencyOrder]
      split
      · rename_i hsorted
        rw [dependencyOrder_eq_ok.mpr hsorted] at horder
        cases horder
      · rfl

/-! ### Figures of orders -/

section

open Expression

/-- What orders are worth, on average too, how far the dearest is above that, and how many there are. -/
def orderFigures : Aggregates :=
  let known := ["worth", "mean", "excess", "number"]
  let ofAmounts (function : AggregateFunction) := aggregate function [column [⟨"o", false⟩] ⟨"amount", false⟩]
  [("worth", .ofTree "worth" known (ofAmounts .sum)),
    ("mean", .ofTree "mean" known (binary .div (column [] ⟨"worth", false⟩) (ofAmounts .count))),
    ("excess", .ofTree "excess" known (binary .sub (ofAmounts .max) (column [] ⟨"mean", false⟩))),
    ("number", .ofTree "number" known (ofAmounts .count))]

/-- Gain and costs, each as what the other leaves. -/
def gainAndCosts : Aggregates :=
  let known := ["gain", "costs"]
  let worth := aggregate .sum [column [⟨"o", false⟩] ⟨"amount", false⟩]
  [("gain", .ofTree "gain" known (binary .sub worth (column [] ⟨"costs", false⟩))),
    ("costs", .ofTree "costs" known (binary .sub worth (column [] ⟨"gain", false⟩)))]

end

/-- The figures of orders are in order, and gain and costs are not. -/
theorem orderFigures_or_gainAndCosts :
    (orderFigures.keys.Nodup ∧ (∀ entry ∈ orderFigures, entry.2.aliasRefs ⊆ orderFigures.keys)
      ∧ orderFigures.dependencyOrder = .ok ["number", "worth", "mean", "excess"]
      ∧ ∀ other, other.Perm orderFigures.keys → Ordered orderFigures other →
        other = ["number", "worth", "mean", "excess"]
          ∨ List.Lex (· < ·) ["number", "worth", "mean", "excess"] other)
    ∧ gainAndCosts.keys.Nodup ∧ (∀ entry ∈ gainAndCosts, entry.2.aliasRefs ⊆ gainAndCosts.keys)
      ∧ gainAndCosts.dependencyOrder = .error (.circular ["gain", "costs", "gain"])
      ∧ IsCircle gainAndCosts ["gain", "costs", "gain"] := by
  have hfigures : orderFigures.keys.Nodup := by decide
  have hknown : ∀ entry ∈ orderFigures, entry.2.aliasRefs ⊆ orderFigures.keys := by decide
  have horder : orderFigures.dependencyOrder = .ok ["number", "worth", "mean", "excess"] := by cbv
  have hcircular : gainAndCosts.keys.Nodup := by decide
  have hknown' : ∀ entry ∈ gainAndCosts, entry.2.aliasRefs ⊆ gainAndCosts.keys := by decide
  have herror : gainAndCosts.dependencyOrder = .error (.circular ["gain", "costs", "gain"]) := by cbv
  refine ⟨⟨hfigures, hknown, horder, ?_⟩, hcircular, hknown', herror, ?_⟩
  · obtain ⟨order, hok, -, -, hleast⟩ :=
      (dependencyOrder_isLeast_or_circular hfigures hknown).1 (exists_dependencyOrder_iff.mp ⟨_, horder⟩)
    obtain rfl := Except.ok.inj (horder.symm.trans hok)
    exact hleast
  · have hcyclic : ¬gainAndCosts.Acyclic := fun hacyclic => by
      obtain ⟨order, hok⟩ := exists_dependencyOrder_iff.mpr hacyclic
      rw [herror] at hok
      cases hok
    obtain ⟨path, hpath, -, hcircle⟩ := (dependencyOrder_isLeast_or_circular hcircular hknown').2 hcyclic
    obtain rfl := ExpressionError.circular.inj (Except.error.inj (herror.symm.trans hpath))
    exact hcircle

end Aggregates

end QueryFederation

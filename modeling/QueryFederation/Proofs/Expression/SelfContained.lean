import QueryFederation.Proofs.Expression.Inlining

/-!
# Expressions that can be written out

An expression with calls, columns inside of them and no aliases says what it computes without any other. Inlining makes
such expressions of aggregates that the analysis accepts. It may put a call into a call, though: the analysis looks at
each aggregate by itself, where an alias inside of a call is not yet a call. So calls stay apart exactly if no alias is
inside of a call.
-/

namespace QueryFederation

namespace Expression

/-- Has it calls, columns only inside of them, and neither aliases nor stars of tables? -/
structure IsResolved (e : Expression) : Prop where
  hasCall : ∃ calls, (.call, calls) ∈ e.occurrences 0
  inCall : ∀ table name calls, (.reference (.column table name), calls) ∈ e.occurrences 0 → 1 ≤ calls
  notAlias : ∀ name calls, (.reference (.aliasName name), calls) ∉ e.occurrences 0
  notStar : ∀ table calls, (.allColumns table, calls) ∉ e.occurrences 0

/-- Is moreover no call inside of another, and every column in just one? -/
structure IsSelfContained (e : Expression) : Prop extends IsResolved e where
  outermost : ∀ calls, (.call, calls) ∈ e.occurrences 0 → calls = 0
  inOneCall : ∀ table name calls, (.reference (.column table name), calls) ∈ e.occurrences 0 → calls = 1

end Expression

namespace Aggregates

open Expression

variable {aggregates : Aggregates} {known order : List String} {resolved : Entries Expression} {name : String}
  {a : AnalyzedAggregate}

/-! ### What an analyzed aggregate mentions -/

theorem AreAnalyzed.mem_aliasRefs (h : aggregates.AreAnalyzed known) {entry : String × AnalyzedAggregate}
    (hentry : entry ∈ aggregates) {used : String} :
    used ∈ entry.2.aliasRefs ↔ ∃ calls, (.reference (.aliasName used), calls) ∈ entry.2.tree.occurrences 0 := by
  have hreference : used ∈ entry.2.aliasRefs
      ↔ .aliasName used ∈ entry.2.tree.references ∧ used ∈ known := by
    rw [h.analyzed entry hentry, AnalyzedAggregate.ofTree]
    simp only [mem_distinctItems, List.mem_filterMap]
    constructor
    · rintro ⟨r, hr, hsome⟩
      cases r with
      | column table column => cases hsome
      | aliasName other =>
        simp only at hsome
        split at hsome
        · rename_i hknown
          cases hsome
          exact ⟨hr, List.contains_iff_mem.mp hknown⟩
        · cases hsome
    · rintro ⟨hr, hknown⟩
      exact ⟨_, hr, if_pos (List.contains_iff_mem.mpr hknown)⟩
  rw [hreference, references_eq_filterMap 0, List.mem_filterMap]
  constructor
  · rintro ⟨⟨⟨occurrence, calls⟩, ho, hsome⟩, -⟩
    cases occurrence with
    | reference r =>
      cases hsome
      exact ⟨calls, ho⟩
    | _ => cases hsome
  · rintro ⟨calls, ho⟩
    exact ⟨⟨_, ho, rfl⟩, (h.isAllowed hentry _ ho).1⟩

/-- What is mentioned by an alias is used. -/
theorem AreAnalyzed.mem_uses (h : aggregates.AreAnalyzed known) (hlookup : aggregates.lookup name = some a)
    {used : String} {calls : Nat} (ho : (.reference (.aliasName used), calls) ∈ a.tree.occurrences 0) :
    used ∈ aggregates.uses name := by
  have hentry := Entries.mem_of_lookup_eq_some hlookup
  exact Aggregates.mem_uses.mpr ⟨a, hlookup, (h.mem_aliasRefs hentry).mpr ⟨calls, ho⟩, (h.isAllowed hentry _ ho).2⟩

/-- There is a call or the alias of another aggregate. -/
theorem AreAnalyzed.exists_call_or_alias (h : aggregates.AreAnalyzed known) {entry : String × AnalyzedAggregate}
    (hentry : entry ∈ aggregates) : ∃ o ∈ entry.2.tree.occurrences 0, o.1 = .call ∨ o.1.isAlias = true := by
  obtain ⟨-, hlacking⟩ := List.append_eq_nil_iff.mp ((h.problems_eq hentry).symm.trans (h.problems entry hentry))
  by_cases hcount : entry.2.tree.aggregateCount = 0
  · have hrefs : entry.2.aliasRefs ≠ [] := by
      rintro hnone
      simp [hcount, hnone] at hlacking
    obtain ⟨used, hused⟩ := List.exists_mem_of_ne_nil _ hrefs
    obtain ⟨calls, ho⟩ := (h.mem_aliasRefs hentry).mp hused
    exact ⟨_, ho, Or.inr rfl⟩
  · rw [aggregateCount_eq_countP 0] at hcount
    obtain ⟨o, ho, hcall⟩ := List.countP_pos_iff.mp (Nat.pos_of_ne_zero hcount)
    exact ⟨o, ho, Or.inl (of_decide_eq_true hcall)⟩

/-! ### Inlining an analyzed aggregate -/

section

variable {e : Expression} {earlier : Entries Expression} {o : Occurrence × Nat}

/-- What occurs once all aliases are replaced: all but the aliases, and what occurs in their expressions. -/
theorem mem_occurrences_inline (hresolved : ∀ used calls, (.reference (.aliasName used), calls) ∈ e.occurrences 0 →
      ∃ t, earlier.lookup used = some t) :
    o ∈ (e.inline earlier).occurrences 0 ↔ o ∈ e.occurrences 0 ∧ o.1.isAlias = false
      ∨ ∃ used calls t, (.reference (.aliasName used), calls) ∈ e.occurrences 0 ∧ earlier.lookup used = some t
        ∧ ∃ inner ∈ t.occurrences 0, Occurrence.within calls inner = o := by
  have hexpand : ∀ {used calls t}, earlier.lookup used = some t →
      expand earlier (.reference (.aliasName used), calls) = (t.occurrences 0).map (Occurrence.within calls) := by
    intro used calls t ht
    have hmore := occurrences_add 0 calls t
    rw [Nat.zero_add] at hmore
    simp only [expand, ht, hmore]
  have hother : ∀ {o : Occurrence × Nat}, o.1.isAlias = false → expand earlier o = [o] := by
    rintro ⟨occurrence, calls⟩ hnot
    cases occurrence with
    | reference r =>
      cases r with
      | column table column => rfl
      | aliasName used => cases hnot
    | _ => rfl
  rw [occurrences_inline, List.mem_flatMap]
  constructor
  · rintro ⟨⟨occurrence, calls⟩, ho, hmem⟩
    cases halias : occurrence.isAlias with
    | false =>
      rw [hother halias, List.mem_singleton] at hmem
      subst hmem
      exact Or.inl ⟨ho, halias⟩
    | true =>
      obtain ⟨used, rfl⟩ := Occurrence.exists_of_isAlias halias
      obtain ⟨t, ht⟩ := hresolved used calls ho
      rw [hexpand ht] at hmem
      exact Or.inr ⟨used, calls, t, ho, ht, List.mem_map.mp hmem⟩
  · rintro (⟨ho, halias⟩ | ⟨used, calls, t, ho, ht, hinner⟩)
    · exact ⟨o, ho, by rw [hother halias]; exact List.mem_singleton.mpr rfl⟩
    · exact ⟨_, ho, by rw [hexpand ht]; exact List.mem_map.mpr hinner⟩

end

variable {earlier : Entries Expression}

/-- Have all aliases that an aggregate uses been replaced by expressions of some property? -/
def Replaced (aggregates : Aggregates) (earlier : Entries Expression) (P : Expression → Prop) (name : String) : Prop :=
  ∀ used ∈ aggregates.uses name, ∃ t, earlier.lookup used = some t ∧ P t

theorem AreAnalyzed.mem_occurrences_inline (h : aggregates.AreAnalyzed known)
    (hlookup : aggregates.lookup name = some a) {P : Expression → Prop} (hreplaced : aggregates.Replaced earlier P name)
    (o : Occurrence × Nat) :
    o ∈ (a.tree.inline earlier).occurrences 0 ↔ o ∈ a.tree.occurrences 0 ∧ o.1.isAlias = false
      ∨ ∃ used calls t, (.reference (.aliasName used), calls) ∈ a.tree.occurrences 0 ∧ earlier.lookup used = some t
        ∧ ∃ inner ∈ t.occurrences 0, Occurrence.within calls inner = o :=
  Aggregates.mem_occurrences_inline fun used _ ho =>
    (hreplaced used (h.mem_uses hlookup ho)).imp fun _ => And.left

theorem AreAnalyzed.isResolved_inline (h : aggregates.AreAnalyzed known) (hlookup : aggregates.lookup name = some a)
    (hreplaced : aggregates.Replaced earlier IsResolved name) : (a.tree.inline earlier).IsResolved := by
  have hentry := Entries.mem_of_lookup_eq_some hlookup
  have hmem := fun o => h.mem_occurrences_inline hlookup hreplaced o
  have hinner : ∀ {used calls t}, (.reference (.aliasName used), calls) ∈ a.tree.occurrences 0 →
      earlier.lookup used = some t → t.IsResolved := by
    intro used calls t ho ht
    obtain ⟨t', ht', hresolved⟩ := hreplaced used (h.mem_uses hlookup ho)
    rwa [Option.some.inj (ht.symm.trans ht')]
  refine ⟨?_, fun table column calls ho => ?_, fun used calls ho => ?_, fun table calls ho => ?_⟩
  · obtain ⟨⟨occurrence, calls⟩, ho, rfl | halias⟩ := h.exists_call_or_alias hentry
    · exact ⟨calls, (hmem _).mpr (Or.inl ⟨ho, rfl⟩)⟩
    · obtain ⟨used, rfl⟩ := Occurrence.exists_of_isAlias halias
      obtain ⟨t, ht, hresolved⟩ := hreplaced used (h.mem_uses hlookup ho)
      obtain ⟨inner, hcall⟩ := hresolved.hasCall
      exact ⟨inner + calls, (hmem _).mpr (Or.inr ⟨used, calls, t, ho, ht, _, hcall, rfl⟩)⟩
  · rcases (hmem _).mp ho with ⟨ho, -⟩ | ⟨used, outer, t, hused, ht, ⟨occurrence, inner⟩, hin, heq⟩
    · exact Nat.le_of_eq (h.isAllowed hentry _ ho).symm
    · cases heq
      exact Nat.le_add_right_of_le ((hinner hused ht).inCall _ _ _ hin)
  · rcases (hmem _).mp ho with ⟨-, halias⟩ | ⟨used', outer, t, hused, ht, ⟨occurrence, inner⟩, hin, heq⟩
    · cases halias
    · cases heq
      exact (hinner hused ht).notAlias _ _ hin
  · rcases (hmem _).mp ho with ⟨ho, -⟩ | ⟨used, outer, t, hused, ht, ⟨occurrence, inner⟩, hin, heq⟩
    · exact h.isAllowed hentry _ ho
    · cases heq
      exact (hinner hused ht).notStar _ _ hin

/-- Where aliases are outside of calls, self-contained expressions for them make a self-contained expression. -/
theorem AreAnalyzed.isSelfContained_inline (h : aggregates.AreAnalyzed known) (hlookup : aggregates.lookup name = some a)
    (hout : AliasesOutside (a.tree.occurrences 0)) (hreplaced : aggregates.Replaced earlier IsSelfContained name) :
    (a.tree.inline earlier).IsSelfContained := by
  have hentry := Entries.mem_of_lookup_eq_some hlookup
  have hmem := fun o => h.mem_occurrences_inline hlookup hreplaced o
  have hinner : ∀ {used calls t}, (.reference (.aliasName used), calls) ∈ a.tree.occurrences 0 →
      earlier.lookup used = some t → calls = 0 ∧ t.IsSelfContained := by
    intro used calls t ho ht
    obtain ⟨t', ht', hcontained⟩ := hreplaced used (h.mem_uses hlookup ho)
    rw [Option.some.inj (ht.symm.trans ht')]
    exact ⟨hout _ ho rfl, hcontained⟩
  refine ⟨h.isResolved_inline hlookup fun used hused => ?_, fun calls ho => ?_, fun table column calls ho => ?_⟩
  · exact (hreplaced used hused).imp fun _ => And.imp_right IsSelfContained.toIsResolved
  · rcases (hmem _).mp ho with ⟨ho, -⟩ | ⟨used, outer, t, hused, ht, ⟨occurrence, inner⟩, hin, heq⟩
    · exact h.isAllowed hentry _ ho
    · cases heq
      obtain ⟨rfl, hcontained⟩ := hinner hused ht
      exact hcontained.outermost _ hin
  · rcases (hmem _).mp ho with ⟨ho, -⟩ | ⟨used, outer, t, hused, ht, ⟨occurrence, inner⟩, hin, heq⟩
    · exact h.isAllowed hentry _ ho
    · cases heq
      obtain ⟨rfl, hcontained⟩ := hinner hused ht
      exact hcontained.inOneCall _ _ _ hin

/-- An alias inside of a call puts the calls of its expression there. -/
theorem AreAnalyzed.aliasesOutside_of_inline (h : aggregates.AreAnalyzed known)
    (hlookup : aggregates.lookup name = some a) (hreplaced : aggregates.Replaced earlier IsResolved name)
    (hcontained : (a.tree.inline earlier).IsSelfContained) : AliasesOutside (a.tree.occurrences 0) := by
  rintro ⟨occurrence, calls⟩ ho halias
  obtain ⟨used, rfl⟩ := Occurrence.exists_of_isAlias halias
  obtain ⟨t, ht, hresolved⟩ := hreplaced used (h.mem_uses hlookup ho)
  obtain ⟨inner, hcall⟩ := hresolved.hasCall
  have houtermost := hcontained.outermost (inner + calls)
    ((h.mem_occurrences_inline hlookup hreplaced _).mpr (Or.inr ⟨used, calls, t, ho, ht, _, hcall, rfl⟩))
  exact Nat.eq_zero_of_add_eq_zero_left houtermost

/-! ### Inlining all aggregates in order -/

theorem nodup_keys_foldl_inlineStep (order : List String) (h : resolved.keys.Nodup) :
    (order.foldl aggregates.inlineStep resolved).keys.Nodup := by
  induction order generalizing resolved with
  | nil => exact h
  | cons name order ih =>
    refine ih ?_
    rw [inlineStep]
    split
    · exact Entries.nodup_keys_put _ _ h
    · exact h

private theorem keys_foldl_subset (order : List String) (h : resolved.keys ⊆ aggregates.keys) :
    (order.foldl aggregates.inlineStep resolved).keys ⊆ aggregates.keys := by
  induction order generalizing resolved with
  | nil => exact h
  | cons name order ih =>
    refine ih ?_
    rw [inlineStep]
    split
    · rename_i a hlookup
      intro key hkey
      rcases Entries.mem_keys_put.mp hkey with rfl | hkey
      · exact List.mem_map_of_mem (Entries.mem_of_lookup_eq_some hlookup)
      · exact h hkey
    · exact h

theorem keys_foldl_inlineStep_subset (order : List String) :
    (order.foldl aggregates.inlineStep []).keys ⊆ aggregates.keys :=
  keys_foldl_subset order fun _ hkey => by cases hkey

/-- An order of aggregates that use only each other. -/
structure IsOrder (aggregates : Aggregates) (order : List String) : Prop where
  ordered : aggregates.Ordered order
  nodup : order.Nodup
  keys_subset : aggregates.keys ⊆ order
  closed : ∀ name, aggregates.uses name ⊆ aggregates.keys

theorem AreAnalyzed.isOrder (h : aggregates.AreAnalyzed known) (hknown : known ⊆ aggregates.keys)
    (horder : aggregates.dependencyOrder = .ok order) : aggregates.IsOrder order := by
  obtain ⟨hordered, hperm⟩ := ordered_of_dependencyOrder horder
  refine ⟨hordered, hperm.nodup_iff.mpr (nodup_distinctItems _), fun name hname => ?_, fun name used hused => ?_⟩
  · exact hperm.mem_iff.mpr (keys_subset_names hname)
  · obtain ⟨a, hlookup, hmem, -⟩ := Aggregates.mem_uses.mp hused
    have hentry := Entries.mem_of_lookup_eq_some hlookup
    obtain ⟨calls, ho⟩ := (h.mem_aliasRefs hentry).mp hmem
    exact hknown (h.isAllowed hentry _ ho).1

/-- Every aggregate is inlined with the expressions of those it uses, so what inlining makes of these passes on. -/
theorem exists_of_ordered {order : List String} (hordered : aggregates.Ordered order) (hnodup : order.Nodup)
    (hclosed : ∀ name, aggregates.uses name ⊆ aggregates.keys) {P : Expression → Prop}
    (hinline : ∀ name a earlier, aggregates.lookup name = some a → aggregates.Replaced earlier P name →
      P (a.tree.inline earlier)) :
    ∀ name ∈ order, ∀ a, aggregates.lookup name = some a →
      ∃ earlier, (order.foldl aggregates.inlineStep []).lookup name = some (a.tree.inline earlier)
        ∧ aggregates.Replaced earlier P name := by
  induction hordered with
  | nil => exact List.forall_mem_nil _
  | @snoc before last rest ready ih =>
    obtain ⟨hbefore, -, hapart⟩ := List.nodup_append.mp hnodup
    have ih := ih hbefore
    intro name hname a hlookup
    rw [List.foldl_append, List.foldl_cons, List.foldl_nil]
    rcases List.mem_append.mp hname with hname | hname
    · obtain ⟨earlier, hearlier, hreplaced⟩ := ih name hname a hlookup
      refine ⟨earlier, ?_, hreplaced⟩
      have hne : name ≠ last := hapart name hname last (List.mem_singleton.mpr rfl)
      rw [inlineStep]
      split
      · rw [Entries.lookup_put, if_neg hne, hearlier]
      · exact hearlier
    · obtain rfl := List.mem_singleton.mp hname
      refine ⟨before.foldl aggregates.inlineStep [], ?_, fun used hused => ?_⟩
      · rw [inlineStep, hlookup]
        simp only [Entries.lookup_put, if_true]
      · cases husedLookup : aggregates.lookup used with
        | none => exact absurd (hclosed name hused) (Entries.lookup_eq_none_iff.mp husedLookup)
        | some b =>
          obtain ⟨earlier, hearlier, hreplaced⟩ := ih used (ready used hused) b husedLookup
          exact ⟨_, hearlier, hinline used b earlier husedLookup hreplaced⟩

namespace IsOrder

variable (horder : aggregates.IsOrder order) {P : Expression → Prop}
  (hinline : ∀ name a earlier, aggregates.lookup name = some a → aggregates.Replaced earlier P name →
    P (a.tree.inline earlier))

include horder hinline

/-- Under the name of every aggregate there is its expression, and the expressions for its aliases are of the property. -/
theorem exists_of_lookup (hlookup : aggregates.lookup name = some a) :
    ∃ earlier, (name, a.tree.inline earlier) ∈ order.foldl aggregates.inlineStep []
      ∧ aggregates.Replaced earlier P name := by
  have hmem : name ∈ order := horder.keys_subset (List.mem_map_of_mem (Entries.mem_of_lookup_eq_some hlookup))
  obtain ⟨earlier, hearlier, hreplaced⟩ :=
    exists_of_ordered horder.ordered horder.nodup horder.closed hinline name hmem a hlookup
  exact ⟨earlier, Entries.mem_of_lookup_eq_some hearlier, hreplaced⟩

/-- All expressions come from aggregates in this way. -/
theorem exists_of_mem {entry : String × Expression} (hentry : entry ∈ order.foldl aggregates.inlineStep []) :
    ∃ a earlier, aggregates.lookup entry.1 = some a ∧ entry.2 = a.tree.inline earlier
      ∧ aggregates.Replaced earlier P entry.1 := by
  have hkey : entry.1 ∈ aggregates.keys :=
    keys_foldl_inlineStep_subset order (List.mem_map_of_mem hentry)
  have hnodup : (order.foldl aggregates.inlineStep []).keys.Nodup := nodup_keys_foldl_inlineStep order List.nodup_nil
  cases hlookup : aggregates.lookup entry.1 with
  | none => exact absurd hkey (Entries.lookup_eq_none_iff.mp hlookup)
  | some a =>
    obtain ⟨earlier, hmem, hreplaced⟩ := horder.exists_of_lookup hinline hlookup
    have heq : some entry.2 = some (a.tree.inline earlier) :=
      (Entries.lookup_of_mem hnodup hentry).symm.trans (Entries.lookup_of_mem hnodup hmem)
    exact ⟨a, earlier, rfl, Option.some.inj heq, hreplaced⟩

/-- The property is one of all expressions. -/
theorem forall_mem {entry : String × Expression} (hentry : entry ∈ order.foldl aggregates.inlineStep []) : P entry.2 := by
  obtain ⟨a, earlier, hlookup, heq, hreplaced⟩ := horder.exists_of_mem hinline hentry
  rw [heq]
  exact hinline _ a earlier hlookup hreplaced

end IsOrder

end Aggregates

end QueryFederation

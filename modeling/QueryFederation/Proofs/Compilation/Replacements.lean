import Mathlib
import QueryFederation.Proofs.Compilation.Cleanup
import QueryFederation.Proofs.Expression.CleanedLiterals

/-!
# Literals of replaced texts

Validation with cleanup replaces the text of every aggregate that has a bracket, in a text literal or anywhere else.
Every literal says the same in the new text if the brackets stand around names, but a bracket within a literal is lost,
and a CASE then asks for something else.
-/

namespace QueryFederation

namespace AggregateFindings

variable {known tables : List String}

theorem mem_keys_replacing {replacements : Entries String} {name aliasName text : String} :
    name ∈ (replacing replacements aliasName text).keys
      ↔ name ∈ replacements.keys ∨ aliasName = name ∧ Expression.hasBrackets text = true := by
  rw [replacing]
  split
  · rename_i hbrackets
    rw [Entries.mem_keys_put]
    tauto
  · tauto

theorem mem_keys_replacingAll {replacements : Entries String} {items : List AggregateExpression} {name : String} :
    name ∈ (replacingAll replacements items).keys
      ↔ name ∈ replacements.keys ∨ ∃ a ∈ items, a.aliasName = name ∧ Expression.hasBrackets a.expression = true := by
  induction items generalizing replacements with
  | nil => simp [replacingAll]
  | cons item items ih =>
    rw [replacingAll, List.foldl_cons, ← replacingAll, ih, mem_keys_replacing, or_assoc, List.exists_mem_cons_iff]

theorem mem_replacingAll {replacements : Entries String} {items : List AggregateExpression} {entry : String × String}
    (h : entry ∈ replacingAll replacements items) : entry ∈ replacements ∨ ∃ a ∈ items, a.aliasName = entry.1
      ∧ Expression.hasBrackets a.expression = true ∧ entry.2 = Expression.stripBrackets a.expression := by
  induction items generalizing replacements with
  | nil => exact Or.inl h
  | cons item items ih =>
    rw [replacingAll, List.foldl_cons, ← replacingAll] at h
    rw [List.exists_mem_cons_iff]
    rcases ih h with h | h
    · rw [replacing] at h
      split at h
      · rename_i hbrackets
        rcases Entries.mem_of_mem_put h with rfl | h
        · exact Or.inr (Or.inl ⟨rfl, hbrackets, rfl⟩)
        · exact Or.inl h
      · exact Or.inl h
    · exact Or.inr (Or.inr h)

end AggregateFindings

namespace Description

variable {d : Description}

/--
The text of an aggregate is replaced if it has a bracket, wherever that is. The new text, unless a mark of a comment
comes together in it, has the values of all its literals if and only if none of them had a bracket, and none was led to
another one by brackets only.
-/
theorem replacements_keep_literals_iff (d : Description) :
    (∀ name, name ∈ (d.validate .strip).replacements.keys
      ↔ ∃ a ∈ d.allAggregates, a.aliasName = name ∧ Expression.hasBrackets a.expression = true)
    ∧ ∀ entry ∈ (d.validate .strip).replacements, ∃ a ∈ d.allAggregates, a.aliasName = entry.1
      ∧ Expression.hasBrackets a.expression = true ∧ entry.2 = Expression.stripBrackets a.expression
      ∧ ∀ values, Token.literalValues? a.expression.toList = some values →
        Token.partsMark a.expression.toList = false →
          ∃ found, Token.literals? a.expression.toList = some found ∧ found.map Token.Literal.value = values
            ∧ (Token.literalValues? entry.2.toList = some values ↔ ∀ literal ∈ found, literal.isKept = true) := by
  rw [replacements_validate]
  refine ⟨fun name => ?_, fun entry hentry => ?_⟩
  · rw [AggregateFindings.mem_keys_replacingAll]
    simp [Entries.keys]
  · obtain ⟨a, ha, haliasName, hbrackets, hclean⟩ :=
      (AggregateFindings.mem_replacingAll hentry).resolve_left List.not_mem_nil
    refine ⟨a, ha, haliasName, hbrackets, hclean, fun values hvalues hmarks => ?_⟩
    have hread := Token.literalValues?_eq a.expression.toList
    rw [hvalues] at hread
    obtain ⟨found, hfound, rfl⟩ := Option.map_eq_some_iff.mp hread.symm
    have hiff := Token.literalValues?_unbracketed_eq_iff hfound hmarks
    rw [hvalues] at hiff
    refine ⟨found, hfound, rfl, ?_⟩
    rw [hclean, Expression.stripBrackets, String.toList_ofList]
    exact hiff

/-- Orders with their number, and the amount of those with the tag that the text asks for. -/
def taggedAmounts (text : String) : Description := countedOrders ⟨text, "tagged"⟩

open Expression in
theorem isValid_taggedAmounts {text : String}
    (hclean : stripBrackets text = "SUM(CASE WHEN o.tag = 'a' THEN o.amount END)") :
    ((taggedAmounts text).validate .strip).isValid = true := by
  generalize htree : aggregate .sum [case none [(binary .eq (column [⟨"o", false⟩] ⟨"tag", false⟩) (.text "a"),
    column [⟨"o", false⟩] ⟨"amount", false⟩)] none] = tree
  have htokens : Token.ofText? "SUM(CASE WHEN o.tag = 'a' THEN o.amount END)" = some [.word "SUM", .symbol "(",
      .word "CASE", .word "WHEN", .word "o", .symbol ".", .word "tag", .symbol "=", .text "a", .word "THEN", .word "o",
      .symbol ".", .word "amount", .word "END", .symbol ")"] := by decide +kernel
  have haccepts : AggregateFindings.Accepts ["n", "tagged"] ["o"] "tagged"
      "SUM(CASE WHEN o.tag = 'a' THEN o.amount END)" (.ofTree "tagged" ["n", "tagged"] tree) := by
    subst htree
    exact ⟨analyze_of_tokens htokens rfl nofun, by cbv, by simp only [AnalyzedAggregate.ofTree]; decide⟩
  have horder : (countAnd "tagged" tree).dependencyOrder = .ok ["n", "tagged"] := by
    subst htree
    cbv
  have hfindings : (taggedAmounts "SUM(CASE WHEN o.tag = 'a' THEN o.amount END)").aggregateFindings .reject
      = { analyzed := countAnd "tagged" tree } :=
    aggregateFindings_countedOrders (by decide) (by cbv) (by decide) haccepts horder
  have hnames : (taggedAmounts "SUM(CASE WHEN o.tag = 'a' THEN o.amount END)").nameErrors (countAnd "tagged" tree)
      = [] := by
    subst htree
    exact nameErrors_eq_nil_iff.mpr ⟨by decide +kernel, by decide⟩
  rw [← isValid_cleaned rfl, taggedAmounts, cleaned_countedOrders, hclean]
  exact (isValid_countedOrders hfindings (by cbv) hnames).1

/-- What is read of the texts below: where the tag of the condition is, and what comes after it. -/
theorem literals?_ofTags :
    Token.literals? "SUM(CASE WHEN [o].[tag] = 'a' THEN [[o.amount]] END)".toList
        = some [⟨"a", " THEN [[o.amount]] END)".toList⟩]
      ∧ Token.literals? "SUM(CASE WHEN o.tag = '[a]' THEN o.amount END)".toList
        = some [⟨"[a]", " THEN o.amount END)".toList⟩]
      ∧ Token.literals? "SUM(CASE WHEN o.tag = 'a' THEN o.amount END)".toList
        = some [⟨"a", " THEN o.amount END)".toList⟩] := by
  decide +kernel

/-- Brackets around the names of a condition are taken away, and it goes on asking for the same tag. -/
theorem bracketedNames_keep_literal :
    ((taggedAmounts "SUM(CASE WHEN [o].[tag] = 'a' THEN [[o.amount]] END)").validate .strip).isValid = true
      ∧ ∃ clean, ("tagged", clean)
          ∈ ((taggedAmounts "SUM(CASE WHEN [o].[tag] = 'a' THEN [[o.amount]] END)").validate .strip).replacements
        ∧ Token.literalValues? clean.toList = some ["a"] := by
  obtain ⟨hread, -, -⟩ := literals?_ofTags
  have hclean : Expression.stripBrackets "SUM(CASE WHEN [o].[tag] = 'a' THEN [[o.amount]] END)"
      = "SUM(CASE WHEN o.tag = 'a' THEN o.amount END)" := by cbv
  have hentry : ("tagged", "SUM(CASE WHEN o.tag = 'a' THEN o.amount END)")
      ∈ ((taggedAmounts "SUM(CASE WHEN [o].[tag] = 'a' THEN [[o.amount]] END)").validate .strip).replacements := by
    rw [taggedAmounts, replacements_countedOrders (by cbv), hclean]
    exact List.mem_cons_self
  refine ⟨isValid_taggedAmounts hclean, "SUM(CASE WHEN o.tag = 'a' THEN o.amount END)", hentry, ?_⟩
  obtain ⟨a, ha, -, hbrackets, -, hvalues⟩ := (replacements_keep_literals_iff _).2 _ hentry
  obtain rfl : a = ⟨"SUM(CASE WHEN [o].[tag] = 'a' THEN [[o.amount]] END)", "tagged"⟩ := by
    rcases List.mem_cons.mp ha with rfl | ha
    · exact absurd (hasBrackets_orderCount.symm.trans hbrackets) Bool.false_ne_true
    · exact List.mem_singleton.mp ha
  obtain ⟨found, hfound, -, hiff⟩ := hvalues ["a"] (by rw [Token.literalValues?_eq, hread]; rfl) (by cbv)
  obtain rfl := Option.some.inj (hfound.symm.trans hread)
  exact hiff.mpr (List.forall_mem_singleton.mpr (by cbv))

/-- Brackets within the literal of a condition are taken away too, and it asks for another tag. -/
theorem bracketedLiteral_isReplaced :
    ((taggedAmounts "SUM(CASE WHEN o.tag = '[a]' THEN o.amount END)").validate .strip).isValid = true
      ∧ "SUM(CASE WHEN o.tag = '[a]' THEN o.amount END)".toList.filter Expression.isBracket
        = "[a]".toList.filter Expression.isBracket
      ∧ Token.literalValues? "SUM(CASE WHEN o.tag = '[a]' THEN o.amount END)".toList = some ["[a]"]
      ∧ ((taggedAmounts "SUM(CASE WHEN o.tag = '[a]' THEN o.amount END)").validate .strip).replacements
        = [("tagged", "SUM(CASE WHEN o.tag = 'a' THEN o.amount END)")]
      ∧ Token.literalValues? "SUM(CASE WHEN o.tag = 'a' THEN o.amount END)".toList = some ["a"] := by
  obtain ⟨-, hread, hread'⟩ := literals?_ofTags
  have hclean : Expression.stripBrackets "SUM(CASE WHEN o.tag = '[a]' THEN o.amount END)"
      = "SUM(CASE WHEN o.tag = 'a' THEN o.amount END)" := by cbv
  refine ⟨isValid_taggedAmounts hclean, by cbv, ?_, ?_, ?_⟩
  · rw [Token.literalValues?_eq, hread]
    rfl
  · rw [taggedAmounts, replacements_countedOrders (by cbv), hclean]
  · rw [Token.literalValues?_eq, hread']
    rfl

end Description

end QueryFederation

import Mathlib
import QueryFederation.Proofs.Expression.SelfContained
import QueryFederation.Proofs.Validation.Consistency

/-!
# Compiled aggregates

The aggregates that compilation reads are analyzed without a problem, there is one under every alias, and for a valid
description they can be ordered. Their expressions without aliases have calls and columns inside of these; but
validation lets an alias stand inside of a call, and then they have calls inside of calls.
-/

namespace QueryFederation

namespace Description

open Expression

variable {d : Description} {cleanup : Cleanup} {replacements : Entries String} {aggregates : Aggregates}
  {known : List String}

/-- What is analyzed without a problem is the tree that the text is read as. -/
theorem analyzeAggregate_eq_ok {aliasName text : String} {a : AnalyzedAggregate}
    (h : analyzeAggregate known aliasName text = .ok a) :
    ∃ tree, Expression.ofText? text = some tree ∧ a = .ofTree aliasName known tree ∧ a.problems = [] := by
  rw [analyzeAggregate, AnalyzedAggregate.analyze] at h
  cases hread : Expression.read text with
  | error cause =>
    rw [hread] at h
    cases h
  | ok tree =>
    rw [hread] at h
    simp only [Except.map] at h
    split at h
    · rename_i hproblems
      cases h
      rw [Expression.read] at hread
      split at hread <;> cases hread
      exact ⟨tree, ‹_›, rfl, hproblems⟩
    · cases h

/-- What compilation has once it has read the aggregates. -/
structure ReadAs (known : List String) (aggregates : Aggregates) : Prop where
  analyzed : aggregates.AreAnalyzed known
  nodup : aggregates.keys.Nodup

theorem ReadAs.put (h : ReadAs known aggregates) {aliasName text : String} {a : AnalyzedAggregate}
    (ha : analyzeAggregate known aliasName text = .ok a) : ReadAs known (Entries.put aggregates aliasName a) := by
  obtain ⟨tree, -, rfl, hproblems⟩ := analyzeAggregate_eq_ok ha
  refine ⟨⟨fun entry hentry => ?_, fun entry hentry => ?_⟩, Entries.nodup_keys_put _ _ h.nodup⟩
  · rcases Entries.mem_of_mem_put hentry with rfl | hentry
    · rfl
    · exact h.analyzed.analyzed entry hentry
  · rcases Entries.mem_of_mem_put hentry with rfl | hentry
    · exact hproblems
    · exact h.analyzed.problems entry hentry

private theorem readAs_foldlM {items : List AggregateExpression} {start : Aggregates} (h : ReadAs known start)
    (hfold : items.foldlM (fun analyzed a => do
      let text := (replacements.lookup a.aliasName).getD a.expression
      return Entries.put analyzed a.aliasName (← analyzeAggregate known a.aliasName text)) start = .ok aggregates) :
    ReadAs known aggregates ∧ ∀ key, key ∈ aggregates.keys ↔ key ∈ start.keys ∨ key ∈ items.map (·.aliasName) := by
  induction items generalizing start with
  | nil =>
    cases hfold
    exact ⟨h, fun key => by simp⟩
  | cons item items ih =>
    rw [List.foldlM_cons] at hfold
    obtain ⟨next, hstep, hfold⟩ := exists_of_bind_eq_ok hfold
    obtain ⟨a, ha, hstep⟩ := exists_of_bind_eq_ok hstep
    cases hstep
    obtain ⟨hread, hkeys⟩ := ih (h.put ha) hfold
    refine ⟨hread, fun key => ?_⟩
    rw [hkeys, Entries.mem_keys_put, List.map_cons, List.mem_cons, or_assoc, or_left_comm]

/-- Under every alias there is an aggregate that has been analyzed without a problem. -/
theorem readAs_of_analyzedAggregates (h : d.analyzedAggregates replacements = .ok aggregates) :
    ReadAs (d.allAggregates.map (·.aliasName)) aggregates
      ∧ ∀ key, key ∈ aggregates.keys ↔ key ∈ d.allAggregates.map (·.aliasName) := by
  have hempty : ReadAs (d.allAggregates.map (·.aliasName)) [] :=
    ⟨⟨List.forall_mem_nil _, List.forall_mem_nil _⟩, List.nodup_nil⟩
  obtain ⟨hread, hkeys⟩ := readAs_foldlM hempty h
  exact ⟨hread, fun key => (hkeys key).trans (by simp [Entries.keys])⟩

/-- The aggregates of a valid description can be ordered. -/
theorem exists_dependencyOrder_of_isValid (h : (d.validate cleanup).isValid = true) :
    ∃ order, (d.aggregateFindings cleanup).analyzed.dependencyOrder = .ok order := by
  obtain ⟨-, -, -, -, herrors, -⟩ := isValid_iff.mp h
  rw [← aggregateFindings_of_errors_eq_nil herrors]
  rw [aggregateFindings] at herrors
  split at herrors
  · rename_i order horder
    exact ⟨order, horder⟩
  · exact absurd herrors (AggregateFindings.errors_error_ne_nil _ _)

/-! ### Orders that are counted -/

theorem analyze_of_tokens {aliasName text : String} {tokens : List Token} {tree : Expression}
    (htokens : Token.ofText? text = some tokens) (htree : ofTokens? tokens = some tree)
    (hnamed : ∀ name args, tree ≠ construct (.named name) args) :
    AnalyzedAggregate.analyze aliasName text known = .ok (.ofTree aliasName known tree) := by
  rw [AnalyzedAggregate.analyze, Expression.read, ofText?, htokens, Option.bind_eq_bind, Option.bind_some, htree]
  split
  · contradiction
  · rename_i heq
    exact absurd (Option.some.inj heq) (hnamed _ _)
  · rename_i heq
    cases heq
    rfl

/-- Orders of one source with their number and another aggregate. -/
def countedOrders (other : AggregateExpression) : Description :=
  { tables := [⟨"o", "shop", "orders", none⟩], aggregates := [⟨"COUNT(o.id)", "n"⟩, other] }

/-- The aggregates of `countedOrders`. -/
def countAnd (aliasName : String) (tree : Expression) : Aggregates :=
  let known := ["n", aliasName]
  [("n", .ofTree "n" known (aggregate .count [column [⟨"o", false⟩] ⟨"id", false⟩])),
    (aliasName, .ofTree aliasName known tree)]

theorem hasBrackets_orderCount : hasBrackets "COUNT(o.id)" = false := by cbv

theorem accepts_orderCount {aliasName : String} (known : List String) {tables : List String} (ho : "o" ∈ tables) :
    AggregateFindings.Accepts known tables aliasName "COUNT(o.id)"
      (.ofTree aliasName known (aggregate .count [column [⟨"o", false⟩] ⟨"id", false⟩])) := by
  have htokens : Token.ofText? "COUNT(o.id)"
      = some [.word "COUNT", .symbol "(", .word "o", .symbol ".", .word "id", .symbol ")"] := by decide +kernel
  refine ⟨analyze_of_tokens htokens rfl nofun, by cbv, fun c hc => ?_⟩
  obtain rfl : c = ("o", "id") := List.mem_singleton.mp hc
  exact ho

section

variable {aliasName text : String} {tree : Expression} {order : List String}

theorem aggregateFindings_countedOrders (hidentifier : isIdentifier aliasName = true)
    (hbrackets : hasBrackets text = false) (hname : "n" ≠ aliasName)
    (haccepts : AggregateFindings.Accepts ["n", aliasName] ["o"] aliasName text
      (.ofTree aliasName ["n", aliasName] tree)) (horder : (countAnd aliasName tree).dependencyOrder = .ok order) :
    (countedOrders ⟨text, aliasName⟩).aggregateFindings cleanup = { analyzed := countAnd aliasName tree } := by
  have hfold : (countedOrders ⟨text, aliasName⟩).allAggregates.zipIdx.foldl (AggregateFindings.check cleanup
      ((countedOrders ⟨text, aliasName⟩).allAggregates.map (·.aliasName)) (countedOrders ⟨text, aliasName⟩).aliases) {}
        = { analyzed := countAnd aliasName tree } := by
    change AggregateFindings.check cleanup ["n", aliasName] ["o"]
      (AggregateFindings.check cleanup ["n", aliasName] ["o"] {} (⟨"COUNT(o.id)", "n"⟩, 0)) (⟨text, aliasName⟩, 1) = _
    rw [AggregateFindings.check_of_accepts _ (by decide) hasBrackets_orderCount (accepts_orderCount _ (by decide)),
      AggregateFindings.check_of_accepts _ hidentifier hbrackets haccepts]
    simp [Entries.put, countAnd, hname]
  rw [aggregateFindings]
  simp only [hfold, horder]

theorem isValid_countedOrders
    (hfindings : (countedOrders ⟨text, aliasName⟩).aggregateFindings cleanup = { analyzed := countAnd aliasName tree })
    (houtput : (countedOrders ⟨text, aliasName⟩).outputErrors = [])
    (hnames : (countedOrders ⟨text, aliasName⟩).nameErrors (countAnd aliasName tree) = []) :
    ((countedOrders ⟨text, aliasName⟩).validate cleanup).isValid = true
      ∧ (countedOrders ⟨text, aliasName⟩).analyzedAggregates
        ((countedOrders ⟨text, aliasName⟩).validate cleanup).replacements = .ok (countAnd aliasName tree) := by
  have hvalid : ((countedOrders ⟨text, aliasName⟩).validate cleanup).isValid = true := by
    rw [isValid_iff, hfindings]
    exact ⟨by cbv, by cbv, by cbv, by cbv, rfl, houtput, hnames, by cbv, by cbv, by cbv⟩
  refine ⟨hvalid, ?_⟩
  rw [analyzedAggregates_of_isValid hvalid, hfindings]

/-- The text of the other aggregate is the only one that is replaced. -/
theorem replacements_countedOrders (hbrackets : hasBrackets text = true) :
    ((countedOrders ⟨text, aliasName⟩).validate .strip).replacements = [(aliasName, stripBrackets text)] := by
  rw [replacements_validate]
  change AggregateFindings.replacing (AggregateFindings.replacing [] "n" "COUNT(o.id)") aliasName text = _
  rw [AggregateFindings.replacing, AggregateFindings.replacing, hasBrackets_orderCount, if_neg Bool.false_ne_true,
    if_pos hbrackets]
  rfl

end

/-! ### Aggregates that are written out -/

/--
The aggregates of a valid description can be written out: without aliases each has calls, and columns inside of them
only. No call is inside of another, and no column inside of several, if and only if no alias is inside of a call.
-/
theorem inlined_isSelfContained_iff (h : (d.validate cleanup).isValid = true) :
    ∃ aggregates resolved, d.analyzedAggregates (d.validate cleanup).replacements = .ok aggregates
      ∧ aggregates.inlined = .ok resolved
      ∧ (∀ name, name ∈ resolved.keys ↔ name ∈ d.allAggregates.map (·.aliasName))
      ∧ (∀ entry ∈ resolved, entry.2.IsResolved)
      ∧ ((∀ entry ∈ resolved, entry.2.IsSelfContained)
        ↔ ∀ entry ∈ aggregates, AliasesOutside (entry.2.tree.occurrences 0)) := by
  obtain ⟨order, horder⟩ := exists_dependencyOrder_of_isValid h
  have hanalyzed := analyzedAggregates_of_isValid h
  generalize (d.aggregateFindings cleanup).analyzed = aggregates at horder hanalyzed
  obtain ⟨⟨hread, hnodup⟩, hkeys⟩ := readAs_of_analyzedAggregates hanalyzed
  have hisOrder := hread.isOrder (fun name hname => (hkeys name).mpr hname) horder
  have hresolved : ∀ name a earlier, aggregates.lookup name = some a → aggregates.Replaced earlier IsResolved name →
      (a.tree.inline earlier).IsResolved := fun _ _ _ hlookup hreplaced => hread.isResolved_inline hlookup hreplaced
  refine ⟨aggregates, _, hanalyzed, Aggregates.inlined_of_dependencyOrder horder, fun name => ?_, fun entry hentry => ?_,
    fun hcontained entry hentry => ?_, fun hout entry hentry => ?_⟩
  · rw [← hkeys name]
    constructor
    · exact fun hname => Aggregates.keys_foldl_inlineStep_subset order hname
    · intro hname
      obtain ⟨entry, hentry, rfl⟩ := List.mem_map.mp hname
      obtain ⟨earlier, hmem, -⟩ := hisOrder.exists_of_lookup hresolved (Entries.lookup_of_mem hnodup hentry)
      exact List.mem_map_of_mem hmem
  · exact hisOrder.forall_mem hresolved hentry
  · have hlookup := Entries.lookup_of_mem hnodup hentry
    obtain ⟨earlier, hmem, hreplaced⟩ := hisOrder.exists_of_lookup hresolved hlookup
    exact hread.aliasesOutside_of_inline hlookup hreplaced (hcontained _ hmem)
  · have hinline : ∀ name a earlier, aggregates.lookup name = some a →
        aggregates.Replaced earlier IsSelfContained name → (a.tree.inline earlier).IsSelfContained :=
      fun _ _ _ hlookup => hread.isSelfContained_inline hlookup (hout _ (Entries.mem_of_lookup_eq_some hlookup))
    exact hisOrder.forall_mem hinline hentry

/-- What one order is worth on average is the sum of what they are worth by their number. -/
theorem meanAmount_isSelfContained : ((countedOrders ⟨"SUM(o.amount) / n", "mean"⟩).validate .strip).isValid = true
    ∧ ∃ resolved, (countAnd "mean" (binary .div (aggregate .sum [column [⟨"o", false⟩] ⟨"amount", false⟩])
        (column [] ⟨"n", false⟩))).inlined = .ok resolved
      ∧ "mean" ∈ resolved.keys ∧ ∀ entry ∈ resolved, entry.2.IsSelfContained := by
  generalize htree : binary .div (aggregate .sum [column [⟨"o", false⟩] ⟨"amount", false⟩]) (column [] ⟨"n", false⟩)
    = tree
  have htokens : Token.ofText? "SUM(o.amount) / n" = some [.word "SUM", .symbol "(", .word "o", .symbol ".",
      .word "amount", .symbol ")", .symbol "/", .word "n"] := by decide +kernel
  have haccepts : AggregateFindings.Accepts ["n", "mean"] ["o"] "mean" "SUM(o.amount) / n"
      (.ofTree "mean" ["n", "mean"] tree) := by
    subst htree
    exact ⟨analyze_of_tokens htokens rfl nofun, by cbv, by simp only [AnalyzedAggregate.ofTree]; decide⟩
  have horder : (countAnd "mean" tree).dependencyOrder = .ok ["n", "mean"] := by
    subst htree
    cbv
  have hnames : (countedOrders ⟨"SUM(o.amount) / n", "mean"⟩).nameErrors (countAnd "mean" tree) = [] := by
    subst htree
    exact nameErrors_eq_nil_iff.mpr ⟨by decide +kernel, by decide⟩
  have hout : ∀ entry ∈ countAnd "mean" tree, AliasesOutside (entry.2.tree.occurrences 0) := by
    subst htree
    decide
  have hfindings : (countedOrders ⟨"SUM(o.amount) / n", "mean"⟩).aggregateFindings .strip
      = { analyzed := countAnd "mean" tree } :=
    aggregateFindings_countedOrders (by decide) (by cbv) (by decide) haccepts horder
  obtain ⟨hvalid, hanalyzed⟩ := isValid_countedOrders hfindings (by cbv) hnames
  obtain ⟨aggregates, resolved, hread, hinlined, hkeys, -, hiff⟩ := inlined_isSelfContained_iff hvalid
  rw [hanalyzed, Except.ok.injEq] at hread
  subst hread
  exact ⟨hvalid, resolved, hinlined, (hkeys "mean").mpr (by decide), hiff.mpr hout⟩

/-- The sum of a number of orders is accepted, and is a call inside of a call once the number is written out. -/
theorem sumOfCount_isNested : ((countedOrders ⟨"SUM(n)", "s"⟩).validate .strip).isValid = true
    ∧ ∃ aggregates resolved e, (countedOrders ⟨"SUM(n)", "s"⟩).analyzedAggregates
        ((countedOrders ⟨"SUM(n)", "s"⟩).validate .strip).replacements = .ok aggregates
      ∧ aggregates.inlined = .ok resolved ∧ resolved.lookup "s" = some e
      ∧ e = aggregate .sum [paren (aggregate .count [column [⟨"o", false⟩] ⟨"id", false⟩])] ∧ ¬e.IsSelfContained := by
  have htokens : Token.ofText? "SUM(n)" = some [.word "SUM", .symbol "(", .word "n", .symbol ")"] := by decide +kernel
  have haccepts : AggregateFindings.Accepts ["n", "s"] ["o"] "s" "SUM(n)"
      (.ofTree "s" ["n", "s"] (aggregate .sum [column [] ⟨"n", false⟩])) :=
    ⟨analyze_of_tokens htokens rfl nofun, by cbv, by simp only [AnalyzedAggregate.ofTree]; decide⟩
  have horder : (countAnd "s" (aggregate .sum [column [] ⟨"n", false⟩])).dependencyOrder = .ok ["n", "s"] := by cbv
  have hfindings : (countedOrders ⟨"SUM(n)", "s"⟩).aggregateFindings .strip = { analyzed := countAnd "s" _ } :=
    aggregateFindings_countedOrders (by decide) (by cbv) (by decide) haccepts horder
  have hnames : (countedOrders ⟨"SUM(n)", "s"⟩).nameErrors
      (countAnd "s" (aggregate .sum [column [] ⟨"n", false⟩])) = [] :=
    nameErrors_eq_nil_iff.mpr ⟨by decide +kernel, by decide⟩
  obtain ⟨hvalid, hanalyzed⟩ := isValid_countedOrders hfindings (by cbv) hnames
  have hinner : (Occurrence.call, 1)
      ∈ (aggregate .sum [paren (aggregate .count [column [⟨"o", false⟩] ⟨"id", false⟩])]).occurrences 0 := by decide
  refine ⟨hvalid, _, _, _, hanalyzed, Aggregates.inlined_of_dependencyOrder horder, by cbv, rfl, fun hcontained => ?_⟩
  exact absurd (hcontained.outermost 1 hinner) (by decide)

end Description

end QueryFederation

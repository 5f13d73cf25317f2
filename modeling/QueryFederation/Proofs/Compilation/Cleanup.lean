import QueryFederation.Federation.Execution
import QueryFederation.Proofs.Compilation.Aggregates

/-!
# Brackets around names

Tools put brackets around the names in aggregates, and cleanup takes them away. Validation then keeps the clean texts as
replacements by alias, and whoever reads an aggregate looks its alias up there. It is the same to write the clean texts
oneself: no bracket is left in them, so they pass where brackets are refused, the check of each aggregate finds what it
found behind its replacement, and every compiler reads the same aggregates. Replacements are kept by alias, so this
takes a description whose aliases are distinct, as a valid one's are.
-/

namespace QueryFederation

/-- The aggregate without brackets. -/
def AggregateExpression.cleaned (a : AggregateExpression) : AggregateExpression :=
  { a with expression := Expression.stripBrackets a.expression }

namespace AggregateFindings

variable {known tables : List String}

theorem readText_eq_stripBrackets (text : String) : readText text = Expression.stripBrackets text := by
  rw [readText]
  split
  · rfl
  · exact (Expression.stripBrackets_eq_self (Bool.eq_false_of_not_eq_true ‹_›)).symm

/-- What a check has found in the texts that it read, whatever texts they replace. -/
def unreplaced (f : AggregateFindings) : AggregateFindings := { f with warnings := [], replacements := [] }

theorem unreplaced_analyze (f : AggregateFindings) (index : Nat) (aliasName text : String) :
    (f.analyze known tables index aliasName text).unreplaced
      = f.unreplaced.analyze known tables index aliasName text := by
  rw [analyze, analyze]
  cases AnalyzedAggregate.analyze aliasName text known <;> rfl

/-- A check that removes brackets finds what a check that refuses them finds in the clean text. -/
theorem unreplaced_check (f : AggregateFindings) (item : AggregateExpression × Nat) :
    (f.check .strip known tables item).unreplaced
      = f.unreplaced.check .reject known tables (item.1.cleaned, item.2) := by
  obtain ⟨⟨text, aliasName⟩, index⟩ := item
  have hidentifier : (if isIdentifier aliasName then f else f.error (.invalidAggregateAlias index aliasName)).unreplaced
      = if isIdentifier aliasName then f.unreplaced
        else f.unreplaced.error (.invalidAggregateAlias index aliasName) := by
    split <;> rfl
  simp only [check, AggregateExpression.cleaned, Expression.hasBrackets_stripBrackets, Bool.false_eq_true, if_false]
  cases hbrackets : Expression.hasBrackets text with
  | true =>
    rw [if_pos rfl, unreplaced_analyze]
    exact congrArg (analyze known tables index aliasName (Expression.stripBrackets text)) hidentifier
  | false =>
    rw [if_neg (by simp), unreplaced_analyze, Expression.stripBrackets_eq_self hbrackets]
    exact congrArg (analyze known tables index aliasName text) hidentifier

theorem unreplaced_foldl_check (f : AggregateFindings) (items : List (AggregateExpression × Nat)) :
    (items.foldl (check .strip known tables) f).unreplaced
      = (items.map (Prod.map (·.cleaned) id)).foldl (check .reject known tables) f.unreplaced := by
  induction items generalizing f with
  | nil => rfl
  | cons item items ih =>
    rw [List.foldl_cons, ih, unreplaced_check, List.map_cons, List.foldl_cons]
    rfl

end AggregateFindings

namespace Description

variable {d : Description}

/-- The description as if its aggregates had been written without brackets. -/
def cleaned (d : Description) : Description := { d with aggregates := d.aggregates.map (·.cleaned) }

/-! ### Validation -/

theorem allAggregates_cleaned (h : d.columnAggregates = []) :
    d.cleaned.allAggregates = d.allAggregates.map (·.cleaned) := by
  simp only [allAggregates, cleaned, h, List.map_nil, List.append_nil]

theorem map_aliasName_cleaned (h : d.columnAggregates = []) :
    d.cleaned.allAggregates.map (·.aliasName) = d.allAggregates.map (·.aliasName) := by
  rw [allAggregates_cleaned h, List.map_map]
  rfl

/-- The findings in the clean texts are those of a cleanup, but for what it replaced. -/
theorem aggregateFindings_cleaned (h : d.columnAggregates = []) :
    d.cleaned.aggregateFindings .reject = (d.aggregateFindings .strip).unreplaced := by
  have haliases : d.cleaned.aliases = d.aliases := rfl
  have hfold : d.cleaned.allAggregates.zipIdx.foldl
      (AggregateFindings.check .reject (d.allAggregates.map (·.aliasName)) d.aliases) {}
        = (d.allAggregates.zipIdx.foldl
          (AggregateFindings.check .strip (d.allAggregates.map (·.aliasName)) d.aliases) {}).unreplaced := by
    rw [allAggregates_cleaned h, List.zipIdx_map]
    exact (AggregateFindings.unreplaced_foldl_check {} _).symm
  simp only [aggregateFindings, map_aliasName_cleaned h, haliases, hfold]
  generalize d.allAggregates.zipIdx.foldl
    (AggregateFindings.check .strip (d.allAggregates.map (·.aliasName)) d.aliases) {} = findings
  have hanalyzed : findings.unreplaced.analyzed = findings.analyzed := rfl
  rw [hanalyzed]
  cases findings.analyzed.dependencyOrder <;> rfl

theorem outputNames_cleaned (h : d.columnAggregates = []) : d.cleaned.outputNames = d.outputNames := by
  rw [outputNames, map_aliasName_cleaned h]
  rfl

theorem hasAggregates_cleaned : d.cleaned.hasAggregates = d.hasAggregates := by
  simp [hasAggregates, cleaned]

theorem nameErrors_cleaned (h : d.columnAggregates = []) (aggregates : Aggregates) :
    d.cleaned.nameErrors aggregates = d.nameErrors aggregates := by
  simp only [nameErrors, allAggregates_cleaned h, List.zipIdx_map, List.filterMap_map]
  rfl

/-- A description has the same errors, whether brackets are removed or the clean texts are written where none may be. -/
theorem errors_validate_cleaned (h : d.columnAggregates = []) :
    (d.cleaned.validate .reject).errors = (d.validate .strip).errors := by
  have hgroup : d.cleaned.groupErrors = d.groupErrors := by
    rw [groupErrors, hasAggregates_cleaned]
    rfl
  have houtput : d.cleaned.outputErrors = d.outputErrors := by rw [outputErrors, outputNames_cleaned h, outputErrors]
  have hhaving : ∀ aggregates, d.cleaned.havingErrors aggregates = d.havingErrors aggregates := fun aggregates => by
    rw [havingErrors, hasAggregates_cleaned, outputNames_cleaned h]
    rfl
  have horder : d.cleaned.orderErrors = d.orderErrors := by
    rw [orderErrors, hasAggregates_cleaned, outputNames_cleaned h]
    rfl
  simp only [validate, aggregateFindings_cleaned h, houtput, nameErrors_cleaned h, hgroup, hhaving, horder]
  rfl

theorem isValid_cleaned (h : d.columnAggregates = []) :
    (d.cleaned.validate .reject).isValid = (d.validate .strip).isValid := by
  rw [Validation.isValid, Validation.isValid, errors_validate_cleaned h]

theorem replacements_cleaned (h : d.columnAggregates = []) : (d.cleaned.validate .reject).replacements = [] := by
  rw [validate, aggregateFindings_cleaned h]
  rfl

/-! ### Compiled queries and plans -/

section

variable (hplain : d.columnAggregates = []) (h : (d.validate .strip).isValid = true)

include hplain h

theorem analyzedAggregates_cleaned :
    d.cleaned.analyzedAggregates [] = d.analyzedAggregates (d.validate .strip).replacements := by
  have hvalid : (d.cleaned.validate .reject).isValid = true := (isValid_cleaned hplain).trans h
  have hread := analyzedAggregates_of_isValid hvalid
  rw [replacements_cleaned hplain, aggregateFindings_cleaned hplain] at hread
  rw [hread, analyzedAggregates_of_isValid h]
  rfl

theorem aggregateTexts_cleaned : d.cleaned.aggregateTexts [] = d.aggregateTexts (d.validate .strip).replacements := by
  obtain ⟨-, -, -, -, herrors, houtput, -⟩ := isValid_iff.mp h
  have hnodup := nodup_of_outputErrors_eq_nil houtput
  rw [aggregateTexts, aggregateTexts, allAggregates_cleaned hplain, List.map_map]
  refine congrArg Entries.ofPairs (List.map_congr_left fun a ha => ?_)
  have htext : ((d.validate .strip).replacements.lookup a.aliasName).getD a.expression
      = Expression.stripBrackets a.expression :=
    (readText_of_errors_eq_nil herrors hnodup ha).trans (AggregateFindings.readText_eq_stripBrackets _)
  rw [htext]
  rfl

theorem resolvedAggregates_cleaned :
    d.cleaned.resolvedAggregates [] = d.resolvedAggregates (d.validate .strip).replacements := by
  rw [resolvedAggregates, resolvedAggregates, analyzedAggregates_cleaned hplain h]

theorem compileSql_cleaned (dialectName : String) :
    d.cleaned.compileSql dialectName [] = d.compileSql dialectName (d.validate .strip).replacements := by
  rw [compileSql, compileSql, resolvedAggregates_cleaned hplain h]
  rfl

theorem compilePipeline_cleaned :
    d.cleaned.compilePipeline [] = d.compilePipeline (d.validate .strip).replacements := by
  rw [compilePipeline, compilePipeline, analyzedAggregates_cleaned hplain h, aggregateTexts_cleaned hplain h]
  rfl

theorem federate_cleaned (r : Registry) :
    d.cleaned.federate (d.cleaned.validate .reject) r = d.federate (d.validate .strip) r := by
  rw [federate, federate, replacements_cleaned hplain, analyzedAggregates_cleaned hplain h]
  rfl

theorem compileFederated_cleaned (r : Registry) :
    d.cleaned.compileFederated (d.cleaned.validate .reject) r = d.compileFederated (d.validate .strip) r := by
  rw [compileFederated, compileFederated, federate_cleaned hplain h, map_aliasName_cleaned hplain]
  rfl

end

theorem federationPlan?_cleaned (aggregates : Aggregates) (canJoin : String → Bool) :
    d.cleaned.federationPlan? aggregates canJoin = d.federationPlan? aggregates canJoin :=
  rfl

/--
A description of written aggregates that is valid once brackets are removed is, with the clean texts in their place,
valid where brackets are refused, and nothing is replaced in it. It compiles to the same statement in every dialect, the
same pipeline, and the same plan, as the original does with its replacements; what fails fails in the same way.
-/
theorem cleaned_means_the_same (hplain : d.columnAggregates = []) (h : (d.validate .strip).isValid = true) :
    (d.cleaned.validate .reject).isValid = true
      ∧ (d.cleaned.validate .reject).replacements = []
      ∧ (∀ dialectName,
        d.cleaned.compileSql dialectName [] = d.compileSql dialectName (d.validate .strip).replacements)
      ∧ d.cleaned.compilePipeline [] = d.compilePipeline (d.validate .strip).replacements
      ∧ (∀ canJoin, (d.cleaned.analyzedAggregates []).map (fun a => d.cleaned.federationPlan? a canJoin)
        = (d.analyzedAggregates (d.validate .strip).replacements).map fun a => d.federationPlan? a canJoin)
      ∧ ∀ r, d.cleaned.compileFederated (d.cleaned.validate .reject) r = d.compileFederated (d.validate .strip) r := by
  have hplan : ∀ canJoin, (d.cleaned.analyzedAggregates []).map (fun a => d.cleaned.federationPlan? a canJoin)
      = (d.analyzedAggregates (d.validate .strip).replacements).map fun a => d.federationPlan? a canJoin := by
    intro canJoin
    simp only [analyzedAggregates_cleaned hplain h, federationPlan?_cleaned]
  exact ⟨(isValid_cleaned hplain).trans h, replacements_cleaned hplain, compileSql_cleaned hplain h,
    compilePipeline_cleaned hplain h, hplan, compileFederated_cleaned hplain h⟩

theorem cleaned_countedOrders (text aliasName : String) :
    (countedOrders ⟨text, aliasName⟩).cleaned = countedOrders ⟨Expression.stripBrackets text, aliasName⟩ := by
  simp only [cleaned, countedOrders, AggregateExpression.cleaned, List.map_cons, List.map_nil,
    Expression.stripBrackets_eq_self hasBrackets_orderCount]

/-- Orders with their number, and what they are worth after a fee of one for each. -/
def ordersAfterFees : Description := countedOrders ⟨"SUM([[o.amount]]) - [n]", "net"⟩

theorem cleaned_ordersAfterFees : ordersAfterFees.cleaned = countedOrders ⟨"SUM(o.amount) - n", "net"⟩ := by
  have hnet : Expression.stripBrackets "SUM([[o.amount]]) - [n]" = "SUM(o.amount) - n" := by cbv
  rw [ordersAfterFees, cleaned_countedOrders, hnet]

open Expression in
theorem isValid_ordersAfterFees : (ordersAfterFees.validate .strip).isValid = true := by
  generalize htree : binary .sub (aggregate .sum [column [⟨"o", false⟩] ⟨"amount", false⟩]) (column [] ⟨"n", false⟩)
    = tree
  have htokens : Token.ofText? "SUM(o.amount) - n" = some [.word "SUM", .symbol "(", .word "o", .symbol ".",
      .word "amount", .symbol ")", .symbol "-", .word "n"] := by decide +kernel
  have haccepts : AggregateFindings.Accepts ["n", "net"] ["o"] "net" "SUM(o.amount) - n"
      (.ofTree "net" ["n", "net"] tree) := by
    subst htree
    exact ⟨analyze_of_tokens htokens rfl nofun, by cbv, by simp only [AnalyzedAggregate.ofTree]; decide⟩
  have horder : (countAnd "net" tree).dependencyOrder = .ok ["n", "net"] := by
    subst htree
    cbv
  have hfindings : (countedOrders ⟨"SUM(o.amount) - n", "net"⟩).aggregateFindings .reject
      = { analyzed := countAnd "net" tree } :=
    aggregateFindings_countedOrders (by decide) (by cbv) (by decide) haccepts horder
  have hnames : (countedOrders ⟨"SUM(o.amount) - n", "net"⟩).nameErrors (countAnd "net" tree) = [] := by
    subst htree
    exact nameErrors_eq_nil_iff.mpr ⟨by decide +kernel, by decide⟩
  rw [← isValid_cleaned rfl, cleaned_ordersAfterFees]
  exact (isValid_countedOrders hfindings (by cbv) hnames).1

/-- One of two aggregates has brackets, around a column and around the other aggregate. -/
theorem ordersAfterFees_cleaned : (ordersAfterFees.validate .strip).isValid = true
    ∧ (ordersAfterFees.validate .strip).replacements = [("net", "SUM(o.amount) - n")]
    ∧ ordersAfterFees.cleaned = countedOrders ⟨"SUM(o.amount) - n", "net"⟩
    ∧ (ordersAfterFees.cleaned.validate .reject).isValid = true
    ∧ ordersAfterFees.cleaned.compileSql "postgres" []
      = ordersAfterFees.compileSql "postgres" [("net", "SUM(o.amount) - n")]
    ∧ ordersAfterFees.cleaned.compilePipeline []
      = ordersAfterFees.compilePipeline [("net", "SUM(o.amount) - n")] := by
  have hreplacements : (ordersAfterFees.validate .strip).replacements = [("net", "SUM(o.amount) - n")] :=
    (replacements_countedOrders (by cbv)).trans (by cbv)
  obtain ⟨hvalid, -, hsql, hpipeline, -⟩ := cleaned_means_the_same rfl isValid_ordersAfterFees
  rw [hreplacements] at hsql hpipeline
  exact ⟨isValid_ordersAfterFees, hreplacements, cleaned_ordersAfterFees, hvalid, hsql "postgres", hpipeline⟩

end Description

end QueryFederation

import QueryFederation.Proofs.Compilation.Cleanup
import QueryFederation.Proofs.Expression.Names
import QueryFederation.Proofs.Expression.SingleCalls
import QueryFederation.Proofs.Expression.Words

/-!
# Aggregates of a column

An aggregate that is given as a function and a column becomes a text, in which the name of the column stands as it is.
If that name is one word of the expression language, and so is the alias of the table, the text is read as that function
over that column. With any other name the text is read as something else: no quotes keep the name together, and the
column is not even mentioned.
-/

namespace QueryFederation

open Expression Token

namespace ColumnAggregate

variable {a : ColumnAggregate} {tokens : List Token}

/-! ### Texts of column aggregates -/

/-- What comes before the names of the table and the column. -/
def opening (a : ColumnAggregate) : List Char :=
  a.function.keyword.toList ++ '(' :: if a.isDistinct then "DISTINCT ".toList else []

def openingTokens (a : ColumnAggregate) : List Token :=
  .word a.function.keyword :: .symbol "(" :: if a.isDistinct then [.word "DISTINCT"] else []

theorem toList_expression (a : ColumnAggregate) : a.toExpression.expression.toList
    = a.opening ++ (a.table.toList ++ '.' :: (a.column.toList ++ [')'])) := by
  rw [toExpression, opening]
  cases a.isDistinct <;> simp

theorem ofChars?_opening (a : ColumnAggregate) (cs : List Char) :
    ofChars? (a.opening ++ cs) = (ofChars? cs).map (a.openingTokens ++ ·) := by
  rw [opening, openingTokens, List.append_assoc, List.cons_append,
    (isWord_keyword _).ofChars?_append (endsWord_cons (by decide)), ofChars?_symbol (Or.inl rfl)]
  cases a.isDistinct with
  | false => simp [Function.comp_def]
  | true =>
    have hword : IsWord "DISTINCT" := ⟨_, _, rfl, by decide, by decide⟩
    have htext : "DISTINCT ".toList ++ cs = "DISTINCT".toList ++ ' ' :: cs := rfl
    rw [if_pos rfl, if_pos rfl, htext, hword.ofChars?_append (endsWord_cons (by decide)),
      ofChars?_of_isBlank (by decide)]
    simp [Function.comp_def]

/-- A table of which the alias is an identifier is read as one word. -/
theorem exists_ofChars?_table (h : isIdentifier a.table = true) : ∃ w, ∀ cs,
    ofChars? (a.table.toList ++ '.' :: cs) = (ofChars? cs).map ([.word w, .symbol "."] ++ ·) := by
  obtain ⟨w, hw, heq | heq⟩ := exists_word_of_isIdentifier h
  · exact ⟨w, fun cs => heq ▸ hw.ofChars?_point cs⟩
  · refine ⟨w, fun cs => ?_⟩
    rw [heq, List.append_assoc, List.singleton_append, hw.ofChars?_append (endsWord_cons (by decide)),
      ofChars?_of_isBlank (by decide), ofChars?_symbol (Or.inr (Or.inl rfl))]
    simp [Function.comp_def]

/-! ### Brackets in names of columns -/

/-- The name of a column without brackets. -/
def bareColumn (a : ColumnAggregate) : List Char := a.column.toList.filter fun c => !isBracket c

theorem bareColumn_of_isWord (h : IsWord a.column) : a.bareColumn = a.column.toList := by
  refine List.filter_eq_self.mpr fun c hc => ?_
  simpa using isBracket_of_isWordChar (h.isWordChar_of_mem hc)

theorem toList_stripBrackets (h : isIdentifier a.table = true) :
    (stripBrackets a.toExpression.expression).toList
      = a.opening ++ (a.table.toList ++ '.' :: (a.bareColumn ++ [')'])) := by
  have hopening : a.opening.filter (fun c => !isBracket c) = a.opening := by
    rw [opening]
    cases a.function <;> cases a.isDistinct <;> rfl
  have htable : a.table.toList.filter (fun c => !isBracket c) = a.table.toList := by
    obtain ⟨w, hw, heq⟩ := exists_word_of_isIdentifier h
    have hkept : w.toList.filter (fun c => !isBracket c) = w.toList :=
      List.filter_eq_self.mpr fun c hc => by simpa using isBracket_of_isWordChar (hw.isWordChar_of_mem hc)
    rcases heq with heq | heq
    · rw [heq, hkept]
    · rw [heq, List.filter_append, hkept]
      rfl
  rw [stripBrackets, String.toList_ofList, toList_expression, List.filter_append, List.filter_append, hopening, htable,
    List.filter_cons_of_pos (by decide), List.filter_append]
  rfl

/-- A table and a column that are words are read as the call. -/
theorem ofText?_of_isWord (hidentifier : isIdentifier a.table = true) (htable : IsWord a.table)
    (hcolumn : IsWord a.column) : Token.ofText? (stripBrackets a.toExpression.expression)
      = some (columnCallTokens a.function a.isDistinct a.table a.column) := by
  rw [Token.ofText?, toList_stripBrackets hidentifier, ofChars?_opening, htable.ofChars?_point,
    bareColumn_of_isWord hcolumn, hcolumn.ofChars?_close]
  rfl

/-- Nothing but words names the table and the column. -/
theorem isWord_of_tokens (hidentifier : isIdentifier a.table = true)
    (htokens : Token.ofText? (stripBrackets a.toExpression.expression) = some tokens)
    (htable : ∃ token ∈ tokens, token.name? = some a.table) (hcolumn : ∃ token ∈ tokens, token.name? = some a.column) :
    IsWord a.table ∧ IsWord a.column := by
  obtain ⟨w, hw⟩ := exists_ofChars?_table hidentifier
  have hwords : ∀ s, word s ∈ tokens → IsWord s := fun s => isWord_of_mem htokens
  rw [Token.ofText?, toList_stripBrackets hidentifier, ofChars?_opening, hw, Option.map_map] at htokens
  obtain ⟨last, hlast, rfl⟩ := Option.map_eq_some_iff.mp htokens
  have hquoted : ∀ s, quotedName s ∈ a.openingTokens ++ ([.word w, .symbol "."] ++ last) → quotedName s ∈ last := by
    intro s hs
    rw [openingTokens] at hs
    cases a.isDistinct <;> simpa using hs
  have hcolumn : IsWord a.column := by
    obtain ⟨token, htoken, hname⟩ := hcolumn
    cases token with
    | word s =>
      cases hname
      exact hwords _ htoken
    | quotedName s =>
      cases hname
      have hlength := length_of_quotedName_mem hlast (hquoted _ htoken)
      have hbare : a.bareColumn.length ≤ a.column.length := List.length_filter_le _ _
      simp at hlength
      omega
    | _ => cases hname
  rw [bareColumn_of_isWord hcolumn, hcolumn.ofChars?_close, Option.some.injEq] at hlast
  obtain ⟨token, htoken, hname⟩ := htable
  refine ⟨?_, hcolumn⟩
  cases token with
  | word s =>
    cases hname
    exact hwords _ htoken
  | quotedName s =>
    have hmem := hquoted _ htoken
    simp [← hlast] at hmem
  | _ => cases hname

end ColumnAggregate

namespace Description

variable {d : Description} {cleanup : Cleanup} {a : ColumnAggregate}

/-! ### Column aggregates of valid descriptions -/

section

variable {known : List String} {replacements : Entries String} {items : List AggregateExpression}
  {start final : Aggregates}

/-- Reading aggregates under distinct aliases puts each under its own. -/
theorem lookup_of_foldlM (hnodup : (items.map (·.aliasName)).Nodup)
    (h : items.foldlM (AggregateFindings.readAgain known replacements) start = .ok final) :
    (∀ key ∉ items.map (·.aliasName), final.lookup key = start.lookup key)
      ∧ ∀ item ∈ items, ∃ x, analyzeAggregate known item.aliasName
          ((replacements.lookup item.aliasName).getD item.expression) = .ok x
        ∧ final.lookup item.aliasName = some x := by
  induction items generalizing start with
  | nil =>
    cases h
    exact ⟨fun _ _ => rfl, List.forall_mem_nil _⟩
  | cons item items ih =>
    obtain ⟨hitem, hitems⟩ := List.nodup_cons.mp hnodup
    rw [List.foldlM_cons] at h
    obtain ⟨next, hstep, h⟩ := exists_of_bind_eq_ok h
    obtain ⟨x, hx, hstep⟩ := exists_of_bind_eq_ok hstep
    cases hstep
    obtain ⟨hothers, hread⟩ := ih hitems h
    refine ⟨fun key hkey => ?_, List.forall_mem_cons.mpr ⟨⟨x, hx, ?_⟩, hread⟩⟩
    · rw [List.map_cons, List.mem_cons, not_or] at hkey
      rw [hothers key hkey.2, Entries.lookup_put, if_neg hkey.1]
    · rw [hothers _ hitem, Entries.lookup_put, if_pos rfl]

end

/-- Every aggregate of a valid description has been read, without the brackets in its text. -/
theorem exists_trees_of_isValid (h : (d.validate cleanup).isValid = true) :
    ∃ aggregates, d.analyzedAggregates (d.validate cleanup).replacements = .ok aggregates
      ∧ ∀ item ∈ d.allAggregates, ∃ tree, Expression.ofText? (stripBrackets item.expression) = some tree
        ∧ aggregates.lookup item.aliasName
          = some (.ofTree item.aliasName (d.allAggregates.map (·.aliasName)) tree) := by
  obtain ⟨-, -, -, -, herrors, houtput, -⟩ := isValid_iff.mp h
  have hnodup := nodup_of_outputErrors_eq_nil houtput
  have hanalyzed := analyzedAggregates_of_isValid h
  refine ⟨_, hanalyzed, fun item hitem => ?_⟩
  obtain ⟨x, hx, hlookup⟩ := (lookup_of_foldlM hnodup hanalyzed).2 item hitem
  have htext : ((d.validate cleanup).replacements.lookup item.aliasName).getD item.expression
      = stripBrackets item.expression :=
    (readText_of_errors_eq_nil herrors hnodup hitem).trans (AggregateFindings.readText_eq_stripBrackets _)
  rw [htext] at hx
  obtain ⟨tree, htree, rfl, -⟩ := analyzeAggregate_eq_ok hx
  exact ⟨tree, htree, hlookup⟩

/-- The columns of an aggregate are those that its tree mentions. -/
theorem mem_columns_ofTree {aliasName : String} {known : List String} {tree : Expression} {c : String × String} :
    c ∈ (AnalyzedAggregate.ofTree aliasName known tree).columns ↔ .column c.1 c.2 ∈ tree.references := by
  rw [AnalyzedAggregate.ofTree, mem_distinctItems, List.mem_filterMap]
  constructor
  · rintro ⟨r, hr, heq⟩
    cases r with
    | column table name =>
      cases heq
      exact hr
    | aliasName name => cases heq
  · exact fun hc => ⟨_, hc, rfl⟩

theorem columns_ofTree_columnCall {aliasName : String} {known : List String} {function : AggregateFunction}
    {isDistinct : Bool} {t c : String} (h : t ≠ "") :
    (AnalyzedAggregate.ofTree aliasName known (columnCall function isDistinct t c)).columns = [(t, c)] := by
  have hreferences : (columnCall function isDistinct t c).references = [.column t c] := by
    have hcolumn : Reference.ofNames [⟨t, false⟩] ⟨c, false⟩ = .column t c := if_neg h
    cases isDistinct <;> simp [columnCall, plainColumn, references, referencesOfAll, hcolumn]
  rw [AnalyzedAggregate.ofTree, hreferences]
  rfl

/-- Orders of one source with an aggregate of a column. -/
def ordersWith (a : ColumnAggregate) : Description :=
  { tables := [⟨"o", "shop", "orders", none⟩], columnAggregates := [a] }

/-- The aggregates of `ordersWith`. -/
def onlyAggregate (aliasName : String) (tree : Expression) : Aggregates :=
  [(aliasName, .ofTree aliasName [aliasName] tree)]

theorem isValid_ordersWith {text aliasName : String} {tree : Expression}
    (hexpression : a.toExpression = ⟨text, aliasName⟩) (htable : a.table = "o")
    (hidentifier : isIdentifier aliasName = true) (hbrackets : hasBrackets text = false)
    (haccepts : AggregateFindings.Accepts [aliasName] ["o"] aliasName text (.ofTree aliasName [aliasName] tree))
    (horder : (onlyAggregate aliasName tree).dependencyOrder = .ok [aliasName])
    (hnames : (ordersWith a).nameErrors (onlyAggregate aliasName tree) = []) :
    ((ordersWith a).validate cleanup).isValid = true
      ∧ (ordersWith a).analyzedAggregates ((ordersWith a).validate cleanup).replacements
        = .ok (onlyAggregate aliasName tree) := by
  have hall : (ordersWith a).allAggregates = [⟨text, aliasName⟩] := by rw [← hexpression]; rfl
  have haliases : (ordersWith a).aliases = ["o"] := rfl
  have hfindings : (ordersWith a).aggregateFindings cleanup = { analyzed := onlyAggregate aliasName tree } := by
    have hcheck : (AggregateFindings.check cleanup [aliasName] ["o"] {} (⟨text, aliasName⟩, 0))
        = { analyzed := onlyAggregate aliasName tree } :=
      AggregateFindings.check_of_accepts {} hidentifier hbrackets haccepts
    rw [aggregateFindings, hall, haliases]
    simp [hcheck, horder]
  have hvalid : ((ordersWith a).validate cleanup).isValid = true := by
    rw [isValid_iff, hfindings]
    have haliasErrors : (ordersWith a).aliasErrors = [] :=
      aliasErrors_eq_nil_iff.mpr ⟨by rw [haliases]; decide, List.nodup_singleton _, List.mem_singleton_self _⟩
    have hreferences : (ordersWith a).referenceErrors = [] :=
      referenceErrors_eq_nil_iff.mpr ⟨List.forall_mem_nil _, List.forall_mem_singleton.mpr (by simp [haliases, htable])⟩
    have houtput : (ordersWith a).outputErrors = [] := by
      rw [outputErrors, outputNames, hall]
      exact List.map_eq_nil_iff.mpr (repeated_eq_nil_of_nodup (List.nodup_singleton _))
    exact ⟨haliasErrors, hreferences, rfl, rfl, rfl, houtput, hnames, rfl, rfl, rfl⟩
  refine ⟨hvalid, ?_⟩
  rw [analyzedAggregates_of_isValid hvalid, hfindings]

/-- The number of different buyers. -/
def buyers : ColumnAggregate where
  function := .count
  table := "o"
  column := "buyer"
  isDistinct := true
  aliasName := some "buyers"

theorem isValid_ordersWith_buyers : ((ordersWith buyers).validate .reject).isValid = true
    ∧ (ordersWith buyers).analyzedAggregates ((ordersWith buyers).validate .reject).replacements
      = .ok (onlyAggregate "buyers" (aggregate .count [distinct [column [⟨"o", false⟩] ⟨"buyer", false⟩]])) := by
  generalize htree : aggregate .count [distinct [column [⟨"o", false⟩] ⟨"buyer", false⟩]] = tree
  have htokens : Token.ofText? "COUNT(DISTINCT o.buyer)" = some (columnCallTokens .count true "o" "buyer") := by
    decide +kernel
  have haccepts : AggregateFindings.Accepts ["buyers"] ["o"] "buyers" "COUNT(DISTINCT o.buyer)"
      (.ofTree "buyers" ["buyers"] tree) := by
    subst htree
    exact ⟨analyze_of_tokens htokens rfl nofun, by cbv, by simp only [AnalyzedAggregate.ofTree]; decide⟩
  have horder : (onlyAggregate "buyers" tree).dependencyOrder = .ok ["buyers"] := by
    subst htree
    cbv
  have hnames : (ordersWith buyers).nameErrors (onlyAggregate "buyers" tree) = [] := by
    subst htree
    exact nameErrors_eq_nil_iff.mpr ⟨by decide +kernel, by decide⟩
  exact isValid_ordersWith rfl rfl (by decide) (by cbv) haccepts horder hnames

/-- The sum over a column of which the name has an operator in it. -/
def worth : ColumnAggregate where
  function := .sum
  table := "o"
  column := "amount + o.fee"
  aliasName := some "worth"

end Description

end QueryFederation

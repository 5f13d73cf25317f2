import QueryFederation.Sql.Lexing
import QueryFederation.Sql.Term

/-!
# What quoted texts are read as

A text between quotes is written character by character, each quote of it behind an escape, and a target reads it back
in the same way. The two agree on every text without a backslash, and where a backslash is nothing special on every
text. Where it escapes and is itself written as it is, no text with a backslash is read back: it takes the character
behind it along, so less is read than was written, or reading does not end where the text ends.

Text literals and quoted names are both of this form, and all that is known of them follows from it.
-/

namespace QueryFederation.Sql

open Dialect (escapeEach)

namespace Lexing

variable {q : Quoting} {escape c d : Char} {cs body after rest : List Char}

/-- Does a quote behind the escape belong to the text, and can quotes be told from backslashes? -/
structure Quoting.IsEscapedBy (q : Quoting) (escape : Char) : Prop where
  isEscape : escape = q.quote ∨ escape = '\\' ∧ q.hasEscapes = true
  quote_ne : q.quote ≠ '\\'

theorem exists_eq_of_withFirst {read : Option (List Char × List Char)} (h : withFirst c read = some (body, rest)) :
    ∃ b, body = c :: b ∧ read = some (b, rest) := by
  obtain ⟨⟨b, after⟩, hread, heq⟩ := Option.map_eq_some_iff.mp h
  obtain ⟨rfl, rfl⟩ := Prod.mk.inj heq
  exact ⟨b, rfl, hread⟩

/-! ### Reading one character -/

theorem readRest_quote (hafter : after.head? ≠ some q.quote) : readRest q (q.quote :: after) = some ([], after) := by
  cases after with
  | nil => simp [readRest]
  | cons d rest =>
    have hd : d ≠ q.quote := by simpa using hafter
    rw [readRest, if_pos rfl, if_neg hd]

theorem readRest_doubled : readRest q (q.quote :: q.quote :: rest) = withFirst q.quote (readRest q rest) := by
  rw [readRest, if_pos rfl, if_pos rfl]

theorem readRest_backslash (hquote : q.quote ≠ '\\') (hescapes : q.hasEscapes = true) :
    readRest q ('\\' :: d :: rest) = withFirst d (readRest q rest) := by
  rw [readRest, if_neg hquote.symm, if_pos (by simp [hescapes])]

theorem readRest_plain (hquote : c ≠ q.quote) (hplain : q.hasEscapes = true → c ≠ '\\') :
    readRest q (c :: rest) = withFirst c (readRest q rest) := by
  cases rest with
  | nil => simp [readRest, hquote, withFirst]
  | cons d rest =>
    have hnot : ¬(c = '\\' && q.hasEscapes) = true := by
      rw [Bool.and_eq_true, decide_eq_true_eq]
      exact fun h => hplain h.2 h.1
    rw [readRest, if_neg hquote, if_neg hnot]

/-- A character that takes no other along is read as it was written. -/
theorem readRest_escapeEach_cons (h : q.IsEscapedBy escape) (hplain : q.hasEscapes = true → c ≠ '\\') :
    readRest q (escapeEach escape q.quote (c :: cs) ++ rest)
      = withFirst c (readRest q (escapeEach escape q.quote cs ++ rest)) := by
  by_cases hc : c = q.quote
  · rw [escapeEach, if_pos hc, hc, List.cons_append, List.cons_append]
    obtain ⟨rfl | ⟨rfl, hescapes⟩, hquote⟩ := h
    · exact readRest_doubled
    · exact readRest_backslash hquote hescapes
  · rw [escapeEach, if_neg hc, List.cons_append, readRest_plain hc hplain]

/-! ### Reading what was written -/

theorem readRest_escapeEach (h : q.IsEscapedBy escape) (hafter : after.head? ≠ some q.quote)
    (hplain : q.hasEscapes = true → '\\' ∉ cs) :
    readRest q (escapeEach escape q.quote cs ++ q.quote :: after) = some (cs, after) := by
  induction cs with
  | nil => exact readRest_quote hafter
  | cons c cs ih =>
    have hfirst : q.hasEscapes = true → c ≠ '\\' := fun hescapes heq => hplain hescapes (heq ▸ List.mem_cons_self)
    have hread := ih fun hescapes hmem => hplain hescapes (List.mem_cons_of_mem _ hmem)
    rw [readRest_escapeEach_cons h hfirst, hread]
    rfl

/-- Reading does not come back to where it started. -/
private theorem readRest_self_ne : readRest q after ≠ some (body, after) := fun h =>
  absurd (readRest_length h) (Nat.lt_irrefl _)

private theorem readRest_quote_ne (hhead : rest.head? ≠ some q.quote) (hlonger : after.length < rest.length) :
    readRest q (q.quote :: rest) ≠ some (body, after) := by
  intro h
  rw [readRest_quote hhead] at h
  obtain ⟨-, rfl⟩ := Prod.mk.inj (Option.some.inj h)
  exact absurd hlonger (Nat.lt_irrefl _)

/-- Behind a quote that nothing escapes, the text ends too early, or takes along what follows it. -/
theorem readRest_quote_escapeEach_ne (cs body : List Char) :
    readRest q (q.quote :: (escapeEach escape q.quote cs ++ q.quote :: after)) ≠ some (body, after) := by
  induction cs generalizing body with
  | nil =>
    intro hread
    rw [escapeEach, List.nil_append, readRest_doubled] at hread
    obtain ⟨b, -, hrest⟩ := exists_eq_of_withFirst hread
    exact readRest_self_ne hrest
  | cons c cs ih =>
    by_cases hc : c = q.quote
    · rw [escapeEach, if_pos hc, hc]
      by_cases hescape : escape = q.quote
      · subst hescape
        rw [List.cons_append, List.cons_append, readRest_doubled]
        intro hread
        obtain ⟨b, -, hrest⟩ := exists_eq_of_withFirst hread
        exact ih b hrest
      · exact readRest_quote_ne (by simpa using hescape) (by simp; omega)
    · rw [escapeEach, if_neg hc]
      exact readRest_quote_ne (by simpa using hc) (by simp; omega)

/-- No more is read than was written, and less of a text with a backslash that escapes. -/
theorem length_of_readRest_escapeEach (h : q.IsEscapedBy escape) (hafter : after.head? ≠ some q.quote) :
    ∀ cs body, readRest q (escapeEach escape q.quote cs ++ q.quote :: after) = some (body, after) →
      body.length ≤ cs.length ∧ (q.hasEscapes = true → '\\' ∈ cs → body.length < cs.length)
  | [], body, hread => by
    rw [escapeEach, List.nil_append, readRest_quote hafter] at hread
    obtain ⟨rfl, -⟩ := Prod.mk.inj (Option.some.inj hread)
    exact ⟨Nat.le_refl 0, fun _ hmem => absurd hmem List.not_mem_nil⟩
  | c :: cs, body, hread => by
    by_cases hplain : q.hasEscapes = true → c ≠ '\\'
    · rw [readRest_escapeEach_cons h hplain] at hread
      obtain ⟨b, rfl, hrest⟩ := exists_eq_of_withFirst hread
      obtain ⟨hle, hlt⟩ := length_of_readRest_escapeEach h hafter cs b hrest
      refine ⟨Nat.succ_le_succ hle, fun hescapes hmem => Nat.succ_lt_succ (hlt hescapes ?_)⟩
      exact (List.mem_cons.mp hmem).resolve_left fun heq => hplain hescapes heq.symm
    -- A backslash takes the next character along, whether it was written or closes the text.
    obtain ⟨hescapes, hc⟩ := Classical.not_imp.mp hplain
    obtain rfl := Classical.not_not.mp hc
    rw [escapeEach, if_neg h.quote_ne.symm, List.cons_append] at hread
    cases cs with
    | nil =>
      rw [escapeEach, List.nil_append, readRest_backslash h.quote_ne hescapes] at hread
      obtain ⟨b, -, hrest⟩ := exists_eq_of_withFirst hread
      exact absurd hrest readRest_self_ne
    | cons d cs =>
      by_cases hd : d = q.quote
      · rw [escapeEach, if_pos hd, hd, List.cons_append, readRest_backslash h.quote_ne hescapes] at hread
        obtain ⟨b, -, hrest⟩ := exists_eq_of_withFirst hread
        exact absurd hrest (readRest_quote_escapeEach_ne cs b)
      · rw [escapeEach, if_neg hd, List.cons_append, readRest_backslash h.quote_ne hescapes] at hread
        obtain ⟨b, rfl, hrest⟩ := exists_eq_of_withFirst hread
        have hle := (length_of_readRest_escapeEach h hafter cs b hrest).1
        have hlt : (d :: b).length < ('\\' :: d :: cs).length := by
          simp only [List.length_cons]
          omega
        exact ⟨Nat.le_of_lt hlt, fun _ _ => hlt⟩

/-- A quoted text is read back, up to where it ends, exactly if no backslash in it escapes. -/
theorem read_quoted_iff (h : q.IsEscapedBy escape) (hafter : after.head? ≠ some q.quote) (cs : List Char) :
    read q (q.quote :: (escapeEach escape q.quote cs ++ [q.quote]) ++ after) = some (cs, after)
      ↔ (q.hasEscapes = true → '\\' ∉ cs) := by
  rw [List.cons_append, List.append_assoc, read, if_pos rfl]
  refine ⟨fun hread hescapes hmem => ?_, readRest_escapeEach h hafter⟩
  exact absurd ((length_of_readRest_escapeEach h hafter cs cs hread).2 hescapes hmem) (Nat.lt_irrefl _)

theorem isEscapedBy_literal (dialect : Dialect) : (literal dialect).IsEscapedBy '\'' := by
  cases dialect <;> exact ⟨Or.inl rfl, by decide⟩

theorem isEscapedBy_identifier (dialect : Dialect) :
    (identifier dialect).IsEscapedBy dialect.identifierQuote.2 := by
  cases dialect with
  | clickhouse => exact ⟨Or.inr ⟨rfl, rfl⟩, by decide⟩
  | mysql | postgres | snowflake | sqlite => exact ⟨Or.inl rfl, by decide⟩

end Lexing

/-! ### Literals -/

/--
Whatever follows it, a text literal is read as its text, and up to its end, in every target in which a backslash is
nothing special. In MySQL and ClickHouse it is so exactly for the texts without a backslash.
-/
theorem read_textLiteral_iff (dialect : Dialect) (v : String) (after : List Char) (hafter : after.head? ≠ some '\'') :
    Lexing.read (Lexing.literal dialect) (((Term.literal (.text v)).text dialect).toList ++ after)
        = some (v.toList, after)
      ↔ (dialect = .mysql ∨ dialect = .clickhouse → '\\' ∉ v.toList) := by
  have hquote : (Lexing.literal dialect).quote = '\'' := by cases dialect <;> rfl
  have hescapes : (Lexing.literal dialect).hasEscapes = true ↔ dialect = .mysql ∨ dialect = .clickhouse := by
    cases dialect <;> decide
  rw [← hquote] at hafter
  have hread := Lexing.read_quoted_iff (Lexing.isEscapedBy_literal dialect) hafter v.toList
  rw [hquote, hescapes] at hread
  rw [Term.text, literalText, textLiteral, String.toList_ofList]
  exact hread

/-- A text that would close its literal and go on as a condition stays a text. -/
theorem quotedCondition_read :
    " AND 1 = 1".toList.head? ≠ some '\''
      ∧ Lexing.read (Lexing.literal .postgres)
          (((Term.literal (.text "\\' OR '1' = '1")).text .postgres).toList ++ " AND 1 = 1".toList)
        = some ("\\' OR '1' = '1".toList, " AND 1 = 1".toList) := by
  have hafter : " AND 1 = 1".toList.head? ≠ some '\'' := by decide
  exact ⟨hafter, (read_textLiteral_iff .postgres "\\' OR '1' = '1" _ hafter).mpr (by decide)⟩

/-- A lone backslash takes the closing quote of its literal along; written twice it would be read back. -/
theorem loneBackslash_read :
    Lexing.read (Lexing.literal .mysql) (((Term.literal (.text "\\")).text .mysql).toList ++ " AND 1 = 1".toList)
        ≠ some ("\\".toList, " AND 1 = 1".toList)
      ∧ Lexing.read (Lexing.literal .mysql) ("'\\\\'".toList ++ " AND 1 = 1".toList)
        = some ("\\".toList, " AND 1 = 1".toList) := by
  decide

/-! ### Names -/

/--
Whatever follows it, a quoted name is read as the name, and up to its end, in every target but ClickHouse. There it is
so exactly for the names without a backslash.
-/
theorem read_quoteIdentifier_iff (dialect : Dialect) (name : String) (after : List Char)
    (hafter : after.head? ≠ some dialect.identifierQuote.1) :
    Lexing.read (Lexing.identifier dialect) ((dialect.quoteIdentifier name).toList ++ after) = some (name.toList, after)
      ↔ (dialect = .clickhouse → '\\' ∉ name.toList) := by
  have hquote : (Lexing.identifier dialect).quote = dialect.identifierQuote.1 := by cases dialect <;> rfl
  have hescapes : (Lexing.identifier dialect).hasEscapes = true ↔ dialect = .clickhouse := by
    cases dialect <;> decide
  rw [← hquote] at hafter
  have hread := Lexing.read_quoted_iff (Lexing.isEscapedBy_identifier dialect) hafter name.toList
  rw [hquote, hescapes] at hread
  rw [Dialect.quoteIdentifier, String.toList_ofList]
  exact hread

/-- A name of quotes and backslashes is read as it is, up to the point before its column. -/
theorem quotedPath_read :
    ".id".toList.head? ≠ some (Dialect.identifierQuote .mysql).1
      ∧ Lexing.read (Lexing.identifier .mysql) ((Dialect.quoteIdentifier .mysql "a\\\x60.\x60").toList ++ ".id".toList)
        = some ("a\\\x60.\x60".toList, ".id".toList) := by
  have hafter : ".id".toList.head? ≠ some (Dialect.identifierQuote .mysql).1 := by decide
  exact ⟨hafter, (read_quoteIdentifier_iff .mysql "a\\\x60.\x60" _ hafter).mpr (by decide)⟩

/-- In ClickHouse a lone backslash takes the closing quote of its name along; written twice it would be read back. -/
theorem backslashName_read :
    Lexing.read (Lexing.identifier .clickhouse) ((Dialect.quoteIdentifier .clickhouse "\\").toList ++ ".id".toList)
        ≠ some ("\\".toList, ".id".toList)
      ∧ Lexing.read (Lexing.identifier .clickhouse) ("\x60\\\\\x60".toList ++ ".id".toList)
        = some ("\\".toList, ".id".toList) := by
  decide

end QueryFederation.Sql

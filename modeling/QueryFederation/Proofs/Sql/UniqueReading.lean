import Mathlib
import QueryFederation.Proofs.Sql.Quoting

/-!
# Predicates have one reading

A predicate's text says which predicate it is, whatever names and texts it is built of. What is shown is more: if two
predicates begin one text, and each is followed by a blank, a comma, a closing parenthesis or nothing, they are the same
and so is what follows them. In this form the statement passes from the operands of an operation to the operation.

Every operation is written alike: its first operand behind a parenthesis, a keyword that no other keyword begins with,
the other operands between separators, and a closing. No separator begins as a closing does, so where the operands end
is known. The remaining predicates are told apart by the character they begin with: a text by its quote, a column by the
quote of names, and the words by having neither.
-/

namespace QueryFederation.Sql

namespace Lexing

variable {q : Char} {cs ds r₁ r₂ : List Char}

/-- Two quoted texts that begin one text are the same, where a quote inside is written twice. -/
theorem quoted_append_inj (hquote : q ≠ '\\') (h₁ : r₁.head? ≠ some q) (h₂ : r₂.head? ≠ some q)
    (h : q :: (Dialect.escapeEach q q cs ++ [q]) ++ r₁ = q :: (Dialect.escapeEach q q ds ++ [q]) ++ r₂) :
    cs = ds ∧ r₁ = r₂ := by
  have hescaped : Quoting.IsEscapedBy ⟨q, false⟩ q := ⟨Or.inl rfl, hquote⟩
  have hcs := (read_quoted_iff hescaped h₁ cs).mpr (by simp)
  have hds := (read_quoted_iff hescaped h₂ ds).mpr (by simp)
  rw [h, hds] at hcs
  simpa [eq_comm] using hcs

end Lexing

namespace Term

/-- The values that are written as a word, not between quotes. -/
inductive IsWord : Value → Prop where
  | null : IsWord .null
  | boolean (b : Bool) : IsWord (.boolean b)
  | integer (n : Int) : IsWord (.integer n)

/-! ### The layout of operations -/

/-- What an operation is, apart from its operands. -/
inductive Link where
  | operator (operator : Operator)
  | like (isNegated : Bool)
  | isNull (isNegated : Bool)
  | inList (isNegated : Bool)
  | between (isNegated : Bool)
  deriving DecidableEq

namespace Link

def all : List Link :=
  [Operator.or, .and, .eq, .ne, .lt, .le, .gt, .ge].map operator
    ++ [false, true].flatMap fun isNegated => [like isNegated, isNull isNegated, inList isNegated, between isNegated]

/-- What stands between the first operand and the others, where texts are compared by the given operator. -/
def keyword (like : String) : Link → String
  | operator o => " " ++ o.text ++ " "
  | .like isNegated => " " ++ negatable isNegated like ++ " "
  | isNull isNegated => if isNegated then " IS NOT NULL" else " IS NULL"
  | inList isNegated => " " ++ negatable isNegated "IN" ++ " ("
  | between isNegated => " " ++ negatable isNegated "BETWEEN" ++ " "

def separator : Link → String
  | between _ => " AND "
  | _ => ", "

def closing : Link → String
  | inList _ => "))"
  | _ => ")"

/-- The operands behind another, up to the end of the operation. -/
def following (dialect : Dialect) (link : Link) (operands : List Term) : List Char :=
  operands.flatMap (fun operand => link.separator.toList ++ (operand.text dialect).toList) ++ link.closing.toList

/-- The operands behind the keyword, up to the end of the operation. -/
def others (dialect : Dialect) (link : Link) : List Term → List Char
  | [] => link.closing.toList
  | operand :: operands => (operand.text dialect).toList ++ link.following dialect operands

theorem others_eq (dialect : Dialect) (link : Link) (operands : List Term) :
    link.others dialect operands
      = (link.separator.intercalate (texts dialect operands)).toList ++ link.closing.toList := by
  cases operands with
  | nil => simp [others, texts]
  | cons operand operands =>
    induction operands generalizing operand with
    | nil => simp [others, following, texts]
    | cons next operands ih =>
      have := ih next
      simp_all [others, following, texts]

theorem likeKeyword_mem (dialect : Dialect) : likeKeyword dialect ∈ ["LIKE", "ILIKE"] := by
  cases dialect <;> decide

/-- No keyword is the beginning of another. -/
theorem keyword_isPrefix :
    ∀ like ∈ ["LIKE", "ILIKE"], ∀ a ∈ all, ∀ b ∈ all, (a.keyword like).toList <+: (b.keyword like).toList → a = b := by
  decide

theorem head?_keyword :
    ∀ like ∈ ["LIKE", "ILIKE"], ∀ link ∈ all, (link.keyword like).toList.head? = some ' ' := by
  decide

theorem keyword_append_inj {like : String} {a b : Link} {r₁ r₂ : List Char} (hlike : like ∈ ["LIKE", "ILIKE"])
    (ha : a ∈ all) (hb : b ∈ all) (h : (a.keyword like).toList ++ r₁ = (b.keyword like).toList ++ r₂) :
    a = b ∧ r₁ = r₂ := by
  have heq : a = b := by
    have hpre : (b.keyword like).toList <+: (a.keyword like).toList ++ r₁ := h ▸ List.prefix_append _ _
    obtain hab | hba := List.prefix_or_prefix_of_prefix (List.prefix_append _ r₁) hpre
    · exact keyword_isPrefix like hlike a ha b hb hab
    · exact (keyword_isPrefix like hlike b hb a ha hba).symm
  subst heq
  exact ⟨rfl, List.append_cancel_left h⟩

end Link

/-- The term is the operation of a link on a first operand and others. -/
inductive HasParts : Term → Link → Term → List Term → Prop where
  | binary {operator : Operator} {left right : Term} :
      HasParts (binary operator left right) (.operator operator) left [right]
  | like {isNegated : Bool} {left right : Term} : HasParts (like isNegated left right) (.like isNegated) left [right]
  | isNull {isNegated : Bool} {term : Term} : HasParts (isNull isNegated term) (.isNull isNegated) term []
  | inList {isNegated : Bool} {term : Term} {items : List Term} :
      HasParts (inList isNegated term items) (.inList isNegated) term items
  | between {isNegated : Bool} {term low high : Term} :
      HasParts (between isNegated term low high) (.between isNegated) term [low, high]

/-- A condition over columns and plain literals, of the operations that have a symbol or a keyword of their own. -/
inductive IsPredicate : Term → Prop where
  | word {v : Value} (hv : IsWord v) : IsPredicate (literal v)
  | text (v : String) : IsPredicate (literal (.text v))
  | column (table : Option String) (name : String) : IsPredicate (column table name)
  | operation {t first : Term} {link : Link} {operands : List Term} (hparts : t.HasParts link first operands)
      (hlink : link ∈ Link.all) (hfirst : IsPredicate first) (hoperands : ∀ operand ∈ operands, IsPredicate operand) :
      IsPredicate t

variable {dialect : Dialect} {s t first : Term} {link : Link} {operands : List Term} {r r₁ r₂ : List Char}

theorem HasParts.eq (hs : s.HasParts link first operands) (ht : t.HasParts link first operands) : s = t := by
  cases hs <;> cases ht <;> rfl

theorem HasParts.text_eq (dialect : Dialect) (h : t.HasParts link first operands) :
    (t.text dialect).toList = '(' :: ((first.text dialect).toList
      ++ ((link.keyword (likeKeyword dialect)).toList ++ link.others dialect operands)) := by
  rw [Link.others_eq]
  cases h with
  | @isNull isNegated term => cases isNegated <;> simp [Term.text, texts, Link.keyword, Link.closing]
  | binary | like | inList | between =>
    simp [Term.text, texts, Link.keyword, Link.separator, Link.closing]

/-! ### What a predicate begins with -/

inductive Opening where
  | operation
  | text
  | name
  | word
  deriving DecidableEq

def Opening.ofChar (dialect : Dialect) (c : Char) : Opening :=
  if c = '(' then operation
  else if c = '\'' then text
  else if c = dialect.identifierQuote.1 then name
  else word

def isNumberChar (c : Char) : Bool := c.isDigit || c = '-'

def isWordChar (c : Char) : Bool := c.isAlpha || isNumberChar c

theorem all_isNumberChar_repr (n : Int) : n.repr.toList.all isNumberChar = true := by
  have hdigits : ∀ m : Nat, m.repr.toList.all isNumberChar = true := by
    intro m
    rw [Nat.toList_repr, List.all_eq_true]
    intro c hc
    simp [isNumberChar, Nat.isDigit_of_mem_toDigits (by decide) (by decide) hc]
  cases n with
  | ofNat m => exact hdigits m
  | negSucc m =>
    rw [Int.repr, String.toList_append, List.all_append, hdigits]
    rfl

theorem all_isWordChar_literalText {v : Value} (hv : IsWord v) : (literalText v).toList.all isWordChar = true := by
  cases hv with
  | null => rfl
  | boolean b => cases b <;> rfl
  | integer n =>
    have hnumber : ∀ c, isNumberChar c = true → isWordChar c = true := fun c hc => by simp [isWordChar, hc]
    exact List.all_eq_true.mpr fun c hc => hnumber c (List.all_eq_true.mp (all_isNumberChar_repr n) c hc)

theorem literalText_ne_nil {v : Value} (hv : IsWord v) : (literalText v).toList ≠ [] := by
  cases hv with
  | null => decide
  | boolean b => cases b <;> decide
  | integer n =>
    show n.repr.toList ≠ []
    cases n <;> simp [Int.repr]

theorem literalText_integer_ne (n : Int) {word : String} (hword : word.toList.all isNumberChar = false) :
    literalText (.integer n) ≠ word := by
  rintro rfl
  exact Bool.false_ne_true (hword.symm.trans (all_isNumberChar_repr n))

theorem literalText_inj {v w : Value} (hv : IsWord v) (hw : IsWord w) (h : literalText v = literalText w) : v = w := by
  cases hv with
  | integer n =>
    cases hw with
    | integer m => exact congrArg Value.integer (Int.repr_inj.mp h)
    | null => exact absurd h (literalText_integer_ne n rfl)
    | boolean b => exact absurd h (literalText_integer_ne n (by cases b <;> rfl))
  | null =>
    cases hw with
    | integer m => exact absurd h.symm (literalText_integer_ne m rfl)
    | null => rfl
    | boolean b => exact absurd h (by cases b <;> decide)
  | boolean a =>
    cases hw with
    | integer m => exact absurd h.symm (literalText_integer_ne m (by cases a <;> rfl))
    | null => exact absurd h (by cases a <;> decide)
    | boolean b =>
      cases a <;> cases b <;> first | rfl | exact absurd h (by decide)

theorem ne_of_isWordChar {c d : Char} (hc : isWordChar c = true) (hd : isWordChar d = false) : c ≠ d := by
  rintro rfl
  exact Bool.false_ne_true (hd.symm.trans hc)

theorem ofChar_of_isWordChar {c : Char} (h : isWordChar c = true) : Opening.ofChar dialect c = .word := by
  have hname : isWordChar dialect.identifierQuote.1 = false := by cases dialect <;> rfl
  rw [Opening.ofChar, if_neg (ne_of_isWordChar h rfl), if_neg (ne_of_isWordChar h rfl),
    if_neg (ne_of_isWordChar h hname)]

theorem quoteIdentifier_toList (dialect : Dialect) (name : String) :
    (dialect.quoteIdentifier name).toList = dialect.identifierQuote.1 ::
      (Dialect.escapeEach dialect.identifierQuote.2 dialect.identifierQuote.1 name.toList
        ++ [dialect.identifierQuote.1]) := by
  rw [Dialect.quoteIdentifier, String.toList_ofList]

theorem text_column_append (dialect : Dialect) (table name : String) (r : List Char) :
    ((column (some table) name).text dialect).toList ++ r
      = (dialect.quoteIdentifier table).toList ++ '.' :: ((dialect.quoteIdentifier name).toList ++ r) := by
  simp [Term.text]

/-- A predicate by what it begins with. -/
inductive HasForm : Term → Opening → Prop where
  | word {v : Value} (hv : IsWord v) : HasForm (literal v) .word
  | text (s : String) : HasForm (literal (.text s)) .text
  | name (table : Option String) (name : String) : HasForm (column table name) .name
  | operation {t first : Term} {link : Link} {operands : List Term} (hparts : t.HasParts link first operands)
      (hlink : link ∈ Link.all) (hfirst : first.IsPredicate) (hoperands : ∀ operand ∈ operands, operand.IsPredicate) :
      HasForm t .operation

theorem IsPredicate.exists_form (h : t.IsPredicate) : ∃ opening, t.HasForm opening := by
  cases h with
  | word hv => exact ⟨_, .word hv⟩
  | text v => exact ⟨_, .text v⟩
  | column table name => exact ⟨_, .name table name⟩
  | operation hparts hlink hfirst hoperands => exact ⟨_, .operation hparts hlink hfirst hoperands⟩

theorem HasForm.exists_first (dialect : Dialect) {opening : Opening} (h : t.HasForm opening) :
    ∃ c cs, (t.text dialect).toList = c :: cs ∧ c ≠ ')' ∧ Opening.ofChar dialect c = opening := by
  cases h with
  | word hv =>
    obtain ⟨c, cs, hcs⟩ := List.exists_cons_of_ne_nil (literalText_ne_nil hv)
    have hc : isWordChar c = true := List.all_eq_true.mp (all_isWordChar_literalText hv) c (by simp [hcs])
    exact ⟨c, cs, by rw [Term.text, hcs], ne_of_isWordChar hc rfl, ofChar_of_isWordChar hc⟩
  | text v => exact ⟨_, _, by rw [Term.text, literalText, textLiteral, String.toList_ofList], by decide, rfl⟩
  | name table name =>
    have hquote : dialect.identifierQuote.1 ≠ ')' ∧ Opening.ofChar dialect dialect.identifierQuote.1 = .name := by
      cases dialect <;> decide
    cases table with
    | none => exact ⟨_, _, by rw [Term.text, quoteIdentifier_toList], hquote⟩
    | some table =>
      have htext := text_column_append dialect table name []
      rw [List.append_nil, quoteIdentifier_toList dialect table, List.cons_append] at htext
      exact ⟨_, _, htext, hquote⟩
  | operation hparts => exact ⟨_, _, hparts.text_eq dialect, by decide, rfl⟩

theorem HasForm.opening_eq {o p : Opening} (hs : s.HasForm o) (ht : t.HasForm p)
    (h : (s.text dialect).toList ++ r₁ = (t.text dialect).toList ++ r₂) : o = p := by
  obtain ⟨c, cs, hc, -, rfl⟩ := hs.exists_first dialect
  obtain ⟨d, ds, hd, -, rfl⟩ := ht.exists_first dialect
  rw [hc, hd, List.cons_append, List.cons_append] at h
  rw [(List.cons.inj h).1]

/-! ### One reading -/

/-- Does a text end where this follows it? -/
def Delimits (rest : List Char) : Prop := ∀ c, rest.head? = some c → c = ' ' ∨ c = ',' ∨ c = ')'

theorem Delimits.head?_ne {rest : List Char} {c : Char} (h : Delimits rest) (hblank : c ≠ ' ') (hcomma : c ≠ ',')
    (hclosing : c ≠ ')') : rest.head? ≠ some c := by
  intro hc
  obtain rfl | rfl | rfl := h c hc
  · exact hblank rfl
  · exact hcomma rfl
  · exact hclosing rfl

theorem Delimits.of_cons {c : Char} {cs : List Char} (hc : c = ' ' ∨ c = ',' ∨ c = ')') : Delimits (c :: cs) := by
  rintro d hd
  obtain rfl : c = d := by simpa using hd
  exact hc

/-- No other predicate begins a text that this one begins, if both are ended by what follows. -/
def HasOneReading (dialect : Dialect) (s : Term) : Prop :=
  ∀ t r₁ r₂, t.IsPredicate → Delimits r₁ → Delimits r₂ →
    (s.text dialect).toList ++ r₁ = (t.text dialect).toList ++ r₂ → s = t ∧ r₁ = r₂

theorem takeWhile_isWordChar_append {cs : List Char} (hcs : cs.all isWordChar = true) (hr : Delimits r) :
    (cs ++ r).takeWhile isWordChar = cs := by
  have hnil : r.takeWhile isWordChar = [] := by
    cases r with
    | nil => rfl
    | cons c r =>
      obtain rfl | rfl | rfl := hr c rfl <;> rfl
  rw [List.takeWhile_append_of_pos (List.all_eq_true.mp hcs), hnil, List.append_nil]

theorem hasOneReading_word {v : Value} (hv : IsWord v) : HasOneReading dialect (literal v) := by
  intro t r₁ r₂ ht h₁ h₂ h
  obtain ⟨opening, ht⟩ := ht.exists_form
  obtain rfl := (HasForm.word hv).opening_eq ht h
  cases ht with
  | @word w hw =>
    rw [Term.text, Term.text] at h
    have hword : (literalText v).toList = (literalText w).toList := by
      rw [← takeWhile_isWordChar_append (all_isWordChar_literalText hv) h₁, h,
        takeWhile_isWordChar_append (all_isWordChar_literalText hw) h₂]
    rw [hword] at h
    exact ⟨congrArg literal (literalText_inj hv hw (String.toList_inj.mp hword)), List.append_cancel_left h⟩

theorem hasOneReading_text (v : String) : HasOneReading dialect (literal (.text v)) := by
  intro t r₁ r₂ ht h₁ h₂ h
  obtain ⟨opening, ht⟩ := ht.exists_form
  obtain rfl := (HasForm.text v).opening_eq ht h
  cases ht with
  | text w =>
    rw [Term.text, Term.text, literalText, literalText, textLiteral, textLiteral, String.toList_ofList,
      String.toList_ofList] at h
    obtain ⟨hvw, hr⟩ := Lexing.quoted_append_inj (by decide) (h₁.head?_ne (by decide) (by decide) (by decide))
      (h₂.head?_ne (by decide) (by decide) (by decide)) h
    rw [String.toList_inj.mp hvw]
    exact ⟨rfl, hr⟩

theorem quoteIdentifier_append_inj (hdialect : dialect ≠ .clickhouse) {a b : String}
    (h₁ : r₁.head? ≠ some dialect.identifierQuote.1) (h₂ : r₂.head? ≠ some dialect.identifierQuote.1)
    (h : (dialect.quoteIdentifier a).toList ++ r₁ = (dialect.quoteIdentifier b).toList ++ r₂) : a = b ∧ r₁ = r₂ := by
  have hdoubled : dialect.identifierQuote.2 = dialect.identifierQuote.1 := by
    cases dialect with
    | clickhouse => exact absurd rfl hdialect
    | _ => rfl
  rw [quoteIdentifier_toList, quoteIdentifier_toList, hdoubled] at h
  obtain ⟨hab, hr⟩ := Lexing.quoted_append_inj (by cases dialect <;> decide) h₁ h₂ h
  exact ⟨String.toList_inj.mp hab, hr⟩

theorem hasOneReading_column (hdialect : dialect ≠ .clickhouse) (table : Option String) (name : String) :
    HasOneReading dialect (column table name) := by
  intro t r₁ r₂ ht h₁ h₂ h
  obtain ⟨opening, ht⟩ := ht.exists_form
  obtain rfl := (HasForm.name table name).opening_eq ht h
  have hquote : ∀ {r}, Delimits r → r.head? ≠ some dialect.identifierQuote.1 := fun hr =>
    hr.head?_ne (by cases dialect <;> decide) (by cases dialect <;> decide) (by cases dialect <;> decide)
  have hpoint : ∀ {r : List Char}, ('.' :: r).head? ≠ some dialect.identifierQuote.1 := by
    cases dialect <;> simp [Dialect.identifierQuote]
  have hnot : ∀ {r}, ¬Delimits ('.' :: r) := fun hr =>
    hr.head?_ne (c := '.') (by decide) (by decide) (by decide) rfl
  cases ht with
  | name table' name' =>
    cases table with
    | none =>
      cases table' with
      | none =>
        obtain ⟨rfl, hr⟩ := quoteIdentifier_append_inj hdialect (hquote h₁) (hquote h₂) h
        exact ⟨rfl, hr⟩
      | some table' =>
        rw [text_column_append] at h
        obtain ⟨-, rfl⟩ := quoteIdentifier_append_inj hdialect (hquote h₁) hpoint h
        exact absurd h₁ hnot
    | some table =>
      rw [text_column_append] at h
      cases table' with
      | none =>
        obtain ⟨-, rfl⟩ := quoteIdentifier_append_inj hdialect hpoint (hquote h₂) h
        exact absurd h₂ hnot
      | some table' =>
        rw [text_column_append] at h
        obtain ⟨rfl, htail⟩ := quoteIdentifier_append_inj hdialect hpoint hpoint h
        obtain ⟨rfl, hr⟩ := quoteIdentifier_append_inj hdialect (hquote h₁) (hquote h₂) (List.cons.inj htail).2
        exact ⟨rfl, hr⟩

namespace Link

theorem delimits_keyword_append {like : String} (hlike : like ∈ ["LIKE", "ILIKE"]) (hlink : link ∈ all)
    (r : List Char) : Delimits ((link.keyword like).toList ++ r) := by
  intro c hc
  rw [List.head?_append, head?_keyword like hlike link hlink, Option.some_or] at hc
  exact Or.inl (Option.some.inj hc).symm

theorem exists_closing (link : Link) : ∃ cs, link.closing.toList = ')' :: cs := by
  cases link with
  | inList | operator | like | isNull | between => simp [closing]

theorem exists_separator (link : Link) : ∃ c cs, link.separator.toList = c :: cs ∧ (c = ' ' ∨ c = ',') := by
  cases link with
  | between | operator | like | isNull | inList => simp [separator]

theorem following_nil_append (link : Link) (r : List Char) :
    link.following dialect [] ++ r = link.closing.toList ++ r := by
  simp [following]

theorem following_cons_append (link : Link) (operand : Term) (operands : List Term) (r : List Char) :
    link.following dialect (operand :: operands) ++ r
      = link.separator.toList ++ ((operand.text dialect).toList ++ (link.following dialect operands ++ r)) := by
  simp [following]

theorem delimits_following_append (link : Link) (operands : List Term) (r : List Char) :
    Delimits (link.following dialect operands ++ r) := by
  cases operands with
  | nil =>
    obtain ⟨cs, hcs⟩ := link.exists_closing
    rw [following_nil_append, hcs]
    exact .of_cons (Or.inr (Or.inr rfl))
  | cons operand operands =>
    obtain ⟨c, cs, hcs, hc⟩ := link.exists_separator
    rw [following_cons_append, hcs]
    exact .of_cons (hc.imp id Or.inl)

/-- An operation does not end where another operand follows. -/
theorem closing_append_ne (link : Link) (operand : Term) (operands : List Term) :
    link.closing.toList ++ r₁ ≠ link.following dialect (operand :: operands) ++ r₂ := by
  intro h
  obtain ⟨cs, hcs⟩ := link.exists_closing
  obtain ⟨c, ds, hds, hc⟩ := link.exists_separator
  rw [following_cons_append, hcs, hds] at h
  obtain rfl := (List.cons.inj h).1
  exact absurd hc (by decide)

theorem closing_append_ne_text (link : Link) (ht : t.IsPredicate) :
    link.closing.toList ++ r₁ ≠ (t.text dialect).toList ++ r₂ := by
  intro h
  obtain ⟨cs, hcs⟩ := link.exists_closing
  obtain ⟨opening, hform⟩ := ht.exists_form
  obtain ⟨c, ds, hds, hc, -⟩ := hform.exists_first dialect
  rw [hcs, hds] at h
  exact hc (List.cons.inj h).1.symm

theorem following_append_inj {link : Link} {ss ts : List Term} (hss : ∀ s ∈ ss, HasOneReading dialect s)
    (hts : ∀ t ∈ ts, t.IsPredicate) (h : link.following dialect ss ++ r₁ = link.following dialect ts ++ r₂) :
    ss = ts ∧ r₁ = r₂ := by
  induction ss generalizing ts with
  | nil =>
    cases ts with
    | nil => exact ⟨rfl, List.append_cancel_left h⟩
    | cons t ts => exact absurd (following_nil_append link r₁ ▸ h) (closing_append_ne link t ts)
  | cons s ss ih =>
    cases ts with
    | nil => exact absurd (following_nil_append link r₂ ▸ h.symm) (closing_append_ne link s ss)
    | cons t ts =>
      rw [following_cons_append, following_cons_append] at h
      obtain ⟨rfl, hrest⟩ := hss s List.mem_cons_self t _ _ (hts t List.mem_cons_self)
        (delimits_following_append link ss r₁) (delimits_following_append link ts r₂) (List.append_cancel_left h)
      obtain ⟨rfl, hr⟩ := ih (fun s hs => hss s (List.mem_cons_of_mem _ hs))
        (fun t ht => hts t (List.mem_cons_of_mem _ ht)) hrest
      exact ⟨rfl, hr⟩

theorem others_append_inj {link : Link} {ss ts : List Term} (hss : ∀ s ∈ ss, s.IsPredicate ∧ HasOneReading dialect s)
    (hts : ∀ t ∈ ts, t.IsPredicate) (h : link.others dialect ss ++ r₁ = link.others dialect ts ++ r₂) :
    ss = ts ∧ r₁ = r₂ := by
  cases ss with
  | nil =>
    cases ts with
    | nil => exact ⟨rfl, List.append_cancel_left h⟩
    | cons t ts =>
      rw [others, others, List.append_assoc] at h
      exact absurd h (closing_append_ne_text link (hts t List.mem_cons_self))
  | cons s ss =>
    cases ts with
    | nil =>
      rw [others, others, List.append_assoc] at h
      exact absurd h.symm (closing_append_ne_text link (hss s List.mem_cons_self).1)
    | cons t ts =>
      rw [others, others, List.append_assoc, List.append_assoc] at h
      obtain ⟨rfl, hrest⟩ := (hss s List.mem_cons_self).2 t _ _ (hts t List.mem_cons_self)
        (delimits_following_append link ss r₁) (delimits_following_append link ts r₂) h
      obtain ⟨rfl, hr⟩ := following_append_inj (fun s hs => (hss s (List.mem_cons_of_mem _ hs)).2)
        (fun t ht => hts t (List.mem_cons_of_mem _ ht)) hrest
      exact ⟨rfl, hr⟩

end Link

theorem HasParts.hasOneReading (hparts : s.HasParts link first operands) (hlink : link ∈ Link.all)
    (hfirst : first.IsPredicate ∧ HasOneReading dialect first)
    (hoperands : ∀ operand ∈ operands, operand.IsPredicate ∧ HasOneReading dialect operand) :
    HasOneReading dialect s := by
  intro t r₁ r₂ ht _ _ h
  obtain ⟨opening, ht⟩ := ht.exists_form
  have hs : s.HasForm .operation := .operation hparts hlink hfirst.1 fun operand hmem => (hoperands operand hmem).1
  obtain rfl := hs.opening_eq ht h
  cases ht with
  | @operation _ first' link' operands' hparts' hlink' hfirst' hoperands' =>
    rw [hparts.text_eq, hparts'.text_eq, List.cons_append, List.cons_append, List.append_assoc, List.append_assoc,
      List.append_assoc, List.append_assoc] at h
    have hlike := Link.likeKeyword_mem dialect
    obtain ⟨rfl, hkeyword⟩ := hfirst.2 _ _ _ hfirst' (Link.delimits_keyword_append hlike hlink _)
      (Link.delimits_keyword_append hlike hlink' _) (List.cons.inj h).2
    obtain ⟨rfl, hothers⟩ := Link.keyword_append_inj hlike hlink hlink' hkeyword
    obtain ⟨rfl, hr⟩ := Link.others_append_inj hoperands hoperands' hothers
    exact ⟨hparts.eq hparts', hr⟩

theorem IsPredicate.hasOneReading (hdialect : dialect ≠ .clickhouse) (h : s.IsPredicate) : HasOneReading dialect s := by
  induction h with
  | word hv => exact hasOneReading_word hv
  | text v => exact hasOneReading_text v
  | column table name => exact hasOneReading_column hdialect table name
  | operation hparts hlink hfirst hoperands ihfirst ihoperands =>
    exact hparts.hasOneReading hlink ⟨hfirst, ihfirst⟩ fun operand hmem =>
      ⟨hoperands operand hmem, ihoperands operand hmem⟩

/--
Predicates that are written alike are the same, in every target that writes the quote of names twice inside of them: no
name, no text and no order of the operations makes one read as another.
-/
theorem IsPredicate.text_eq_text_iff (hdialect : dialect ≠ .clickhouse) (hs : s.IsPredicate) (ht : t.IsPredicate) :
    s.text dialect = t.text dialect ↔ s = t := by
  have hnil : Delimits [] := by simp [Delimits]
  exact ⟨fun h => (hs.hasOneReading hdialect t [] [] ht hnil hnil (by rw [h])).1, fun h => by rw [h]⟩

/-- One text with a quote and a comma in it is not written as two texts are. -/
theorem text_quotedComma_ne :
    Dialect.mysql ≠ .clickhouse
      ∧ (inList false (column (some "o") "state") [literal (.text "new', 'paid")]).IsPredicate
      ∧ (inList false (column (some "o") "state") [literal (.text "new"), literal (.text "paid")]).IsPredicate
      ∧ (inList false (column (some "o") "state") [literal (.text "new', 'paid")]).text .mysql
        ≠ (inList false (column (some "o") "state") [literal (.text "new"), literal (.text "paid")]).text .mysql := by
  have hone : (inList false (column (some "o") "state") [literal (.text "new', 'paid")]).IsPredicate :=
    .operation .inList (by decide) (.column _ _) (by simp [IsPredicate.text])
  have htwo : (inList false (column (some "o") "state") [literal (.text "new"), literal (.text "paid")]).IsPredicate :=
    .operation .inList (by decide) (.column _ _) (by simp [IsPredicate.text])
  exact ⟨by decide, hone, htwo, (IsPredicate.text_eq_text_iff (by decide) hone htwo).not.mpr (by simp)⟩

end Term

end QueryFederation.Sql

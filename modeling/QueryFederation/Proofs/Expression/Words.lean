import Mathlib
import QueryFederation.Description.Basic
import QueryFederation.Expression.Brackets
import QueryFederation.Expression.Token

/-!
# Words

A word of the expression language goes as far as its characters do, so a text of such characters is one word wherever a
character of another kind, or nothing, follows it. The other way round, every word among the tokens of a text is a word
by itself, while a quoted name is shorter than what it was read from by its two quotes.
-/

namespace QueryFederation.Token

open Text

variable {c : Char} {cs rest left : List Char} {token : Token} {tokens : List Token} {s : String}

/-! ### One token after the other -/

@[simp] theorem ofChars?_nil : ofChars? [] = some [] := by
  rw [ofChars?]

theorem ofChars?_cons (c : Char) (rest : List Char) : ofChars? (c :: rest) =
    match next? (c :: rest) with
    | none => none
    | some (none, left) => ofChars? left
    | some (some token, left) => (ofChars? left).map (token :: ·) := by
  rw [ofChars?]
  split <;> simp_all

theorem ofChars?_of_next? (h : next? (c :: rest) = some (some token, left)) :
    ofChars? (c :: rest) = (ofChars? left).map (token :: ·) := by
  rw [ofChars?_cons, h]

theorem ofChars?_of_isBlank (h : isBlank c = true) : ofChars? (c :: rest) = ofChars? rest := by
  have hnext : next? (c :: rest) = some (none, rest) := by
    rw [next?.eq_def]
    exact if_pos h
  rw [ofChars?_cons, hnext]

/-- Every token of a text is read somewhere in it. -/
theorem exists_next?_of_mem (h : ofChars? cs = some tokens) (htoken : token ∈ tokens) :
    ∃ start left, next? start = some (some token, left) ∧ start.length ≤ cs.length := by
  induction cs using ofChars?.induct generalizing tokens with
  | case1 =>
    rw [ofChars?_nil, Option.some.injEq] at h
    subst h
    cases htoken
  | case2 c rest hnext =>
    rw [ofChars?_cons, hnext] at h
    cases h
  | case3 c rest left hnext ih =>
    rw [ofChars?_cons, hnext] at h
    obtain ⟨start, after, hread, hlength⟩ := ih h htoken
    exact ⟨start, after, hread, Nat.le_trans hlength (Nat.le_of_lt (length_next? hnext))⟩
  | case4 c rest first left hnext ih =>
    rw [ofChars?_of_next? hnext, Option.map_eq_some_iff] at h
    obtain ⟨others, hothers, rfl⟩ := h
    rcases List.mem_cons.mp htoken with rfl | htoken
    · exact ⟨_, _, hnext, Nat.le_refl _⟩
    · obtain ⟨start, after, hread, hlength⟩ := ih hothers htoken
      exact ⟨start, after, hread, Nat.le_trans hlength (Nat.le_of_lt (length_next? hnext))⟩

/-! ### Words -/

def startsWord (c : Char) : Bool := !isDigit c && c ≠ '$' && isWordChar c

/-- Is the text one word, all of it? -/
def IsWord (s : String) : Prop := ∃ c rest, s.toList = c :: rest ∧ startsWord c = true ∧ rest.all isWordChar = true

/-- What a text can start with, and what is read of each. -/
inductive Reads (c : Char) (rest : List Char) : Option (Option Token × List Char) → Prop
  | blank (h : isBlank c = true) : Reads c rest (some (none, rest))
  | text (h : c = '\'') :
    Reads c rest ((quotedPart c rest).map fun (body, left) => (some (.text (String.ofList body)), left))
  | quotedName (h : c = '"') :
    Reads c rest ((quotedPart c rest).map fun (body, left) => (some (.quotedName (String.ofList body)), left))
  | number (h : isDigit c = true) :
    Reads c rest (some (some (.number (String.ofList (c :: (numberPart true true false rest).1))),
      (numberPart true true false rest).2))
  | word (h : startsWord c = true) :
    Reads c rest (some (some (.word (String.ofList (c :: rest.takeWhile isWordChar))), rest.dropWhile isWordChar))
  | meaningless (hname : c ≠ '"') (h : meaningless.contains c = true) : Reads c rest none
  | lineComment {more : List Char} (hc : c = '-') (hrest : rest = '-' :: more) :
    Reads c rest (some (none, more.dropWhile (· ≠ '\n')))
  | blockComment {more : List Char} (hc : c = '/') (hrest : rest = '*' :: more) :
    Reads c rest ((afterComment 1 more).map (none, ·))
  | longSymbol {d : Char} {more : List Char} (hrest : rest = d :: more) (h : (c, d) ∈ longSymbols) :
    Reads c rest (some (some (.symbol (String.ofList [c, d])), more))
  | symbol (hname : c ≠ '"') (hmeaning : meaningless.contains c = false) (hline : c = '-' → rest.head? ≠ some '-')
    (hblock : c = '/' → rest.head? ≠ some '*') : Reads c rest (some (some (.symbol (String.singleton c)), rest))

theorem reads_next? (c : Char) (rest : List Char) : Reads c rest (next? (c :: rest)) := by
  rw [next?.eq_def]
  dsimp only
  split_ifs with hblank htext hname hdigit hword hmeaning
  · exact .blank hblank
  · exact .text htext
  · exact .quotedName hname
  · exact .number hdigit
  · exact .word (by simp_all [startsWord])
  · exact .meaningless hname hmeaning
  rw [Bool.not_eq_true] at hmeaning
  cases rest with
  | nil => exact .symbol hname hmeaning (fun _ => nofun) fun _ => nofun
  | cons d more =>
    dsimp only
    split_ifs with hline hblock hlong
    · rw [Bool.and_eq_true, decide_eq_true_eq, decide_eq_true_eq] at hline
      exact .lineComment hline.1 (by rw [hline.2])
    · rw [Bool.and_eq_true, decide_eq_true_eq, decide_eq_true_eq] at hblock
      exact .blockComment hblock.1 (by rw [hblock.2])
    · exact .longSymbol rfl (List.contains_iff_mem.mp hlong)
    · exact .symbol hname hmeaning (by simpa using hline) (by simpa using hblock)

theorem next?_of_startsWord (h : startsWord c = true) : next? (c :: rest)
    = some (some (word (String.ofList (c :: rest.takeWhile isWordChar))), rest.dropWhile isWordChar) := by
  simp only [startsWord, Bool.and_eq_true, Bool.not_eq_true', decide_eq_true_eq] at h
  obtain ⟨⟨hdigit, hdollar⟩, hword⟩ := h
  have hkind := hword
  simp only [isWordChar, Bool.and_eq_true, Bool.not_eq_true', decide_eq_true_eq] at hkind
  obtain ⟨⟨⟨⟨hblank, -⟩, -⟩, hquote⟩, hdouble⟩ := hkind
  rw [next?.eq_def]
  simp [hdigit, hdollar, hblank, hquote, hdouble, hword]

/-- What stands up to the closing quote, and what follows that; a quote that is written twice stands for itself. -/
inductive Quoted (quote : Char) : List Char → List Char → List Char → Prop
  | closed {left : List Char} (h : left.head? ≠ some quote) : Quoted quote (quote :: left) [] left
  | doubled {cs body left : List Char} (h : Quoted quote cs body left) :
    Quoted quote (quote :: quote :: cs) (quote :: body) left
  | other {c : Char} {cs body left : List Char} (hc : c ≠ quote) (h : Quoted quote cs body left) :
    Quoted quote (c :: cs) (c :: body) left

theorem quoted_of_quotedPart {quote : Char} {body : List Char} (h : quotedPart quote cs = some (body, left)) :
    Quoted quote cs body left := by
  fun_induction quotedPart quote cs generalizing body left with
  | case1 => cases h
  | case2 more ih =>
    obtain ⟨⟨inner, after⟩, hinner, heq⟩ := Option.map_eq_some_iff.mp h
    cases heq
    exact .doubled (ih hinner)
  | case3 d more hne =>
    cases h
    exact .closed (by simpa using hne)
  | case4 =>
    cases h
    exact .closed (by simp)
  | case5 c more hne ih =>
    obtain ⟨⟨inner, after⟩, hinner, heq⟩ := Option.map_eq_some_iff.mp h
    cases heq
    exact .other hne (ih hinner)

theorem Quoted.length_add {quote : Char} {body : List Char} (h : Quoted quote cs body left) :
    body.length + left.length + 1 ≤ cs.length := by
  induction h with
  | closed => simp
  | doubled _ ih | other _ _ ih =>
    simp only [List.length_cons]
    omega

/-- A word is read as such, a quoted name in two quotes more. -/
theorem of_next? {start : List Char} (h : next? start = some (some token, left)) :
    (∀ s, token = word s → IsWord s) ∧ ∀ s, token = quotedName s → s.length + 2 ≤ start.length := by
  cases start with
  | nil => cases h
  | cons c rest =>
    have hreads := reads_next? c rest
    generalize next? (c :: rest) = result at h hreads
    cases hreads with
    | blank | lineComment => cases h
    | meaningless => cases h
    | blockComment =>
      obtain ⟨after, -, heq⟩ := Option.map_eq_some_iff.mp h
      cases heq
    | text =>
      obtain ⟨⟨body, after⟩, -, heq⟩ := Option.map_eq_some_iff.mp h
      cases heq
      exact ⟨nofun, nofun⟩
    | quotedName =>
      obtain ⟨⟨body, after⟩, hbody, heq⟩ := Option.map_eq_some_iff.mp h
      cases heq
      have hlength := (quoted_of_quotedPart hbody).length_add
      refine ⟨nofun, ?_⟩
      rintro s ⟨⟩
      simp
      omega
    | word hstart =>
      cases h
      refine ⟨?_, nofun⟩
      rintro s ⟨⟩
      exact ⟨c, rest.takeWhile isWordChar, String.toList_ofList, hstart, List.all_takeWhile⟩
    | number | longSymbol | symbol =>
      cases h
      exact ⟨nofun, nofun⟩

/-- Every word among tokens is a word by itself. -/
theorem isWord_of_mem (h : ofChars? cs = some tokens) (hs : word s ∈ tokens) : IsWord s := by
  obtain ⟨start, left, hnext, -⟩ := exists_next?_of_mem h hs
  exact (of_next? hnext).1 s rfl

theorem length_of_quotedName_mem (h : ofChars? cs = some tokens) (hs : quotedName s ∈ tokens) :
    s.length + 2 ≤ cs.length := by
  obtain ⟨start, left, hnext, hlength⟩ := exists_next?_of_mem h hs
  exact Nat.le_trans ((of_next? hnext).2 s rfl) hlength

/-! ### Texts of words -/

/-- Does no word go on here? -/
def EndsWord (rest : List Char) : Prop := ∀ c ∈ rest.head?, isWordChar c = false

theorem endsWord_cons (h : isWordChar c = false) : EndsWord (c :: rest) := by
  rintro _ ⟨⟩
  exact h

theorem takeWhile_of_endsWord (h : EndsWord rest) : rest.takeWhile isWordChar = [] := by
  cases rest with
  | nil => rfl
  | cons c rest => exact List.takeWhile_cons_of_neg (by simp [h c rfl])

theorem dropWhile_of_endsWord (h : EndsWord rest) : rest.dropWhile isWordChar = rest := by
  cases rest with
  | nil => rfl
  | cons c rest => exact List.dropWhile_cons_of_neg (by simp [h c rfl])

theorem IsWord.ofChars?_append (h : IsWord s) (hrest : EndsWord rest) :
    ofChars? (s.toList ++ rest) = (ofChars? rest).map (word s :: ·) := by
  obtain ⟨c, others, hs, hstart, hothers⟩ := h
  have hall : ∀ c ∈ others, isWordChar c = true := List.all_eq_true.mp hothers
  have htake : (others ++ rest).takeWhile isWordChar = others := by
    rw [List.takeWhile_append_of_pos hall, takeWhile_of_endsWord hrest, List.append_nil]
  have hdrop : (others ++ rest).dropWhile isWordChar = rest := by
    rw [List.dropWhile_append_of_pos hall, dropWhile_of_endsWord hrest]
  rw [hs, List.cons_append, ofChars?_of_next? (next?_of_startsWord hstart), htake, hdrop, ← hs, String.ofList_toList]

/-- The symbols that are used to write a call stand for themselves. -/
theorem ofChars?_symbol (h : c = '(' ∨ c = '.' ∨ c = ')') :
    ofChars? (c :: rest) = (ofChars? rest).map (symbol (String.singleton c) :: ·) := by
  have hnext : next? (c :: rest) = some (some (symbol (String.singleton c)), rest) := by
    have hkind : isBlank c = false ∧ c ≠ '\'' ∧ c ≠ '"' ∧ isDigit c = false ∧ isWordChar c = false
        ∧ meaningless.contains c = false ∧ c ≠ '-' ∧ c ≠ '/' ∧ ∀ d, longSymbols.contains (c, d) = false := by
      rcases h with rfl | rfl | rfl <;> simp [longSymbols] <;> decide
    obtain ⟨hblank, hquote, hdouble, hdigit, hword, hmeaningless, hminus, hslash, hlong⟩ := hkind
    rw [next?.eq_def]
    cases rest <;>
      simp only [hblank, hquote, hdouble, hdigit, hword, hmeaningless, hminus, hslash, hlong, Bool.false_eq_true,
        if_false, Bool.and_false, decide_false, Bool.false_and]
  exact ofChars?_of_next? hnext

theorem IsWord.ofChars?_point (h : IsWord s) (cs : List Char) :
    ofChars? (s.toList ++ '.' :: cs) = (ofChars? cs).map ([.word s, .symbol "."] ++ ·) := by
  rw [h.ofChars?_append (endsWord_cons (by decide)), ofChars?_symbol (Or.inr (Or.inl rfl))]
  simp [Function.comp_def]

theorem IsWord.ofChars?_close (h : IsWord s) : ofChars? (s.toList ++ [')']) = some [.word s, .symbol ")"] := by
  rw [h.ofChars?_append (endsWord_cons (by decide)), ofChars?_symbol (Or.inr (Or.inr rfl)), ofChars?_nil]
  rfl

theorem isWord_keyword (function : AggregateFunction) : IsWord function.keyword := by
  cases function <;> exact ⟨_, _, rfl, by decide, by decide⟩

theorem IsWord.isWordChar_of_mem (h : IsWord s) (hc : c ∈ s.toList) : isWordChar c = true := by
  obtain ⟨first, rest, hs, hfirst, hrest⟩ := h
  rw [hs] at hc
  rcases List.mem_cons.mp hc with rfl | hc
  · simp only [startsWord, Bool.and_eq_true] at hfirst
    exact hfirst.2
  · exact List.all_eq_true.mp hrest c hc

theorem IsWord.ne_empty (h : IsWord s) : s ≠ "" := by
  rintro rfl
  obtain ⟨first, rest, hs, -⟩ := h
  cases hs

/-! ### Identifiers and brackets -/

theorem isBracket_of_isWordChar (h : isWordChar c = true) : Expression.isBracket c = false := by
  by_contra hbracket
  rw [Bool.not_eq_false, Expression.isBracket, Bool.or_eq_true, decide_eq_true_eq, decide_eq_true_eq] at hbracket
  rcases hbracket with rfl | rfl <;> exact absurd h (by decide)

theorem toNat_lt_of_isAlphanum (h : (c.isAlphanum || c = '_') = true) : c.toNat < 128 := by
  rw [Bool.or_eq_true, decide_eq_true_eq] at h
  rcases h with h | rfl
  · simp only [Char.isAlphanum, Char.isAlpha, Char.isUpper, Char.isLower, Char.isDigit, Bool.or_eq_true,
      Bool.and_eq_true, decide_eq_true_eq, UInt32.le_iff_toNat_le, ge_iff_le] at h
    have hn : c.toNat = c.val.toNat := rfl
    have hupper : 'Z'.val.toNat = 90 := rfl
    have hlower : 'z'.val.toNat = 122 := rfl
    have hdigit : '9'.val.toNat = 57 := rfl
    omega
  · decide

/-- The characters of identifiers are those of words. -/
theorem isWordChar_of_isAlphanum (h : (c.isAlphanum || c = '_') = true) : isWordChar c = true := by
  have hall : ∀ n < 128, ((Char.ofNat n).isAlphanum || Char.ofNat n = '_') = true →
      isWordChar (Char.ofNat n) = true := by decide +kernel
  have hlt := toNat_lt_of_isAlphanum h
  rw [← Char.ofNat_toNat c] at h ⊢
  exact hall c.toNat hlt h

theorem startsWord_of_isAlpha (h : (c.isAlpha || c = '_') = true) : startsWord c = true := by
  have hall : ∀ n < 128, ((Char.ofNat n).isAlpha || Char.ofNat n = '_') = true →
      startsWord (Char.ofNat n) = true := by decide +kernel
  have hnext : (c.isAlphanum || c = '_') = true := by
    rw [Char.isAlphanum, Bool.or_right_comm, h, Bool.true_or]
  have hlt := toNat_lt_of_isAlphanum hnext
  rw [← Char.ofNat_toNat c] at h ⊢
  exact hall c.toNat hlt h

/-- An identifier is a word, and perhaps a line feed behind it. -/
theorem exists_word_of_isIdentifier {name : String} (h : isIdentifier name = true) :
    ∃ w, IsWord w ∧ (name.toList = w.toList ∨ name.toList = w.toList ++ ['\n']) := by
  have hall : ∀ {rest : List Char}, (rest.all fun c => c.isAlphanum || c = '_') = true →
      rest.all isWordChar = true := by
    intro rest hrest
    rw [List.all_eq_true] at hrest ⊢
    exact fun c hc => isWordChar_of_isAlphanum (hrest c hc)
  rw [isIdentifier] at h
  cases hname : name.toList with
  | nil =>
    rw [hname] at h
    cases h
  | cons c rest =>
    rw [hname] at h
    simp only [Bool.and_eq_true] at h
    obtain ⟨hfirst, hrest⟩ := h
    have hstart := startsWord_of_isAlpha hfirst
    rw [Bool.or_eq_true] at hrest
    rcases hrest with hrest | hrest
    · exact ⟨name, ⟨c, rest, hname, hstart, hall hrest⟩, Or.inl hname.symm⟩
    · rw [Bool.and_eq_true, decide_eq_true_eq] at hrest
      have hw : (String.ofList (c :: rest.dropLast)).toList = c :: rest.dropLast := String.toList_ofList
      refine ⟨String.ofList (c :: rest.dropLast), ⟨c, rest.dropLast, hw, hstart, hall hrest.2⟩, Or.inr ?_⟩
      rw [hw, List.cons_append, List.dropLast_append_getLast? _ hrest.1]

end QueryFederation.Token

import QueryFederation.Text.Basic
import QueryFederation.Text.Case

/-!
# Tokens of the expression language

A text is cut from the left: blanks and comments are dropped, and of what remains every token takes as many characters
as it can. A text that ends inside a quote or a comment has no tokens, nor has one with a character that starts none.
-/

namespace QueryFederation

inductive Token where
  | word (s : String)
  | quotedName (s : String)
  | text (s : String)
  | number (s : String)
  | symbol (s : String)
  deriving DecidableEq, Repr

namespace Token

open Text

/-- Is the token this word, in any case? The word is given in capitals. -/
def isKeyword (keyword : String) : Token → Bool
  | word s => upper s = keyword
  | _ => false

/-- The characters that stand for themselves and end a word. -/
def punctuation : List Char := "()[]{}&^:,-.|/=!><;+*~?@#%\\".toList

/-- The characters that have no meaning outside of quotes. -/
def meaningless : List Char := ['\x60']

def isWordChar (c : Char) : Bool :=
  !isBlank c && !punctuation.contains c && !meaningless.contains c && c ≠ '\'' && c ≠ '"'

def longSymbols : List (Char × Char) :=
  [(':', ':'), ('|', '|'), ('<', '>'), ('!', '='), ('=', '='), ('<', '='), ('>', '=')]

/-! ### Pieces -/

/-- Reads up to the closing quote; a quote that is written twice belongs to the text. -/
def quotedPart (quote : Char) : List Char → Option (List Char × List Char)
  | [] => none
  | c :: rest =>
    if c = quote then
      match rest with
      | d :: more =>
        if d = quote then (quotedPart quote more).map fun (body, left) => (c :: body, left) else some ([], rest)
      | [] => some ([], [])
    else (quotedPart quote rest).map fun (body, left) => (c :: body, left)

/-- Skips a comment that holds comments; `depth` of them are open. -/
def afterComment (depth : Nat) : List Char → Option (List Char)
  | '*' :: '/' :: rest => if depth ≤ 1 then some rest else afterComment (depth - 1) rest
  | '/' :: '*' :: rest => afterComment (depth + 1) rest
  | _ :: rest => afterComment depth rest
  | [] => none

def startsWithDigit : List Char → Bool
  | [] => false
  | c :: _ => isDigit c

/--
What belongs to a number whose first digit is read: digits, one point, one exponent mark and, once that mark is read,
one sign before a digit.
-/
def numberPart (pointLeft markLeft signLeft : Bool) : List Char → List Char × List Char
  | [] => ([], [])
  | c :: rest =>
    let take (part : List Char × List Char) : List Char × List Char := (c :: part.1, part.2)
    if isDigit c then take (numberPart pointLeft markLeft signLeft rest)
    else if c = '.' && pointLeft then take (numberPart false markLeft signLeft rest)
    else if (c = '+' || c = '-') && signLeft && startsWithDigit rest then
      take (numberPart pointLeft markLeft false rest)
    else if (c = 'e' || c = 'E') && markLeft then take (numberPart pointLeft false true rest)
    else ([], c :: rest)

theorem length_quotedPart {quote : Char} {cs body rest : List Char} (h : quotedPart quote cs = some (body, rest)) :
    rest.length < cs.length := by
  fun_induction quotedPart quote cs generalizing body rest with
  | case1 => simp at h
  | case2 => simp_all; grind
  | case3 => simp_all
  | case4 => simp_all
  | case5 => simp_all; grind

theorem length_afterComment {depth : Nat} {cs rest : List Char} (h : afterComment depth cs = some rest) :
    rest.length < cs.length := by
  fun_induction afterComment depth cs <;> grind

theorem length_numberPart (pointLeft markLeft signLeft : Bool) (cs : List Char) :
    (numberPart pointLeft markLeft signLeft cs).2.length ≤ cs.length := by
  fun_induction numberPart pointLeft markLeft signLeft cs <;> grind

theorem length_dropWhile_le (p : Char → Bool) (cs : List Char) : (cs.dropWhile p).length ≤ cs.length := by
  induction cs with
  | nil => simp
  | cons c cs ih => by_cases h : p c <;> simp [List.dropWhile, h]; omega

/-! ### Tokens -/

/-- The first token and what follows it; no token for a blank or a comment. Nothing if the text cannot go on. -/
def next? : List Char → Option (Option Token × List Char)
  | [] => none
  | c :: rest =>
    if isBlank c then some (none, rest)
    else if c = '\'' then (quotedPart c rest).map fun (body, left) => (some (text (String.ofList body)), left)
    else if c = '"' then (quotedPart c rest).map fun (body, left) => (some (quotedName (String.ofList body)), left)
    else if isDigit c then
      let (body, left) := numberPart true true false rest
      some (some (number (String.ofList (c :: body))), left)
    else if c ≠ '$' && isWordChar c then
      some (some (word (String.ofList (c :: rest.takeWhile isWordChar))), rest.dropWhile isWordChar)
    else if meaningless.contains c then none
    else match rest with
      | d :: more =>
        if c = '-' && d = '-' then some (none, more.dropWhile (· ≠ '\n'))
        else if c = '/' && d = '*' then (afterComment 1 more).map (none, ·)
        else if longSymbols.contains (c, d) then some (some (symbol (String.ofList [c, d])), more)
        else some (some (symbol (String.singleton c)), rest)
      | [] => some (some (symbol (String.singleton c)), [])

theorem length_next? {cs rest : List Char} {token : Option Token} (h : next? cs = some (token, rest)) :
    rest.length < cs.length := by
  match cs with
  | [] => simp [next?] at h
  | c :: cs =>
    have hn := length_numberPart true true false cs
    have hw := length_dropWhile_le isWordChar cs
    simp only [next?] at h
    split at h
    · grind
    split at h
    · obtain ⟨⟨body, left⟩, hq, he⟩ := Option.map_eq_some_iff.1 h
      have := length_quotedPart hq
      grind
    split at h
    · obtain ⟨⟨body, left⟩, hq, he⟩ := Option.map_eq_some_iff.1 h
      have := length_quotedPart hq
      grind
    split at h
    · grind
    split at h
    · grind
    split at h
    · grind
    split at h
    · have hl := fun more => length_dropWhile_le (fun x => decide (x ≠ '\n')) more
      split at h
      · grind
      split at h
      · obtain ⟨left, hq, he⟩ := Option.map_eq_some_iff.1 h
        have := length_afterComment hq
        grind
      split at h <;> grind
    · grind

def ofChars? (cs : List Char) : Option (List Token) :=
  match cs with
  | [] => some []
  | c :: rest =>
    match _h : next? (c :: rest) with
    | none => none
    | some (none, left) => ofChars? left
    | some (some token, left) => (ofChars? left).map (token :: ·)
termination_by cs.length
decreasing_by
  · exact length_next? _h
  · exact length_next? _h

def ofText? (s : String) : Option (List Token) := ofChars? s.toList

end Token

end QueryFederation

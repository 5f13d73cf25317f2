import Mathlib
import QueryFederation.Proofs.Expression.Words

/-!
# Text literals

To find the text literals of a text one need not cut it into tokens: it is enough to go from character to character, and
to leave out quoted names and comments as a whole.
-/

namespace QueryFederation.Token

open Text

variable {c : Char} {cs rest left body : List Char}

/-- A text literal, and what follows it. -/
structure Literal where
  value : String
  rest : List Char
  deriving DecidableEq

/-- Where to go on behind a character that opens no text literal: behind the quoted name or the comment that it opens. -/
def skip? (c : Char) (rest : List Char) : Option (List Char) :=
  if c = '"' then (quotedPart c rest).map (·.2)
  else if meaningless.contains c then none
  else match rest with
    | d :: more =>
      if c = '-' && d = '-' then some (more.dropWhile (· ≠ '\n'))
      else if c = '/' && d = '*' then afterComment 1 more
      else some rest
    | [] => some []

/-- A quoted name or a comment is skipped as a whole, and any other character alone. -/
inductive Skips (c : Char) (rest : List Char) : List Char → Prop
  | quotedName {body left : List Char} (hc : c = '"') (h : quotedPart '"' rest = some (body, left)) : Skips c rest left
  | lineComment {more : List Char} (hc : c = '-') (hrest : rest = '-' :: more) :
    Skips c rest (more.dropWhile (· ≠ '\n'))
  | blockComment {more left : List Char} (hc : c = '/') (hrest : rest = '*' :: more)
    (h : afterComment 1 more = some left) : Skips c rest left
  | alone (hname : c ≠ '"') (hmeaning : meaningless.contains c = false) (hline : c = '-' → rest.head? ≠ some '-')
    (hblock : c = '/' → rest.head? ≠ some '*') : Skips c rest rest

theorem skips_of_skip? (h : skip? c rest = some left) : Skips c rest left := by
  rw [skip?.eq_def] at h
  split_ifs at h with hname hmeaning
  · obtain ⟨⟨body, after⟩, hpart, rfl⟩ := Option.map_eq_some_iff.mp h
    exact .quotedName hname (hname ▸ hpart)
  rw [Bool.not_eq_true] at hmeaning
  cases rest with
  | nil =>
    cases h
    exact .alone hname hmeaning (fun _ => nofun) fun _ => nofun
  | cons d more =>
    dsimp only at h
    split_ifs at h with hline hblock
    · cases h
      rw [Bool.and_eq_true, decide_eq_true_eq, decide_eq_true_eq] at hline
      exact .lineComment hline.1 (by rw [hline.2])
    · rw [Bool.and_eq_true, decide_eq_true_eq, decide_eq_true_eq] at hblock
      exact .blockComment hblock.1 (by rw [hblock.2]) h
    · cases h
      exact .alone hname hmeaning (by simpa using hline) (by simpa using hblock)

theorem length_skip? (h : skip? c rest = some left) : left.length ≤ rest.length := by
  cases skips_of_skip? h with
  | quotedName _ hpart => exact Nat.le_of_lt (length_quotedPart hpart)
  | lineComment _ hrest =>
    subst hrest
    exact Nat.le_succ_of_le (length_dropWhile_le _ _)
  | blockComment _ hrest hafter =>
    subst hrest
    exact Nat.le_succ_of_le (Nat.le_of_lt (length_afterComment hafter))
  | alone => exact Nat.le_refl _

def literals? : List Char → Option (List Literal)
  | [] => some []
  | c :: rest =>
    if c = '\'' then
      match _h : quotedPart c rest with
      | none => none
      | some (body, left) => (literals? left).map (⟨String.ofList body, left⟩ :: ·)
    else
      match _h : skip? c rest with
      | none => none
      | some left => literals? left
termination_by cs => cs.length
decreasing_by
  · exact Nat.lt_succ_of_lt (length_quotedPart _h)
  · exact Nat.lt_succ_of_le (length_skip? _h)

/-! ### Literals among tokens -/

def literal? : Token → Option String
  | text s => some s
  | _ => none

/-- The values of the text literals among the tokens of a text. -/
def literalValues? (cs : List Char) : Option (List String) := (ofChars? cs).map (·.filterMap literal?)

@[simp] theorem literalValues?_nil : literalValues? [] = some [] := by
  rw [literalValues?, ofChars?_nil]
  rfl

theorem literalValues?_quote : literalValues? ('\'' :: rest)
    = (quotedPart '\'' rest).bind fun (body, left) => (literalValues? left).map (String.ofList body :: ·) := by
  have hnext : next? ('\'' :: rest)
      = (quotedPart '\'' rest).map fun (body, left) => (some (text (String.ofList body)), left) := by
    rw [next?.eq_def]
    dsimp only
    rw [if_neg (by decide), if_pos rfl]
  rw [literalValues?, ofChars?_cons, hnext]
  cases quotedPart '\'' rest with
  | none => rfl
  | some part =>
    simp only [Option.map_some, Option.bind_some, literalValues?, Option.map_map]
    rfl

/-- Where no quote opens a text literal, none is read. -/
theorem literal?_of_next? (hquote : c ≠ '\'') : ∀ part ∈ next? (c :: rest), part.1.bind literal? = none := by
  have hreads := reads_next? c rest
  generalize next? (c :: rest) = result at hreads
  intro part hpart
  cases hreads with
  | text h => exact absurd h hquote
  | quotedName | blockComment =>
    obtain ⟨_, -, rfl⟩ := Option.map_eq_some_iff.mp hpart
    rfl
  | meaningless => cases hpart
  | blank | number | word | lineComment | longSymbol | symbol =>
    cases hpart
    rfl

/-- What follows has all the literals then. -/
theorem literalValues?_eq_bind (hquote : c ≠ '\'') :
    literalValues? (c :: rest) = ((next? (c :: rest)).map (·.2)).bind literalValues? := by
  have hliteral : ∀ part ∈ next? (c :: rest), part.1.bind literal? = none := literal?_of_next? hquote
  rw [literalValues?, ofChars?_cons]
  match hnext : next? (c :: rest) with
  | none => rfl
  | some (none, left) => rfl
  | some (some token, left) =>
    have hnone : literal? token = none := hliteral _ hnext
    simp only [Option.map_some, Option.bind_some, Option.map_map, literalValues?]
    refine congrArg (Option.map · (ofChars? left)) (funext fun tokens => ?_)
    exact List.filterMap_cons_none hnone

theorem skip?_plain (hname : c ≠ '"') (hmeaning : meaningless.contains c = false)
    (hline : c = '-' → rest.head? ≠ some '-') (hblock : c = '/' → rest.head? ≠ some '*') :
    skip? c rest = some rest := by
  rw [skip?.eq_def, if_neg hname, if_neg (by simp only [hmeaning, Bool.false_eq_true, not_false_eq_true])]
  cases rest with
  | nil => rfl
  | cons d more =>
    have hnoLine : (c = '-' && d = '-') = false := by
      rw [Bool.and_eq_false_imp]
      simpa using hline
    have hnoBlock : (c = '/' && d = '*') = false := by
      rw [Bool.and_eq_false_imp]
      simpa using hblock
    simp only [hnoLine, hnoBlock, Bool.false_eq_true, if_false]

/-- The characters that open what is left out, or that cannot be read. -/
def marks : List Char := ['"', '\x60', '-', '/']

theorem skip?_of_notMem_marks (h : c ∉ marks) : skip? c rest = some rest := by
  have hne : ∀ mark ∈ marks, c ≠ mark := fun mark hmark heq => h (heq ▸ hmark)
  have hmeaning : meaningless.contains c = false := by
    simpa [meaningless] using hne '\x60' (by simp [marks])
  exact skip?_plain (hne _ (by simp [marks])) hmeaning (fun h => absurd h (hne _ (by simp [marks])))
    fun h => absurd h (hne _ (by simp [marks]))

/-- No part of a long symbol is a mark or opens a text literal. -/
theorem notMem_marks_of_mem_longSymbols : ∀ symbol ∈ longSymbols,
    symbol.1 ∉ marks ∧ symbol.2 ∉ marks ∧ symbol.2 ≠ '\'' := by
  simp only [longSymbols, List.forall_mem_cons]
  exact ⟨by decide, by decide, by decide, by decide, by decide, by decide, by decide, List.forall_mem_nil _⟩

/-- A character of a class that has no marks in it is skipped alone. -/
theorem skip?_of_class {p : Char → Bool} (hclass : marks.any p = false) (hc : p c = true) :
    skip? c rest = some rest :=
  skip?_of_notMem_marks fun hmark => List.any_eq_false.mp hclass c hmark hc

theorem skip?_of_isBlank (h : isBlank c = true) : skip? c rest = some rest := skip?_of_class (by decide) h

theorem skip?_of_isDigit (h : isDigit c = true) : skip? c rest = some rest := skip?_of_class (by decide) h

theorem skip?_of_isWordChar (h : isWordChar c = true) : skip? c rest = some rest := skip?_of_class (by decide) h

section

variable {n : Nat} (ih : ∀ c (rest : List Char), rest.length < n → c ≠ '\'' →
  literalValues? (c :: rest) = (skip? c rest).bind literalValues?)

include ih

private theorem literalValues?_of_skip? (hrest : rest.length < n) (hquote : c ≠ '\'') (h : skip? c rest = some rest) :
    literalValues? (c :: rest) = literalValues? rest := by
  rw [ih c rest hrest hquote, h]
  rfl

private theorem literalValues?_dropWhile (hrest : rest.length ≤ n) :
    literalValues? rest = literalValues? (rest.dropWhile isWordChar) := by
  induction rest with
  | nil => rfl
  | cons c rest ihrest =>
    by_cases hword : isWordChar c = true
    · have hquote : c ≠ '\'' := by
        rintro rfl
        exact absurd hword (by decide)
      rw [List.dropWhile_cons_of_pos hword, ← ihrest (Nat.le_of_succ_le hrest)]
      exact literalValues?_of_skip? ih hrest hquote (skip?_of_isWordChar hword)
    · rw [List.dropWhile_cons_of_neg hword]

private theorem literalValues?_numberPart (pointLeft markLeft signLeft : Bool) (hrest : rest.length ≤ n) :
    literalValues? rest = literalValues? (numberPart pointLeft markLeft signLeft rest).2 := by
  fun_induction numberPart pointLeft markLeft signLeft rest with
  | case1 => rfl
  | case2 pointLeft markLeft signLeft c rest take hdigit ihrest =>
    have hquote : c ≠ '\'' := by
      rintro rfl
      exact absurd hdigit (by decide)
    rw [literalValues?_of_skip? ih hrest hquote (skip?_of_isDigit hdigit)]
    exact ihrest (Nat.le_of_succ_le hrest)
  | case3 pointLeft markLeft signLeft c rest take hdigit hpoint ihrest =>
    obtain ⟨hc, -⟩ := Bool.and_eq_true_iff.mp hpoint
    obtain rfl := of_decide_eq_true hc
    rw [literalValues?_of_skip? ih hrest (by decide) (skip?_of_notMem_marks (by decide))]
    exact ihrest (Nat.le_of_succ_le hrest)
  | case4 pointLeft markLeft signLeft c rest take hdigit hpoint hsign ihrest =>
    simp only [Bool.and_eq_true, Bool.or_eq_true, decide_eq_true_eq] at hsign
    obtain ⟨⟨hc, -⟩, hrestDigit⟩ := hsign
    -- A sign within a number stands before a digit, so it is no part of a mark for comments.
    have hline : c = '-' → rest.head? ≠ some '-' := by
      rintro - hhead
      obtain ⟨more, rfl⟩ := List.head?_eq_some_iff.mp hhead
      have hdigit : isDigit '-' = true := hrestDigit
      exact absurd hdigit (by decide)
    have hskip : skip? c rest = some rest := by
      rcases hc with rfl | rfl
      · exact skip?_of_notMem_marks (by decide)
      · exact skip?_plain (by decide) (by decide) hline fun h => absurd h (by decide)
    rw [literalValues?_of_skip? ih hrest (by rintro rfl; simp at hc) hskip]
    exact ihrest (Nat.le_of_succ_le hrest)
  | case5 pointLeft markLeft signLeft c rest take hdigit hpoint hsign hmark ihrest =>
    simp only [Bool.and_eq_true, Bool.or_eq_true, decide_eq_true_eq] at hmark
    have hskip : skip? c rest = some rest := by
      rcases hmark.1 with rfl | rfl <;> exact skip?_of_notMem_marks (by decide)
    rw [literalValues?_of_skip? ih hrest (by rintro rfl; simp at hmark) hskip]
    exact ihrest (Nat.le_of_succ_le hrest)
  | case6 => rfl

end

/-- Behind a character that opens no text literal, one goes on where it leads to. -/
theorem literalValues?_skip? (hquote : c ≠ '\'') :
    literalValues? (c :: rest) = (skip? c rest).bind literalValues? := by
  induction hn : rest.length using Nat.strong_induction_on generalizing c rest with
  | _ n ih =>
    subst hn
    have ih' : ∀ c (more : List Char), more.length < rest.length → c ≠ '\'' →
        literalValues? (c :: more) = (skip? c more).bind literalValues? := fun c more hlt hc => ih _ hlt hc rfl
    rw [literalValues?_eq_bind hquote]
    have hreads := reads_next? c rest
    generalize next? (c :: rest) = result at hreads
    cases hreads with
    | blank h =>
      rw [skip?_of_isBlank h]
      rfl
    | text h => exact absurd h hquote
    | quotedName h =>
      rw [skip?.eq_def, if_pos h, Option.map_map]
      rfl
    | number h =>
      rw [skip?_of_isDigit h]
      exact (literalValues?_numberPart ih' true true false (Nat.le_refl _)).symm
    | word h =>
      rw [skip?_of_isWordChar (Bool.and_eq_true_iff.mp h).2]
      exact (literalValues?_dropWhile ih' (Nat.le_refl _)).symm
    | meaningless hname h =>
      rw [skip?.eq_def, if_neg hname, if_pos h]
      rfl
    | lineComment hc hrest =>
      subst hc hrest
      rfl
    | blockComment hc hrest =>
      subst hc hrest
      rw [Option.map_map]
      exact congrArg (Option.bind · literalValues?) Option.map_id'
    | @longSymbol d more hrest h =>
      subst hrest
      obtain ⟨hfirst, hsecond, hopen⟩ := notMem_marks_of_mem_longSymbols _ h
      rw [skip?_of_notMem_marks hfirst, Option.bind_some, ih' d more (Nat.lt_succ_self _) hopen,
        skip?_of_notMem_marks hsecond]
      rfl
    | symbol hname hmeaning hline hblock =>
      rw [skip?_plain hname hmeaning hline hblock]
      rfl

/-- The literals that are found from character to character are those among the tokens. -/
theorem literalValues?_eq (cs : List Char) : literalValues? cs = (literals? cs).map (·.map Literal.value) := by
  fun_induction literals? cs with
  | case1 => exact literalValues?_nil
  | case2 rest hpart =>
    rw [literalValues?_quote, hpart]
    rfl
  | case3 rest body left hpart ih =>
    rw [literalValues?_quote, hpart, Option.bind_some]
    dsimp only
    rw [ih, Option.map_map, Option.map_map]
    rfl
  | case4 c rest hquote hskip =>
    rw [literalValues?_skip? hquote, hskip]
    rfl
  | case5 c rest hquote left hskip ih =>
    rw [literalValues?_skip? hquote, hskip]
    exact ih

end QueryFederation.Token

import Mathlib
import QueryFederation.Proofs.Expression.Literals

/-!
# Literals of cleaned texts

Cleanup takes brackets away wherever they stand. In a text literal that changes what it says. Outside of literals it can
bring together what brackets have kept apart: two literals that only brackets part become one, with a quote in it, and
the two halves of a mark become the mark of a comment. Apart from that every literal is found again, without its
brackets, so all literals keep their values exactly if there is no bracket in any of them and none between two of them.
-/

namespace QueryFederation.Token

open Text
open Expression (isBracket)

variable {c q : Char} {cs rest left body after : List Char} {found : List Literal} {values : List String} {depth : Nat}

/-! ### Characters without brackets -/

/-- The characters of a text that cleanup leaves. -/
def unbracketed (cs : List Char) : List Char := cs.filter fun c => !isBracket c

/-- Do brackets, at least one, lead to this character? -/
def bracketsLeadTo (c : Char) (rest : List Char) : Bool :=
  rest.head?.any isBracket && (rest.dropWhile isBracket).head? = some c

/-- Do brackets stand between the two characters of a mark where a comment starts or ends? -/
def partsMark : List Char → Bool
  | [] => false
  | c :: rest =>
    (c = '-' && bracketsLeadTo '-' rest) || (c = '/' && bracketsLeadTo '*' rest) || (c = '*' && bracketsLeadTo '/' rest)
      || partsMark rest

@[simp] theorem unbracketed_nil : unbracketed [] = [] := rfl

theorem unbracketed_cons_of_isBracket (h : isBracket c = true) : unbracketed (c :: rest) = unbracketed rest :=
  List.filter_cons_of_neg (by simp [h])

theorem unbracketed_cons (h : isBracket c = false) : unbracketed (c :: rest) = c :: unbracketed rest :=
  List.filter_cons_of_pos (by simp [h])

theorem head?_unbracketed (rest : List Char) : (unbracketed rest).head? = (rest.dropWhile isBracket).head? := by
  induction rest with
  | nil => rfl
  | cons c rest ih =>
    cases hc : isBracket c with
    | true => rw [unbracketed_cons_of_isBracket hc, List.dropWhile_cons_of_pos hc, ih]
    | false => rw [unbracketed_cons hc, List.dropWhile_cons_of_neg (by simp [hc]), List.head?_cons, List.head?_cons]

/-- Unless brackets lead to it, a character that comes first without brackets has come first with them. -/
theorem head?_of_head?_unbracketed (h : bracketsLeadTo c rest = false) (hc : (unbracketed rest).head? = some c) :
    rest.head? = some c := by
  rw [head?_unbracketed] at hc
  rw [bracketsLeadTo, hc, decide_eq_true rfl, Bool.and_true] at h
  cases rest with
  | nil => exact hc
  | cons d rest =>
    rwa [List.dropWhile_cons_of_neg (by simpa using h)] at hc

theorem head?_unbracketed_of_bracketsLeadTo (h : bracketsLeadTo c rest = true) :
    (unbracketed rest).head? = some c := by
  rw [bracketsLeadTo, Bool.and_eq_true, decide_eq_true_eq] at h
  rw [head?_unbracketed, h.2]

theorem partsMark_of_suffix (hsuffix : left <:+ cs) (h : partsMark cs = false) : partsMark left = false := by
  induction cs with
  | nil =>
    rw [List.suffix_nil.mp hsuffix]
    rfl
  | cons c rest ih =>
    rcases List.suffix_cons_iff.mp hsuffix with rfl | hsuffix
    · exact h
    · rw [partsMark, Bool.or_eq_false_iff] at h
      exact ih hsuffix h.2

/-- Where no mark is parted, brackets bring none together. -/
theorem head?_of_partsMark {first second : Char} (hmark : (first, second) ∈ [('-', '-'), ('/', '*'), ('*', '/')])
    (h : partsMark (first :: rest) = false) (hhead : (unbracketed rest).head? = some second) :
    rest.head? = some second := by
  refine head?_of_head?_unbracketed ?_ hhead
  simp only [partsMark, Bool.or_eq_false_iff] at h
  obtain ⟨⟨⟨hline, hstart⟩, hend⟩, -⟩ := h
  simp only [List.mem_cons, List.not_mem_nil, or_false, Prod.mk.injEq] at hmark
  rcases hmark with ⟨rfl, rfl⟩ | ⟨rfl, rfl⟩ | ⟨rfl, rfl⟩
  · exact hline
  · exact hstart
  · exact hend

/-! ### What is read without brackets -/

theorem Quoted.suffix (h : Quoted q cs body left) : left <:+ cs := by
  induction h with
  | closed => exact List.suffix_cons _ _
  | doubled _ ih => exact ih.trans ((List.suffix_cons _ _).trans (List.suffix_cons _ _))
  | other _ _ ih => exact ih.trans (List.suffix_cons _ _)

theorem quotedPart_closed (h : cs.head? ≠ some q) : quotedPart q (q :: cs) = some ([], cs) := by
  cases cs with
  | nil => rw [quotedPart, if_pos rfl]
  | cons d more =>
    have hd : d ≠ q := fun heq => h (congrArg some heq)
    rw [quotedPart, if_pos rfl, if_neg hd]

theorem quotedPart_doubled :
    quotedPart q (q :: q :: cs) = (quotedPart q cs).map fun (inner, left) => (q :: inner, left) := by
  rw [quotedPart, if_pos rfl, if_pos rfl]

theorem quotedPart_other (h : c ≠ q) :
    quotedPart q (c :: cs) = (quotedPart q cs).map fun (inner, left) => (c :: inner, left) := by
  rw [quotedPart.eq_def]
  exact if_neg h

/-- What is read up to a closing quote is read without brackets too, and one goes on from that quote. -/
theorem Quoted.quotedPart_unbracketed (hq : isBracket q = false) (h : Quoted q cs body left) :
    quotedPart q (unbracketed cs)
      = (quotedPart q (q :: unbracketed left)).map fun (inner, after) => (unbracketed body ++ inner, after) := by
  induction h with
  | closed =>
    rw [unbracketed_cons hq]
    simp
  | doubled _ ih =>
    rw [unbracketed_cons hq, unbracketed_cons hq, quotedPart_doubled, ih, Option.map_map, unbracketed_cons hq]
    rfl
  | @other c _ _ _ hc _ ih =>
    cases hbracket : isBracket c with
    | true => rw [unbracketed_cons_of_isBracket hbracket, unbracketed_cons_of_isBracket hbracket, ih]
    | false =>
      rw [unbracketed_cons hbracket, unbracketed_cons hbracket, quotedPart_other hc, ih, Option.map_map]
      rfl

theorem afterComment_suffix (h : afterComment depth cs = some left) : left <:+ cs := by
  fun_induction afterComment depth cs with
  | case1 depth rest =>
    cases h
    exact (List.suffix_cons _ _).trans (List.suffix_cons _ _)
  | case2 depth rest hdepth ih => exact (ih h).trans ((List.suffix_cons _ _).trans (List.suffix_cons _ _))
  | case3 depth rest ih => exact (ih h).trans ((List.suffix_cons _ _).trans (List.suffix_cons _ _))
  | case4 depth c rest hend hstart ih => exact (ih h).trans (List.suffix_cons _ _)
  | case5 => cases h

theorem afterComment_other (hend : c = '*' → cs.head? ≠ some '/') (hstart : c = '/' → cs.head? ≠ some '*') :
    afterComment depth (c :: cs) = afterComment depth cs := by
  refine afterComment.eq_3 depth c cs (fun rest hc hcs => ?_) fun rest hc hcs => ?_
  · exact hend hc (by rw [hcs, List.head?_cons])
  · exact hstart hc (by rw [hcs, List.head?_cons])

theorem afterComment_unbracketed (hmarks : partsMark cs = false) (h : afterComment depth cs = some left) :
    afterComment depth (unbracketed cs) = some (unbracketed left) := by
  fun_induction afterComment depth cs with
  | case1 depth rest hdepth =>
    cases h
    rw [unbracketed_cons (by decide), unbracketed_cons (by decide), afterComment, if_pos hdepth]
  | case2 depth rest hdepth ih =>
    rw [unbracketed_cons (by decide), unbracketed_cons (by decide), afterComment, if_neg hdepth]
    exact ih (partsMark_of_suffix ((List.suffix_cons _ _).trans (List.suffix_cons _ _)) hmarks) h
  | case3 depth rest ih =>
    rw [unbracketed_cons (by decide), unbracketed_cons (by decide), afterComment]
    exact ih (partsMark_of_suffix ((List.suffix_cons _ _).trans (List.suffix_cons _ _)) hmarks) h
  | case4 depth c rest hend hstart ih =>
    have hrest := ih (partsMark_of_suffix (List.suffix_cons _ _) hmarks) h
    cases hc : isBracket c with
    | true => rwa [unbracketed_cons_of_isBracket hc]
    | false =>
      rw [unbracketed_cons hc, afterComment_other, hrest]
      · rintro rfl hhead
        obtain ⟨more, rfl⟩ := List.head?_eq_some_iff.mp (head?_of_partsMark (by simp) hmarks hhead)
        exact hend more rfl rfl
      · rintro rfl hhead
        obtain ⟨more, rfl⟩ := List.head?_eq_some_iff.mp (head?_of_partsMark (by simp) hmarks hhead)
        exact hstart more rfl rfl
  | case5 => cases h

theorem skip?_suffix (h : skip? c rest = some left) : left <:+ rest := by
  cases skips_of_skip? h with
  | quotedName _ hpart => exact (quoted_of_quotedPart hpart).suffix
  | lineComment _ hrest =>
    subst hrest
    exact (List.dropWhile_suffix _).trans (List.suffix_cons _ _)
  | blockComment _ hrest hafter =>
    subst hrest
    exact (afterComment_suffix hafter).trans (List.suffix_cons _ _)
  | alone => exact List.suffix_rfl

theorem dropWhile_unbracketed (rest : List Char) :
    (unbracketed rest).dropWhile (· ≠ '\n') = unbracketed (rest.dropWhile (· ≠ '\n')) := by
  induction rest with
  | nil => rfl
  | cons c rest ih =>
    cases hc : isBracket c with
    | true =>
      have hne : c ≠ '\n' := by
        rintro rfl
        cases hc
      rw [unbracketed_cons_of_isBracket hc, List.dropWhile_cons_of_pos (by simpa using hne), ih]
    | false =>
      by_cases hend : c = '\n'
      · rw [unbracketed_cons hc, List.dropWhile_cons_of_neg (by simpa using hend),
          List.dropWhile_cons_of_neg (by simpa using hend), unbracketed_cons hc]
      · rw [unbracketed_cons hc, List.dropWhile_cons_of_pos (by simpa using hend),
          List.dropWhile_cons_of_pos (by simpa using hend), ih]

/-! ### Literals that are kept -/

/-- The end of a quoted part may become a doubled quote, but then the other half is the start of a quoted part. -/
theorem literalValues?_closing :
    (quotedPart '"' ('"' :: cs)).bind (fun part => literalValues? part.2) = literalValues? cs := by
  by_cases hhead : cs.head? = some '"'
  · obtain ⟨more, rfl⟩ := List.head?_eq_some_iff.mp hhead
    rw [quotedPart_doubled, literalValues?_skip? (by decide), skip?.eq_def, if_pos rfl]
    cases quotedPart '"' more <;> rfl
  · rw [quotedPart_closed hhead]
    rfl

/-- Where no mark is parted, what is skipped is skipped without brackets too. -/
theorem literalValues?_unbracketed_of_skip? (hquote : c ≠ '\'') (hmarks : partsMark (c :: rest) = false)
    (h : skip? c rest = some left) : literalValues? (unbracketed (c :: rest)) = literalValues? (unbracketed left) := by
  cases hc : isBracket c with
  | true =>
    have hskip : skip? c rest = some rest := skip?_of_class (by decide) hc
    rw [hskip, Option.some.injEq] at h
    rw [unbracketed_cons_of_isBracket hc, h]
  | false =>
    rw [unbracketed_cons hc, literalValues?_skip? hquote]
    cases skips_of_skip? h with
    | quotedName hname hpart =>
      subst hname
      rw [skip?.eq_def, if_pos rfl, (quoted_of_quotedPart hpart).quotedPart_unbracketed (by decide), Option.map_map,
        Option.bind_map]
      exact literalValues?_closing
    | lineComment hmark hrest =>
      subst hmark hrest
      rw [unbracketed_cons (by decide)]
      exact congrArg literalValues? (dropWhile_unbracketed _)
    | @blockComment more _ hmark hrest hafter =>
      subst hmark hrest
      have hsuffix : more <:+ '/' :: '*' :: more := (List.suffix_cons _ _).trans (List.suffix_cons _ _)
      rw [unbracketed_cons (by decide)]
      have hcomment := afterComment_unbracketed (partsMark_of_suffix hsuffix hmarks) hafter
      exact congrArg (Option.bind · literalValues?) hcomment
    | alone hname hmeaning hline hblock =>
      rw [skip?_plain hname hmeaning (fun hc hhead => hline hc (head?_of_partsMark (by simp) (hc ▸ hmarks) hhead))
        fun hc hhead => hblock hc (head?_of_partsMark (by simp) (hc ▸ hmarks) hhead)]
      rfl

theorem Quoted.head?_left_ne (h : Quoted q cs body left) : left.head? ≠ some q := by
  induction h with
  | closed h => exact h
  | doubled _ ih | other _ _ ih => exact ih

/--
Where no mark is parted, cleanup finds the same literals again, without their brackets, if and only if no two literals
are parted by brackets only.
-/
theorem literalValues?_unbracketed_iff (h : literals? cs = some found) (hmarks : partsMark cs = false) :
    literalValues? (unbracketed cs) = some (found.map fun literal => Expression.stripBrackets literal.value)
      ↔ ∀ literal ∈ found, bracketsLeadTo '\'' literal.rest = false := by
  fun_induction literals? cs generalizing found with
  | case1 =>
    cases h
    simp
  | case2 => cases h
  | case3 rest body left hpart ih =>
    obtain ⟨others, hothers, rfl⟩ := Option.map_eq_some_iff.mp h
    have hquoted := quoted_of_quotedPart hpart
    have hleft : partsMark left = false := partsMark_of_suffix (hquoted.suffix.trans (List.suffix_cons _ _)) hmarks
    have hvalue : Expression.stripBrackets (String.ofList body) = String.ofList (unbracketed body) := by
      rw [Expression.stripBrackets, String.toList_ofList, unbracketed]
    rw [unbracketed_cons (by decide), literalValues?_quote, hquoted.quotedPart_unbracketed (by decide),
      List.forall_mem_cons, ← ih hothers hleft, List.map_cons, hvalue]
    cases hjoins : bracketsLeadTo '\'' left with
    | false =>
      have hclosed : (unbracketed left).head? ≠ some '\'' := fun hhead =>
        hquoted.head?_left_ne (head?_of_head?_unbracketed hjoins hhead)
      rw [quotedPart_closed hclosed]
      simp only [Option.map_some, Option.bind_some, List.append_nil, true_and]
      cases literalValues? (unbracketed left) <;> simp
    | true =>
      obtain ⟨more, hmore⟩ := List.head?_eq_some_iff.mp (head?_unbracketed_of_bracketsLeadTo hjoins)
      rw [hmore, quotedPart_doubled]
      -- The literal that comes out has a quote and more in it than the first one alone.
      have hlonger : ∀ inner, String.ofList (unbracketed body ++ '\'' :: inner) ≠ String.ofList (unbracketed body) := by
        intro inner heq
        simpa using congrArg List.length (String.ofList_injective heq)
      cases hinner : quotedPart '\'' more with
      | none => simp
      | some part =>
        simp only [Option.map_some, Option.bind_some, Bool.true_eq_false, false_and, iff_false]
        intro heq
        obtain ⟨values, -, hvalues⟩ := Option.map_eq_some_iff.mp heq
        exact hlonger _ (List.cons.inj hvalues).1
  | case4 => cases h
  | case5 c rest hquote left hskip ih =>
    rw [literalValues?_unbracketed_of_skip? hquote hmarks hskip]
    exact ih h (partsMark_of_suffix ((skip?_suffix hskip).trans (List.suffix_cons _ _)) hmarks)

/-! ### Literals without brackets -/

theorem Quoted.mem_of_mem (h : Quoted q cs body left) (hc : c ∈ body) : c ∈ cs := by
  induction h with
  | closed => cases hc
  | doubled _ ih =>
    rcases List.mem_cons.mp hc with rfl | hc
    · exact List.mem_cons_self
    · exact List.mem_cons_of_mem _ (List.mem_cons_of_mem _ (ih hc))
  | other _ _ ih =>
    rcases List.mem_cons.mp hc with rfl | hc
    · exact List.mem_cons_self
    · exact List.mem_cons_of_mem _ (ih hc)

/-- What a literal says stands in the text. -/
theorem mem_of_mem_literals? (h : literals? cs = some found) :
    ∀ literal ∈ found, ∀ c ∈ literal.value.toList, c ∈ cs := by
  fun_induction literals? cs generalizing found with
  | case1 =>
    cases h
    exact List.forall_mem_nil _
  | case2 => cases h
  | case3 rest body left hpart ih =>
    obtain ⟨others, hothers, rfl⟩ := Option.map_eq_some_iff.mp h
    refine List.forall_mem_cons.mpr ⟨fun c hc => ?_, fun literal hliteral c hc => ?_⟩
    · rw [String.toList_ofList] at hc
      exact List.mem_cons_of_mem _ ((quoted_of_quotedPart hpart).mem_of_mem hc)
    · exact List.mem_cons_of_mem _ ((quoted_of_quotedPart hpart).suffix.subset (ih hothers literal hliteral c hc))
  | case4 => cases h
  | case5 c rest hquote left hskip ih =>
    exact fun literal hliteral d hd => List.mem_cons_of_mem _ ((skip?_suffix hskip).subset (ih h literal hliteral d hd))

theorem hasBrackets_of_mem_literalValues? (h : literalValues? (unbracketed cs) = some values) {value : String}
    (hvalue : value ∈ values) : Expression.hasBrackets value = false := by
  rw [literalValues?_eq] at h
  obtain ⟨found, hfound, rfl⟩ := Option.map_eq_some_iff.mp h
  obtain ⟨literal, hliteral, rfl⟩ := List.mem_map.mp hvalue
  refine List.any_eq_false.mpr fun c hc => ?_
  simpa using (List.mem_filter.mp (mem_of_mem_literals? hfound literal hliteral c hc)).2

/-- Is there no bracket in the literal, and do none lead from it to another one? -/
def Literal.isKept (literal : Literal) : Bool :=
  !Expression.hasBrackets literal.value && !bracketsLeadTo '\'' literal.rest

/-- Where no mark is parted, all literals keep their values just if no bracket is in one or between two of them. -/
theorem literalValues?_unbracketed_eq_iff (h : literals? cs = some found) (hmarks : partsMark cs = false) :
    literalValues? (unbracketed cs) = literalValues? cs ↔ ∀ literal ∈ found, literal.isKept = true := by
  have hkept : (∀ literal ∈ found, literal.isKept = true)
      ↔ (∀ literal ∈ found, Expression.hasBrackets literal.value = false)
        ∧ ∀ literal ∈ found, bracketsLeadTo '\'' literal.rest = false := by
    simp only [Literal.isKept, Bool.and_eq_true, Bool.not_eq_true', forall_and]
  have hstripped : (∀ literal ∈ found, Expression.hasBrackets literal.value = false) →
      found.map (fun literal => Expression.stripBrackets literal.value) = found.map Literal.value := fun hnone =>
    List.map_congr_left fun literal hliteral => Expression.stripBrackets_eq_self (hnone literal hliteral)
  rw [literalValues?_eq cs, h, Option.map_some, hkept, ← literalValues?_unbracketed_iff h hmarks]
  constructor
  · intro hsame
    have hnone : ∀ literal ∈ found, Expression.hasBrackets literal.value = false := fun literal hliteral =>
      hasBrackets_of_mem_literalValues? hsame (List.mem_map_of_mem hliteral)
    exact ⟨hnone, by rw [hsame, hstripped hnone]⟩
  · rintro ⟨hnone, hfound⟩
    rw [hfound, hstripped hnone]

end QueryFederation.Token

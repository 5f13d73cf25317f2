import Mathlib.Data.List.Forall2
import QueryFederation.Text.Pattern

/-!
# Patterns

The two ways of reading a step for any character differ only at line feeds. Every part of a pattern is tried on what is
left of the text, so a text without line feeds follows the same patterns in both ways.

A text is like a LIKE text if it splits into pieces, one for each character of the LIKE text: percent takes any piece,
an underscore one character, and every other character one that is equal to it up to case. The pattern that stands for
a LIKE text takes the same pieces, step by step, with two differences at line feeds. Its wildcards take none of them
unless they are told to, and its end may be before a last line feed, which no piece has then.
-/

namespace QueryFederation.Text.Pattern

variable {ignoreCase : Bool}

theorem accepts_anyLineFeed (test : CharacterTest) {c : Char} (h : c ≠ '\n') :
    accepts ⟨ignoreCase, true⟩ test c = accepts ⟨ignoreCase, false⟩ test c := by
  cases test with
  | this d => rfl
  | any => simp [accepts, h]

theorem takesMany_congr {accepted accepted' : Char → Bool} {goesOn goesOn' : Bool → List Char → Bool} {atStart : Bool}
    {cs : List Char} (haccepted : ∀ c ∈ cs, accepted c = accepted' c)
    (hgoesOn : ∀ rest, rest <:+ cs → ∀ atStart, goesOn atStart rest = goesOn' atStart rest) :
    takesMany accepted goesOn atStart cs = takesMany accepted' goesOn' atStart cs := by
  induction cs generalizing atStart with
  | nil => exact hgoesOn [] List.suffix_rfl atStart
  | cons c rest ih =>
    obtain ⟨hc, hrest⟩ := List.forall_mem_cons.mp haccepted
    rw [takesMany, takesMany, hgoesOn _ List.suffix_rfl, hc,
      ih hrest fun after hafter => hgoesOn after (hafter.trans (List.suffix_cons c rest))]

theorem matchesHere_anyLineFeed (pattern : Pattern) (atStart : Bool) {cs : List Char} (h : '\n' ∉ cs) :
    matchesHere ⟨ignoreCase, true⟩ pattern atStart cs = matchesHere ⟨ignoreCase, false⟩ pattern atStart cs := by
  induction pattern generalizing atStart cs with
  | nil => simp only [matchesHere]
  | cons step steps ih =>
    cases step with
    | one test =>
      cases cs with
      | nil => simp only [matchesHere]
      | cons c rest =>
        obtain ⟨hc, hrest⟩ := List.ne_and_not_mem_of_not_mem_cons h
        rw [matchesHere, matchesHere, accepts_anyLineFeed test (Ne.symm hc), ih false hrest]
    | many test =>
      rw [matchesHere, matchesHere]
      refine takesMany_congr (fun c hc => ?_) fun rest hrest s => ih s fun hmem => h (hrest.mem hmem)
      exact accepts_anyLineFeed test fun heq => h (heq ▸ hc)
    | start => rw [matchesHere, matchesHere, ih atStart h]
    | finish => rw [matchesHere, matchesHere, ih atStart h]

theorem foundIn_anyLineFeed (pattern : Pattern) (atStart : Bool) {cs : List Char} (h : '\n' ∉ cs) :
    foundIn ⟨ignoreCase, true⟩ pattern atStart cs = foundIn ⟨ignoreCase, false⟩ pattern atStart cs := by
  induction cs generalizing atStart with
  | nil => exact matchesHere_anyLineFeed pattern atStart h
  | cons c rest ih =>
    rw [foundIn, foundIn, matchesHere_anyLineFeed pattern atStart h,
      ih false fun hmem => h (List.mem_cons_of_mem c hmem)]

/-- A text without line feeds follows a pattern whether or not a line feed is one of any characters. -/
theorem isFoundIn_anyLineFeed (pattern : Pattern) {s : String} (h : '\n' ∉ s.toList) :
    isFoundIn ⟨ignoreCase, true⟩ pattern s = isFoundIn ⟨ignoreCase, false⟩ pattern s :=
  foundIn_anyLineFeed pattern true h

end QueryFederation.Text.Pattern

/-! ### LIKE by splitting -/

namespace QueryFederation.Text

namespace Like

def IsWildcard (p : Char) : Prop := p = '%' ∨ p = '_'

instance : DecidablePred IsWildcard := fun p => inferInstanceAs (Decidable (p = '%' ∨ p = '_'))

/-- The pieces of a text that a character of a LIKE text takes. -/
inductive Takes : Char → List Char → Prop
  | any (piece : List Char) : Takes '%' piece
  | one (c : Char) : Takes '_' [c]
  | equal {p c : Char} (hp : ¬IsWildcard p) (h : equalUpToCase p c = true) : Takes p [c]

/-- The pieces that are taken if a wildcard does not stand for line feeds. -/
def TakesInLine (p : Char) (piece : List Char) : Prop := Takes p piece ∧ (IsWildcard p → '\n' ∉ piece)

/-- Does a text split into pieces that the characters of a LIKE text take in turn? -/
def Splits (takes : Char → List Char → Prop) (cs like : List Char) : Prop :=
  ∃ pieces : List (List Char), pieces.flatten = cs ∧ List.Forall₂ takes like pieces

/-- Does a text split, or what is before the line feed that ends it? -/
def SplitsToEnd (takes : Char → List Char → Prop) (cs like : List Char) : Prop :=
  Splits takes cs like ∨ ∃ line, cs = line ++ ['\n'] ∧ Splits takes line like

variable {takes : Char → List Char → Prop} {cs like : List Char} {p : Char} {piece : List Char}

theorem takes_percent (piece : List Char) : Takes '%' piece := .any piece

theorem takes_underscore : Takes '_' piece ↔ ∃ c, piece = [c] := by
  constructor
  · rintro (_ | _ | ⟨hp, -⟩)
    · exact ⟨_, rfl⟩
    · exact absurd (Or.inr rfl) hp
  · rintro ⟨c, rfl⟩
    exact .one c

theorem takes_of_not_isWildcard (hp : ¬IsWildcard p) :
    Takes p piece ↔ ∃ c, piece = [c] ∧ equalUpToCase p c = true := by
  constructor
  · rintro (_ | _ | ⟨-, h⟩)
    · exact absurd (Or.inl rfl) hp
    · exact absurd (Or.inr rfl) hp
    · exact ⟨_, rfl, h⟩
  · rintro ⟨c, rfl, h⟩
    exact .equal hp h

theorem Takes.length_eq (h : Takes p piece) (hp : p ≠ '%') : piece.length = 1 := by
  cases h with
  | any => exact absurd rfl hp
  | one | equal => rfl

theorem splits_nil : Splits takes cs [] ↔ cs = [] := by
  simp [Splits, eq_comm]

theorem splits_cons :
    Splits takes cs (p :: like) ↔ ∃ piece rest, piece ++ rest = cs ∧ takes p piece ∧ Splits takes rest like := by
  constructor
  · rintro ⟨pieces, rfl, htakes⟩
    cases htakes with
    | cons hfirst hothers => exact ⟨_, _, rfl, hfirst, _, rfl, hothers⟩
  · rintro ⟨piece, _, rfl, hfirst, pieces, rfl, hothers⟩
    exact ⟨piece :: pieces, rfl, .cons hfirst hothers⟩

/-! ### Lengths and line feeds -/

theorem Splits.mono {takes' : Char → List Char → Prop} (himp : ∀ p piece, takes p piece → takes' p piece)
    (h : Splits takes cs like) : Splits takes' cs like := by
  obtain ⟨pieces, hflatten, hpieces⟩ := h
  exact ⟨pieces, hflatten, hpieces.imp fun p piece => himp p piece⟩

/-- Without a percent, every character of a LIKE text takes one character. -/
theorem Splits.length_eq (h : Splits Takes cs like) (hlike : '%' ∉ like) : cs.length = like.length := by
  induction like generalizing cs with
  | nil => rw [splits_nil.mp h]
  | cons p like ih =>
    obtain ⟨hp, hlike⟩ := List.ne_and_not_mem_of_not_mem_cons hlike
    obtain ⟨piece, rest, rfl, hpiece, hrest⟩ := splits_cons.mp h
    rw [List.length_append, hpiece.length_eq (Ne.symm hp), ih hrest hlike, List.length_cons, Nat.add_comm]

theorem splitsToEnd_iff (h : cs.getLast? ≠ some '\n') : SplitsToEnd takes cs like ↔ Splits takes cs like := by
  refine ⟨?_, Or.inl⟩
  rintro (hsplit | ⟨line, rfl, -⟩)
  · exact hsplit
  · exact absurd List.getLast?_concat h

theorem splitsToEnd_iff_of_notMem (h : '\n' ∉ cs) : SplitsToEnd takes cs like ↔ Splits takes cs like :=
  splitsToEnd_iff fun hlast => h (List.mem_of_getLast? hlast)

/-- What only wildcards take has no line feed if they do not stand for any. -/
theorem Splits.notMem_of_isWildcard (h : Splits TakesInLine cs like) (hlike : ∀ p ∈ like, IsWildcard p) :
    '\n' ∉ cs := by
  induction like generalizing cs with
  | nil =>
    rw [splits_nil.mp h]
    exact List.not_mem_nil
  | cons p like ih =>
    obtain ⟨hp, hlike⟩ := List.forall_mem_cons.mp hlike
    obtain ⟨piece, rest, rfl, hpiece, hrest⟩ := splits_cons.mp h
    exact fun hmem => (List.mem_append.mp hmem).elim (hpiece.2 hp) (ih hrest hlike)

/-- A text splits along any LIKE text that has a character for each of its own. -/
theorem splits_map {place : Char → Char} (h : ∀ c ∈ cs, takes (place c) [c]) :
    Splits takes cs (cs.map place) := by
  induction cs with
  | nil => exact splits_nil.mpr rfl
  | cons c cs ih =>
    obtain ⟨hc, hcs⟩ := List.forall_mem_cons.mp h
    exact splits_cons.mpr ⟨[c], cs, rfl, hc, ih hcs⟩

/-- As many underscores as a text has characters. -/
def underscores (cs : List Char) : List Char := cs.map fun _ => '_'

theorem eq_underscore_of_mem {cs : List Char} (h : p ∈ underscores cs) : p = '_' := by
  obtain ⟨_, -, rfl⟩ := List.mem_map.mp h
  rfl

theorem splits_underscores (cs : List Char) : Splits Takes cs (underscores cs) := splits_map fun c _ => .one c

theorem not_splitsToEnd_underscores (h : '\n' ∈ cs) : ¬SplitsToEnd TakesInLine cs (underscores cs) := by
  rintro (hsplit | ⟨line, rfl, hline⟩)
  · exact hsplit.notMem_of_isWildcard (fun p hp => Or.inr (eq_underscore_of_mem hp)) h
  · have hpercent : '%' ∉ underscores (line ++ ['\n']) := fun hmem => absurd (eq_underscore_of_mem hmem) (by decide)
    have hlength := (hline.mono fun p piece => And.left).length_eq hpercent
    rw [underscores, List.length_map, List.length_append, List.length_singleton] at hlength
    omega

/-- A LIKE text for one text and no longer one: its line feeds are in place, and all else is open. -/
def shape (cs : List Char) : List Char := cs.map fun c => if c = '\n' then '\n' else '_'

theorem percent_notMem_shape (cs : List Char) : '%' ∉ shape cs := by
  intro hmem
  obtain ⟨c, -, hc⟩ := List.mem_map.mp hmem
  split at hc <;> cases hc

theorem splits_shape (cs : List Char) : Splits TakesInLine cs (shape cs) := by
  refine splits_map fun c _ => ?_
  split
  · rename_i hc
    subst hc
    have hfeed : ¬IsWildcard '\n' := by decide
    exact ⟨.equal hfeed (by decide), fun h => absurd h hfeed⟩
  · rename_i hc
    exact ⟨.one c, fun _ hmem => hc (List.mem_singleton.mp hmem).symm⟩

/-- Without a percent, a text is as long as what it is like, unless a line feed ends it. -/
theorem forall_length_eq_iff (himp : ∀ p piece, takes p piece → Takes p piece)
    (hshape : ∀ line, Splits takes line (shape line)) {s : String} :
    (∀ like : String, '%' ∉ like.toList → SplitsToEnd takes s.toList like.toList → s.length = like.length)
      ↔ s.toList.getLast? ≠ some '\n' := by
  constructor
  · intro hlengths hfinal
    obtain ⟨line, hline⟩ := List.getLast?_eq_some_iff.mp hfinal
    have hsplits : SplitsToEnd takes s.toList (String.ofList (shape line)).toList := by
      rw [String.toList_ofList]
      exact Or.inr ⟨line, hline, hshape line⟩
    have hpercent : '%' ∉ (String.ofList (shape line)).toList := by
      rw [String.toList_ofList]
      exact percent_notMem_shape line
    have hlength := hlengths _ hpercent hsplits
    rw [← String.length_toList, hline, String.length_ofList, shape, List.length_map, List.length_append] at hlength
    simp at hlength
  · intro hfinal like hpercent hsplits
    rw [← String.length_toList, ← String.length_toList]
    exact (((splitsToEnd_iff hfinal).mp hsplits).mono himp).length_eq hpercent

end Like

namespace Pattern

open Like

variable {options : MatchOptions} {cs like : List Char} {atStart : Bool}

/-! ### The pattern of a LIKE text -/

/-- The step that a character of a LIKE text stands for. -/
def likeStep (p : Char) : PatternStep :=
  if p = '%' then .many .any else if p = '_' then .one .any else .one (.this p)

theorem exists_likeStep_eq (p : Char) : ∃ test, likeStep p = .one test ∨ likeStep p = .many test := by
  rw [likeStep]
  split
  · exact ⟨_, Or.inr rfl⟩
  · split <;> exact ⟨_, Or.inl rfl⟩

/-- What follows in the text of a pattern never turns what is before it into a repetition. -/
theorem head?_likeCharacters_ne (like : List Char) : (like.flatMap likeCharacter ++ ['$']).head? ≠ some '*' := by
  cases like with
  | nil => decide
  | cons p like =>
    rw [List.flatMap_cons, likeCharacter]
    split
    · simp
    · split
      · simp
      · rw [escape]
        split
        · simp
        · rename_i hspecial
          simp only [List.cons_append, List.head?_cons, ne_eq, Option.some.injEq]
          rintro rfl
          exact hspecial (by decide)

theorem ofChars_any {rest : List Char} (h : rest.head? ≠ some '*') :
    ofChars ('.' :: rest) = .one .any :: ofChars rest := by
  rw [ofChars]
  rintro rest rfl
  exact h rfl

theorem ofChars_escaped (c : Char) {rest : List Char} (h : rest.head? ≠ some '*') :
    ofChars ('\\' :: c :: rest) = .one (.this c) :: ofChars rest := by
  rw [ofChars]
  rintro rest rfl
  exact h rfl

theorem ofChars_plain {c : Char} (hc : c ∉ specialCharacters) {rest : List Char} (h : rest.head? ≠ some '*') :
    ofChars (c :: rest) = .one (.this c) :: ofChars rest := by
  have hspecial : ∀ d ∈ specialCharacters, c ≠ d := fun d hd heq => hc (heq ▸ hd)
  have hpoint : c ≠ '.' := hspecial '.' (by decide)
  have hbackslash : c ≠ '\\' := hspecial '\\' (by decide)
  rw [ofChars]
  · exact hspecial '^' (by decide)
  · exact hspecial '$' (by decide)
  · exact fun _ heq => absurd heq hpoint
  · exact hpoint
  · exact fun _ _ heq => absurd heq hbackslash
  · exact fun _ _ heq => absurd heq hbackslash
  · rintro rest rfl
    exact h rfl

theorem ofChars_like (like : List Char) :
    ofChars (like.flatMap likeCharacter ++ ['$']) = like.map likeStep ++ [.finish] := by
  induction like with
  | nil => rfl
  | cons p like ih =>
    have hhead := head?_likeCharacters_ne like
    rw [List.flatMap_cons, List.append_assoc, likeCharacter, List.map_cons, List.cons_append, ← ih, likeStep]
    split
    · rfl
    · split
      · exact ofChars_any hhead
      · rw [escape]
        split
        · exact ofChars_escaped p hhead
        · rename_i hspecial
          exact ofChars_plain (by simpa using hspecial) hhead

/-! ### Pieces of steps -/

/-- The pieces that a step takes; a step for the start or the end of a text is none of those of a LIKE text. -/
def stepTakes (options : MatchOptions) : PatternStep → List Char → Prop
  | .one test, piece => ∃ c, piece = [c] ∧ accepts options test c = true
  | .many test, piece => ∀ c ∈ piece, accepts options test c = true
  | .start, _ | .finish, _ => False

theorem takesMany_iff {accepted : Char → Bool} {goesOn : Bool → List Char → Bool} {GoesOn : List Char → Prop}
    (h : ∀ atStart rest, goesOn atStart rest = true ↔ GoesOn rest) (atStart : Bool) (cs : List Char) :
    takesMany accepted goesOn atStart cs = true
      ↔ ∃ piece rest, piece ++ rest = cs ∧ (∀ c ∈ piece, accepted c = true) ∧ GoesOn rest := by
  induction cs generalizing atStart with
  | nil => simp [takesMany, h]
  | cons c cs ih =>
    rw [takesMany, Bool.or_eq_true, Bool.and_eq_true, h, ih]
    constructor
    · rintro (hrest | ⟨hc, piece, rest, rfl, hpiece, hrest⟩)
      · exact ⟨[], c :: cs, rfl, List.forall_mem_nil _, hrest⟩
      · exact ⟨c :: piece, rest, rfl, List.forall_mem_cons.mpr ⟨hc, hpiece⟩, hrest⟩
    · rintro ⟨piece, rest, heq, hpiece, hrest⟩
      cases piece with
      | nil =>
        obtain rfl : rest = c :: cs := heq
        exact Or.inl hrest
      | cons d piece =>
        obtain ⟨rfl, rfl⟩ := List.cons.inj heq
        obtain ⟨hd, hpiece⟩ := List.forall_mem_cons.mp hpiece
        exact Or.inr ⟨hd, piece, rest, rfl, hpiece, hrest⟩

/-- The steps of a LIKE text take what splits along it, and the end is where nothing else is left. -/
theorem matchesHere_like_iff (like cs : List Char) (atStart : Bool) :
    matchesHere options (like.map likeStep ++ [.finish]) atStart cs = true
      ↔ ∃ line rest, line ++ rest = cs ∧ Splits (fun p => stepTakes options (likeStep p)) line like
        ∧ atEnd rest = true := by
  induction like generalizing cs atStart with
  | nil =>
    simp [matchesHere, splits_nil]
  | cons p like ih =>
    -- What is cut first in front of the rest of the line is what the first step takes before the others go on.
    have hsplit : (∃ line rest, line ++ rest = cs
          ∧ Splits (fun p => stepTakes options (likeStep p)) line (p :: like) ∧ atEnd rest = true)
        ↔ ∃ piece after, piece ++ after = cs ∧ stepTakes options (likeStep p) piece
          ∧ ∃ line rest, line ++ rest = after
            ∧ Splits (fun p => stepTakes options (likeStep p)) line like ∧ atEnd rest = true := by
      constructor
      · rintro ⟨line, rest, rfl, hline, hrest⟩
        obtain ⟨piece, line, rfl, hpiece, hline⟩ := splits_cons.mp hline
        exact ⟨piece, line ++ rest, (List.append_assoc ..).symm, hpiece, line, rest, rfl, hline, hrest⟩
      · rintro ⟨piece, _, rfl, hpiece, line, rest, rfl, hline, hrest⟩
        have hcut := splits_cons.mpr ⟨piece, line, rfl, hpiece, hline⟩
        exact ⟨piece ++ line, rest, List.append_assoc .., hcut, hrest⟩
    rw [hsplit, List.map_cons, List.cons_append]
    obtain ⟨test, hstep | hstep⟩ := exists_likeStep_eq p
    · rw [hstep]
      cases cs with
      | nil => simp [matchesHere, stepTakes]
      | cons c cs =>
        rw [matchesHere, Bool.and_eq_true, ih]
        constructor
        · rintro ⟨hc, hrest⟩
          exact ⟨[c], cs, rfl, ⟨c, rfl, hc⟩, hrest⟩
        · rintro ⟨_, after, heq, ⟨d, rfl, hd⟩, hrest⟩
          obtain ⟨rfl, rfl⟩ := List.cons.inj heq
          exact ⟨hd, hrest⟩
    · rw [hstep, matchesHere]
      exact takesMany_iff (fun atStart rest => ih rest atStart) atStart cs

/-- A pattern for the start of a text is only found there. -/
theorem foundIn_start (steps : Pattern) (cs : List Char) :
    foundIn options (.start :: steps) atStart cs = (atStart && matchesHere options steps atStart cs) := by
  induction cs generalizing atStart with
  | nil => rw [foundIn, matchesHere]
  | cons c cs ih => rw [foundIn, matchesHere, ih, Bool.false_and, Bool.or_false]

theorem atEnd_iff (cs : List Char) : atEnd cs = true ↔ cs = [] ∨ cs = ['\n'] := by
  rw [atEnd.eq_def]
  split <;> simp_all

/-- What is left when the steps of a LIKE text are at the end is nothing or the line feed that ends the text. -/
theorem isFoundIn_like_iff (options : MatchOptions) (like s : String) :
    (ofText (likeText like)).isFoundIn options s = true
      ↔ SplitsToEnd (fun p => stepTakes options (likeStep p)) s.toList like.toList := by
  have hpattern : ofText (likeText like) = .start :: (like.toList.map likeStep ++ [.finish]) := by
    rw [ofText, likeText, String.toList_ofList, ofChars, ofChars_like]
  rw [hpattern, isFoundIn, foundIn_start, Bool.true_and, matchesHere_like_iff]
  simp only [atEnd_iff]
  constructor
  · rintro ⟨line, _, heq, hline, rfl | rfl⟩
    · rw [List.append_nil] at heq
      exact Or.inl (heq ▸ hline)
    · exact Or.inr ⟨line, heq.symm, hline⟩
  · rintro (hsplit | ⟨line, heq, hline⟩)
    · exact ⟨s.toList, [], List.append_nil _, hsplit, Or.inl rfl⟩
    · exact ⟨line, ['\n'], heq.symm, hline, Or.inr rfl⟩

/-- Steps take the pieces that their characters take, but for line feeds that wildcards do not stand for. -/
theorem stepTakes_likeStep_iff (anyLineFeed : Bool) (p : Char) (piece : List Char) :
    stepTakes ⟨true, anyLineFeed⟩ (likeStep p) piece
      ↔ Takes p piece ∧ (anyLineFeed = false → IsWildcard p → '\n' ∉ piece) := by
  have hany : ∀ c, accepts ⟨true, anyLineFeed⟩ .any c = true ↔ (anyLineFeed = false → c ≠ '\n') := by
    intro c
    cases anyLineFeed <;> simp [accepts]
  by_cases hpercent : p = '%'
  · subst hpercent
    have hmem : (∀ c ∈ piece, anyLineFeed = false → c ≠ '\n') ↔ (anyLineFeed = false → '\n' ∉ piece) :=
      ⟨fun h hline hmem => h _ hmem hline rfl, fun h c hc hline heq => h hline (heq ▸ hc)⟩
    simp [likeStep, stepTakes, hany, takes_percent, IsWildcard, hmem]
  by_cases hunderscore : p = '_'
  · subst hunderscore
    have hstep : stepTakes ⟨true, anyLineFeed⟩ (likeStep '_') piece
        ↔ ∃ c, piece = [c] ∧ (anyLineFeed = false → c ≠ '\n') := by simp [likeStep, stepTakes, hany]
    rw [hstep, takes_underscore]
    constructor
    · rintro ⟨c, rfl, hc⟩
      exact ⟨⟨c, rfl⟩, fun hline _ hmem => hc hline (List.mem_singleton.mp hmem).symm⟩
    · rintro ⟨⟨c, rfl⟩, hc⟩
      exact ⟨c, rfl, fun hline heq => hc hline (Or.inr rfl) (List.mem_singleton.mpr heq.symm)⟩
  · have hp : ¬IsWildcard p := not_or.mpr ⟨hpercent, hunderscore⟩
    simp [likeStep, stepTakes, hpercent, hunderscore, accepts, takes_of_not_isWildcard hp, hp]

theorem isFoundIn_like_iff_splits (like s : String) :
    (ofText (likeText like)).isFoundIn ⟨true, true⟩ s = true ↔ SplitsToEnd Takes s.toList like.toList := by
  have htakes : (fun p => stepTakes ⟨true, true⟩ (likeStep p)) = Takes := by
    funext p piece
    simp [stepTakes_likeStep_iff]
  rw [isFoundIn_like_iff, htakes]

theorem isFoundIn_like_iff_splits_inLine (like s : String) :
    (ofText (likeText like)).isFoundIn ⟨true, false⟩ s = true ↔ SplitsToEnd TakesInLine s.toList like.toList := by
  have htakes : (fun p => stepTakes ⟨true, false⟩ (likeStep p)) = TakesInLine := by
    funext p piece
    simp [stepTakes_likeStep_iff, TakesInLine]
  rw [isFoundIn_like_iff, htakes]

end Pattern

end QueryFederation.Text

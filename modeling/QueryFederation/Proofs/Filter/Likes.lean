import QueryFederation.Proofs.Filter.Agreement
import QueryFederation.Proofs.Text.Like

/-!
# LIKE filters on texts

In memory and in a store a LIKE filter is decided by one pattern. On a text without line feeds both answer as the text
splits along the LIKE text. With line feeds they part, as a wildcard takes a line feed in memory only; and before a line
feed that ends the text, both are content with what is before it.
-/

namespace QueryFederation.Document

open Text

/-- What LIKE and NOT LIKE answer of a text, in memory and of a document that has it in a store. -/
structure LikeAnswers (name : String) (doc : Row) (s like : String) (inMemory inStore : Bool) : Prop where
  like_holds : FilterOperator.like.holds (.text s) (.text like) = .ok (some inMemory)
  notLike_holds : FilterOperator.notLike.holds (.text s) (.text like) = .ok (some !inMemory)
  like_matches : ∃ query, condition name .like (.text like) = .ok query
    ∧ queryMatches doc (.record query) = .ok inStore
  notLike_matches : ∃ query, condition name .notLike (.text like) = .ok query
    ∧ queryMatches doc (.record query) = .ok !inStore

variable {name : String} {doc : Row} {s : String}

section

variable (hand : name ≠ "$and") (hor : name ≠ "$or") (hdoc : field doc name = .text s)

include hand hor hdoc

theorem likeAnswers_isFoundIn (like : String) :
    LikeAnswers name doc s like ((Pattern.ofText (Pattern.likeText like)).isFoundIn ⟨true, true⟩ s)
      ((Pattern.ofText (Pattern.likeText like)).isFoundIn ⟨true, false⟩ s) := by
  have hmatches : ∀ operator : FilterOperator, operator.isPattern = true →
      ∃ query, condition name operator (.text like) = .ok query
        ∧ queryMatches doc (.record query) = .ok (operator.decides .asIs (.text s) (.text like)) := by
    intro operator hpattern
    have hv : operator.valueProblem? (.text like) = none := by cases operator <;> first | rfl | cases hpattern
    obtain ⟨query, hquery, hdecides⟩ := exists_condition_decides hand hor hv (fun _ => ⟨like, rfl⟩) fun hop => by
      subst hop
      cases hpattern
    exact ⟨query, hquery, hdoc ▸ hdecides doc⟩
  exact ⟨FilterOperator.holds_like rfl _, FilterOperator.holds_notLike rfl _, hmatches .like rfl, hmatches .notLike rfl⟩

/-- On a text without line feeds, LIKE holds in memory and in a store if the text splits along the LIKE text, each
percent taking any piece, each underscore one character and every other character an equal one. NOT LIKE holds if it
does not split. -/
theorem like_splits_text (hfeeds : '\n' ∉ s.toList) (like : String) :
    ∃ answer, (answer = true ↔ Like.Splits Like.Takes s.toList like.toList)
      ∧ LikeAnswers name doc s like answer answer := by
  have hanswers := likeAnswers_isFoundIn hand hor hdoc like
  rw [← Pattern.isFoundIn_anyLineFeed _ hfeeds] at hanswers
  exact ⟨_, (Pattern.isFoundIn_like_iff_splits like s).trans (Like.splitsToEnd_iff_of_notMem hfeeds), hanswers⟩

omit hand hor hdoc in
/-- The underscore takes a letter, the percent a digit, and a point nothing but a point. -/
theorem sourceFile_is_like :
    field [("file", .text "v2.C")] "file" = .text "v2.C"
      ∧ '\n' ∉ "v2.C".toList
      ∧ LikeAnswers "file" [("file", .text "v2.C")] "v2.C" "_%.c" true true := by
  have hfile : field [("file", .text "v2.C")] "file" = .text "v2.C" := by cbv
  have hfeeds : '\n' ∉ "v2.C".toList := by decide
  obtain ⟨answer, hsplits, hanswers⟩ := like_splits_text (by decide) (by decide) hfile hfeeds "_%.c"
  have hpieces : List.Forall₂ Like.Takes ['_', '%', '.', 'c'] [['v'], ['2'], ['.'], ['C']] :=
    .cons (.one 'v') (.cons (.any ['2'])
      (.cons (.equal (by decide) (by decide +kernel)) (.cons (.equal (by decide) (by decide +kernel)) .nil)))
  obtain rfl : answer = true := hsplits.mpr ⟨_, rfl, hpieces⟩
  exact ⟨hfile, hfeeds, hanswers⟩

/-! ### Line feeds -/

/-- A wildcard takes a line feed in memory but not in a store, so the two agree on all LIKE texts exactly for a text
without line feeds. In both, a LIKE text without percent is as long as the text exactly if no line feed ends the text. -/
theorem like_at_lineFeeds_iff :
    ∃ inMemory inStore : String → Bool, (∀ like, LikeAnswers name doc s like (inMemory like) (inStore like))
      ∧ (∀ like, inMemory like = true ↔ Like.SplitsToEnd Like.Takes s.toList like.toList)
      ∧ (∀ like, inStore like = true ↔ Like.SplitsToEnd Like.TakesInLine s.toList like.toList)
      ∧ ((∀ like, inMemory like = inStore like) ↔ '\n' ∉ s.toList)
      ∧ ((∀ like, '%' ∉ like.toList → inMemory like = true → s.length = like.length)
        ↔ s.toList.getLast? ≠ some '\n')
      ∧ ((∀ like, '%' ∉ like.toList → inStore like = true → s.length = like.length)
        ↔ s.toList.getLast? ≠ some '\n') := by
  have hmemory := fun like => Pattern.isFoundIn_like_iff_splits like s
  have hstore := fun like => Pattern.isFoundIn_like_iff_splits_inLine like s
  refine ⟨_, _, likeAnswers_isFoundIn hand hor hdoc, hmemory, hstore, ⟨fun hagree hfeeds => ?_, fun hfeeds like => ?_⟩,
    ?_, ?_⟩
  · -- Underscores in memory take every character, and in a store all but the line feeds.
    have hsplits := hmemory (String.ofList (Like.underscores s.toList))
    have hinLine := hstore (String.ofList (Like.underscores s.toList))
    rw [String.toList_ofList] at hsplits hinLine
    refine Like.not_splitsToEnd_underscores hfeeds (hinLine.mp ?_)
    rw [← hagree]
    exact hsplits.mpr (Or.inl (Like.splits_underscores s.toList))
  · exact Pattern.isFoundIn_anyLineFeed _ hfeeds
  · simp only [hmemory]
    exact Like.forall_length_eq_iff (fun _ _ => id) fun line => (Like.splits_shape line).mono fun _ _ => And.left
  · simp only [hstore]
    exact Like.forall_length_eq_iff (fun _ _ => And.left) Like.splits_shape

omit hand hor hdoc in
theorem note_of_one_line :
    field [("note", .text "a b")] "note" = .text "a b"
      ∧ ∃ answer : String → Bool,
        (∀ like, LikeAnswers "note" [("note", .text "a b")] "a b" like (answer like) (answer like))
        ∧ ∀ like, '%' ∉ like.toList → answer like = true → "a b".length = like.length := by
  have hnote : field [("note", .text "a b")] "note" = .text "a b" := by cbv
  obtain ⟨inMemory, inStore, hanswers, -, -, hagree, hlength, -⟩ := like_at_lineFeeds_iff (by decide) (by decide) hnote
  obtain rfl : inMemory = inStore := funext (hagree.mpr (by decide))
  exact ⟨hnote, inMemory, hanswers, hlength.mpr (by decide)⟩

omit hand hor hdoc in
/-- A store does not find the second line of a note; and a note that a line feed ends is one character longer than what
it is like. -/
theorem twoLineNote_is_like_apart :
    LikeAnswers "note" [("note", .text "a\nb")] "a\nb" "a%b" true false
      ∧ LikeAnswers "note" [("note", .text "ab\n")] "ab\n" "ab" true true
      ∧ "ab\n".length = 3 ∧ "ab".length = 2 := by
  have hlines := likeAnswers_isFoundIn (show "note" ≠ "$and" by decide) (by decide)
    (show field [("note", .text "a\nb")] "note" = .text "a\nb" by cbv) "a%b"
  have hfinal := likeAnswers_isFoundIn (show "note" ≠ "$and" by decide) (by decide)
    (show field [("note", .text "ab\n")] "note" = .text "ab\n" by cbv) "ab"
  have hany : (Pattern.ofText (Pattern.likeText "a%b")).isFoundIn ⟨true, true⟩ "a\nb" = true := by decide +kernel
  have hinLine : (Pattern.ofText (Pattern.likeText "a%b")).isFoundIn ⟨true, false⟩ "a\nb" = false := by decide +kernel
  have hend : ∀ anyLineFeed,
      (Pattern.ofText (Pattern.likeText "ab")).isFoundIn ⟨true, anyLineFeed⟩ "ab\n" = true := by decide +kernel
  rw [hany, hinLine] at hlines
  rw [hend, hend] at hfinal
  exact ⟨hlines, hfinal, rfl, rfl⟩

end

end QueryFederation.Document

import Mathlib
import QueryFederation.Proofs.Discovery.TableOrder

/-!
# What hints come to

Hints are taken one after the other, and each is only seen by the pair of columns it is to. A declared key takes no
notice of them. Where names tell that two columns belong together, every hint to them adds its part, up to a ceiling, so
it counts how many there are. Where nothing else speaks for two columns, the first hint to them is the one that counts,
however sure the others are. So it is not enough that two lists have the same hints.
-/

namespace QueryFederation.Discovery

variable {tables : List TableSchema} {hints hints' : List Hint} {p : Sym2 ColumnRef}

/-- The hints to a pair of columns, if they can be taken. -/
def hintsTo (tables : List TableSchema) (hints : List Hint) (p : Sym2 ColumnRef) : List Hint :=
  (hints.filter (isApplicable tables)).filter fun hint => hint.pair = p

/-- The standing of a pair before there are hints. -/
def offeredStanding? (tables : List TableSchema) (p : Sym2 ColumnRef) : Option Standing :=
  (offered tables).foldl (Candidate.raise p) none

theorem standing?_candidates_eq_foldl : standing? (candidates tables hints) p
    = (hintsTo tables hints p).foldl (fun best hint => hint.strengthen best) (offeredStanding? tables p) := by
  have hraise : Hint.raise p
      = fun best hint => if decide (hint.pair = p) = true then hint.strengthen best else best := by
    funext best hint
    rw [Hint.raise]
    simp only [decide_eq_true_eq]
  rw [standing?_candidates, hraise, ← List.foldl_filter]
  rfl

theorem isOffered_of_offeredStanding? {standing : Standing} (h : offeredStanding? tables p = some standing) :
    standing.IsOffered := by
  have hall : ∀ s ∈ offeredStanding? tables p, s.IsOffered := by
    refine List.foldlRecOn (motive := fun best => ∀ s ∈ best, Standing.IsOffered s) _ _ nofun fun best hbest c hc => ?_
    have hstanding := isOffered_of_mem_offered hc
    rw [Candidate.raise]
    split
    · cases best with
      | none =>
        rintro s ⟨⟩
        exact hstanding
      | some best =>
        rw [Standing.stronger]
        split
        · rintro s ⟨⟩
          exact hstanding
        · exact hbest
    · exact hbest
  exact hall standing h

/-! ### Hints one after the other -/

/-- Every hint adds its part to what names tell, up to the ceiling. -/
theorem foldl_strengthen_naming {n : Nat} (hlow : 60 ≤ n) (hhigh : n ≤ 90) (pattern : NamePattern) (hints : List Hint) :
    hints.foldl (fun best hint => hint.strengthen best) (some ⟨ofHundredths n, .naming pattern⟩)
      = some ⟨ofHundredths (min 90 (n + 5 * hints.length)), .naming pattern⟩ := by
  induction hints generalizing n with
  | nil => rw [List.foldl_nil, List.length_nil, Nat.mul_zero, Nat.add_zero, min_eq_right hhigh]
  | cons hint hints ih =>
    have hsum : min 90 (min 90 (n + 5) + 5 * hints.length) = min 90 (n + 5 * (hints.length + 1)) := by omega
    rw [List.foldl_cons, Hint.strengthen, boosted_ofHundredths hlow hhigh, ih (by omega) (by omega), List.length_cons,
      hsum]

/-- Neither a declared key nor an earlier hint takes notice of a hint. -/
theorem foldl_strengthen_settled {standing : Standing} (h : ∀ pattern, standing.evidence ≠ .naming pattern)
    (hints : List Hint) : hints.foldl (fun best hint => hint.strengthen best) (some standing) = some standing := by
  refine List.foldlRecOn (motive := (· = some standing)) _ _ rfl fun best hbest hint _ => ?_
  obtain ⟨confidence, evidence⟩ := standing
  rw [hbest]
  cases evidence with
  | naming pattern => exact absurd rfl (h pattern)
  | declared | hint => rfl

/-- Where nothing else speaks for a pair, the first hint is the one that counts. -/
theorem foldl_strengthen_none (hints : List Hint) : hints.foldl (fun best hint => hint.strengthen best) none
    = hints.head?.map fun hint => ⟨hintConfidence hint.confidence, .hint⟩ := by
  cases hints with
  | nil => rfl
  | cons hint hints => exact foldl_strengthen_settled (fun _ h => Evidence.noConfusion h) hints

/-! ### Hints that come to the same -/

/--
Do two lists of hints to a pair come to the same? With nothing else to speak for the pair, the first hints have to be
equally sure; where names tell of it, there have to be as many hints, or enough for the ceiling; a declared key takes no
notice of hints.
-/
def ComeToSame (hints hints' : List Hint) : Option Standing → Prop
  | none => hints.head?.map (fun hint => hintConfidence hint.confidence)
      = hints'.head?.map fun hint => hintConfidence hint.confidence
  | some ⟨_, .naming pattern⟩ =>
    min 90 (pattern.hundredths + 5 * hints.length) = min 90 (pattern.hundredths + 5 * hints'.length)
  | some _ => True

theorem foldl_strengthen_eq_iff {before : Option Standing} (h : ∀ standing ∈ before, standing.IsOffered) :
    hints.foldl (fun best hint => hint.strengthen best) before
        = hints'.foldl (fun best hint => hint.strengthen best) before ↔ ComeToSame hints hints' before := by
  cases before with
  | none =>
    have hinjective : Function.Injective fun confidence : Double => (⟨confidence, .hint⟩ : Standing) := fun _ _ heq =>
      congrArg Standing.confidence heq
    have hmap : ∀ hints : List Hint, hints.foldl (fun best hint => hint.strengthen best) none
        = (hints.head?.map fun hint => hintConfidence hint.confidence).map fun confidence => ⟨confidence, .hint⟩ := by
      intro hints
      rw [foldl_strengthen_none, Option.map_map]
      rfl
    rw [hmap, hmap, (Option.map_injective hinjective).eq_iff]
    rfl
  | some standing =>
    obtain rfl | ⟨pattern, rfl⟩ := h standing rfl
    · have hsettled : ∀ pattern, Standing.declared.evidence ≠ .naming pattern := nofun
      exact iff_of_true
        ((foldl_strengthen_settled hsettled hints).trans (foldl_strengthen_settled hsettled hints').symm) trivial
    · have hlow : 60 ≤ pattern.hundredths := by cases pattern <;> decide
      have hhigh : pattern.hundredths ≤ 90 := by cases pattern <;> decide
      rw [foldl_strengthen_naming hlow hhigh, foldl_strengthen_naming hlow hhigh, Option.some_inj, Standing.mk.injEq,
        and_iff_left rfl]
      exact ofHundredths_inj (by omega) (by omega) (by omega) (by omega)

/-- The same is suggested with two lists of hints, whatever the threshold is, if all pairs end up with one standing. -/
theorem forall_suggest_perm_iff : (∀ threshold, ((suggest tables hints threshold).map Candidate.claim).Perm
      ((suggest tables hints' threshold).map Candidate.claim))
    ↔ ∀ p, standing? (candidates tables hints) p = standing? (candidates tables hints') p := by
  constructor
  · intro hall p
    -- Every confidence reaches the least of all thresholds.
    have hleast : ∀ {hints : List Hint} {standing : Standing}, standing? (candidates tables hints) p = some standing
        ↔ (p, standing) ∈ (suggest tables hints (.infinite true)).map Candidate.claim := by
      intro hints standing
      rw [mem_map_claim_suggest, iff_self_and]
      intro hstanding
      obtain ⟨c, hc, -, rfl⟩ := (standing?_eq_some_iff (areDistinct_candidates tables hints)).mp hstanding
      have hleast : Double.infinite true ≠ .nan := nofun
      exact (Double.le_iff hleast (isRated_candidates c hc).ne_nan).mpr bot_le
    refine Option.ext fun standing => ?_
    rw [hleast, hleast, (hall (.infinite true)).mem_iff]
  · intro hall threshold
    refine (List.perm_ext_iff_of_nodup nodup_map_claim_suggest nodup_map_claim_suggest).mpr fun claim => ?_
    rw [mem_map_claim_suggest, mem_map_claim_suggest, hall]

/--
With two lists of hints the same pairs of columns are suggested at every threshold, equally sure and by the same
evidence, exactly if the hints to every pair come to the same in both lists, for what speaks for the pair without them.
-/
theorem suggest_hints_perm_iff (tables : List TableSchema) (hints hints' : List Hint) :
    (∀ threshold, ((suggest tables hints threshold).map Candidate.claim).Perm
        ((suggest tables hints' threshold).map Candidate.claim))
      ↔ ∀ p, ComeToSame (hintsTo tables hints p) (hintsTo tables hints' p) (offeredStanding? tables p) := by
  rw [forall_suggest_perm_iff]
  refine forall_congr' fun p => ?_
  rw [standing?_candidates_eq_foldl, standing?_candidates_eq_foldl]
  exact foldl_strengthen_eq_iff fun _ => isOffered_of_offeredStanding?

/-- Orders that name their buyers by number, and notes on both. -/
def ordersWithNotes : List TableSchema :=
  [{ aliasName := "orders", columns := [⟨"buyer_id", "int"⟩, ⟨"note", "text"⟩] },
    { aliasName := "buyers", columns := [⟨"id", "int"⟩, ⟨"remark", "text"⟩] }]

/-- A hint that the names confirm. -/
def numbersOfBuyers : Hint := { left := ⟨"orders", "buyer_id"⟩, right := ⟨"buyers", "id"⟩ }

/-- A hint that nothing confirms. -/
def equalNotes (confidence : Double) : Hint :=
  { left := ⟨"orders", "note"⟩, right := ⟨"buyers", "remark"⟩, confidence }

/-- The same hint twice makes the buyers surer than once, and of two hints to the notes the first one counts. -/
theorem ordersWithNotes_hints_apart :
    (∀ hint, hint ∈ [numbersOfBuyers] ↔ hint ∈ [numbersOfBuyers, numbersOfBuyers])
      ∧ ¬((suggest ordersWithNotes [numbersOfBuyers] defaultThreshold).map Candidate.claim).Perm
        ((suggest ordersWithNotes [numbersOfBuyers, numbersOfBuyers] defaultThreshold).map Candidate.claim)
      ∧ (∀ hint, hint ∈ [equalNotes (ofHundredths 80), equalNotes (.finite 1)]
        ↔ hint ∈ [equalNotes (.finite 1), equalNotes (ofHundredths 80)])
      ∧ ¬((suggest ordersWithNotes [equalNotes (ofHundredths 80), equalNotes (.finite 1)] defaultThreshold).map
        Candidate.claim).Perm ((suggest ordersWithNotes [equalNotes (.finite 1), equalNotes (ofHundredths 80)]
          defaultThreshold).map Candidate.claim) := by
  refine ⟨by simp, fun h => ?_, by simp [or_comm], fun h => ?_⟩
  · have hsurer : (s(⟨"orders", "buyer_id"⟩, ⟨"buyers", "id"⟩), (⟨ofHundredths 85, .naming .idOfTable⟩ : Standing))
        ∈ (suggest ordersWithNotes [numbersOfBuyers] defaultThreshold).map Candidate.claim :=
      mem_map_claim_suggest.mpr (by decide +kernel)
    have hsame := mem_map_claim_suggest.mp (h.mem_iff.mp hsurer)
    revert hsame
    decide +kernel
  · have hsurer : (s(⟨"orders", "note"⟩, ⟨"buyers", "remark"⟩), (⟨ofHundredths 36, .hint⟩ : Standing))
        ∈ (suggest ordersWithNotes [equalNotes (ofHundredths 80), equalNotes (.finite 1)] defaultThreshold).map
          Candidate.claim := mem_map_claim_suggest.mpr (by decide +kernel)
    have hsame := mem_map_claim_suggest.mp (h.mem_iff.mp hsurer)
    revert hsame
    decide +kernel

end QueryFederation.Discovery

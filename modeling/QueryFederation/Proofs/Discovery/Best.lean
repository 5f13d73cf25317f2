import Mathlib
import QueryFederation.Proofs.Discovery.Confidence

/-!
# The best candidate of a pair

There is one candidate for each pair of columns, whichever of them is on the left. An offer and a hint do the same to
the candidates: they change the one of their pair, or add one if the pair is new. So it is enough to know what they make
of the standing of a pair, that is, of how sure its candidate is and by which evidence; the standing of any pair after
all offers and hints is what those of this pair make of it one after the other. Nothing takes the place of a declared
key.

Suggestions are in the order of confidence, and among equally sure ones in the order of the names. Since better kinds of
evidence are surer, declared keys come first and hints last, and the key that a table declares is among them.
-/

namespace QueryFederation.Discovery

/-- How sure one is of a pair of columns, and by which evidence. -/
structure Standing where
  confidence : Double
  evidence : Evidence
  deriving DecidableEq

/-- Is the confidence one that the evidence allows? -/
def Standing.IsRated (standing : Standing) : Prop := standing.evidence.Allows standing.confidence

/-- The standing of a pair once a candidate for it has been offered: a candidate that is not surer changes nothing. -/
def Standing.stronger (offered : Standing) : Option Standing → Option Standing
  | none => some offered
  | some best => some (if best.confidence.lt offered.confidence then offered else best)

namespace Candidate

def pair (c : Candidate) : Sym2 ColumnRef := s(c.left, c.right)

def standing (c : Candidate) : Standing := ⟨c.confidence, c.evidence⟩

/-- The standing of a pair once the candidate has been offered, be it for this pair or for another. -/
def raise (p : Sym2 ColumnRef) (best : Option Standing) (c : Candidate) : Option Standing :=
  if c.pair = p then c.standing.stronger best else best

def IsRated (c : Candidate) : Prop := c.standing.IsRated

theorem IsRated.ne_nan {c : Candidate} (h : c.IsRated) : c.confidence ≠ .nan := Evidence.Allows.ne_nan h

theorem joins_iff {c : Candidate} {a b : ColumnRef} : c.joins a b = true ↔ c.pair = s(a, b) := by
  rw [pair, Sym2.eq_iff, joins]
  simp only [Bool.or_eq_true, Bool.and_eq_true, decide_eq_true_eq]

end Candidate

namespace Hint

def pair (hint : Hint) : Sym2 ColumnRef := s(hint.left, hint.right)

/-- The standing of a pair once there is a hint to it. -/
def strengthen (hint : Hint) : Option Standing → Option Standing
  | none => some ⟨hintConfidence hint.confidence, .hint⟩
  | some ⟨confidence, .naming pattern⟩ => some ⟨boosted confidence, .naming pattern⟩
  | some best => some best

/-- The standing of a pair once there is the hint, be it to this pair or to another. -/
def raise (p : Sym2 ColumnRef) (best : Option Standing) (hint : Hint) : Option Standing :=
  if hint.pair = p then hint.strengthen best else best

end Hint

variable {p q : Sym2 ColumnRef} {change : Candidate → Candidate} {new c : Candidate} {cs : List Candidate}
  {tables : List TableSchema} {hints : List Hint}

/-! ### One candidate for each pair -/

/-- What is found under a key that no other item has is the item with the key. -/
theorem find?_eq_some_iff_of_nodup {α β : Type} [DecidableEq β] {key : α → β} {items : List α} {a : α} {k : β}
    (h : (items.map key).Nodup) : items.find? (fun item => key item = k) = some a ↔ a ∈ items ∧ key a = k := by
  constructor
  · intro hfound
    exact ⟨List.mem_of_find?_eq_some hfound, by simpa using List.find?_some hfound⟩
  · rintro ⟨ha, rfl⟩
    have hsome : (items.find? fun item => key item = key a).isSome = true :=
      List.find?_isSome.mpr ⟨a, ha, decide_eq_true rfl⟩
    obtain ⟨found, hfound⟩ := Option.isSome_iff_exists.mp hsome
    have hkey : key found = key a := by simpa using List.find?_some hfound
    rw [hfound, List.inj_on_of_nodup_map h (List.mem_of_find?_eq_some hfound) ha hkey]

/-- Changes the first candidate of a pair, or adds one. -/
def update (p : Sym2 ColumnRef) (change : Candidate → Candidate) (new : Candidate) : List Candidate → List Candidate
  | [] => [new]
  | c :: rest => if c.pair = p then change c :: rest else c :: update p change new rest

/-- Is there at most one candidate for each pair? -/
def AreDistinct (cs : List Candidate) : Prop := (cs.map Candidate.pair).Nodup

def best? (cs : List Candidate) (p : Sym2 ColumnRef) : Option Candidate := cs.find? fun c => c.pair = p

def standing? (cs : List Candidate) (p : Sym2 ColumnRef) : Option Standing := (best? cs p).map Candidate.standing

theorem best?_eq_some_iff (h : AreDistinct cs) : best? cs p = some c ↔ c ∈ cs ∧ c.pair = p :=
  find?_eq_some_iff_of_nodup h

theorem standing?_eq_some_iff (h : AreDistinct cs) {standing : Standing} :
    standing? cs p = some standing ↔ ∃ c ∈ cs, c.pair = p ∧ c.standing = standing := by
  rw [standing?, Option.map_eq_some_iff]
  simp only [best?_eq_some_iff h, and_assoc]

theorem offer_eq_update (cs : List Candidate) (c : Candidate) :
    offer cs c = update c.pair (fun best => if best.confidence.lt c.confidence then c else best) c cs := by
  induction cs with
  | nil => rfl
  | cons best rest ih =>
    rw [offer, update, ih]
    exact if_congr Candidate.joins_iff rfl rfl

theorem applyHint_eq_update (hint : Hint) (cs : List Candidate) :
    applyHint hint cs = update hint.pair confirmed (hintCandidate hint) cs := by
  induction cs with
  | nil => rfl
  | cons c rest ih =>
    rw [applyHint, update, ih]
    exact if_congr Candidate.joins_iff rfl rfl

theorem forall_mem_update {P : Candidate → Prop} (hcs : ∀ c ∈ cs, P c) (hchange : ∀ c, c.pair = p → P c → P (change c))
    (hnew : P new) : ∀ c ∈ update p change new cs, P c := by
  induction cs with
  | nil => exact List.forall_mem_singleton.mpr hnew
  | cons best rest ih =>
    obtain ⟨hbest, hrest⟩ := List.forall_mem_cons.mp hcs
    rw [update]
    split
    · exact List.forall_mem_cons.mpr ⟨hchange best ‹_› hbest, hrest⟩
    · exact List.forall_mem_cons.mpr ⟨hbest, ih hrest⟩

section

variable (hnew : new.pair = p) (hchange : ∀ c, c.pair = p → (change c).pair = p)

include hnew hchange

theorem map_pair_update : (update p change new cs).map Candidate.pair
    = if p ∈ cs.map Candidate.pair then cs.map Candidate.pair else cs.map Candidate.pair ++ [p] := by
  induction cs with
  | nil => rw [update, List.map_singleton, hnew, List.map_nil, if_neg List.not_mem_nil, List.nil_append]
  | cons best rest ih =>
    rw [update]
    by_cases h : best.pair = p
    · rw [if_pos h, List.map_cons, List.map_cons, hchange best h, h, if_pos List.mem_cons_self]
    · have hmem : p ∈ best.pair :: rest.map Candidate.pair ↔ p ∈ rest.map Candidate.pair := by
        rw [List.mem_cons, or_iff_right (Ne.symm h)]
      rw [if_neg h, List.map_cons, List.map_cons, ih, if_congr hmem rfl rfl]
      split <;> rfl

theorem areDistinct_update (h : AreDistinct cs) : AreDistinct (update p change new cs) := by
  rw [AreDistinct, map_pair_update hnew hchange]
  split
  · exact h
  · rw [← List.concat_eq_append]
    exact h.concat ‹_›

/-- The candidate of its pair is changed, or added; the best of every other pair stays. -/
theorem best?_update : best? (update p change new cs) q
    = if p = q then some ((best? cs p).elim new change) else best? cs q := by
  induction cs with
  | nil =>
    rw [update, best?, List.find?_singleton, hnew]
    simp only [decide_eq_true_eq]
    rfl
  | cons best rest ih =>
    rw [update]
    by_cases h : best.pair = p
    · rw [if_pos h, best?, best?, best?, List.find?_cons, List.find?_cons, List.find?_cons, hchange best h, h]
      by_cases hq : p = q <;> simp [hq]
    · by_cases hbest : best.pair = q
      · have hne : p ≠ q := fun hp => h (hbest.trans hp.symm)
        rw [if_neg h, best?, List.find?_cons_of_pos (by simpa using hbest), if_neg hne, best?,
          List.find?_cons_of_pos (by simpa using hbest)]
      · rw [if_neg h, best?, List.find?_cons_of_neg (by simpa using hbest), ← best?, ih, best?, best?, best?, best?,
          List.find?_cons_of_neg (by simpa using h), List.find?_cons_of_neg (by simpa using hbest)]

end

/-! ### Offers -/

section

variable (c)

theorem pair_of_offer (best : Candidate) (h : best.pair = c.pair) :
    (if best.confidence.lt c.confidence then c else best).pair = c.pair := by
  split
  · rfl
  · exact h

theorem areDistinct_offer (h : AreDistinct cs) : AreDistinct (offer cs c) := by
  rw [offer_eq_update]
  exact areDistinct_update rfl (pair_of_offer c) h

theorem standing?_offer : standing? (offer cs c) p = c.raise p (standing? cs p) := by
  rw [standing?, standing?, offer_eq_update, best?_update rfl (pair_of_offer c), Candidate.raise]
  by_cases h : c.pair = p
  · rw [if_pos h, if_pos h, h]
    cases best? cs p with
    | none => rfl
    | some best => exact congrArg some (apply_ite Candidate.standing _ _ _)
  · rw [if_neg h, if_neg h]

end

/-! ### Hints -/

theorem pair_confirmed (c : Candidate) : (confirmed c).pair = c.pair := by
  rw [confirmed]
  split <;> rfl

theorem pair_hintCandidate (hint : Hint) : (hintCandidate hint).pair = hint.pair := rfl

section

variable (hint : Hint)

theorem pair_of_confirmed (best : Candidate) (h : best.pair = hint.pair) : (confirmed best).pair = hint.pair :=
  (pair_confirmed best).trans h

theorem areDistinct_applyHint (h : AreDistinct cs) : AreDistinct (applyHint hint cs) := by
  rw [applyHint_eq_update]
  exact areDistinct_update (pair_hintCandidate hint) (pair_of_confirmed hint) h

theorem standing?_applyHint : standing? (applyHint hint cs) p = hint.raise p (standing? cs p) := by
  rw [standing?, standing?, applyHint_eq_update, best?_update (pair_hintCandidate hint) (pair_of_confirmed hint),
    Hint.raise]
  by_cases h : hint.pair = p
  · rw [if_pos h, if_pos h, h]
    cases best? cs p with
    | none => rfl
    | some best =>
      obtain ⟨left, right, confidence, evidence, reason, kind⟩ := best
      cases evidence <;> rfl
  · rw [if_neg h, if_neg h]

end

/-! ### All candidates -/

/-- The candidates before there are hints. -/
def offered (tables : List TableSchema) : List Candidate := declaredCandidates tables ++ namingCandidates tables

theorem candidates_eq (tables : List TableSchema) (hints : List Hint) : candidates tables hints
    = (hints.filter (isApplicable tables)).foldl (fun best hint => applyHint hint best)
      ((offered tables).foldl offer []) :=
  rfl

/-- What holds of all that is offered or comes from a hint holds of all candidates, if confirming them leaves it. -/
theorem forall_mem_candidates {P : Candidate → Prop} (hoffered : ∀ c ∈ offered tables, P c)
    (hconfirmed : ∀ c, P c → P (confirmed c))
    (hhints : ∀ hint ∈ hints, isApplicable tables hint = true → P (hintCandidate hint)) :
    ∀ c ∈ candidates tables hints, P c := by
  have hfound : ∀ c ∈ (offered tables).foldl offer [], P c := by
    refine List.foldlRecOn (motive := fun cs => ∀ c ∈ cs, P c) _ _ (List.forall_mem_nil _) fun cs hcs c hc => ?_
    rw [offer_eq_update]
    refine forall_mem_update hcs (fun best _ hbest => ?_) (hoffered c hc)
    split
    · exact hoffered c hc
    · exact hbest
  rw [candidates_eq]
  refine List.foldlRecOn (motive := fun cs => ∀ c ∈ cs, P c) _ _ hfound fun cs hcs hint hhint => ?_
  obtain ⟨hhint, happlicable⟩ := List.mem_filter.mp hhint
  rw [applyHint_eq_update]
  exact forall_mem_update hcs (fun c _ => hconfirmed c) (hhints hint hhint happlicable)

theorem areDistinct_candidates (tables : List TableSchema) (hints : List Hint) :
    AreDistinct (candidates tables hints) := by
  have hfound : AreDistinct ((offered tables).foldl offer []) :=
    List.foldlRecOn (motive := AreDistinct) _ _ List.nodup_nil fun cs hcs c _ => areDistinct_offer c hcs
  exact List.foldlRecOn (motive := AreDistinct) _ _ hfound fun cs hcs hint _ => areDistinct_applyHint hint hcs

/-- The standing of a pair is what the offers and hints of this pair make of it. -/
theorem standing?_candidates : standing? (candidates tables hints) p
    = (hints.filter (isApplicable tables)).foldl (Hint.raise p) ((offered tables).foldl (Candidate.raise p) none) := by
  have hnone : standing? [] p = none := rfl
  rw [← hnone, List.foldl_hom (standing? · p) fun cs c => (standing?_offer c).symm,
    List.foldl_hom (standing? · p) fun cs hint => (standing?_applyHint hint).symm]
  rfl

/-! ### Declared keys -/

theorem mem_declaredCandidates : c ∈ declaredCandidates tables ↔ ∃ t ∈ tables, ∃ key ∈ t.foreignKeys, ∃ other ∈ tables,
    other.aliasName ≠ t.aliasName ∧ isReferenced key other = true ∧ other.hasColumn key.referencedColumn = true
      ∧ declaredCandidate t key other = c := by
  simp only [declaredCandidates, List.mem_flatMap, List.mem_map, List.mem_filter, Bool.and_eq_true, decide_eq_true_eq,
    and_assoc]

/-- The standing of a declared key. -/
def Standing.declared : Standing := ⟨declaredConfidence, .declared⟩

theorem standing_of_mem_declaredCandidates (h : c ∈ declaredCandidates tables) : c.standing = .declared := by
  obtain ⟨t, -, key, -, other, -, -, -, -, rfl⟩ := mem_declaredCandidates.mp h
  rfl

/-! ### Names -/

/-- The tables of a candidate by names are two of the tables, in their order. -/
theorem exists_of_mem_namingCandidates (h : c ∈ namingCandidates tables) : ∃ left right : Place,
    [left.table, right.table].Sublist tables ∧ left.column ∈ left.table.columns ∧ right.column ∈ right.table.columns
      ∧ namingCandidate? left right = some c := by
  induction tables with
  | nil => cases h
  | cons t others ih =>
    rw [namingCandidates, List.mem_append, List.mem_flatMap] at h
    rcases h with ⟨other, hother, h⟩ | h
    · simp only [candidatesBetween, List.mem_flatMap, List.mem_filterMap] at h
      obtain ⟨l, hl, r, hr, hc⟩ := h
      exact ⟨⟨t, l⟩, ⟨other, r⟩, (List.singleton_sublist.mpr hother).cons_cons t, hl, hr, hc⟩
    · obtain ⟨left, right, hsublist, hfound⟩ := ih h
      exact ⟨left, right, hsublist.cons t, hfound⟩

theorem standing_of_mem_namingCandidates (h : c ∈ namingCandidates tables) :
    ∃ pattern : NamePattern, c.standing = ⟨ofHundredths pattern.hundredths, .naming pattern⟩ := by
  obtain ⟨left, right, -, -, -, hc⟩ := exists_of_mem_namingCandidates h
  obtain ⟨⟨pattern, reason⟩, -, rfl⟩ := Option.map_eq_some_iff.mp hc
  exact ⟨pattern, rfl⟩

/-! ### Ratings -/

theorem isRated_of_mem_offered (h : c ∈ offered tables) : c.IsRated := by
  rcases List.mem_append.mp h with h | h
  · obtain ⟨t, -, key, -, other, -, -, -, -, rfl⟩ := mem_declaredCandidates.mp h
    exact rfl
  · obtain ⟨left, right, -, -, -, hc⟩ := exists_of_mem_namingCandidates h
    obtain ⟨⟨pattern, reason⟩, -, rfl⟩ := Option.map_eq_some_iff.mp hc
    exact Evidence.allows_pattern pattern

theorem Candidate.IsRated.confirmed (h : c.IsRated) : (confirmed c).IsRated := by
  obtain ⟨left, right, confidence, evidence, reason, kind⟩ := c
  cases evidence with
  | naming pattern =>
    have hallows : (Evidence.naming pattern).Allows confidence := h
    exact hallows.boosted
  | declared | hint => exact h

theorem isRated_candidates : ∀ c ∈ candidates tables hints, c.IsRated :=
  forall_mem_candidates (fun _ => isRated_of_mem_offered) (fun _ => Candidate.IsRated.confirmed)
    fun hint _ _ => Evidence.allows_hintConfidence hint.confidence

/-! ### Declared keys stay -/

section

variable {best : Option Standing} {items : List Candidate}

theorem isRated_raise (hbest : ∀ s ∈ best, s.IsRated) (hc : c.IsRated) : ∀ s ∈ c.raise p best, s.IsRated := by
  rw [Candidate.raise]
  split
  · cases best with
    | none =>
      rintro s ⟨⟩
      exact hc
    | some s =>
      rw [Standing.stronger]
      split
      · rintro s ⟨⟩
        exact hc
      · exact hbest
  · exact hbest

theorem raise_declared (hc : c.IsRated) : c.raise p (some .declared) = some .declared := by
  have hnot : ¬Standing.declared.confidence.lt c.confidence = true := fun hlt =>
    (Evidence.Allows.place_le_declared hc).not_gt ((Double.lt_iff (Double.finite_ne_nan 1) hc.ne_nan).mp hlt)
  rw [Candidate.raise, Standing.stronger]
  split
  · exact congrArg some (if_neg hnot)
  · rfl

/-- A declared key takes the place of whatever was there. -/
theorem raise_of_declared (hbest : ∀ s ∈ best, s.IsRated) (hc : c.standing = .declared) (hp : c.pair = p) :
    c.raise p best = some .declared := by
  rw [Candidate.raise, if_pos hp, hc]
  cases best with
  | none => rfl
  | some s =>
    have hs : s.IsRated := hbest s rfl
    obtain ⟨confidence, evidence⟩ := s
    rw [Standing.stronger]
    cases evidence with
    | declared =>
      obtain rfl : confidence = declaredConfidence := hs
      exact congrArg some (ite_self _)
    | naming pattern | hint =>
      have hlt : confidence.lt declaredConfidence = true :=
        (Double.lt_iff hs.ne_nan (Double.finite_ne_nan 1)).mpr
          (Evidence.Allows.place_lt (e := .declared) rfl hs (by simp [Evidence.tier]))
      exact congrArg some (if_pos hlt)

theorem foldl_raise_declared (hitems : ∀ c ∈ items, c.IsRated) (hbest : ∀ s ∈ best, s.IsRated)
    (h : best = some .declared ∨ ∃ c ∈ items, c.pair = p ∧ c.standing = .declared) :
    items.foldl (Candidate.raise p) best = some .declared := by
  induction items generalizing best with
  | nil => exact h.resolve_right (by simp)
  | cons d items ih =>
    obtain ⟨hd, hitems⟩ := List.forall_mem_cons.mp hitems
    refine ih hitems (isRated_raise hbest hd) ?_
    rcases h with rfl | ⟨c, hc, hpair, hstanding⟩
    · exact Or.inl (raise_declared hd)
    · rcases List.mem_cons.mp hc with rfl | hc
      · exact Or.inl (raise_of_declared hbest hstanding hpair)
      · exact Or.inr ⟨c, hc, hpair, hstanding⟩

end

/-- Whatever else is offered and whatever hints there are, a declared key is a candidate. -/
theorem standing?_of_mem_declaredCandidates (h : c ∈ declaredCandidates tables) :
    standing? (candidates tables hints) c.pair = some .declared := by
  have hoffers : (offered tables).foldl (Candidate.raise c.pair) none = some .declared :=
    foldl_raise_declared (fun _ => isRated_of_mem_offered) nofun
      (Or.inr ⟨c, List.mem_append_left _ h, rfl, standing_of_mem_declaredCandidates h⟩)
  rw [standing?_candidates, hoffers]
  refine List.foldlRecOn (motive := (· = some Standing.declared)) _ _ rfl fun best hbest hint _ => ?_
  rw [hbest, Hint.raise]
  split <;> rfl

end QueryFederation.Discovery

/-! ### The order of suggestions -/

namespace QueryFederation.Discovery

variable {tables : List TableSchema} {hints : List Hint} {threshold : Double} {p : Sym2 ColumnRef}

namespace Candidate

variable {a b c : Candidate}

/-- Is one candidate surer than another, or as sure as that and before it by its names? -/
def Precedes (a b : Candidate) : Prop :=
  b.confidence.le a.confidence = true
    ∧ (a.confidence.le b.confidence = true → List.Lex (· < ·) a.names b.names)

instance (a b : Candidate) : Decidable (a.Precedes b) := inferInstanceAs (Decidable (_ ∧ _))

theorem textsLe_iff {first second : List String} :
    textsLe first second = true ↔ first = second ∨ List.Lex (· < ·) first second := by
  induction first generalizing second with
  | nil =>
    cases second with
    | nil => simp [textsLe]
    | cons b second => simp [textsLe]
  | cons a first ih =>
    cases second with
    | nil => simp [textsLe]
    | cons b second =>
      rw [textsLe, Bool.or_eq_true, Bool.and_eq_true, decide_eq_true_eq, decide_eq_true_eq, ih, List.cons_lex_cons_iff,
        List.cons.injEq]
      tauto

/-- The place of a candidate among all: by its confidence, the highest first, then by its names. -/
def place (c : Candidate) : (WithBot (WithTop ℚ))ᵒᵈ ×ₗ List String :=
  toLex (OrderDual.toDual c.confidence.place, c.names)

theorem place_le_iff : a.place ≤ b.place ↔ b.confidence.place < a.confidence.place
    ∨ a.confidence.place = b.confidence.place ∧ textsLe a.names b.names = true := by
  rw [place, place, Prod.Lex.toLex_le_toLex, textsLe_iff, le_iff_eq_or_lt, OrderDual.toDual_lt_toDual,
    OrderDual.toDual_inj]
  rfl

theorem ranksBefore_eq (ha : a.IsRated) (hb : b.IsRated) : a.ranksBefore b = decide (a.place ≤ b.place) := by
  have hab := Double.lt_iff ha.ne_nan hb.ne_nan
  have hba := Double.lt_iff hb.ne_nan ha.ne_nan
  rw [ranksBefore, Bool.eq_iff_iff, decide_eq_true_iff, place_le_iff]
  rcases lt_trichotomy a.confidence.place b.confidence.place with h | h | h
  · rw [if_neg (hba.not.mpr h.not_gt), if_pos (hab.mpr h)]
    simp [h.not_gt, h.ne]
  · rw [if_neg (hba.not.mpr h.not_gt), if_neg (hab.not.mpr h.not_lt)]
    simp [h]
  · rw [if_pos (hba.mpr h)]
    simp [h]

theorem pair_eq_of_names_eq (h : a.names = b.names) : a.pair = b.pair := by
  obtain ⟨⟨leftTable, leftColumn⟩, ⟨rightTable, rightColumn⟩, confidence, evidence, reason, kind⟩ := a
  obtain ⟨⟨leftTable', leftColumn'⟩, ⟨rightTable', rightColumn'⟩, confidence', evidence', reason', kind'⟩ := b
  simp only [names, List.cons.injEq, and_true] at h
  obtain ⟨rfl, rfl, rfl, rfl⟩ := h
  rfl

/-- Of two candidates for different pairs the one with the first place precedes. -/
theorem precedes_of_place_le (ha : a.IsRated) (hb : b.IsRated) (hne : a.pair ≠ b.pair) (h : a.place ≤ b.place) :
    a.Precedes b := by
  rw [Precedes, Double.le_iff hb.ne_nan ha.ne_nan, Double.le_iff ha.ne_nan hb.ne_nan]
  rcases place_le_iff.mp h with hlt | ⟨heq, htexts⟩
  · exact ⟨hlt.le, fun hle => absurd hlt hle.not_gt⟩
  · exact ⟨heq.ge, fun _ => (textsLe_iff.mp htexts).resolve_left (hne ∘ pair_eq_of_names_eq)⟩

/-- What precedes is not of worse evidence. -/
theorem Precedes.tier_le (h : a.Precedes b) (ha : a.IsRated) (hb : b.IsRated) : a.evidence.tier ≤ b.evidence.tier := by
  by_contra hworse
  have hlt := Evidence.Allows.place_lt hb ha (Nat.lt_of_not_le hworse)
  exact absurd ((Double.le_iff hb.ne_nan ha.ne_nan).mp h.1) hlt.not_ge

end Candidate

/-! ### Suggestions -/

theorem mem_suggest {c : Candidate} :
    c ∈ suggest tables hints threshold ↔ c ∈ candidates tables hints ∧ threshold.le c.confidence = true := by
  rw [suggest, List.mem_mergeSort, List.mem_filter]

theorem isRated_of_mem_suggest {c : Candidate} (h : c ∈ suggest tables hints threshold) : c.IsRated :=
  isRated_candidates c (mem_suggest.mp h).1

theorem areDistinct_suggest : AreDistinct (suggest tables hints threshold) := by
  have hfiltered : AreDistinct ((candidates tables hints).filter fun c => threshold.le c.confidence) :=
    (areDistinct_candidates tables hints).sublist (List.filter_sublist.map Candidate.pair)
  exact ((List.mergeSort_perm _ Candidate.ranksBefore).map Candidate.pair).nodup_iff.mpr hfiltered

theorem pairwise_place_suggest : (suggest tables hints threshold).Pairwise fun a b => a.place ≤ b.place := by
  have hrated : ∀ c ∈ (candidates tables hints).filter fun c => threshold.le c.confidence, c.IsRated := fun c hc =>
    isRated_candidates c (List.mem_of_mem_filter hc)
  have hplaces : (suggest tables hints threshold).map Candidate.place
      = (((candidates tables hints).filter fun c => threshold.le c.confidence).map Candidate.place).mergeSort := by
    rw [suggest]
    exact List.map_mergeSort fun a ha b hb => Candidate.ranksBefore_eq (hrated a ha) (hrated b hb)
  rw [← List.pairwise_map, hplaces]
  exact List.pairwise_mergeSort' (· ≤ ·) _

theorem pairwise_suggest : (suggest tables hints threshold).Pairwise fun a b =>
    a.Precedes b ∧ a.evidence.tier ≤ b.evidence.tier ∧ a.joins b.left b.right = false := by
  have hpairs : (suggest tables hints threshold).Pairwise fun a b => a.pair ≠ b.pair :=
    List.pairwise_map.mp areDistinct_suggest
  refine (pairwise_place_suggest.and hpairs).imp_of_mem fun {a b} ha hb h => ?_
  obtain ⟨hplace, hne⟩ := h
  have hprecedes := Candidate.precedes_of_place_le (isRated_of_mem_suggest ha) (isRated_of_mem_suggest hb) hne hplace
  refine ⟨hprecedes, hprecedes.tier_le (isRated_of_mem_suggest ha) (isRated_of_mem_suggest hb), ?_⟩
  exact Bool.eq_false_of_not_eq_true (hne ∘ Candidate.joins_iff.mp)

/--
Of two suggestions the first is surer, or as sure and first by its names; its evidence is not worse, whatever hints
there are, and it joins another pair of columns. All are as sure as the threshold asks for. A key that a table declares
to a column of another table is suggested as certain, unless the threshold is higher than that.
-/
theorem suggest_isRanked (hnodup : (tables.map (·.aliasName)).Nodup) (hints : List Hint) (threshold : Double) :
    ((suggest tables hints threshold).Pairwise fun a b =>
        a.Precedes b ∧ a.evidence.tier ≤ b.evidence.tier ∧ a.joins b.left b.right = false)
      ∧ (∀ c ∈ suggest tables hints threshold, threshold.le c.confidence = true)
      ∧ ∀ t ∈ tables, ∀ key ∈ t.foreignKeys, ∀ other ∈ tables, other ≠ t → isReferenced key other = true →
        other.hasColumn key.referencedColumn = true → threshold.le (.finite 1) = true →
          ∃ c ∈ suggest tables hints threshold,
            c.joins ⟨t.aliasName, key.column⟩ ⟨other.aliasName, key.referencedColumn⟩ = true
              ∧ c.evidence = .declared ∧ c.confidence = .finite 1 := by
  refine ⟨pairwise_suggest, fun c hc => (mem_suggest.mp hc).2, ?_⟩
  intro t ht key hkey other hother hne hreferenced hcolumn hthreshold
  have haliases : other.aliasName ≠ t.aliasName := fun heq =>
    hne (List.inj_on_of_nodup_map hnodup hother ht heq)
  have hmem : declaredCandidate t key other ∈ declaredCandidates tables :=
    mem_declaredCandidates.mpr ⟨t, ht, key, hkey, other, hother, haliases, hreferenced, hcolumn, rfl⟩
  obtain ⟨c, hc, hpair, hstanding⟩ :=
    (standing?_eq_some_iff (areDistinct_candidates tables hints)).mp (standing?_of_mem_declaredCandidates hmem)
  have hconfidence : c.confidence = .finite 1 := congrArg Standing.confidence hstanding
  refine ⟨c, mem_suggest.mpr ⟨hc, ?_⟩, Candidate.joins_iff.mpr hpair, congrArg Standing.evidence hstanding, hconfidence⟩
  rw [hconfidence, hthreshold]

/-- Orders that declare who has bought them, and the buyers. -/
def ordersOfBuyers : List TableSchema :=
  [{ aliasName := "orders", columns := [⟨"id", "int"⟩, ⟨"buyer", "int"⟩], foreignKeys := [⟨"buyer", "buyers", "id"⟩] },
    { aliasName := "buyers", columns := [⟨"id", "int"⟩] }]

/-- A hint that orders have the numbers of their buyers. -/
def equalNumbers : Hint := { left := ⟨"buyers", "id"⟩, right := ⟨"orders", "id"⟩ }

/-- The declared key is suggested before the hint. -/
theorem suggest_ordersOfBuyers : (ordersOfBuyers.map (·.aliasName)).Nodup
    ∧ (suggest ordersOfBuyers [equalNumbers] defaultThreshold).map (·.evidence) = [.declared, .hint]
    ∧ ∃ c ∈ suggest ordersOfBuyers [equalNumbers] defaultThreshold,
      c.joins ⟨"orders", "buyer"⟩ ⟨"buyers", "id"⟩ = true ∧ c.evidence = .declared ∧ c.confidence = .finite 1 := by
  have hnodup : (ordersOfBuyers.map (·.aliasName)).Nodup := by simp [ordersOfBuyers]
  refine ⟨hnodup, ?_, ?_⟩
  · rw [suggest, List.mergeSort_of_pairwise (by decide +kernel)]
    decide +kernel
  · obtain ⟨-, -, hdeclared⟩ := suggest_isRanked hnodup [equalNumbers] defaultThreshold
    exact hdeclared _ List.mem_cons_self ⟨"buyer", "buyers", "id"⟩ List.mem_cons_self
      { aliasName := "buyers", columns := [⟨"id", "int"⟩] } (List.mem_cons_of_mem _ List.mem_cons_self) (by simp)
      (by cbv) (by cbv) (by decide +kernel)

end QueryFederation.Discovery

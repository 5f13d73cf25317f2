import Mathlib
import QueryFederation.Discovery.Naming
import QueryFederation.Proofs.Discovery.Best

/-!
# The order of tables

The tables can come in any order. Declared keys are the same, and so is what names tell of two columns, but for which of
them is on the left: some patterns ask something of one column that they do not ask of the other, but then both are
tried in both roles, one right after the other. So the same standings are offered for the same pairs, in another order,
and the surest of them is the same: offered standings that are equally sure are equal. Hints then find the same columns
and do the same to them.
-/

/-! ### Patterns on both sides -/

namespace QueryFederation.Discovery

theorem TypeFamily.meets_comm (a b : TypeFamily) : a.meets b = b.meets a := by
  cases a <;> cases b <;> rfl

theorem areCompatible_comm (left right : String) : areCompatible left right = areCompatible right left := by
  rw [areCompatible, areCompatible, Bool.and_comm (!left.isEmpty), decide_eq_decide.mpr eq_comm]
  cases TypeFamily.ofType? left with
  | none => cases TypeFamily.ofType? right <;> rfl
  | some a =>
    cases TypeFamily.ofType? right with
    | none => rfl
    | some b =>
      dsimp only
      rw [a.meets_comm]

namespace Place

/-- Is the first column the number of its table, and does the second refer to it by the name of the table? -/
def IsNumberFor (p q : Place) : Prop := p.lowerName = "id" ∧ q.namesTableOf p = true

/-- Is the first column the number of its table, and is the table mentioned in the name of the second? -/
def IsMentionedIn (p q : Place) : Prop := p.lowerName = "id" ∧ Text.isPart p.singularTable q.lowerName = true

/-- Is the first column the identifier of a table, and does the second refer to it by the name of the table? -/
def IsIdentifierFor (name : String) (p q : Place) : Prop :=
  p.lowerName = name ∧ q.lowerName = p.singularTable ++ "_" ++ name

instance (p q : Place) : Decidable (p.IsNumberFor q) := inferInstanceAs (Decidable (_ ∧ _))

instance (p q : Place) : Decidable (p.IsMentionedIn q) := inferInstanceAs (Decidable (_ ∧ _))

instance (name : String) (p q : Place) : Decidable (p.IsIdentifierFor name q) := inferInstanceAs (Decidable (_ ∧ _))

end Place

variable (left right : Place)

theorem isSome_matchIdentifier (name : String) : (matchIdentifier left right name).isSome = true
    ↔ (left.lowerName = name ∧ right.lowerName = name)
      ∨ right.IsIdentifierFor name left ∨ left.IsIdentifierFor name right := by
  rw [matchIdentifier]
  simp only [Place.IsIdentifierFor, Bool.and_eq_true, decide_eq_true_eq]
  split_ifs with hboth hleft hright
  · simp [hboth]
  · simp [hleft]
  · simp [hright]
  · simp only [Option.isSome_none, Bool.false_eq_true, false_iff, not_or]
    exact ⟨hboth, fun ⟨hname, href⟩ => hleft ⟨href, hname⟩, fun ⟨hname, href⟩ => hright ⟨href, hname⟩⟩

/-- The most telling pattern of two columns, without the words for it. -/
theorem map_fst_matchColumns : (matchColumns left right).map Prod.fst
    = if areCompatible left.column.type right.column.type = true then
        if left.IsNumberFor right ∨ right.IsNumberFor left then some .idOfTable
        else if left.lowerName.endsWith "_id" = true ∧ left.lowerName = right.lowerName then some .sameReference
        else if left.lowerName = right.lowerName ∧ genericNames.contains left.lowerName = false then some .sameName
        else if right.IsMentionedIn left ∨ left.IsMentionedIn right then some .mentionOfTable
        else (identifierNames.findSome? (matchIdentifier left right)).map fun _ => .sharedIdentifier
      else none := by
  have hwords : Prod.fst ∘ (fun reason : String => (NamePattern.sharedIdentifier, reason))
      = fun _ => .sharedIdentifier :=
    rfl
  rw [matchColumns]
  simp only [ite_or]
  simp only [Place.IsNumberFor, Place.IsMentionedIn, apply_ite (Option.map Prod.fst), Option.map_some, Option.map_none,
    Option.map_map, hwords, Bool.and_eq_true, decide_eq_true_eq, Bool.not_eq_true']
  cases areCompatible left.column.type right.column.type with
  | true =>
    rw [if_neg (by decide), if_pos rfl]
    rfl
  | false => rw [if_pos rfl, if_neg (by decide)]

theorem sharedIdentifier_comm :
    (identifierNames.findSome? (matchIdentifier left right)).map (fun _ => NamePattern.sharedIdentifier)
      = (identifierNames.findSome? (matchIdentifier right left)).map fun _ => .sharedIdentifier := by
  have hisSome : (identifierNames.findSome? (matchIdentifier left right)).isSome
      = (identifierNames.findSome? (matchIdentifier right left)).isSome := by
    have hname : ∀ name, (matchIdentifier left right name).isSome = (matchIdentifier right left name).isSome := by
      intro name
      rw [Bool.eq_iff_iff, isSome_matchIdentifier, isSome_matchIdentifier]
      exact or_congr and_comm or_comm
    rw [List.isSome_findSome?, List.isSome_findSome?]
    simp only [hname]
  revert hisSome
  cases identifierNames.findSome? (matchIdentifier left right) <;>
    cases identifierNames.findSome? (matchIdentifier right left) <;> simp

/-- It is the same pattern from both sides. -/
theorem map_fst_matchColumns_comm :
    (matchColumns left right).map Prod.fst = (matchColumns right left).map Prod.fst := by
  rw [map_fst_matchColumns, map_fst_matchColumns, areCompatible_comm, sharedIdentifier_comm]
  have hreference : left.lowerName.endsWith "_id" = true ∧ left.lowerName = right.lowerName
      ↔ right.lowerName.endsWith "_id" = true ∧ right.lowerName = left.lowerName :=
    ⟨fun ⟨hends, hsame⟩ => ⟨hsame ▸ hends, hsame.symm⟩, fun ⟨hends, hsame⟩ => ⟨hsame ▸ hends, hsame.symm⟩⟩
  have hname : left.lowerName = right.lowerName ∧ genericNames.contains left.lowerName = false
      ↔ right.lowerName = left.lowerName ∧ genericNames.contains right.lowerName = false :=
    ⟨fun ⟨hsame, htelling⟩ => ⟨hsame.symm, hsame ▸ htelling⟩, fun ⟨hsame, htelling⟩ => ⟨hsame.symm, hsame ▸ htelling⟩⟩
  refine if_congr Iff.rfl (if_congr or_comm rfl ?_) rfl
  exact if_congr hreference rfl (if_congr hname rfl (if_congr or_comm rfl rfl))

end QueryFederation.Discovery

/-! ### Tables in another order -/

namespace QueryFederation.Discovery

variable {tables tables' : List TableSchema} {p : Sym2 ColumnRef}

namespace Candidate

/-- What a candidate says: of which columns, whichever is on the left, how sure one is, and by which evidence. -/
def claim (c : Candidate) : Sym2 ColumnRef × Standing := (c.pair, c.standing)

end Candidate

/-! ### What is offered -/

theorem declaredCandidates_perm (h : tables.Perm tables') :
    (declaredCandidates tables).Perm (declaredCandidates tables') :=
  h.flatMap fun _ _ => List.Perm.flatMap_left _ fun _ _ => (h.filter _).map _

theorem claim_namingCandidate? (left right : Place) :
    (namingCandidate? left right).map Candidate.claim = (namingCandidate? right left).map Candidate.claim := by
  have hclaim : ∀ left right : Place, (namingCandidate? left right).map Candidate.claim
      = ((matchColumns left right).map Prod.fst).map fun pattern =>
        (s(⟨left.table.aliasName, left.column.name⟩, ⟨right.table.aliasName, right.column.name⟩),
          ⟨ofHundredths pattern.hundredths, .naming pattern⟩) := by
    intro left right
    rw [namingCandidate?, Option.map_map, Option.map_map]
    rfl
  rw [hclaim, hclaim, map_fst_matchColumns_comm, Sym2.eq_swap]

/-- Of two loops over two lists, either can be the outer one. -/
theorem flatMap_flatMap_perm {α β γ : Type} (xs : List α) (ys : List β) (f : α → β → List γ) :
    (xs.flatMap fun x => ys.flatMap (f x)).Perm (ys.flatMap fun y => xs.flatMap fun x => f x y) := by
  induction xs with
  | nil => simp
  | cons x xs ih =>
    simp only [List.flatMap_cons]
    exact (ih.append_left _).trans (List.flatMap_append_perm ys (f x) fun y => xs.flatMap fun x => f x y)

/-- The same is claimed between two tables, whichever comes first. -/
theorem candidatesBetween_perm (t u : TableSchema) :
    ((candidatesBetween t u).map Candidate.claim).Perm ((candidatesBetween u t).map Candidate.claim) := by
  have hclaims : ∀ t u : TableSchema, (candidatesBetween t u).map Candidate.claim
      = t.columns.flatMap fun l => u.columns.flatMap fun r =>
        ((namingCandidate? ⟨t, l⟩ ⟨u, r⟩).map Candidate.claim).toList := by
    intro t u
    rw [candidatesBetween, List.map_flatMap]
    refine List.flatMap_congr fun l _ => ?_
    rw [List.map_filterMap, List.filterMap_eq_flatMap_toList]
  rw [hclaims, hclaims]
  refine (flatMap_flatMap_perm _ _ _).trans (List.Perm.of_eq ?_)
  simp only [claim_namingCandidate? ⟨t, _⟩]

theorem namingCandidates_perm (h : tables.Perm tables') :
    ((namingCandidates tables).map Candidate.claim).Perm ((namingCandidates tables').map Candidate.claim) := by
  induction h with
  | nil => exact List.Perm.refl _
  | cons t h ih =>
    rw [namingCandidates, namingCandidates, List.map_append, List.map_append]
    exact ((h.flatMap_right _).map _).append ih
  | swap t u others =>
    simp only [namingCandidates, List.flatMap_cons, List.map_append, List.append_assoc]
    exact (candidatesBetween_perm u t).append (List.perm_append_comm_assoc _ _ _)
  | trans h h' ih ih' => exact ih.trans ih'

theorem offered_perm (h : tables.Perm tables') :
    ((offered tables).map Candidate.claim).Perm ((offered tables').map Candidate.claim) := by
  rw [offered, offered, List.map_append, List.map_append]
  exact ((declaredCandidates_perm h).map _).append (namingCandidates_perm h)

/-! ### The surest claim -/

namespace Standing

/-- Is it the standing of a declared key, or of a pattern of names? -/
def IsOffered (s : Standing) : Prop := s = declared ∨ ∃ pattern, s = ⟨ofHundredths pattern.hundredths, .naming pattern⟩

variable {s t : Standing}

theorem IsOffered.isRated (h : s.IsOffered) : s.IsRated := by
  obtain rfl | ⟨pattern, rfl⟩ := h
  · rfl
  · exact Evidence.allows_pattern pattern

theorem IsOffered.ne_nan (h : s.IsOffered) : s.confidence ≠ .nan := Evidence.Allows.ne_nan h.isRated

/-- Different patterns of names tell different numbers of hundredths. -/
theorem hundredths_injective : Function.Injective NamePattern.hundredths := by
  intro pattern pattern' h
  cases pattern <;> cases pattern' <;> first | rfl | cases h

/-- Of two different standings that are offered one is surer. -/
theorem IsOffered.eq_of_place_eq (hs : s.IsOffered) (ht : t.IsOffered) (h : s.confidence.place = t.confidence.place) :
    s = t := by
  obtain rfl | ⟨pattern, rfl⟩ := hs
  · obtain rfl | ⟨pattern, rfl⟩ := ht
    · rfl
    · exact absurd h (Evidence.Allows.place_lt (e := .declared) rfl (Evidence.allows_pattern pattern) Nat.zero_lt_one).ne'
  · obtain rfl | ⟨pattern', rfl⟩ := ht
    · exact absurd h (Evidence.Allows.place_lt (e := .declared) rfl (Evidence.allows_pattern pattern) Nat.zero_lt_one).ne
    · have hrange : ∀ pattern : NamePattern, 0 < pattern.hundredths ∧ pattern.hundredths ≤ 100 := by
        intro pattern
        cases pattern <;> decide
      rcases lt_trichotomy pattern.hundredths pattern'.hundredths with hlt | heq | hlt
      · exact absurd h (place_ofHundredths_lt (hrange pattern).1 hlt (hrange pattern').2).ne
      · rw [hundredths_injective heq]
      · exact absurd h (place_ofHundredths_lt (hrange pattern').1 hlt (hrange pattern).2).ne'

theorem stronger_some (s best : Standing) :
    s.stronger (some best) = some (if best.confidence.lt s.confidence then s else best) :=
  rfl

/-- What does not take the place of a standing does not take the place of a surer one. -/
theorem stronger_of_not_lt {best : Standing} (hs : s.IsOffered) (ht : t.IsOffered)
    (hlt : best.confidence.lt s.confidence = true) (hnot : ¬best.confidence.lt t.confidence = true) :
    t.stronger (some s) = some s := by
  have hbest : best.confidence ≠ .nan := by
    intro hnan
    rw [hnan] at hlt
    cases hlt
  have hplaces : ¬s.confidence.place < t.confidence.place := fun hst =>
    hnot ((Double.lt_iff hbest ht.ne_nan).mpr
      (((Double.lt_iff hbest hs.ne_nan).mp hlt).trans hst))
  rw [stronger_some, if_neg]
  exact (Double.lt_iff hs.ne_nan ht.ne_nan).not.mpr hplaces

/-- Of two standings the surer one is left, whichever is offered first. -/
theorem stronger_some_comm (hs : s.IsOffered) (ht : t.IsOffered) : t.stronger (some s) = s.stronger (some t) := by
  have hst := Double.lt_iff hs.ne_nan ht.ne_nan
  have hts := Double.lt_iff ht.ne_nan hs.ne_nan
  rw [stronger_some, stronger_some]
  rcases lt_trichotomy s.confidence.place t.confidence.place with h | h | h
  · rw [if_pos (hst.mpr h), if_neg (hts.not.mpr h.not_gt)]
  · rw [hs.eq_of_place_eq ht h]
  · rw [if_neg (hst.not.mpr h.not_gt), if_pos (hts.mpr h)]

/-- It is the same standing in the end, whichever of two is offered first. -/
theorem stronger_comm (hs : s.IsOffered) (ht : t.IsOffered) (best : Option Standing) :
    t.stronger (s.stronger best) = s.stronger (t.stronger best) := by
  cases best with
  | none => exact stronger_some_comm hs ht
  | some best =>
    rw [stronger_some s best, stronger_some t best]
    by_cases hbs : best.confidence.lt s.confidence = true
    · by_cases hbt : best.confidence.lt t.confidence = true
      · rw [if_pos hbs, if_pos hbt, stronger_some_comm hs ht]
      · rw [if_pos hbs, if_neg hbt, stronger_of_not_lt hs ht hbs hbt, stronger_some, if_pos hbs]
    · by_cases hbt : best.confidence.lt t.confidence = true
      · rw [if_neg hbs, if_pos hbt, stronger_of_not_lt ht hs hbt hbs, stronger_some, if_pos hbt]
      · rw [if_neg hbs, if_neg hbt, stronger_some, stronger_some, if_neg hbs, if_neg hbt]

end Standing

/-- The standing of a pair once there is the claim, be it of this pair or of another. -/
def raiseBy (p : Sym2 ColumnRef) (best : Option Standing) (claim : Sym2 ColumnRef × Standing) : Option Standing :=
  if claim.1 = p then claim.2.stronger best else best

theorem foldl_raise (items : List Candidate) (best : Option Standing) :
    items.foldl (Candidate.raise p) best = (items.map Candidate.claim).foldl (raiseBy p) best := by
  rw [List.foldl_map]
  rfl

theorem isOffered_of_mem_offered {c : Candidate} (h : c ∈ offered tables) : c.standing.IsOffered := by
  rcases List.mem_append.mp h with h | h
  · exact .inl (standing_of_mem_declaredCandidates h)
  · exact .inr (standing_of_mem_namingCandidates h)

/-- What is offered for a pair leaves it with the same standing, whatever the order of the tables is. -/
theorem foldl_raise_offered (h : tables.Perm tables') :
    (offered tables).foldl (Candidate.raise p) none = (offered tables').foldl (Candidate.raise p) none := by
  rw [foldl_raise, foldl_raise]
  refine (offered_perm h).foldl_eq' (fun x hx y hy best => ?_) none
  obtain ⟨c, hc, rfl⟩ := List.mem_map.mp hx
  obtain ⟨d, hd, rfl⟩ := List.mem_map.mp hy
  rw [raiseBy, raiseBy, raiseBy, raiseBy]
  split_ifs
  · exact Standing.stronger_comm (isOffered_of_mem_offered hc) (isOffered_of_mem_offered hd) best
  all_goals rfl

/-! ### Hints -/

theorem isApplicable_perm (h : tables.Perm tables') (hnodup : (tables.map (·.aliasName)).Nodup) :
    isApplicable tables = isApplicable tables' := by
  have hfind : ∀ name, tables.reverse.find? (fun t => t.aliasName = name)
      = tables'.reverse.find? fun t => t.aliasName = name := by
    intro name
    have hreverse : (tables.reverse.map (·.aliasName)).Nodup :=
      ((List.reverse_perm tables).map (·.aliasName)).nodup_iff.mpr hnodup
    have hreverse' : (tables'.reverse.map (·.aliasName)).Nodup :=
      (((List.reverse_perm tables').trans h.symm).map (·.aliasName)).nodup_iff.mpr hnodup
    refine Option.ext fun t => ?_
    rw [find?_eq_some_iff_of_nodup hreverse, find?_eq_some_iff_of_nodup hreverse', List.mem_reverse, List.mem_reverse,
      h.mem_iff]
  funext hint
  simp only [isApplicable, hfind]

/-! ### Suggestions -/

theorem standing?_candidates_perm (h : tables.Perm tables') (hnodup : (tables.map (·.aliasName)).Nodup)
    (hints : List Hint) : standing? (candidates tables hints) p = standing? (candidates tables' hints) p := by
  rw [standing?_candidates, standing?_candidates, foldl_raise_offered h, isApplicable_perm h hnodup]

theorem mem_map_claim_suggest {tables : List TableSchema} {hints : List Hint} {threshold : Double}
    {claim : Sym2 ColumnRef × Standing} : claim ∈ (suggest tables hints threshold).map Candidate.claim
      ↔ standing? (candidates tables hints) claim.1 = some claim.2 ∧ threshold.le claim.2.confidence = true := by
  rw [standing?_eq_some_iff (areDistinct_candidates tables hints), List.mem_map]
  constructor
  · rintro ⟨c, hc, rfl⟩
    obtain ⟨hmem, hthreshold⟩ := mem_suggest.mp hc
    exact ⟨⟨c, hmem, rfl, rfl⟩, hthreshold⟩
  · rintro ⟨⟨c, hmem, hpair, hstanding⟩, hthreshold⟩
    obtain ⟨pair, standing⟩ := claim
    obtain rfl : c.pair = pair := hpair
    obtain rfl : c.standing = standing := hstanding
    exact ⟨c, mem_suggest.mpr ⟨hmem, hthreshold⟩, rfl⟩

theorem nodup_map_claim_suggest {tables : List TableSchema} {hints : List Hint} {threshold : Double} :
    ((suggest tables hints threshold).map Candidate.claim).Nodup := by
  have hpairs : (((suggest tables hints threshold).map Candidate.claim).map Prod.fst).Nodup := by
    rw [List.map_map]
    exact areDistinct_suggest
  exact hpairs.of_map

/--
Whatever the order of the tables is, the same pairs of columns are suggested, each as sure as in the other order and by
the same evidence.
-/
theorem suggest_perm (h : tables.Perm tables') (hnodup : (tables.map (·.aliasName)).Nodup) (hints : List Hint)
    (threshold : Double) : ((suggest tables hints threshold).map Candidate.claim).Perm
      ((suggest tables' hints threshold).map Candidate.claim) := by
  refine (List.perm_ext_iff_of_nodup nodup_map_claim_suggest nodup_map_claim_suggest).mpr fun claim => ?_
  rw [mem_map_claim_suggest, mem_map_claim_suggest, standing?_candidates_perm h hnodup]

/-- With the buyers before their orders the key of the orders and the hint are suggested too. -/
theorem suggest_buyersBeforeOrders : ordersOfBuyers.Perm ordersOfBuyers.reverse
    ∧ (ordersOfBuyers.map (·.aliasName)).Nodup
    ∧ ((suggest ordersOfBuyers.reverse [equalNumbers] defaultThreshold).map Candidate.claim).Perm
      [(s(⟨"orders", "buyer"⟩, ⟨"buyers", "id"⟩), .declared),
        (s(⟨"orders", "id"⟩, ⟨"buyers", "id"⟩), ⟨ofHundredths 45, .hint⟩)] := by
  have hperm : ordersOfBuyers.Perm ordersOfBuyers.reverse := (List.reverse_perm _).symm
  have hnodup : (ordersOfBuyers.map (·.aliasName)).Nodup := by simp [ordersOfBuyers]
  refine ⟨hperm, hnodup, (suggest_perm hperm hnodup [equalNumbers] defaultThreshold).symm.trans (List.Perm.of_eq ?_)⟩
  rw [suggest, List.mergeSort_of_pairwise (by decide +kernel)]
  decide +kernel

end QueryFederation.Discovery

import QueryFederation.Proofs.Result.Grouping

/-!
# Groups by places

Two rows are in one group if they agree in all columns that are grouped by, and a row is in one group with itself even
if it has a number there that is not the same as itself. This divides the places of rows into classes. Groups come in
the order of their first rows, and in a group are the rows that go with the first, in their order; so none is lost or
there twice.
-/

namespace QueryFederation

namespace Groups

variable {κ α : Type} {same : κ → κ → Bool}

/-- The first key has all items with equal keys, and the others are grouped without them. -/
theorem ofPairs_cons (key : κ) (item : α) (pairs : List (κ × α)) : ofPairs same ((key, item) :: pairs)
    = (key, item :: (pairs.filter fun p => same key p.1).map (·.2))
      :: ofPairs same (pairs.filter fun p => !same key p.1) := by
  have hfold : ∀ (items : List α) (rest : Groups κ α),
      pairs.foldl (fun groups p => add same p.1 p.2 groups) ((key, items) :: rest)
        = (key, items ++ (pairs.filter fun p => same key p.1).map (·.2))
          :: (pairs.filter fun p => !same key p.1).foldl (fun groups p => add same p.1 p.2 groups) rest := by
    induction pairs with
    | nil => exact fun items rest => by simp
    | cons p pairs ih =>
      intro items rest
      obtain ⟨k, a⟩ := p
      cases hsame : same key k with
      | true => simp [add, hsame, ih]
      | false => simp [add, hsame, ih]
  exact hfold [item] []

/-- Grouping keeps all items, each once. -/
theorem flatten_ofPairs_perm (pairs : List (κ × α)) :
    ((ofPairs same pairs).map (·.2)).flatten.Perm (pairs.map (·.2)) := by
  -- The recursion is that of `ofPairs_cons`, so by the number of pairs.
  induction hlength : pairs.length using Nat.strong_induction_on generalizing pairs with
  | _ n ih =>
    cases pairs with
    | nil => exact .refl _
    | cons p pairs =>
      obtain ⟨key, item⟩ := p
      have hothers : (pairs.filter fun p => !same key p.1).length < n :=
        hlength ▸ Nat.lt_succ_of_le (List.length_filter_le _ _)
      have hsplit := (List.filter_append_perm (fun p => same key p.1) pairs).map (·.2)
      rw [List.map_append] at hsplit
      rw [ofPairs_cons, List.map_cons, List.flatten_cons, List.cons_append, List.map_cons]
      exact (((ih _ hothers _ rfl).append_left _).trans hsplit).cons item

/-- Of two groups, the key of the first does not go with that of the second. -/
theorem pairwise_ofPairs (pairs : List (κ × α)) :
    (ofPairs same pairs).Pairwise fun group other => same group.1 other.1 = false := by
  induction hlength : pairs.length using Nat.strong_induction_on generalizing pairs with
  | _ n ih =>
    cases pairs with
    | nil => exact .nil
    | cons p pairs =>
      obtain ⟨key, item⟩ := p
      have hothers : (pairs.filter fun p => !same key p.1).length < n :=
        hlength ▸ Nat.lt_succ_of_le (List.length_filter_le _ _)
      have hapart : ∀ p ∈ pairs.filter fun p => !same key p.1, same key p.1 = false :=
        fun p hp => Bool.not_eq_true' _ ▸ (List.mem_filter.mp hp).2
      rw [ofPairs_cons]
      refine .cons (fun group hgroup => ?_) (ih _ hothers _ rfl)
      obtain ⟨_, _, -, hkey⟩ := exists_first_ofPairs (Q := fun k _ => same key k = false) hapart group hgroup
      exact hkey

section

variable {same : Nat → Nat → Bool} {first : Nat} {places : List Nat}

/-- Behind the first place, those lead a group that do so without the first group and are not in it. -/
theorem leads_cons_iff (htrans : ∀ i j k, same i j = true → same j k = true → same i k = true) {i : Nat}
    (hlt : first < i) : (∀ j ∈ first :: places, j < i → same j i = false)
      ↔ (∀ j ∈ places.filter (fun j => !same first j), j < i → same j i = false) ∧ (!same first i) = true := by
  simp only [List.forall_mem_cons, List.mem_filter, Bool.not_eq_true']
  constructor
  · exact fun h => ⟨fun j hj => h.2 j hj.1, h.1 hlt⟩
  · refine fun h => ⟨fun _ => h.2, fun j hj hji => ?_⟩
    cases hsame : same first j with
    | false => exact h.1 j ⟨hj, hsame⟩ hji
    | true => exact Bool.eq_false_iff.mpr fun hnext => Bool.eq_false_iff.mp h.2 (htrans _ _ _ hsame hnext)

/-- Their groups have nothing of the first group. -/
theorem members_cons (hcomm : ∀ i j, same i j = same j i)
    (htrans : ∀ i j k, same i j = true → same j k = true → same i k = true) {i : Nat} (hne : i ≠ first)
    (hout : same first i = false) : (first :: places).filter (fun j => i = j ∨ same i j = true)
      = (places.filter fun j => !same first j).filter fun j => i = j ∨ same i j = true := by
  have hfirst : ¬(i = first ∨ same i first = true) := by
    rw [hcomm, hout]
    exact not_or.mpr ⟨hne, Bool.false_ne_true⟩
  have hapart : ∀ j, i = j ∨ same i j = true → (!same first j) = true := by
    rintro j (rfl | hsame)
    · rw [hout, Bool.not_false]
    · rw [Bool.not_eq_true', Bool.eq_false_iff]
      exact fun hin => Bool.eq_false_iff.mp hout (htrans _ _ _ hin (hcomm i j ▸ hsame))
  rw [List.filter_cons_of_neg (by simpa using hfirst), List.filter_filter]
  refine List.filter_congr fun j _ => ?_
  rw [Bool.eq_iff_iff, Bool.and_eq_true, decide_eq_true_iff, iff_self_and]
  exact hapart j

/-- Places are grouped with the first one that is not told apart from them. -/
theorem items_ofPairs (hcomm : ∀ i j, same i j = same j i)
    (htrans : ∀ i j k, same i j = true → same j k = true → same i k = true) (hsorted : places.Pairwise (· < ·)) :
    (ofPairs same (places.map fun i => (i, i))).map (·.2)
      = (places.filter fun i => ∀ j ∈ places, j < i → same j i = false).map fun i =>
        places.filter fun j => i = j ∨ same i j = true := by
  induction hlength : places.length using Nat.strong_induction_on generalizing places with
  | _ n ih =>
    cases places with
    | nil => rfl
    | cons first places =>
      obtain ⟨hfirst, hplaces⟩ := List.pairwise_cons.mp hsorted
      have hothers : (places.filter fun j => !same first j).length < n :=
        hlength ▸ Nat.lt_succ_of_le (List.length_filter_le _ _)
      have hlead : ∀ j ∈ first :: places, j < first → same j first = false := by
        refine List.forall_mem_cons.mpr ⟨fun hlt => absurd hlt (lt_irrefl _), fun j hj hlt => ?_⟩
        exact absurd hlt (lt_asymm (hfirst j hj))
      have hleads : (first :: places).filter (fun i => ∀ j ∈ first :: places, j < i → same j i = false)
          = first :: (places.filter fun j => !same first j).filter fun i =>
            ∀ j ∈ places.filter (fun j => !same first j), j < i → same j i = false := by
        rw [List.filter_cons_of_pos (by exact decide_eq_true hlead), List.filter_filter]
        refine congrArg _ (List.filter_congr fun i hi => ?_)
        rw [Bool.eq_iff_iff, Bool.and_eq_true, decide_eq_true_iff, decide_eq_true_iff]
        exact leads_cons_iff htrans (hfirst i hi)
      have hown : (first :: places).filter (fun j => first = j ∨ same first j = true)
          = first :: places.filter (same first) := by
        rw [List.filter_cons_of_pos (by simp)]
        refine congrArg _ (List.filter_congr fun j hj => ?_)
        simp [(hfirst j hj).ne]
      rw [List.map_cons, ofPairs_cons, List.map_cons, List.filter_map, List.filter_map, List.map_map, hleads,
        List.map_cons, hown]
      refine congrArg₂ _ ?_ ((ih _ hothers (hplaces.filter _) rfl).trans (List.map_congr_left fun i hi => ?_))
      · exact congrArg _ (List.map_id _)
      · obtain ⟨hmem, hout⟩ := List.mem_filter.mp (List.mem_filter.mp hi).1
        exact (members_cons hcomm htrans (hfirst i hmem).ne' ((Bool.not_eq_true' _).mp hout)).symm

end

end Groups

/-! ### Rows -/

theorem Row.Agree.trans {name : String} {a b c : Row} (hab : Row.Agree name a b) (hbc : Row.Agree name b c) :
    Row.Agree name a c :=
  GroupKey.same_of_same (GroupKey.isPlain_ofValue _) (GroupKey.isPlain_ofValue _) (GroupKey.isPlain_ofValue _)
    (symm_of (Row.Agree name) hab) hbc

section

variable {names : List String} {rows : List Row} {i j k : Nat}

/-- Does no column tell the rows at two places apart? -/
def AgreeAt (names : List String) (rows : List Row) (i j : Nat) : Prop :=
  ∀ name ∈ names, Row.Agree name (rows.getD i []) (rows.getD j [])

instance : Decidable (AgreeAt names rows i j) := inferInstanceAs (Decidable (∀ name ∈ names, Row.Agree name _ _))

/-- Are the rows at two places in one group? Every row is with itself. -/
def Together (names : List String) (rows : List Row) (i j : Nat) : Prop := i = j ∨ AgreeAt names rows i j

instance : Decidable (Together names rows i j) := inferInstanceAs (Decidable (_ ∨ _))

/-- The places of the rows that are in no group with an earlier row. -/
def firstPlaces (names : List String) (rows : List Row) : List Nat :=
  (List.range rows.length).filter fun i => ∀ j < i, ¬Together names rows j i

/-- The rows that are in one group with the row at a place, in their order. -/
def membersAt (names : List String) (rows : List Row) (i : Nat) : List Row :=
  ((List.range rows.length).filter fun j => Together names rows i j).map fun j => rows.getD j []

theorem AgreeAt.symm (h : AgreeAt names rows i j) : AgreeAt names rows j i :=
  fun name hname => symm_of (Row.Agree name) (h name hname)

theorem AgreeAt.trans (hij : AgreeAt names rows i j) (hjk : AgreeAt names rows j k) : AgreeAt names rows i k :=
  fun name hname => (hij name hname).trans (hjk name hname)

theorem Together.symm (h : Together names rows i j) : Together names rows j i := h.imp Eq.symm AgreeAt.symm

theorem Together.trans (hij : Together names rows i j) (hjk : Together names rows j k) : Together names rows i k := by
  obtain rfl | hij := hij
  · exact hjk
  · obtain rfl | hjk := hjk
    · exact Or.inr hij
    · exact Or.inr (hij.trans hjk)

/-- Every row is in one group with exactly one first row. -/
theorem existsUnique_firstPlace (hi : i < rows.length) :
    ∃! first, first ∈ firstPlaces names rows ∧ Together names rows first i := by
  have hmem : ∀ {j}, j ∈ firstPlaces names rows ↔ j < rows.length ∧ ∀ k < j, ¬Together names rows k j := by
    intro j
    rw [firstPlaces, List.mem_filter, List.mem_range, decide_eq_true_iff]
  have hsome : ∃ first, Together names rows first i := ⟨i, Or.inl rfl⟩
  refine ⟨Nat.find hsome, ⟨hmem.mpr ⟨?_, fun k hk hkfirst => ?_⟩, Nat.find_spec hsome⟩, ?_⟩
  · exact (Nat.find_min' hsome (Or.inl rfl)).trans_lt hi
  · exact Nat.find_min hsome hk (hkfirst.trans (Nat.find_spec hsome))
  · rintro first ⟨hfirst, htogether⟩
    refine (Nat.find_min' hsome htogether).antisymm' (not_lt.mp fun hlt => ?_)
    exact (hmem.mp hfirst).2 _ hlt ((Nat.find_spec hsome).trans htogether.symm)

theorem map_getD_range (rows : List Row) : ((List.range rows.length).map fun i => rows.getD i []) = rows := by
  refine List.ext_getElem (by simp) fun i _ hi => ?_
  simp [hi]

/-- Grouping the rows does the same as grouping their places. -/
theorem forall₂_groups : List.Forall₂ (fun g g' => g'.1 = GroupKey.ofRow names (rows.getD g.1 [])
      ∧ List.Forall₂ (fun i row => rows.getD i [] = row) g.2 g'.2)
    (Groups.ofPairs (fun i j => decide (AgreeAt names rows i j)) ((List.range rows.length).map fun i => (i, i)))
    (Groups.ofPairs GroupKey.sameList (rows.map fun row => (GroupKey.ofRow names row, row))) := by
  have hpairs : List.Forall₂ (fun p p' => p'.1 = GroupKey.ofRow names (rows.getD p.1 []) ∧ rows.getD p.2 [] = p'.2)
      ((List.range rows.length).map fun i => (i, i)) (rows.map fun row => (GroupKey.ofRow names row, row)) := by
    conv => rhs; rw [← map_getD_range rows]
    rw [List.map_map, List.forall₂_map_left_iff, List.forall₂_map_right_iff]
    exact List.forall₂_same.mpr fun i _ => ⟨rfl, rfl⟩
  refine Groups.forall₂_ofPairs (K := fun i key => key = GroupKey.ofRow names (rows.getD i []))
    (I := fun i row => rows.getD i [] = row) (fun i j key key' hkey hkey' => ?_) hpairs
  rw [hkey, hkey', GroupKey.sameList_ofRow, Bool.eq_iff_iff, decide_eq_true_iff, List.all_eq_true]
  exact Iff.rfl

theorem items_ofPairs_rows :
    (Groups.ofPairs GroupKey.sameList (rows.map fun row => (GroupKey.ofRow names row, row))).map (·.2)
      = ((Groups.ofPairs (fun i j => decide (AgreeAt names rows i j))
        ((List.range rows.length).map fun i => (i, i))).map (·.2)).map (List.map fun i => rows.getD i []) := by
  rw [List.map_map, eq_comm, ← List.forall₂_eq_eq_eq, List.forall₂_map_left_iff, List.forall₂_map_right_iff]
  refine forall₂_groups.imp fun g g' hitems => ?_
  rw [← List.forall₂_eq_eq_eq]
  exact List.forall₂_map_left_iff.mpr hitems.2

/-- The first places are those that no earlier one agrees with. -/
theorem firstPlaces_eq : firstPlaces names rows = (List.range rows.length).filter fun i =>
    ∀ j ∈ List.range rows.length, j < i → decide (AgreeAt names rows j i) = false := by
  refine List.filter_congr fun i hi => decide_eq_decide.mpr (forall_congr' fun j => ?_)
  simp only [List.mem_range, decide_eq_false_iff_not, Together, not_or]
  constructor
  · exact fun hapart _ hlt => (hapart hlt).2
  · exact fun hapart hlt => ⟨hlt.ne, hapart (hlt.trans (List.mem_range.mp hi)) hlt⟩

theorem groupRows_of_ne_nil (h : names ≠ []) : groupRows names rows
    = (Groups.ofPairs GroupKey.sameList (rows.map fun row => (GroupKey.ofRow names row, row))).map (·.2) := by
  rw [groupRows, List.isEmpty_eq_false_iff.mpr h, Bool.false_and, if_neg Bool.false_ne_true]

/-- The groups of rows are those of the first places, in their order. -/
theorem groupRows_eq (h : names ≠ []) : groupRows names rows = (firstPlaces names rows).map (membersAt names rows) := by
  have hcomm : ∀ i j, decide (AgreeAt names rows i j) = decide (AgreeAt names rows j i) :=
    fun i j => decide_eq_decide.mpr ⟨AgreeAt.symm, AgreeAt.symm⟩
  have htrans : ∀ i j k, decide (AgreeAt names rows i j) = true → decide (AgreeAt names rows j k) = true →
      decide (AgreeAt names rows i k) = true :=
    fun i j k hij hjk => decide_eq_true ((of_decide_eq_true hij).trans (of_decide_eq_true hjk))
  rw [groupRows_of_ne_nil h, items_ofPairs_rows,
    Groups.items_ofPairs hcomm htrans (List.pairwise_lt_range (n := rows.length)), ← firstPlaces_eq, List.map_map]
  simp only [decide_eq_true_iff]
  rfl

/-- Rows that are grouped by no column are one group. -/
theorem groupRows_nil (rows : List Row) : groupRows [] rows = [rows] := by
  cases rows with
  | nil => rfl
  | cons row rows =>
    -- The key of every row is the empty list, so all of them are in the group of the first.
    have hgroups : Groups.ofPairs GroupKey.sameList ((row :: rows).map fun row => (GroupKey.ofRow [] row, row))
        = [([], row :: rows)] := by
      rw [List.map_cons, Groups.ofPairs_cons]
      simp [GroupKey.ofRow, GroupKey.sameList, List.filter_map, Function.comp_def, Groups.ofPairs]
    rw [groupRows, hgroups]
    rfl

theorem membersAt_subset : membersAt names rows i ⊆ rows := by
  intro row hrow
  obtain ⟨j, hj, rfl⟩ := List.mem_map.mp hrow
  have hlt : j < rows.length := List.mem_range.mp (List.mem_filter.mp hj).1
  rw [List.getD_eq_getElem _ _ hlt]
  exact List.getElem_mem hlt

/-- The first member at a first place is the row that is there. -/
theorem headD_membersAt (hi : i ∈ firstPlaces names rows) : (membersAt names rows i).headD [] = rows.getD i [] := by
  obtain ⟨hrange, hfirst⟩ := List.mem_filter.mp hi
  have hfind : (List.range rows.length).find? (fun j => decide (Together names rows i j)) = some i := by
    refine List.find?_range_eq_some.mpr ⟨decide_eq_true (Or.inl rfl), hrange, fun j hj => ?_⟩
    rw [Bool.not_eq_true', decide_eq_false_iff_not]
    exact fun htogether => of_decide_eq_true hfirst j hj htogether.symm
  rw [membersAt, List.headD_eq_head?_getD, List.head?_map, List.head?_filter, hfind]
  rfl

/-- No row is lost or there twice. -/
theorem flatten_groupRows_perm (h : names ≠ []) : (groupRows names rows).flatten.Perm rows := by
  rw [groupRows_of_ne_nil h]
  refine (Groups.flatten_ofPairs_perm _).trans (.of_eq ?_)
  rw [List.map_map]
  exact List.map_id rows

/-- So what is added up for each group adds up to what it is for all rows. -/
theorem sum_groups (h : names ≠ []) {value total : Row → Int} {out : List Row} (hout : List.Forall₂
      (fun i row => total row = ((membersAt names rows i).map value).sum) (firstPlaces names rows) out) :
    (out.map total).sum = (rows.map value).sum := by
  have htotals : out.map total = (groupRows names rows).map fun members => (members.map value).sum := by
    rw [groupRows_eq h, List.map_map, ← List.forall₂_eq_eq_eq, List.forall₂_map_left_iff, List.forall₂_map_right_iff]
    exact hout.flip
  calc (out.map total).sum = (((groupRows names rows).map (List.map value)).map List.sum).sum := by
        rw [htotals, List.map_map]
        rfl
    _ = ((groupRows names rows).flatten.map value).sum := by rw [← List.sum_flatten, ← List.map_flatten]
    _ = (rows.map value).sum := ((flatten_groupRows_perm h).map value).sum_eq

end

end QueryFederation

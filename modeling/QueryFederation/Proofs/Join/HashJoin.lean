import Mathlib
import QueryFederation.Proofs.Join.Buckets
import QueryFederation.Proofs.Join.Clock

/-!
# Hash joins are nested loops

Whichever side goes into the buckets, a hash join that returns has joined the rows as nested loops do. Before it looks
at any pair of rows it compares the kinds of the values in the keys, place by place, and gives up if the two sides have
no kind in common. It then loses nothing: equal keys are of equal kinds, so no two rows would have met.
-/

namespace QueryFederation

open Join

variable {left right : List Row} {pairs : List (String × String)}

/-- Can all rows be looked up in the given columns? -/
def Row.AreHashable (columns : List String) (rows : List Row) : Prop :=
  ∀ row ∈ rows, (KeyedRow.ofRow columns row).IsHashable

theorem Row.areHashable_of_forall {columns : List String} {rows : List Row}
    (h : ∀ row ∈ rows, ∀ column ∈ columns, (Row.get row column).joinKey.isHashable = true) :
    Row.AreHashable columns rows := by
  intro row hrow key hkey
  simp only [KeyedRow.ofRow, Key.ofRow] at hkey
  split at hkey
  · cases hkey
  · cases hkey
    rw [Key.IsHashable, List.all_map, List.all_eq_true]
    exact h row hrow

/-! ### Either side in the buckets -/

section

variable {probe build : List Row} {probeColumns buildColumns : List String} (agree : Row → Row → Bool)

private theorem any_keyed (hagree : ∀ p ∈ probe, ∀ b ∈ build,
      (KeyedRow.ofRow probeColumns p).matched (KeyedRow.ofRow buildColumns b) = agree p b) {p : Row} (hp : p ∈ probe) :
    (build.map (KeyedRow.ofRow buildColumns)).any (KeyedRow.ofRow probeColumns p).matched = build.any (agree p) := by
  rw [List.any_map, Bool.eq_iff_iff, List.any_eq_true, List.any_eq_true]
  exact exists_congr fun b => and_congr_right fun hb => by rw [Function.comp_apply, hagree p hp b hb]

/-- What the rows that look for partners and those in the buckets come to, as far as they agree. -/
theorem rowsOf_perm (hprobe : Row.AreHashable probeColumns probe) (hbuild : Row.AreHashable buildColumns build)
    (hagree : ∀ p ∈ probe, ∀ b ∈ build,
      (KeyedRow.ofRow probeColumns p).matched (KeyedRow.ofRow buildColumns b) = agree p b)
    (keepsProbe keepsBuild : Bool) (pair : Option Row → Option Row → Row) :
    (rowsOf (probe.map (KeyedRow.ofRow probeColumns)) (build.map (KeyedRow.ofRow buildColumns)) keepsProbe keepsBuild
      pair).Perm
      ((probe.flatMap fun p => (build.filter (agree p)).map fun b => pair (some p) (some b))
        ++ (if keepsProbe then (probe.filter fun p => !build.any (agree p)).map fun p => pair (some p) none else [])
        ++ if keepsBuild then (build.filter fun b => !probe.any (agree · b)).map fun b => pair none (some b)
          else []) := by
  rw [rowsOf]
  refine List.Perm.append ((probed_perm (by simpa [Row.AreHashable] using hprobe)
    (by simpa [Row.AreHashable] using hbuild) _).trans (List.Perm.of_eq ?_)) (List.Perm.of_eq ?_)
  · rw [List.flatMap_map]
    congr 1
    · apply List.flatMap_congr
      intro p hp
      rw [List.filter_map, List.map_map]
      exact congrArg _ (List.filter_congr (hagree p hp))
    · rw [List.filter_map, List.map_map]
      congr 2
      exact List.filter_congr fun p hp => congrArg _ (any_keyed agree hagree hp)
  · rw [leftOver]
    congr 1
    rw [List.filter_map, List.map_map]
    congr 1
    apply List.filter_congr
    intro b hb
    rw [Function.comp_apply, List.any_map]
    congr 1
    rw [Bool.eq_iff_iff, List.any_eq_true, List.any_eq_true]
    exact exists_congr fun p => and_congr_right fun hp => by rw [Function.comp_apply, hagree p hp b hb]

end

theorem rowsOf_perm_of_build_right (hleft : Row.AreHashable (pairs.map (·.1)) left)
    (hright : Row.AreHashable (pairs.map (·.2)) right) (kind : JoinKind) (leftColumns rightColumns : List String) :
    (rowsOf (left.map (KeyedRow.ofRow (pairs.map (·.1)))) (right.map (KeyedRow.ofRow (pairs.map (·.2))))
      kind.keepsLeft kind.keepsRight (pair (Row.nulls leftColumns) (Row.nulls rightColumns))).Perm
      (nestedLoop left right pairs kind leftColumns rightColumns) :=
  rowsOf_perm (Row.agree pairs) hleft hright (fun l _ r _ => KeyedRow.matched_ofRow pairs l r) _ _ _

theorem rowsOf_perm_of_build_left (hleft : Row.AreHashable (pairs.map (·.1)) left)
    (hright : Row.AreHashable (pairs.map (·.2)) right) (kind : JoinKind) (leftColumns rightColumns : List String) :
    (rowsOf (right.map (KeyedRow.ofRow (pairs.map (·.2)))) (left.map (KeyedRow.ofRow (pairs.map (·.1))))
      kind.keepsRight kind.keepsLeft fun r l => pair (Row.nulls leftColumns) (Row.nulls rightColumns) l r).Perm
      (nestedLoop left right pairs kind leftColumns rightColumns) := by
  have hagree : ∀ r ∈ right, ∀ l ∈ left, (KeyedRow.ofRow (pairs.map (·.2)) r).matched
      (KeyedRow.ofRow (pairs.map (·.1)) l) = Row.agree pairs l r := by
    intro r hr l hl
    rw [KeyedRow.matched_comm (hright r hr) (hleft l hl), KeyedRow.matched_ofRow]
  refine (rowsOf_perm (fun r l => Row.agree pairs l r) hright hleft hagree _ _ _).trans ?_
  rw [nestedLoop, List.append_assoc, List.append_assoc]
  exact (flatMap_filter_perm_comm _ _ left right).symm.append List.perm_append_comm

/-! ### Kinds of keys -/

/-- The kinds of the values at a place of the keys of those rows that have one. -/
def Row.keyKinds (columns : List String) (place : Nat) (rows : List Row) : List String :=
  (rows.filterMap (Key.ofRow columns)).filterMap fun key => key[place]?.map Value.keyKind

/-- Is there a place of the keys where both sides have values, but none of a common kind? -/
def Row.KindsApart (pairs : List (String × String)) (left right : List Row) : Prop :=
  ∃ place < pairs.length,
    Row.keyKinds (pairs.map (·.1)) place left ≠ [] ∧ Row.keyKinds (pairs.map (·.2)) place right ≠ []
      ∧ (Row.keyKinds (pairs.map (·.1)) place left).Disjoint (Row.keyKinds (pairs.map (·.2)) place right)

theorem mem_kindsAt {columns : List String} {place : Nat} {rows : List Row} {kind : String} :
    kind ∈ kindsAt place (rows.map (KeyedRow.ofRow columns)) ↔ kind ∈ Row.keyKinds columns place rows := by
  simp only [kindsAt, List.mem_mergeSort, List.mem_eraseDups, Row.keyKinds, List.mem_filterMap, List.mem_map]
  constructor
  · rintro ⟨_, ⟨row, hrow, rfl⟩, h⟩
    obtain ⟨key, hkey, hv⟩ := Option.bind_eq_some_iff.mp h
    obtain ⟨v, hplace, hkind⟩ := Option.bind_eq_some_iff.mp hv
    exact ⟨key, ⟨row, hrow, hkey⟩, by rw [hplace]; exact hkind⟩
  · rintro ⟨key, ⟨row, hrow, hkey⟩, h⟩
    obtain ⟨v, hplace, hkind⟩ := Option.map_eq_some_iff.mp h
    refine ⟨_, ⟨row, hrow, rfl⟩, Option.bind_eq_some_iff.mpr ⟨key, hkey, ?_⟩⟩
    exact Option.bind_eq_some_iff.mpr ⟨v, hplace, congrArg some hkind⟩

theorem kindsMeet_eq_false {leftColumns rightColumns : List String} {place : Nat} :
    kindsMeet (kindsAt place (left.map (KeyedRow.ofRow leftColumns)))
        (kindsAt place (right.map (KeyedRow.ofRow rightColumns))) = false
      ↔ Row.keyKinds leftColumns place left ≠ [] ∧ Row.keyKinds rightColumns place right ≠ []
        ∧ (Row.keyKinds leftColumns place left).Disjoint (Row.keyKinds rightColumns place right) := by
  have hnil : ∀ {columns : List String} {rows : List Row},
      kindsAt place (rows.map (KeyedRow.ofRow columns)) = [] ↔ Row.keyKinds columns place rows = [] := by
    intro columns rows
    simp only [List.eq_nil_iff_forall_not_mem, mem_kindsAt]
  rw [kindsMeet, Bool.or_eq_false_iff, Bool.or_eq_false_iff, and_assoc]
  refine and_congr ?_ (and_congr ?_ ?_)
  · rw [List.isEmpty_eq_false_iff, Ne, hnil]
  · rw [List.isEmpty_eq_false_iff, Ne, hnil]
  · simp only [List.any_eq_false, List.contains_iff_mem, mem_kindsAt]
    rfl

/-- The check of kinds passes if no place from the given one on has kinds apart. -/
theorem checkKinds_eq_ok {left right : List KeyedRow} {place : Nat} {pairs : List (String × String)} :
    checkKinds left right place pairs = .ok ()
      ↔ ∀ i < pairs.length, kindsMeet (kindsAt (place + i) left) (kindsAt (place + i) right) = true := by
  induction pairs generalizing place with
  | nil => simp [checkKinds]
  | cons p pairs ih =>
    rw [checkKinds, List.length_cons, Nat.forall_lt_succ_left]
    simp only [Nat.add_zero]
    split
    · rename_i hmeet
      rw [ih]
      simp only [hmeet, true_and]
      refine forall₂_congr fun i _ => ?_
      rw [Nat.add_right_comm, Nat.add_assoc]
    · rename_i hmeet
      simp [hmeet]

theorem exists_of_checkKinds_eq_error {left right : List KeyedRow} {place : Nat} {pairs : List (String × String)}
    {fault : Fault} (h : checkKinds left right place pairs = .error fault) :
    ∃ leftColumn rightColumn leftKinds rightKinds,
      fault = .incompatibleKeys leftColumn rightColumn leftKinds rightKinds := by
  induction pairs generalizing place with
  | nil => cases h
  | cons p pairs ih =>
    rw [checkKinds] at h
    split at h
    · exact ih h
    · cases h
      exact ⟨_, _, _, _, rfl⟩

theorem checkKinds_eq_ok_iff_not_kindsApart :
    checkKinds (left.map (KeyedRow.ofRow (pairs.map (·.1)))) (right.map (KeyedRow.ofRow (pairs.map (·.2)))) 0 pairs
        = .ok () ↔ ¬Row.KindsApart pairs left right := by
  rw [checkKinds_eq_ok, Row.KindsApart]
  push Not
  refine forall₂_congr fun i _ => ?_
  rw [Nat.zero_add, ← Bool.not_eq_false, kindsMeet_eq_false]
  tauto

theorem Key.ofRow_eq_some {columns : List String} {row : Row}
    (h : ∀ column ∈ columns, (Row.get row column).joinKey.isNull = false) :
    Key.ofRow columns row = some (columns.map fun column => (Row.get row column).joinKey) := by
  rw [Key.ofRow, if_neg]
  rw [List.any_map, List.any_eq_true]
  rintro ⟨column, hcolumn, hnull⟩
  exact absurd hnull (by simp [h column hcolumn])

/-- Rows that can be looked up agree or not whichever way round their values are compared. -/
theorem Row.agree_map_eq_all {α : Type} {items : List α} {names : α → String × String} {test : α → Bool} {l r : Row}
    (hl : (KeyedRow.ofRow (items.map fun a => (names a).1) l).IsHashable)
    (hr : (KeyedRow.ofRow (items.map fun a => (names a).2) r).IsHashable)
    (h : ∀ a ∈ items, test a = (Row.get l (names a).1).sameKey (Row.get r (names a).2)
      ∨ test a = (Row.get r (names a).2).sameKey (Row.get l (names a).1)) :
    Row.agree (items.map names) l r = items.all test := by
  rw [Row.agree, List.all_map]
  by_cases hnull : ∃ a ∈ items,
      (Row.get l (names a).1).joinKey.isNull = true ∨ (Row.get r (names a).2).joinKey.isNull = true
  · obtain ⟨a, ha, hnull⟩ := hnull
    have hsame : (Row.get l (names a).1).sameKey (Row.get r (names a).2) = false := by
      rcases hnull with hnull | hnull <;> simp [Value.sameKey, hnull]
    have hsame' : (Row.get r (names a).2).sameKey (Row.get l (names a).1) = false := by
      rcases hnull with hnull | hnull <;> simp [Value.sameKey, hnull]
    rw [List.all_eq_false.mpr ⟨a, ha, by simp [hsame]⟩, List.all_eq_false.mpr ⟨a, ha, ?_⟩]
    rcases h a ha with htest | htest <;> simp [htest, hsame, hsame']
  · push Not at hnull
    have hleft := hl _ (Key.ofRow_eq_some (by simpa using fun a ha => (hnull a ha).1))
    have hright := hr _ (Key.ofRow_eq_some (by simpa using fun a ha => (hnull a ha).2))
    simp only [Key.IsHashable, List.all_map, List.all_eq_true] at hleft hright
    rw [Bool.eq_iff_iff, List.all_eq_true, List.all_eq_true]
    refine forall₂_congr fun a ha => ?_
    have hcomm : (Row.get l (names a).1).sameKey (Row.get r (names a).2)
        = (Row.get r (names a).2).sameKey (Row.get l (names a).1) := by
      rw [Value.sameKey, Value.sameKey, Value.same_comm (hleft a ha) (hright a ha),
        Bool.and_comm (!(Row.get l (names a).1).joinKey.isNull)]
    rcases h a ha with htest | htest
    · rw [htest]
      rfl
    · rw [htest, ← hcomm]
      rfl

theorem Row.mem_keyKinds (columns : List String) {rows : List Row} {row : Row} (hrow : row ∈ rows)
    (h : ∀ column ∈ columns, (Row.get row column).joinKey.isNull = false) {place : Nat} (hplace : place < columns.length) :
    (Row.get row columns[place]).joinKey.keyKind ∈ Row.keyKinds columns place rows := by
  rw [Row.keyKinds, List.mem_filterMap]
  refine ⟨_, List.mem_filterMap.mpr ⟨row, hrow, Key.ofRow_eq_some h⟩, ?_⟩
  simp [hplace]

/-- Where kinds are apart, no row of one side agrees with a row of the other. -/
theorem Row.agree_eq_false_of_kindsApart (h : Row.KindsApart pairs left right) {l r : Row} (hl : l ∈ left)
    (hr : r ∈ right) : Row.agree pairs l r = false := by
  obtain ⟨place, hplace, -, -, hdisjoint⟩ := h
  rw [← Bool.not_eq_true]
  intro hagree
  simp only [Row.agree, List.all_eq_true, Value.sameKey, Bool.and_eq_true, Bool.not_eq_true'] at hagree
  have hleft := Row.mem_keyKinds (pairs.map (·.1)) hl (by simpa using fun p q hp => (hagree (p, q) hp).1.1)
    (show place < (pairs.map (·.1)).length by simpa using hplace)
  have hright := Row.mem_keyKinds (pairs.map (·.2)) hr (by simpa using fun p q hp => (hagree (q, p) hp).1.2)
    (show place < (pairs.map (·.2)).length by simpa using hplace)
  rw [List.getElem_map] at hleft hright
  rw [Value.keyKind_eq_of_same (Value.isKeyForm_joinKey _) (Value.isKeyForm_joinKey _)
    (hagree pairs[place] (List.getElem_mem hplace)).2] at hleft
  exact hdisjoint hleft hright

/-! ### What a hash join returns -/

/-- A hash join with one of its sides in the buckets, be it the smaller one or not. -/
def hashJoinOn (buildsRight : Bool) (left right : List Row) (pairs : List (String × String)) (kind : JoinKind)
    (leftColumns rightColumns : List String) : Timed (List Row) := do
  let leftRows := left.map (KeyedRow.ofRow (pairs.map (·.1)))
  let rightRows := right.map (KeyedRow.ofRow (pairs.map (·.2)))
  Clock.tickEach left
  Clock.tickEach right
  checkKinds leftRows rightRows 0 pairs
  let pair := pair (Row.nulls leftColumns) (Row.nulls rightColumns)
  let runs (probe build : List KeyedRow) (keepsProbe keepsBuild : Bool) (pair : Option Row → Option Row → Row) :
      Timed (List Row) := do
    Clock.visit Key.requireHashable (build.map (·.key))
    Clock.visit Key.requireHashable (probe.map (·.key))
    if keepsBuild then Clock.tickEach build
    return rowsOf probe build keepsProbe keepsBuild pair
  if buildsRight then
    runs leftRows rightRows kind.keepsLeft kind.keepsRight pair
  else
    runs rightRows leftRows kind.keepsRight kind.keepsLeft fun r l => pair l r

/-- The smaller side goes into the buckets. -/
theorem hashJoin_eq_hashJoinOn (left right : List Row) (pairs : List (String × String)) (kind : JoinKind)
    (leftColumns rightColumns : List String) : hashJoin left right pairs kind leftColumns rightColumns
      = hashJoinOn (right.length ≤ left.length) left right pairs kind leftColumns rightColumns := by
  simp only [hashJoin, hashJoinOn, decide_eq_true_eq]

theorem isHashable_of_requireHashable {r : KeyedRow} (h : Key.requireHashable r.key = .ok ()) : r.IsHashable := by
  intro key hkey
  rw [hkey] at h
  by_contra hnot
  simp [Key.requireHashable, show key.all Value.isHashable = false by simpa [Key.IsHashable] using hnot] at h

theorem requireHashable_of_isHashable {r : KeyedRow} (h : r.IsHashable) : Key.requireHashable r.key = .ok () := by
  cases hkey : r.key with
  | none => rfl
  | some key => exact if_pos (h key hkey)

private theorem areHashable_of_visit {columns : List String} {rows : List Row} {clock final : Clock}
    (h : Clock.visit Key.requireHashable ((rows.map (KeyedRow.ofRow columns)).map (·.key)) clock = .ok ((), final)) :
    Row.AreHashable columns rows := by
  intro row hrow
  have hkeys := Clock.forall_of_visit_eq_ok h
  simp only [List.map_map, List.forall_mem_map] at hkeys
  exact isHashable_of_requireHashable (hkeys row hrow)

/-- Ticks before an answer do not change it. -/
private theorem rows_of_tickAfter {condition : Bool} {ticks : Timed Unit} {answer rows : List Row} {clock final : Clock}
    (h : (if condition then ticks >>= fun _ => pure answer else pure answer : Timed (List Row)) clock = .ok (rows, final)) :
    rows = answer := by
  split at h
  · obtain ⟨_, _, -, h⟩ := Timed.bind_eq_ok h
    cases h
    rfl
  · cases h
    rfl

/-- A hash join that returns has looked up all rows, and joined them as nested loops do. -/
theorem hashJoinOn_eq_ok {buildsRight : Bool} {kind : JoinKind} {leftColumns rightColumns : List String}
    {clock final : Clock} {rows : List Row}
    (h : hashJoinOn buildsRight left right pairs kind leftColumns rightColumns clock = .ok (rows, final)) :
    Row.AreHashable (pairs.map (·.1)) left ∧ Row.AreHashable (pairs.map (·.2)) right
      ∧ rows.Perm (nestedLoop left right pairs kind leftColumns rightColumns) := by
  rw [hashJoinOn] at h
  obtain ⟨_, _, -, h⟩ := Timed.bind_eq_ok h
  obtain ⟨_, _, -, h⟩ := Timed.bind_eq_ok h
  obtain ⟨_, _, -, h⟩ := Timed.bind_eq_ok h
  split at h
  all_goals
    obtain ⟨_, _, hbuild, h⟩ := Timed.bind_eq_ok h
    obtain ⟨_, _, hprobe, h⟩ := Timed.bind_eq_ok h
    have hbuild := areHashable_of_visit hbuild
    have hprobe := areHashable_of_visit hprobe
    have hrows := rows_of_tickAfter h
    subst hrows
  · exact ⟨hprobe, hbuild, rowsOf_perm_of_build_right hprobe hbuild kind leftColumns rightColumns⟩
  · exact ⟨hbuild, hprobe, rowsOf_perm_of_build_left hbuild hprobe kind leftColumns rightColumns⟩

theorem hashJoin_eq_ok {kind : JoinKind} {leftColumns rightColumns : List String} {clock final : Clock}
    {rows : List Row} (h : hashJoin left right pairs kind leftColumns rightColumns clock = .ok (rows, final)) :
    Row.AreHashable (pairs.map (·.1)) left ∧ Row.AreHashable (pairs.map (·.2)) right
      ∧ rows.Perm (nestedLoop left right pairs kind leftColumns rightColumns) :=
  hashJoinOn_eq_ok (hashJoin_eq_hashJoinOn .. ▸ h)

private theorem exists_tickAfter {condition : Bool} {α : Type} (items : List α) (answer : List Row) {clock : Clock}
    (hclock : clock.isExpired = false) :
    ∃ final, (if condition then Clock.tickEach items >>= fun _ => pure answer else pure answer : Timed (List Row)) clock
      = .ok (answer, final) ∧ final.isExpired = false := by
  split
  · obtain ⟨final, hticks, hrunning⟩ := Clock.tickEach_of_running hclock items
    exact ⟨final, by rw [Timed.bind_of_ok hticks]; rfl, hrunning⟩
  · exact ⟨clock, rfl, hclock⟩

private theorem exists_visit_of_areHashable {columns : List String} {rows : List Row} {clock : Clock}
    (hclock : clock.isExpired = false) (h : Row.AreHashable columns rows) :
    ∃ next, Clock.visit Key.requireHashable ((rows.map (KeyedRow.ofRow columns)).map (·.key)) clock = .ok ((), next)
      ∧ next.isExpired = false := by
  apply Clock.visit_of_running hclock
  simp only [List.map_map, List.forall_mem_map]
  exact fun row hrow => requireHashable_of_isHashable (h row hrow)

theorem hashJoinOn_of_kindsApart (buildsRight : Bool) (kind : JoinKind) (leftColumns rightColumns : List String)
    (clock : Clock) (hclock : clock.isExpired = false) (h : Row.KindsApart pairs left right) :
    ∃ leftColumn rightColumn leftKinds rightKinds,
      hashJoinOn buildsRight left right pairs kind leftColumns rightColumns clock
        = .error (.incompatibleKeys leftColumn rightColumn leftKinds rightKinds) := by
  obtain ⟨_, hleft, hclock⟩ := Clock.tickEach_of_running hclock left
  obtain ⟨_, hright, hclock⟩ := Clock.tickEach_of_running hclock right
  rw [hashJoinOn, Timed.bind_of_ok hleft, Timed.bind_of_ok hright]
  cases hkinds : checkKinds (left.map (KeyedRow.ofRow (pairs.map (·.1))))
      (right.map (KeyedRow.ofRow (pairs.map (·.2)))) 0 pairs with
  | ok _ => exact absurd h (checkKinds_eq_ok_iff_not_kindsApart.mp hkinds)
  | error fault =>
    obtain ⟨leftColumn, rightColumn, leftKinds, rightKinds, rfl⟩ := exists_of_checkKinds_eq_error hkinds
    exact ⟨leftColumn, rightColumn, leftKinds, rightKinds, Timed.bind_of_error Timed.lift_error⟩

theorem hashJoin_of_kindsApart {kind : JoinKind} {leftColumns rightColumns : List String} (clock : Clock)
    (hclock : clock.isExpired = false) (h : Row.KindsApart pairs left right) :
    ∃ leftColumn rightColumn leftKinds rightKinds, hashJoin left right pairs kind leftColumns rightColumns clock
      = .error (.incompatibleKeys leftColumn rightColumn leftKinds rightKinds) := by
  rw [hashJoin_eq_hashJoinOn]
  exact hashJoinOn_of_kindsApart _ kind leftColumns rightColumns clock hclock h

/-- While the clock runs, a hash join of rows that can be looked up returns, and the clock still runs. -/
theorem hashJoinOn_of_running (buildsRight : Bool) {clock : Clock} (hclock : clock.isExpired = false)
    (hleft : Row.AreHashable (pairs.map (·.1)) left) (hright : Row.AreHashable (pairs.map (·.2)) right)
    (h : ¬Row.KindsApart pairs left right) (kind : JoinKind) (leftColumns rightColumns : List String) :
    ∃ rows final, hashJoinOn buildsRight left right pairs kind leftColumns rightColumns clock = .ok (rows, final)
      ∧ final.isExpired = false := by
  obtain ⟨_, hleftTicks, hclock⟩ := Clock.tickEach_of_running hclock left
  obtain ⟨_, hrightTicks, hclock⟩ := Clock.tickEach_of_running hclock right
  rw [hashJoinOn, Timed.bind_of_ok hleftTicks, Timed.bind_of_ok hrightTicks, checkKinds_eq_ok_iff_not_kindsApart.mpr h,
    Timed.bind_of_ok Timed.lift_ok]
  split
  · obtain ⟨_, hbuild, hclock⟩ := exists_visit_of_areHashable hclock hright
    obtain ⟨_, hprobe, hclock⟩ := exists_visit_of_areHashable hclock hleft
    dsimp only
    rw [Timed.bind_of_ok hbuild, Timed.bind_of_ok hprobe]
    exact ⟨_, exists_tickAfter _ _ hclock⟩
  · obtain ⟨_, hbuild, hclock⟩ := exists_visit_of_areHashable hclock hleft
    obtain ⟨_, hprobe, hclock⟩ := exists_visit_of_areHashable hclock hright
    dsimp only
    rw [Timed.bind_of_ok hbuild, Timed.bind_of_ok hprobe]
    exact ⟨_, exists_tickAfter _ _ hclock⟩

theorem hashJoin_of_running {clock : Clock} (hclock : clock.isExpired = false)
    (hleft : Row.AreHashable (pairs.map (·.1)) left) (hright : Row.AreHashable (pairs.map (·.2)) right)
    (h : ¬Row.KindsApart pairs left right) (kind : JoinKind) (leftColumns rightColumns : List String) :
    ∃ rows final, hashJoin left right pairs kind leftColumns rightColumns clock = .ok (rows, final)
      ∧ final.isExpired = false := by
  rw [hashJoin_eq_hashJoinOn]
  exact hashJoinOn_of_running _ hclock hleft hright h kind leftColumns rightColumns

theorem exists_hashJoin_eq_ok (clock : Clock) (hclock : clock.isExpired = false)
    (hleft : Row.AreHashable (pairs.map (·.1)) left) (hright : Row.AreHashable (pairs.map (·.2)) right)
    (h : ¬Row.KindsApart pairs left right) (kind : JoinKind) (leftColumns rightColumns : List String) :
    ∃ rows final, hashJoin left right pairs kind leftColumns rightColumns clock = .ok (rows, final) := by
  obtain ⟨rows, final, hok, -⟩ := hashJoin_of_running hclock hleft hright h kind leftColumns rightColumns
  exact ⟨rows, final, hok⟩

/--
Rows whose values can be looked up as keys are joined as nested loops join them, whatever the kind of the join and
whichever side goes into the buckets. The join fails exactly if the kinds of the keys are apart at some place, and then
no two rows agree.
-/
theorem hashJoin_refines_nestedLoop (left right : List Row) (pairs : List (String × String)) (kind : JoinKind)
    (leftColumns rightColumns : List String)
    (hleft : ∀ l ∈ left, ∀ p ∈ pairs, (Row.get l p.1).joinKey.isHashable = true)
    (hright : ∀ r ∈ right, ∀ p ∈ pairs, (Row.get r p.2).joinKey.isHashable = true) :
    (∀ rows, (hashJoin left right pairs kind leftColumns rightColumns).answer false = .ok rows →
        rows.Perm (nestedLoop left right pairs kind leftColumns rightColumns))
      ∧ ((∃ leftColumn rightColumn leftKinds rightKinds,
          (hashJoin left right pairs kind leftColumns rightColumns).answer false
            = .error (.incompatibleKeys leftColumn rightColumn leftKinds rightKinds))
        ↔ Row.KindsApart pairs left right)
      ∧ ∀ fault, (hashJoin left right pairs kind leftColumns rightColumns).answer false = .error fault →
          (∃ leftColumn rightColumn leftKinds rightKinds,
            fault = .incompatibleKeys leftColumn rightColumn leftKinds rightKinds)
          ∧ ∀ l ∈ left, ∀ r ∈ right, Row.agree pairs l r = false := by
  have hleft : Row.AreHashable (pairs.map (·.1)) left :=
    Row.areHashable_of_forall fun l hl => by simpa using fun p q hp => hleft l hl (p, q) hp
  have hright : Row.AreHashable (pairs.map (·.2)) right :=
    Row.areHashable_of_forall fun r hr => by simpa using fun p q hp => hright r hr (q, p) hp
  have hapart : ∀ fault, (hashJoin left right pairs kind leftColumns rightColumns).answer false = .error fault →
      Row.KindsApart pairs left right := by
    intro fault hfault
    by_contra hnot
    obtain ⟨rows, final, hok⟩ :=
      exists_hashJoin_eq_ok ⟨false, 0⟩ rfl hleft hright hnot kind leftColumns rightColumns
    rw [Timed.answer_eq_error, hok] at hfault
    cases hfault
  refine ⟨fun rows hrows => ?_, ⟨fun ⟨_, _, _, _, hfault⟩ => hapart _ hfault, fun h => ?_⟩, fun fault hfault => ⟨?_, ?_⟩⟩
  · obtain ⟨final, hok⟩ := Timed.answer_eq_ok.mp hrows
    exact (hashJoin_eq_ok hok).2.2
  · obtain ⟨a, b, as, bs, herror⟩ := hashJoin_of_kindsApart ⟨false, 0⟩ rfl h
    exact ⟨a, b, as, bs, Timed.answer_eq_error.mpr herror⟩
  · obtain ⟨a, b, as, bs, herror⟩ := hashJoin_of_kindsApart ⟨false, 0⟩ rfl (hapart fault hfault)
    rw [Timed.answer_eq_error, herror] at hfault
    cases hfault
    exact ⟨a, b, as, bs, rfl⟩
  · exact fun l hl r hr => Row.agree_eq_false_of_kindsApart (hapart fault hfault) hl hr

/-- A full join in which a truth value meets a number, and a null and two other rows stay alone. -/
theorem fullJoin_of_truth_and_numbers :
    (∀ l ∈ [[("a", Value.integer 1)], [("a", .double (.finite 2))], [("a", .null)]], ∀ p ∈ [("a", "b")],
        (Row.get l p.1).joinKey.isHashable = true)
      ∧ (∀ r ∈ [[("b", Value.boolean true)], [("b", .integer 3)]], ∀ p ∈ [("a", "b")],
        (Row.get r p.2).joinKey.isHashable = true)
      ∧ [[("a", .integer 1), ("b", .boolean true)], [("a", .double (.finite 2)), ("b", .null)],
          [("a", .null), ("b", .null)], [("a", .null), ("b", .integer 3)]].Perm
        (nestedLoop [[("a", .integer 1)], [("a", .double (.finite 2))], [("a", .null)]]
          [[("b", .boolean true)], [("b", .integer 3)]] [("a", "b")] .full ["a"] ["b"]) := by
  have hleft : ∀ l ∈ [[("a", Value.integer 1)], [("a", .double (.finite 2))], [("a", .null)]], ∀ p ∈ [("a", "b")],
      (Row.get l p.1).joinKey.isHashable = true := by decide +kernel
  have hright : ∀ r ∈ [[("b", Value.boolean true)], [("b", .integer 3)]], ∀ p ∈ [("a", "b")],
      (Row.get r p.2).joinKey.isHashable = true := by decide +kernel
  refine ⟨hleft, hright, (hashJoin_refines_nestedLoop _ _ _ _ _ _ hleft hright).1 _ ?_⟩
  cbv

end QueryFederation

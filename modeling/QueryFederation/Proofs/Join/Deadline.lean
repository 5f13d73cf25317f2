import QueryFederation.Proofs.Join.HashJoin

/-!
# Joins after their deadline

Once the deadline has passed, a join goes on until the next look at it. How often a join ticks on its way is known from
the start, if none of its rows stops it: a cross join ticks for every row it comes to, a hash join for the rows of the
two sides, twice, and once more for those in the buckets where they are kept. So after its deadline a cross join never
comes to as many rows as there are ticks between two looks. A hash join of few rows may, if many of them have the same
key, because none of the rows that it comes to ticks.
-/

namespace QueryFederation

open Join

namespace Clock

/-- The clock so many ticks later. -/
def after (clock : Clock) (n : Nat) : Clock := { clock with ticks := clock.ticks + n }

/-- Has the deadline passed, and is it looked at within so many ticks? -/
def StopsWithin (clock : Clock) (n : Nat) : Prop :=
  clock.isExpired = true ∧ interval ≤ clock.ticks % interval + n

instance (clock : Clock) (n : Nat) : Decidable (clock.StopsWithin n) := inferInstanceAs (Decidable (_ ∧ _))

variable {clock : Clock} {m n : Nat}

theorem not_stopsWithin_zero : ¬clock.StopsWithin 0 := by
  rintro ⟨-, h⟩
  have hlt : clock.ticks % interval < interval := Nat.mod_lt _ (by decide)
  omega

theorem stopsWithin_add : clock.StopsWithin (m + n) ↔ clock.StopsWithin m ∨ (clock.after m).StopsWithin n := by
  have hticks : interval ≤ clock.ticks % interval + (m + n) ↔ interval ≤ clock.ticks % interval + m
      ∨ interval ≤ (clock.ticks + m) % interval + n := by
    rw [interval]
    omega
  rw [StopsWithin, StopsWithin, StopsWithin, hticks, and_or_left]
  rfl

theorem tick_eq (clock : Clock) :
    tick clock = if clock.StopsWithin 1 then .error .joinDeadline else .ok ((), clock.after 1) := by
  have hlook : (clock.ticks + 1) % interval = 0 ↔ interval ≤ clock.ticks % interval + 1 := by
    rw [interval]
    omega
  rw [tick]
  refine if_congr ?_ rfl rfl
  rw [Bool.and_eq_true, decide_eq_true_eq, hlook]
  rfl

end Clock

/-! ### How often a computation ticks -/

namespace Timed

variable {α β : Type} {m n : Nat} {a : α} {b : β}

/-- Does the computation return its answer after so many ticks, unless the clock stops it on the way? -/
def AnswersAfter (n : Nat) (a : α) (x : Timed α) : Prop :=
  ∀ clock : Clock, x clock = if clock.StopsWithin n then .error .joinDeadline else .ok (a, clock.after n)

theorem answersAfter_pure (a : α) : AnswersAfter 0 a (pure a) := fun _ =>
  (if_neg Clock.not_stopsWithin_zero).symm

theorem answersAfter_lift (a : α) : AnswersAfter 0 a (liftM (.ok a : Outcome α)) := fun _ =>
  (if_neg Clock.not_stopsWithin_zero).symm

theorem AnswersAfter.bind {x : Timed α} {f : α → Timed β} (hx : x.AnswersAfter m a) (hf : (f a).AnswersAfter n b) :
    (x >>= f).AnswersAfter (m + n) b := by
  intro clock
  by_cases hm : clock.StopsWithin m
  · rw [if_pos (Clock.stopsWithin_add.mpr (.inl hm)), bind_of_error]
    rw [hx, if_pos hm]
  · have hx : x clock = .ok (a, clock.after m) := by rw [hx, if_neg hm]
    have hafter : (clock.after m).after n = clock.after (m + n) := by
      rw [Clock.after, Clock.after, Clock.after, Nat.add_assoc]
    rw [bind_of_ok hx, hf, hafter, if_congr (Clock.stopsWithin_add.trans (or_iff_right hm)) rfl rfl]

theorem AnswersAfter.bind_pure {x : Timed α} (hx : x.AnswersAfter n a) (b : β) :
    (x >>= fun _ => pure b).AnswersAfter n b :=
  hx.bind (f := fun _ => pure b) (answersAfter_pure b)

theorem AnswersAfter.visit {test : α → Outcome Unit} {items : List α} (h : ∀ item ∈ items, test item = .ok ()) :
    (Clock.visit test items).AnswersAfter items.length () := by
  induction items with
  | nil => exact answersAfter_pure ()
  | cons item items ih =>
    obtain ⟨hitem, hitems⟩ := List.forall_mem_cons.mp h
    rw [Clock.visit_cons, hitem, List.length_cons, Nat.add_comm, ← Nat.zero_add items.length]
    exact AnswersAfter.bind Clock.tick_eq ((answersAfter_lift ()).bind (ih hitems))

theorem answersAfter_tickEach (items : List α) : (Clock.tickEach items).AnswersAfter items.length () :=
  AnswersAfter.visit fun _ _ => rfl

end Timed

open Timed

variable {left right : List Row} {pairs : List (String × String)} {kind : JoinKind}
  {leftColumns rightColumns : List String}

theorem length_crossProduct (left right : List Row) :
    (crossProduct left right).length = left.length * right.length := by
  simp [crossProduct]

/-- A cross join ticks for every row it comes to. -/
theorem answersAfter_crossJoin (left right : List Row) :
    (crossJoin left right).AnswersAfter (left.length * right.length) (crossProduct left right) := by
  rw [← length_crossProduct]
  exact (answersAfter_tickEach (crossProduct left right)).bind_pure _

/-- One side is put into buckets, the rows of the other are looked up, and those of the first may be gone through. -/
theorem answersAfter_lookUp {build probe : List Row} {buildColumns probeColumns : List String}
    (hbuild : Row.AreHashable buildColumns build) (hprobe : Row.AreHashable probeColumns probe) (condition : Bool)
    (answer : List Row) :
    (Clock.visit Key.requireHashable ((build.map (KeyedRow.ofRow buildColumns)).map (·.key)) >>= fun _ =>
      Clock.visit Key.requireHashable ((probe.map (KeyedRow.ofRow probeColumns)).map (·.key)) >>= fun _ =>
      if condition then Clock.tickEach (build.map (KeyedRow.ofRow buildColumns)) >>= fun _ => pure answer
      else pure answer : Timed (List Row)).AnswersAfter
        (build.length + (probe.length + if condition then build.length else 0)) answer := by
  have hvisit : ∀ {columns : List String} {rows : List Row}, Row.AreHashable columns rows →
      (Clock.visit Key.requireHashable ((rows.map (KeyedRow.ofRow columns)).map (·.key))).AnswersAfter
        rows.length () := by
    intro columns rows hrows
    have hkeys : ∀ key ∈ (rows.map (KeyedRow.ofRow columns)).map (·.key), Key.requireHashable key = .ok () := by
      simp only [List.map_map, List.forall_mem_map]
      exact fun row hrow => requireHashable_of_isHashable (hrows row hrow)
    have hall := AnswersAfter.visit hkeys
    rwa [List.length_map, List.length_map] at hall
  refine (hvisit hbuild).bind ((hvisit hprobe).bind ?_)
  cases condition with
  | false => exact answersAfter_pure answer
  | true =>
    have hticks := answersAfter_tickEach (build.map (KeyedRow.ofRow buildColumns))
    rw [List.length_map] at hticks
    exact hticks.bind_pure answer

/-- How often a hash join ticks: the rows of the smaller side are those in the buckets. -/
def hashJoinTicks (left right : List Row) (kind : JoinKind) : Nat :=
  2 * (left.length + right.length)
    + if right.length ≤ left.length then (if kind.keepsRight then right.length else 0)
      else (if kind.keepsLeft then left.length else 0)

/-- If no row stops it, a hash join comes to the rows that nested loops come to, after as many ticks as there are. -/
theorem exists_answersAfter_hashJoin (hleft : Row.AreHashable (pairs.map (·.1)) left)
    (hright : Row.AreHashable (pairs.map (·.2)) right) (hmeet : ¬Row.KindsApart pairs left right) (kind : JoinKind)
    (leftColumns rightColumns : List String) :
    ∃ rows, (hashJoin left right pairs kind leftColumns rightColumns).AnswersAfter (hashJoinTicks left right kind) rows
      ∧ rows.Perm (nestedLoop left right pairs kind leftColumns rightColumns) := by
  obtain ⟨rows, hrows⟩ : ∃ rows, (hashJoin left right pairs kind leftColumns rightColumns).AnswersAfter
      (hashJoinTicks left right kind) rows := by
    rw [hashJoin, checkKinds_eq_ok_iff_not_kindsApart.mpr hmeet, hashJoinTicks]
    -- The right side is the smaller one, or the left side is. Either way the ticks are written down in their order.
    split
    · rw [show 2 * (left.length + right.length) + (if kind.keepsRight then right.length else 0) = left.length
        + (right.length + (0 + (right.length + (left.length + if kind.keepsRight then right.length else 0)))) by omega]
      exact ⟨_, (answersAfter_tickEach left).bind ((answersAfter_tickEach right).bind
        ((answersAfter_lift ()).bind (answersAfter_lookUp hright hleft kind.keepsRight _)))⟩
    · rw [show 2 * (left.length + right.length) + (if kind.keepsLeft then left.length else 0) = left.length
        + (right.length + (0 + (left.length + (right.length + if kind.keepsLeft then left.length else 0)))) by omega]
      exact ⟨_, (answersAfter_tickEach left).bind ((answersAfter_tickEach right).bind
        ((answersAfter_lift ()).bind (answersAfter_lookUp hleft hright kind.keepsLeft _)))⟩
  refine ⟨rows, hrows, ?_⟩
  have hreturns : hashJoin left right pairs kind leftColumns rightColumns ⟨false, 0⟩
      = .ok (rows, Clock.after ⟨false, 0⟩ (hashJoinTicks left right kind)) := by
    rw [hrows, if_neg]
    exact fun hstops => Bool.false_ne_true hstops.1
  exact (hashJoin_eq_ok hreturns).2.2

/-- A hash join that returns has found kinds of keys in common. -/
theorem not_kindsApart_of_hashJoin {clock final : Clock} {rows : List Row}
    (h : hashJoin left right pairs kind leftColumns rightColumns clock = .ok (rows, final)) :
    ¬Row.KindsApart pairs left right := by
  rw [hashJoin] at h
  obtain ⟨_, _, -, h⟩ := Timed.bind_eq_ok h
  obtain ⟨_, _, -, h⟩ := Timed.bind_eq_ok h
  obtain ⟨_, _, hkinds, -⟩ := Timed.bind_eq_ok h
  exact checkKinds_eq_ok_iff_not_kindsApart.mp (Timed.lift_eq_ok hkinds).1

/-! ### After the deadline -/

section

variable {x : Timed (List Row)} {n ticks : Nat} {rows : List Row}

theorem Clock.stopsWithin_of_expired :
    Clock.StopsWithin ⟨true, ticks⟩ n ↔ Clock.interval ≤ ticks % Clock.interval + n :=
  and_iff_right rfl

theorem Timed.AnswersAfter.eq_error_iff (h : x.AnswersAfter n rows) :
    x ⟨true, ticks⟩ = .error .joinDeadline ↔ Clock.interval ≤ ticks % Clock.interval + n := by
  rw [← Clock.stopsWithin_of_expired, h]
  split <;> simp_all

theorem Timed.AnswersAfter.eq_ok_iff (h : x.AnswersAfter n rows) {answer : List Row} {final : Clock} :
    x ⟨true, ticks⟩ = .ok (answer, final)
      ↔ ticks % Clock.interval + n < Clock.interval ∧ rows = answer ∧ Clock.after ⟨true, ticks⟩ n = final := by
  rw [← Nat.not_le, ← Clock.stopsWithin_of_expired, h]
  split <;> simp_all

end

/--
After its deadline, however often the clock has ticked before, a cross join never comes to as many rows as there are
ticks between two looks, and gives up where it would. A hash join comes to so many exactly if no row stops it, its
inputs do not tick until the next look, and nested loops come to so many; if no row stops it, it gives up exactly if its
inputs tick until the next look.
-/
theorem joins_after_deadline_iff (left right : List Row) (pairs : List (String × String)) (kind : JoinKind)
    (leftColumns rightColumns : List String) (ticks : Nat) :
    (∀ rows final, crossJoin left right ⟨true, ticks⟩ = .ok (rows, final) → rows.length < Clock.interval)
      ∧ (crossJoin left right ⟨true, ticks⟩ = .error .joinDeadline
        ↔ Clock.interval ≤ ticks % Clock.interval + left.length * right.length)
      ∧ ((∃ rows final, hashJoin left right pairs kind leftColumns rightColumns ⟨true, ticks⟩ = .ok (rows, final)
          ∧ Clock.interval ≤ rows.length)
        ↔ Row.AreHashable (pairs.map (·.1)) left ∧ Row.AreHashable (pairs.map (·.2)) right
          ∧ ¬Row.KindsApart pairs left right
          ∧ ticks % Clock.interval + hashJoinTicks left right kind < Clock.interval
          ∧ Clock.interval ≤ (nestedLoop left right pairs kind leftColumns rightColumns).length)
      ∧ (Row.AreHashable (pairs.map (·.1)) left → Row.AreHashable (pairs.map (·.2)) right →
        ¬Row.KindsApart pairs left right →
          (hashJoin left right pairs kind leftColumns rightColumns ⟨true, ticks⟩ = .error .joinDeadline
            ↔ Clock.interval ≤ ticks % Clock.interval + hashJoinTicks left right kind)) := by
  refine ⟨fun rows final h => ?_, (answersAfter_crossJoin left right).eq_error_iff, ⟨?_, ?_⟩, ?_⟩
  · obtain ⟨hticks, rfl, -⟩ := (answersAfter_crossJoin left right).eq_ok_iff.mp h
    rw [length_crossProduct]
    omega
  · rintro ⟨rows, final, hreturns, hmany⟩
    obtain ⟨hleft, hright, hperm⟩ := hashJoin_eq_ok hreturns
    have hmeet : ¬Row.KindsApart pairs left right := not_kindsApart_of_hashJoin hreturns
    obtain ⟨_, hanswers, -⟩ := exists_answersAfter_hashJoin hleft hright hmeet kind leftColumns rightColumns
    exact ⟨hleft, hright, hmeet, (hanswers.eq_ok_iff.mp hreturns).1, hperm.length_eq ▸ hmany⟩
  · rintro ⟨hleft, hright, hmeet, hticks, hmany⟩
    obtain ⟨rows, hanswers, hperm⟩ := exists_answersAfter_hashJoin hleft hright hmeet kind leftColumns rightColumns
    exact ⟨rows, _, hanswers.eq_ok_iff.mpr ⟨hticks, rfl, rfl⟩, hperm.length_eq ▸ hmany⟩
  · intro hleft hright hmeet
    obtain ⟨_, hanswers, -⟩ := exists_answersAfter_hashJoin hleft hright hmeet kind leftColumns rightColumns
    exact hanswers.eq_error_iff

/-- As many orders of one day as there are visits on it come to as many rows as there are ticks between two looks. -/
theorem ordersOfOneDay_joined_after_deadline :
    ∃ rows, (hashJoin (List.replicate 32 [("o_day", .integer 1)]) (List.replicate 32 [("v_day", .integer 1)])
        [("o_day", "v_day")] .inner ["o_day"] ["v_day"]).answer true = .ok rows ∧ rows.length = Clock.interval := by
  have hleft : Row.AreHashable ([("o_day", "v_day")].map (·.1)) (List.replicate 32 [("o_day", .integer 1)]) :=
    Row.areHashable_of_forall (by decide +kernel)
  have hright : Row.AreHashable ([("o_day", "v_day")].map (·.2)) (List.replicate 32 [("v_day", .integer 1)]) :=
    Row.areHashable_of_forall (by decide +kernel)
  have hmeet : ¬Row.KindsApart [("o_day", "v_day")] (List.replicate 32 [("o_day", .integer 1)])
      (List.replicate 32 [("v_day", .integer 1)]) := checkKinds_eq_ok_iff_not_kindsApart.mp (by cbv)
  obtain ⟨rows, hanswers, hperm⟩ := exists_answersAfter_hashJoin hleft hright hmeet .inner ["o_day"] ["v_day"]
  refine ⟨rows, answer_eq_ok.mpr ⟨_, hanswers.eq_ok_iff.mpr ⟨by decide, rfl, rfl⟩⟩, ?_⟩
  rw [hperm.length_eq]
  decide +kernel

end QueryFederation

import QueryFederation.Join.HashJoin

/-!
# Computations that tick

What is known of a computation that ticks once it has returned, and what it takes to return when the deadline has not
passed. A clock that runs never stops a computation, so only the tests of the items it visits can.
-/

namespace QueryFederation

namespace Timed

variable {α β : Type} {clock final : Clock}

theorem bind_eq_ok {x : Timed α} {f : α → Timed β} {b : β} (h : (x >>= f) clock = .ok (b, final)) :
    ∃ a next, x clock = .ok (a, next) ∧ f a next = .ok (b, final) := by
  change ((x clock) >>= fun p => f p.1 p.2) = .ok (b, final) at h
  cases hx : x clock with
  | error fault => rw [hx] at h; cases h
  | ok p => exact ⟨p.1, p.2, rfl, by rw [hx] at h; exact h⟩

theorem bind_of_ok {x : Timed α} {f : α → Timed β} {a : α} {next : Clock} (h : x clock = .ok (a, next)) :
    (x >>= f) clock = f a next := by
  change ((x clock) >>= fun p => f p.1 p.2) = f a next
  rw [h]
  rfl

theorem bind_of_error {x : Timed α} {f : α → Timed β} {fault : Fault} (h : x clock = .error fault) :
    (x >>= f) clock = .error fault := by
  change ((x clock) >>= fun p => f p.1 p.2) = .error fault
  rw [h]
  rfl

theorem bind_eq_error_iff {x : Timed α} {f : α → Timed β} {fault : Fault} : (x >>= f) clock = .error fault
    ↔ x clock = .error fault ∨ ∃ a next, x clock = .ok (a, next) ∧ f a next = .error fault := by
  cases hx : x clock with
  | error fault' => simp [bind_of_error hx]
  | ok p =>
    obtain ⟨a, next⟩ := p
    rw [bind_of_ok hx]
    constructor
    · exact fun h => Or.inr ⟨a, next, rfl, h⟩
    · rintro (h | ⟨_, _, h, hnext⟩)
      · cases h
      · cases h
        exact hnext

/-- A fold fails where one of its steps is the first to fail, with the clock as it is then. -/
theorem foldlM_eq_error_iff {f : β → α → Timed β} {items : List α} {start : β} {fault : Fault} :
    items.foldlM f start clock = .error fault
      ↔ ∃ before item after b next, items = before ++ item :: after ∧ before.foldlM f start clock = .ok (b, next)
        ∧ f b item next = .error fault := by
  induction items generalizing start clock with
  | nil =>
    constructor
    · exact fun h => by cases h
    · rintro ⟨before, item, after, b, next, hitems, -, -⟩
      exact absurd hitems (by simp)
  | cons first rest ih =>
    rw [List.foldlM_cons, bind_eq_error_iff]
    constructor
    · rintro (hfirst | ⟨b, next, hnext, hrest⟩)
      · exact ⟨[], first, rest, start, clock, rfl, rfl, hfirst⟩
      · obtain ⟨before, item, after, c, last, rfl, hbefore, hitem⟩ := ih.mp hrest
        refine ⟨first :: before, item, after, c, last, rfl, ?_, hitem⟩
        rw [List.foldlM_cons, bind_of_ok hnext]
        exact hbefore
    · rintro ⟨before, item, after, b, next, hitems, hbefore, hitem⟩
      cases before with
      | nil =>
        obtain ⟨rfl, rfl⟩ := List.cons.inj hitems
        cases hbefore
        exact Or.inl hitem
      | cons second before =>
        obtain ⟨rfl, rfl⟩ := List.cons.inj hitems
        rw [List.foldlM_cons] at hbefore
        obtain ⟨c, last, hc, hbefore⟩ := bind_eq_ok hbefore
        exact Or.inr ⟨c, last, hc, ih.mpr ⟨before, item, after, b, next, rfl, hbefore, hitem⟩⟩

theorem lift_ok {a : α} : (liftM (.ok a : Outcome α) : Timed α) clock = .ok (a, clock) := rfl

theorem lift_error {fault : Fault} : (liftM (.error fault : Outcome α) : Timed α) clock = .error fault := rfl

theorem lift_eq_error_iff {x : Outcome α} {fault : Fault} :
    (liftM x : Timed α) clock = .error fault ↔ x = .error fault := by
  cases x with
  | error other => rw [lift_error, Except.error.injEq, Except.error.injEq]
  | ok a => exact iff_of_false (fun h => by cases h) fun h => by cases h

theorem lift_eq_ok {x : Outcome α} {a : α} (h : (liftM x : Timed α) clock = .ok (a, final)) :
    x = .ok a ∧ final = clock := by
  cases x with
  | error fault => cases h
  | ok b =>
    cases h
    exact ⟨rfl, rfl⟩

theorem answer_eq_ok {x : Timed α} {isExpired : Bool} {a : α} :
    x.answer isExpired = .ok a ↔ ∃ final, x ⟨isExpired, 0⟩ = .ok (a, final) := by
  rw [answer]
  cases hx : x ⟨isExpired, 0⟩ with
  | error fault => simp [Except.map]
  | ok p =>
    obtain ⟨b, last⟩ := p
    simp [Except.map]

theorem answer_eq_error {x : Timed α} {isExpired : Bool} {fault : Fault} :
    x.answer isExpired = .error fault ↔ x ⟨isExpired, 0⟩ = .error fault := by
  rw [answer]
  cases x ⟨isExpired, 0⟩ <;> simp [Except.map]

end Timed

namespace Clock

variable {α : Type} {test : α → Outcome Unit} {items : List α} {clock final : Clock}

theorem tick_of_running (h : clock.isExpired = false) : tick clock = .ok ((), { clock with ticks := clock.ticks + 1 }) := by
  simp [tick, h]

theorem visit_cons (item : α) : visit test (item :: items) = tick >>= fun _ => liftM (test item) >>= fun _ => visit test items :=
  rfl

/-- A visit that returns has found every item to pass. -/
theorem forall_of_visit_eq_ok (h : visit test items clock = .ok ((), final)) : ∀ item ∈ items, test item = .ok () := by
  induction items generalizing clock with
  | nil => simp
  | cons item items ih =>
    rw [visit_cons] at h
    obtain ⟨_, _, _, hrest⟩ := Timed.bind_eq_ok h
    obtain ⟨_, _, htest, hvisit⟩ := Timed.bind_eq_ok hrest
    exact List.forall_mem_cons.mpr ⟨(Timed.lift_eq_ok htest).1, ih hvisit⟩

/-- While the clock runs, a visit returns if every item passes. -/
theorem visit_of_running (hclock : clock.isExpired = false) (h : ∀ item ∈ items, test item = .ok ()) :
    ∃ next, visit test items clock = .ok ((), next) ∧ next.isExpired = false := by
  induction items generalizing clock with
  | nil => exact ⟨clock, rfl, hclock⟩
  | cons item items ih =>
    obtain ⟨hitem, hrest⟩ := List.forall_mem_cons.mp h
    rw [visit_cons, Timed.bind_of_ok (tick_of_running hclock), hitem, Timed.bind_of_ok Timed.lift_ok]
    exact ih hclock hrest

theorem tickEach_of_running (hclock : clock.isExpired = false) (items : List α) :
    ∃ next, tickEach items clock = .ok ((), next) ∧ next.isExpired = false :=
  visit_of_running hclock fun _ _ => rfl

/-- Whether the deadline has passed is the same after a tick. -/
theorem isExpired_of_tick (h : tick clock = .ok ((), final)) : final.isExpired = clock.isExpired := by
  rw [tick] at h
  split at h
  · cases h
  · cases h
    rfl

theorem tick_eq_error {fault : Fault} (h : tick clock = .error fault) :
    fault = .joinDeadline ∧ clock.isExpired = true := by
  rw [tick] at h
  split at h
  · rename_i hexpired
    cases h
    exact ⟨rfl, (Bool.and_eq_true_iff.mp hexpired).1⟩
  · cases h

theorem isExpired_of_visit (h : visit test items clock = .ok ((), final)) : final.isExpired = clock.isExpired := by
  induction items generalizing clock with
  | nil =>
    cases h
    rfl
  | cons item items ih =>
    rw [visit_cons] at h
    obtain ⟨_, _, htick, hrest⟩ := Timed.bind_eq_ok h
    obtain ⟨_, _, htest, hvisit⟩ := Timed.bind_eq_ok hrest
    obtain ⟨-, rfl⟩ := Timed.lift_eq_ok htest
    exact (ih hvisit).trans (isExpired_of_tick htick)

/-- A visit fails because of its deadline, or because an item does not pass. -/
theorem visit_eq_error {fault : Fault} (h : visit test items clock = .error fault) :
    fault = .joinDeadline ∧ clock.isExpired = true ∨ ∃ item ∈ items, test item = .error fault := by
  induction items generalizing clock with
  | nil => cases h
  | cons item items ih =>
    rw [visit_cons] at h
    obtain htick | ⟨_, next, htick, hrest⟩ := Timed.bind_eq_error_iff.mp h
    · exact Or.inl (tick_eq_error htick)
    · obtain htest | ⟨_, last, htest, hvisit⟩ := Timed.bind_eq_error_iff.mp hrest
      · exact Or.inr ⟨item, List.mem_cons_self, Timed.lift_eq_error_iff.mp htest⟩
      · obtain ⟨-, rfl⟩ := Timed.lift_eq_ok htest
        obtain hdeadline | ⟨other, hother, hfault⟩ := ih hvisit
        · exact Or.inl (isExpired_of_tick htick ▸ hdeadline)
        · exact Or.inr ⟨other, List.mem_cons_of_mem _ hother, hfault⟩

end Clock

end QueryFederation

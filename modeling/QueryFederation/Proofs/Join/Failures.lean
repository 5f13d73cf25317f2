import QueryFederation.Proofs.Join.Run
import QueryFederation.Proofs.Row.Merge

/-!
# Why joins fail

A join gives up because its deadline has passed, because the kinds of the keys of the two sides are apart, or because it
comes to a key that no row can be looked up by: one with a list or a record in it. Only the last of these is a failure
without words. It does not come up where kinds are apart, since kinds are compared before any row is looked up, and a
cross join has no keys. A plan fails at the first of its steps that fails.
-/

namespace QueryFederation

open Join

section

variable {left right rows : List Row} {columns : List String} {pairs : List (String × String)} {kind : JoinKind}
  {leftColumns rightColumns : List String} {clock final : Clock} {fault : Fault}

private theorem tickEach_eq_error {α : Type} {items : List α} (h : Clock.tickEach items clock = .error fault) :
    fault = .joinDeadline ∧ clock.isExpired = true := by
  obtain hdeadline | ⟨_, -, hfault⟩ := Clock.visit_eq_error h
  · exact hdeadline
  · cases hfault

private theorem visitKeys_eq_error
    (h : Clock.visit Key.requireHashable ((rows.map (KeyedRow.ofRow columns)).map (·.key)) clock = .error fault) :
    fault = .joinDeadline ∧ clock.isExpired = true ∨ fault = .operandType ∧ ¬Row.AreHashable columns rows := by
  obtain hdeadline | ⟨key, hkey, hfault⟩ := Clock.visit_eq_error h
  · exact Or.inl hdeadline
  · obtain ⟨keyed, hkeyed, rfl⟩ := List.mem_map.mp hkey
    obtain ⟨row, hrow, rfl⟩ := List.mem_map.mp hkeyed
    refine Or.inr ⟨?_, fun hhashable => ?_⟩
    · unfold Key.requireHashable at hfault
      split at hfault
      · cases hfault
      · split at hfault <;> cases hfault
        rfl
    · rw [requireHashable_of_isHashable (hhashable row hrow)] at hfault
      cases hfault

/-- One side is put into buckets, the rows of the other are looked up, and those of the first may be gone through. -/
private theorem lookUp_eq_error {build probe : List Row} {buildColumns probeColumns : List String} {condition : Bool}
    {answer : List Row}
    (h : (Clock.visit Key.requireHashable ((build.map (KeyedRow.ofRow buildColumns)).map (·.key)) >>= fun _ =>
      Clock.visit Key.requireHashable ((probe.map (KeyedRow.ofRow probeColumns)).map (·.key)) >>= fun _ =>
      if condition then Clock.tickEach (build.map (KeyedRow.ofRow buildColumns)) >>= fun _ => pure answer
      else pure answer : Timed (List Row)) clock = .error fault) :
    fault = .joinDeadline ∧ clock.isExpired = true
      ∨ fault = .operandType ∧ ¬(Row.AreHashable buildColumns build ∧ Row.AreHashable probeColumns probe) := by
  obtain h | ⟨_, next, hbuild, h⟩ := Timed.bind_eq_error_iff.mp h
  · exact (visitKeys_eq_error h).imp_right fun hcause => hcause.imp_right fun hnot hboth => hnot hboth.1
  have hnext := Clock.isExpired_of_visit hbuild
  obtain h | ⟨_, last, hprobe, h⟩ := Timed.bind_eq_error_iff.mp h
  · rw [← hnext]
    exact (visitKeys_eq_error h).imp_right fun hcause => hcause.imp_right fun hnot hboth => hnot hboth.2
  have hlast := (Clock.isExpired_of_visit hprobe).trans hnext
  rw [← hlast]
  split at h
  · obtain h | ⟨_, _, -, h⟩ := Timed.bind_eq_error_iff.mp h
    · exact Or.inl (tickEach_eq_error h)
    · cases h
  · cases h

/-- A hash join fails because of its deadline, because of kinds that are apart, or because of a key. -/
theorem hashJoin_eq_error (h : hashJoin left right pairs kind leftColumns rightColumns clock = .error fault) :
    fault = .joinDeadline ∧ clock.isExpired = true
      ∨ (∃ leftColumn rightColumn leftKinds rightKinds,
          fault = .incompatibleKeys leftColumn rightColumn leftKinds rightKinds) ∧ Row.KindsApart pairs left right
      ∨ fault = .operandType ∧ ¬Row.KindsApart pairs left right
        ∧ ¬(Row.AreHashable (pairs.map (·.1)) left ∧ Row.AreHashable (pairs.map (·.2)) right) := by
  rw [hashJoin] at h
  obtain h | ⟨_, first, hleft, h⟩ := Timed.bind_eq_error_iff.mp h
  · exact Or.inl (tickEach_eq_error h)
  obtain h | ⟨_, second, hright, h⟩ := Timed.bind_eq_error_iff.mp h
  · rw [← Clock.isExpired_of_visit hleft]
    exact Or.inl (tickEach_eq_error h)
  have hclock : second.isExpired = clock.isExpired :=
    (Clock.isExpired_of_visit hright).trans (Clock.isExpired_of_visit hleft)
  obtain h | ⟨_, third, hkinds, hruns⟩ := Timed.bind_eq_error_iff.mp h
  · have hkinds := Timed.lift_eq_error_iff.mp h
    refine Or.inr (Or.inl ⟨exists_of_checkKinds_eq_error hkinds, ?_⟩)
    by_contra hnot
    rw [checkKinds_eq_ok_iff_not_kindsApart.mpr hnot] at hkinds
    cases hkinds
  obtain ⟨hmeet, rfl⟩ := Timed.lift_eq_ok hkinds
  have hmeet := checkKinds_eq_ok_iff_not_kindsApart.mp hmeet
  rw [← hclock]
  -- The smaller side is in the buckets, and either can be the smaller one.
  split at hruns
  · refine (lookUp_eq_error hruns).imp_right fun hcause => Or.inr (hcause.imp_right fun hnot => ⟨hmeet, ?_⟩)
    exact fun hboth => hnot hboth.symm
  · exact (lookUp_eq_error hruns).imp_right fun hcause => Or.inr (hcause.imp_right fun hnot => ⟨hmeet, hnot⟩)

theorem isExpired_of_hashJoin (h : hashJoin left right pairs kind leftColumns rightColumns clock = .ok (rows, final)) :
    final.isExpired = clock.isExpired := by
  rw [hashJoin] at h
  obtain ⟨_, _, hleft, h⟩ := Timed.bind_eq_ok h
  obtain ⟨_, _, hright, h⟩ := Timed.bind_eq_ok h
  obtain ⟨_, _, hkinds, hruns⟩ := Timed.bind_eq_ok h
  obtain ⟨-, rfl⟩ := Timed.lift_eq_ok hkinds
  rw [← Clock.isExpired_of_visit hleft, ← Clock.isExpired_of_visit hright]
  split at hruns
  all_goals
    obtain ⟨_, _, hbuild, hrest⟩ := Timed.bind_eq_ok hruns
    obtain ⟨_, _, hprobe, hafter⟩ := Timed.bind_eq_ok hrest
    rw [← Clock.isExpired_of_visit hbuild, ← Clock.isExpired_of_visit hprobe]
    dsimp only at hafter
    split at hafter
    · obtain ⟨_, _, hticks, hdone⟩ := Timed.bind_eq_ok hafter
      cases hdone
      exact Clock.isExpired_of_visit hticks
    · cases hafter
      rfl

/-- While the clock runs, a key that no row can be looked up by is a failure without words, unless kinds are apart. -/
theorem hashJoin_eq_operandType_iff (hclock : clock.isExpired = false) :
    hashJoin left right pairs kind leftColumns rightColumns clock = .error .operandType
      ↔ ¬Row.KindsApart pairs left right
        ∧ ¬(Row.AreHashable (pairs.map (·.1)) left ∧ Row.AreHashable (pairs.map (·.2)) right) := by
  constructor
  · intro h
    obtain ⟨hfault, -⟩ | ⟨⟨_, _, _, _, hfault⟩, -⟩ | ⟨-, hcause⟩ := hashJoin_eq_error h
    · cases hfault
    · cases hfault
    · exact hcause
  · rintro ⟨hmeet, hnot⟩
    cases hjoin : hashJoin left right pairs kind leftColumns rightColumns clock with
    | ok result =>
      obtain ⟨hleft, hright, -⟩ := hashJoin_eq_ok hjoin
      exact absurd ⟨hleft, hright⟩ hnot
    | error fault =>
      obtain ⟨-, hexpired⟩ | ⟨-, happart⟩ | ⟨rfl, -⟩ := hashJoin_eq_error hjoin
      · rw [hclock] at hexpired
        cases hexpired
      · exact absurd happart hmeet
      · rfl

end

/-! ### Steps and plans -/

/-- Is there a key on one side that no row can be looked up by, and are the kinds of the keys not apart? -/
def JoinStep.MeetsUnhashableKey (step : JoinStep) (placed added : NamedRows) : Prop :=
  step.kind.isSome = true ∧ ¬Row.KindsApart (step.pairs.map (·.names)) placed.rows added.rows
    ∧ ¬(Row.AreHashable (step.pairs.map fun p => p.names.1) placed.rows
      ∧ Row.AreHashable (step.pairs.map fun p => p.names.2) added.rows)

/-- Does one of the steps come to such a key, after those before it have been carried out? -/
def JoinPlan.MeetsUnhashableKey (plan : JoinPlan) (relation : List String → NamedRows) (isExpired : Bool) : Prop :=
  ∃ before step after placed, plan.steps = before ++ step :: after
    ∧ (JoinPlan.execute ⟨plan.root, before⟩ relation).answer isExpired = .ok placed
    ∧ step.MeetsUnhashableKey placed (relation step.nodes)

section

variable {step : JoinStep} {placed added next : NamedRows} {clock final : Clock} {fault : Fault}

theorem JoinStep.attach_eq_error (h : step.attach placed added clock = .error fault)
    (hfault : fault.isOperandFailure = true) : fault = .operandType ∧ step.MeetsUnhashableKey placed added := by
  obtain h | ⟨_, _, -, h⟩ := Timed.bind_eq_error_iff.mp h
  · rw [JoinStep.rows] at h
    cases hkind : step.kind with
    | none =>
      rw [hkind] at h
      obtain h | ⟨_, _, -, h⟩ := Timed.bind_eq_error_iff.mp h
      · obtain ⟨rfl, -⟩ := tickEach_eq_error h
        cases hfault
      · cases h
    | some kind =>
      rw [hkind] at h
      obtain ⟨rfl, -⟩ | ⟨⟨_, _, _, _, rfl⟩, -⟩ | ⟨rfl, hmeet, hnot⟩ := hashJoin_eq_error h
      · cases hfault
      · cases hfault
      · rw [List.map_map, List.map_map] at hnot
        exact ⟨rfl, by rw [hkind]; rfl, hmeet, hnot⟩
  · cases h

theorem JoinStep.attach_of_meetsUnhashableKey (hclock : clock.isExpired = false)
    (h : step.MeetsUnhashableKey placed added) : step.attach placed added clock = .error .operandType := by
  obtain ⟨hkind, hmeet, hnot⟩ := h
  obtain ⟨kind, hkind⟩ := Option.isSome_iff_exists.mp hkind
  refine Timed.bind_of_error ?_
  rw [JoinStep.rows, hkind]
  refine (hashJoin_eq_operandType_iff hclock).mpr ⟨hmeet, ?_⟩
  rw [List.map_map, List.map_map]
  exact hnot

theorem JoinStep.isExpired_of_attach (h : step.attach placed added clock = .ok (next, final)) :
    final.isExpired = clock.isExpired := by
  obtain ⟨_, _, hrows, h⟩ := Timed.bind_eq_ok h
  cases h
  rw [JoinStep.rows] at hrows
  cases hkind : step.kind with
  | none =>
    rw [hkind] at hrows
    obtain ⟨_, _, hticks, hrows⟩ := Timed.bind_eq_ok hrows
    cases hrows
    exact Clock.isExpired_of_visit hticks
  | some kind =>
    rw [hkind] at hrows
    exact isExpired_of_hashJoin hrows

end

namespace JoinPlan

variable {plan : JoinPlan} {relation : List String → NamedRows} {isExpired : Bool} {fault : Fault}

private theorem isExpired_of_foldlM {steps : List JoinStep} {start joined : NamedRows} {clock final : Clock}
    (h : steps.foldlM (fun placed step => step.attach placed (relation step.nodes)) start clock = .ok (joined, final)) :
    final.isExpired = clock.isExpired := by
  induction steps generalizing start clock with
  | nil =>
    cases h
    rfl
  | cons step steps ih =>
    rw [List.foldlM_cons] at h
    obtain ⟨_, _, hstep, hrest⟩ := Timed.bind_eq_ok h
    exact (ih hrest).trans (JoinStep.isExpired_of_attach hstep)

/-- Whatever the deadline, a plan fails without words only because of a key. -/
theorem execute_eq_error (h : (plan.execute relation).answer isExpired = .error fault)
    (hfault : fault.isOperandFailure = true) : fault = .operandType ∧ plan.MeetsUnhashableKey relation isExpired := by
  obtain ⟨before, step, after, placed, clock, hsteps, hbefore, hstep⟩ :=
    Timed.foldlM_eq_error_iff.mp (Timed.answer_eq_error.mp h)
  obtain ⟨rfl, hmeets⟩ := JoinStep.attach_eq_error hstep hfault
  exact ⟨rfl, before, step, after, placed, hsteps, Timed.answer_eq_ok.mpr ⟨clock, hbefore⟩, hmeets⟩

/-- If its deadline has not passed, a plan fails without words exactly where it comes to such a key. -/
theorem execute_eq_error_iff (hfault : fault.isOperandFailure = true) :
    (plan.execute relation).answer false = .error fault
      ↔ fault = .operandType ∧ plan.MeetsUnhashableKey relation false := by
  refine ⟨fun h => execute_eq_error h hfault, ?_⟩
  rintro ⟨rfl, before, step, after, placed, hsteps, hbefore, hmeets⟩
  obtain ⟨clock, hbefore⟩ := Timed.answer_eq_ok.mp hbefore
  have hclock : clock.isExpired = false := isExpired_of_foldlM hbefore
  exact Timed.answer_eq_error.mpr (Timed.foldlM_eq_error_iff.mpr
    ⟨before, step, after, placed, clock, hsteps, hbefore, JoinStep.attach_of_meetsUnhashableKey hclock hmeets⟩)

end JoinPlan

/-! ### Rows without lists and records in their keys -/

namespace Value

theorem isHashable_doubleKey (x : Double) : (doubleKey x).isHashable = true := by
  rw [doubleKey]
  split <;> rfl

theorem isHashable_joinKey {v : Value} (h : v.isHashable = true) : v.joinKey.isHashable = true := by
  cases v with
  | list | record => cases h
  | text s =>
    simp only [joinKey, textKey]
    split
    · exact isHashable_doubleKey _
    · rename_i w _ hnumber
      simp only [ofNumericText?] at hnumber
      split at hnumber
      · cases hnumber
        rfl
      · obtain ⟨d, -, rfl⟩ := Option.map_eq_some_iff.mp hnumber
        rfl
    · rfl
  | double x => exact isHashable_doubleKey x
  | decimal d =>
    simp only [joinKey, decimalKey]
    split
    · rfl
    · exact isHashable_doubleKey _
  | _ => rfl

end Value

/-- Is no value of a row under one of the names a list or a record? -/
def Row.HashableAt (names : List String) (row : Row) : Prop :=
  ∀ entry ∈ row, entry.1 ∈ names → entry.2.isHashable = true

instance (names : List String) (row : Row) : Decidable (row.HashableAt names) :=
  inferInstanceAs (Decidable (∀ entry ∈ row, entry.1 ∈ names → entry.2.isHashable = true))

/-- The names of the columns that the steps of a plan join on. -/
def JoinPlan.keyNames (plan : JoinPlan) : List String :=
  plan.steps.flatMap fun step => step.pairs.flatMap fun pair => [pair.names.1, pair.names.2]

theorem Row.areHashable_of_hashableAt {names columns : List String} {rows : List Row}
    (hrows : ∀ row ∈ rows, row.HashableAt names) (hcolumns : columns ⊆ names) : Row.AreHashable columns rows := by
  refine Row.areHashable_of_forall fun row hrow column hcolumn => Value.isHashable_joinKey ?_
  rw [Row.get]
  cases hlookup : row.lookup column with
  | none => rfl
  | some v => exact hrows row hrow _ (Entries.mem_of_lookup_eq_some hlookup) (hcolumns hcolumn)

/-! ### The values of joined rows -/

section

variable {P : String → Value → Prop} {columns : List String} {relation : List String → NamedRows}
  {start joined : NamedRows} {steps : List JoinStep}

theorem Row.forall_mem_nulls (hnull : ∀ name, P name .null) : ∀ entry ∈ Row.nulls columns, P entry.1 entry.2 := by
  intro entry hentry
  rw [Row.nulls, Entries.ofPairs_eq_merge] at hentry
  obtain hnil | hpair := Entries.mem_of_mem_merge hentry
  · cases hnil
  · obtain ⟨column, -, rfl⟩ := List.mem_map.mp hpair
    exact hnull column

/-- A step brings no value under a name that neither side has there, but for nulls. -/
theorem JoinStep.Attaches.forall_entries {step : JoinStep} {placed added next : NamedRows}
    (hnull : ∀ name, P name .null) (attaches : step.Attaches placed added next)
    (hplaced : ∀ row ∈ placed.rows, ∀ entry ∈ row, P entry.1 entry.2)
    (hadded : ∀ row ∈ added.rows, ∀ entry ∈ row, P entry.1 entry.2) :
    ∀ row ∈ next.rows, ∀ entry ∈ row, P entry.1 entry.2 := by
  intro row hrow entry hentry
  obtain ⟨l, r, rfl, hl, hr⟩ := JoinStep.exists_of_mem_expected (attaches.rows.mem_iff.mp hrow)
  obtain hentry | hentry := Entries.mem_of_mem_merge hentry
  · obtain hl | rfl := hl
    · exact hplaced l hl entry hentry
    · exact Row.forall_mem_nulls hnull entry hentry
  · obtain hr | rfl := hr
    · exact hadded r hr entry hentry
    · exact Row.forall_mem_nulls hnull entry hentry

/-- What holds of nulls, and of all values of the rows that are joined, holds of the values of the joined rows. -/
theorem JoinRun.forall_entries (hnull : ∀ name, P name .null) (run : JoinRun relation start steps joined)
    (hstart : ∀ row ∈ start.rows, ∀ entry ∈ row, P entry.1 entry.2)
    (hrelation : ∀ group, ∀ row ∈ (relation group).rows, ∀ entry ∈ row, P entry.1 entry.2) :
    ∀ row ∈ joined.rows, ∀ entry ∈ row, P entry.1 entry.2 := by
  induction run with
  | done => exact hstart
  | step attaches _ ih => exact ih (attaches.forall_entries hnull hstart (hrelation _))

end

/-- Rows that hold no list and no record where they are joined on never lead to such a key. -/
theorem JoinPlan.not_meetsUnhashableKey {plan : JoinPlan} {relation : List String → NamedRows}
    (h : ∀ group, ∀ row ∈ (relation group).rows, row.HashableAt plan.keyNames) (isExpired : Bool) :
    ¬plan.MeetsUnhashableKey relation isExpired := by
  rintro ⟨before, step, after, placed, hsteps, hplaced, -, -, hnot⟩
  have hrows : ∀ row ∈ placed.rows, row.HashableAt plan.keyNames :=
    (JoinRun.of_execute hplaced).forall_entries (P := fun name v => name ∈ plan.keyNames → v.isHashable = true)
      (fun _ _ => rfl) (h plan.root) h
  have hnames : ∀ pair ∈ step.pairs, pair.names.1 ∈ plan.keyNames ∧ pair.names.2 ∈ plan.keyNames := by
    intro pair hpair
    have hstep : step ∈ plan.steps := hsteps ▸ List.mem_append_right _ List.mem_cons_self
    constructor <;> exact List.mem_flatMap.mpr ⟨step, hstep, List.mem_flatMap.mpr ⟨pair, hpair, by simp⟩⟩
  refine hnot ⟨Row.areHashable_of_hashableAt hrows fun name hname => ?_,
    Row.areHashable_of_hashableAt (h step.nodes) fun name hname => ?_⟩
  · obtain ⟨pair, hpair, rfl⟩ := List.mem_map.mp hname
    exact (hnames pair hpair).1
  · obtain ⟨pair, hpair, rfl⟩ := List.mem_map.mp hname
    exact (hnames pair hpair).2

end QueryFederation

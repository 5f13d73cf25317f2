import QueryFederation.Join.Execution
import QueryFederation.Proofs.Join.HashJoin

/-!
# Runs of join plans

A run of a plan that returns has carried out each of its steps as nested loops would. `JoinRun` says this of a list of
steps and no more, so what holds of all runs is shown by induction over it, without a clock.

The steps of a plan come one group after the other: `PlanFrom` says in which form, whichever group is chosen next. What
each of them keeps is kept by every run of the plan.
-/

namespace QueryFederation

/-- The rows of a step, by nested loops. -/
def JoinStep.expected (step : JoinStep) (placed added : NamedRows) : List Row :=
  match step.kind with
  | none => crossProduct placed.rows added.rows
  | some kind => nestedLoop placed.rows added.rows (step.pairs.map (·.names)) kind placed.columns added.columns

/-- What a step that has returned has done. A step that is no cross join has looked up all rows by their keys. -/
structure JoinStep.Attaches (step : JoinStep) (placed added next : NamedRows) : Prop where
  columns : next.columns = placed.columns ++ added.columns
  rows : next.rows.Perm (step.expected placed added)
  hashable : step.kind.isSome = true →
    Row.AreHashable (step.pairs.map fun p => p.names.1) placed.rows
      ∧ Row.AreHashable (step.pairs.map fun p => p.names.2) added.rows

/-- Steps that have been carried out one after the other, from what was placed to what is joined in the end. -/
inductive JoinRun (relation : List String → NamedRows) : NamedRows → List JoinStep → NamedRows → Prop
  | done (placed : NamedRows) : JoinRun relation placed [] placed
  | step {placed next final : NamedRows} {step : JoinStep} {steps : List JoinStep}
      (attaches : step.Attaches placed (relation step.nodes) next) (rest : JoinRun relation next steps final) :
      JoinRun relation placed (step :: steps) final

/-- A row of a step has a part from either side, which may be the nulls of this side. -/
theorem JoinStep.exists_of_mem_expected {step : JoinStep} {placed added : NamedRows} {row : Row}
    (h : row ∈ step.expected placed added) : ∃ l r, row = Entries.merge l r
      ∧ (l ∈ placed.rows ∨ l = Row.nulls placed.columns) ∧ (r ∈ added.rows ∨ r = Row.nulls added.columns) := by
  rw [expected] at h
  cases hkind : step.kind with
  | none =>
    rw [hkind] at h
    obtain ⟨l, hl, h⟩ := List.mem_flatMap.mp h
    obtain ⟨r, hr, rfl⟩ := List.mem_map.mp h
    exact ⟨l, r, rfl, Or.inl hl, Or.inl hr⟩
  | some kind =>
    simp only [hkind, nestedLoop, List.mem_append] at h
    rcases h with (h | h) | h
    · obtain ⟨l, hl, h⟩ := List.mem_flatMap.mp h
      obtain ⟨r, hr, rfl⟩ := List.mem_map.mp h
      exact ⟨l, r, rfl, Or.inl hl, Or.inl (List.mem_of_mem_filter hr)⟩
    · split at h
      · obtain ⟨l, hl, rfl⟩ := List.mem_map.mp h
        exact ⟨l, _, rfl, Or.inl (List.mem_of_mem_filter hl), Or.inr rfl⟩
      · cases h
    · split at h
      · obtain ⟨r, hr, rfl⟩ := List.mem_map.mp h
        exact ⟨_, r, rfl, Or.inr rfl, Or.inl (List.mem_of_mem_filter hr)⟩
      · cases h

theorem crossJoin_eq_ok {left right rows : List Row} {clock final : Clock}
    (h : crossJoin left right clock = .ok (rows, final)) : rows = crossProduct left right := by
  rw [crossJoin] at h
  obtain ⟨_, _, -, h⟩ := Timed.bind_eq_ok h
  cases h
  rfl

theorem JoinStep.attaches_of_attach {step : JoinStep} {placed added next : NamedRows} {clock final : Clock}
    (h : step.attach placed added clock = .ok (next, final)) : step.Attaches placed added next := by
  rw [JoinStep.attach] at h
  obtain ⟨rows, _, hrows, h⟩ := Timed.bind_eq_ok h
  cases h
  rw [JoinStep.rows] at hrows
  cases hkind : step.kind with
  | none =>
    rw [hkind] at hrows
    refine ⟨rfl, ?_, by simp [hkind]⟩
    rw [JoinStep.expected, hkind]
    exact .of_eq (crossJoin_eq_ok hrows)
  | some kind =>
    rw [hkind] at hrows
    obtain ⟨hplaced, hadded, hperm⟩ := hashJoin_eq_ok hrows
    refine ⟨rfl, ?_, fun _ => ⟨?_, ?_⟩⟩
    · rw [JoinStep.expected, hkind]
      exact hperm
    · rw [List.map_map] at hplaced
      exact hplaced
    · rw [List.map_map] at hadded
      exact hadded

theorem JoinRun.of_foldlM {relation : List String → NamedRows} {steps : List JoinStep} {placed joined : NamedRows}
    {clock final : Clock}
    (h : steps.foldlM (fun placed step => step.attach placed (relation step.nodes)) placed clock = .ok (joined, final)) :
    JoinRun relation placed steps joined := by
  induction steps generalizing placed clock with
  | nil =>
    cases h
    exact .done _
  | cons step steps ih =>
    rw [List.foldlM_cons] at h
    obtain ⟨next, _, hstep, hrest⟩ := Timed.bind_eq_ok h
    exact .step (JoinStep.attaches_of_attach hstep) (ih hrest)

/-- A plan that returns has carried out its steps, whether or not its deadline had passed when it started. -/
theorem JoinRun.of_execute {plan : JoinPlan} {relation : List String → NamedRows} {isExpired : Bool}
    {joined : NamedRows} (h : (plan.execute relation).answer isExpired = .ok joined) :
    JoinRun relation (relation plan.root) plan.steps joined := by
  obtain ⟨_, hok⟩ := Timed.answer_eq_ok.mp h
  exact JoinRun.of_foldlM hok

/-! ### Steps of a plan -/

/-- Steps that add all of some groups to what is placed, each by the conditions that link it to what is placed then. -/
inductive PlanFrom (joins : List JoinCondition) : List String → List (List String) → List JoinStep → Prop
  | nil (placed : List String) : PlanFrom joins placed [] []
  | cons {placed group : List String} {groups rest : List (List String)} {steps : List JoinStep}
      (perm : groups.Perm (group :: rest)) (tail : PlanFrom joins (placed ++ group) rest steps) :
      PlanFrom joins placed groups (JoinStep.ofConditions group (conditionsBetween joins placed group) :: steps)

theorem planFrom_joinSteps (joins : List JoinCondition) (placed : List String) (groups : List (List String)) :
    PlanFrom joins placed groups (joinSteps joins placed groups) := by
  fun_induction joinSteps joins placed groups with
  | case1 placed => exact .nil placed
  | case2 placed first others group ih =>
    exact .cons (List.perm_cons_erase (nextGroup_mem joins placed first others)) ih

namespace JoinStep

@[simp] theorem nodes_ofConditions (nodes : List String) (conditions : List JoinCondition) :
    (ofConditions nodes conditions).nodes = nodes := by
  cases conditions <;> rfl

theorem pairs_ofConditions (nodes : List String) (conditions : List JoinCondition) :
    (ofConditions nodes conditions).pairs = conditions.map fun c => (c.toward nodes).pair := by
  cases conditions <;> rfl

theorem kind_ofConditions_eq_none {nodes : List String} {conditions : List JoinCondition} :
    (ofConditions nodes conditions).kind = none ↔ conditions = [] := by
  cases conditions <;> simp [ofConditions]

end JoinStep

/-- Whichever group is placed next, the tables are the same in the end. -/
theorem append_flatten_perm (placed : List String) {group : List String} {groups rest : List (List String)}
    (perm : groups.Perm (group :: rest)) : (placed ++ groups.flatten).Perm ((placed ++ group) ++ rest.flatten) := by
  rw [List.append_assoc, ← List.flatten_cons]
  exact perm.flatten.append_left placed

/--
A run of a plan places all tables of its groups, and it keeps what every step keeps: of the steps that are left, of the
tables that are placed and of the rows that are joined.
-/
theorem PlanFrom.exists_of_run {joins : List JoinCondition} {relation : List String → NamedRows} {placed : List String}
    {groups : List (List String)} {steps : List JoinStep} {start joined : NamedRows}
    {motive : List JoinStep → List String → NamedRows → Prop} (plan : PlanFrom joins placed groups steps)
    (run : JoinRun relation start steps joined) (hnodup : (placed ++ groups.flatten).Nodup)
    (hstart : motive steps placed start)
    (hstep : ∀ {placed group : List String} {steps : List JoinStep} {start next : NamedRows}, group ∈ groups →
      (placed ++ group).Nodup →
      (JoinStep.ofConditions group (conditionsBetween joins placed group)).Attaches start (relation group) next →
      motive (JoinStep.ofConditions group (conditionsBetween joins placed group) :: steps) placed start →
        motive steps (placed ++ group) next) :
    ∃ all, all.Perm (placed ++ groups.flatten) ∧ motive [] all joined := by
  induction plan generalizing start with
  | nil placed =>
    cases run
    exact ⟨placed, by simp, hstart⟩
  | @cons placed group groups rest steps perm tail ih =>
    obtain _ | ⟨attaches, run⟩ := run
    rw [JoinStep.nodes_ofConditions] at attaches
    have hflatten := append_flatten_perm placed perm
    have hnodup := hflatten.nodup_iff.mp hnodup
    have hnext := hstep (perm.mem_iff.mpr List.mem_cons_self) (hnodup.sublist (List.sublist_append_left _ _)) attaches
      hstart
    obtain ⟨all, hall, hjoined⟩ := ih run hnodup hnext fun hg => hstep (perm.mem_iff.mpr (List.mem_cons_of_mem _ hg))
    exact ⟨all, hall.trans hflatten.symm, hjoined⟩

end QueryFederation

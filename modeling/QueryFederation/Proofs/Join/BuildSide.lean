import QueryFederation.Proofs.Join.Run
import QueryFederation.Proofs.Outcome

/-!
# Neither the build side nor the order of rows shows

A hash join puts its smaller side into buckets. As long as the clock runs this is of no account: whichever side it is,
and in whatever order the rows of both are, the join returns the same rows in some order, or fails. So does a plan, step
by step, since the rows of a step that come in another order are joined with the next group all the same.
-/

namespace QueryFederation

open Join

/-! ### Computations that tick -/

/-- Do two computations, while their clocks run, come back alike and leave their clocks running? -/
def Timed.Alike {α : Type} (R : α → α → Prop) (x y : Timed α) : Prop :=
  ∀ clock clock' : Clock, clock.isExpired = false → clock'.isExpired = false →
    Outcome.Alike (fun p q => R p.1 q.1 ∧ p.2.isExpired = false ∧ q.2.isExpired = false) (x clock) (y clock')

namespace Timed.Alike

variable {α β : Type} {R : α → α → Prop} {S : β → β → Prop} {x y : Timed α}

theorem pure {a b : α} (h : R a b) : Timed.Alike R (pure a) (pure b) :=
  fun _ _ hclock hclock' => .ok ⟨h, hclock, hclock'⟩

theorem bind {f g : α → Timed β} (h : Timed.Alike R x y) (hnext : ∀ a b, R a b → Timed.Alike S (f a) (g b)) :
    Timed.Alike S (x >>= f) (y >>= g) :=
  fun clock clock' hclock hclock' => (h clock clock' hclock hclock').bind fun p q hpq =>
    hnext p.1 q.1 hpq.1 p.2 q.2 hpq.2.1 hpq.2.2

theorem foldlM {f g : α → β → Timed α} {items : List β}
    (h : ∀ item ∈ items, ∀ a b, R a b → Timed.Alike R (f a item) (g b item)) {start start' : α} (hstart : R start start') :
    Timed.Alike R (items.foldlM f start) (items.foldlM g start') := by
  induction items generalizing start start' with
  | nil => exact .pure hstart
  | cons item items ih =>
    obtain ⟨hitem, hitems⟩ := List.forall_mem_cons.mp h
    rw [List.foldlM_cons, List.foldlM_cons]
    exact (hitem start start' hstart).bind fun next next' hnext => ih hitems hnext

theorem tickEach (items items' : List β) :
    Timed.Alike (fun _ _ => True) (Clock.tickEach items) (Clock.tickEach items') := by
  intro clock clock' hclock hclock'
  obtain ⟨_, hticks, hrunning⟩ := Clock.tickEach_of_running hclock items
  obtain ⟨_, hticks', hrunning'⟩ := Clock.tickEach_of_running hclock' items'
  rw [hticks, hticks']
  exact .ok ⟨trivial, hrunning, hrunning'⟩

theorem answer (h : Timed.Alike R x y) : Outcome.Alike R (x.answer false) (y.answer false) := by
  have hstart := h ⟨false, 0⟩ ⟨false, 0⟩ rfl rfl
  rw [Timed.answer, Timed.answer]
  generalize x ⟨false, 0⟩ = outcome at hstart ⊢
  generalize y ⟨false, 0⟩ = outcome' at hstart ⊢
  cases hstart with
  | ok hrows => exact .ok hrows.1
  | error fault fault' => exact .error fault fault'

end Timed.Alike

/-! ### Joins -/

section

variable {left right left' right' : List Row} {columns : List String} {pairs : List (String × String)}

theorem Row.keyKinds_perm (columns : List String) (hperm : left.Perm left') (place : Nat) :
    (Row.keyKinds columns place left).Perm (Row.keyKinds columns place left') :=
  (hperm.filterMap _).filterMap _

theorem Row.KindsApart.of_perm (h : Row.KindsApart pairs left right) (hleft : left.Perm left')
    (hright : right.Perm right') : Row.KindsApart pairs left' right' := by
  obtain ⟨place, hplace, hsome, hsome', hdisjoint⟩ := h
  have hkinds := Row.keyKinds_perm (pairs.map (·.1)) hleft place
  have hkinds' := Row.keyKinds_perm (pairs.map (·.2)) hright place
  refine ⟨place, hplace, fun hnil => hsome ?_, fun hnil => hsome' ?_, fun kind hkind hkind' => ?_⟩
  · exact List.perm_nil.mp (hnil ▸ hkinds)
  · exact List.perm_nil.mp (hnil ▸ hkinds')
  · exact hdisjoint (hkinds.mem_iff.mpr hkind) (hkinds'.mem_iff.mpr hkind')

theorem Row.AreHashable.of_perm (h : Row.AreHashable columns left) (hleft : left.Perm left') :
    Row.AreHashable columns left' :=
  fun row hrow => h row (hleft.mem_iff.mpr hrow)

/-- If a hash join returns, so does one of the same rows in another order, whichever of its sides is in the buckets. -/
theorem exists_hashJoinOn_of_perm (buildsRight buildsRight' : Bool) {kind : JoinKind}
    {leftColumns rightColumns : List String} {clock final clock' : Clock} {rows : List Row}
    (hclock : clock.isExpired = false) (hclock' : clock'.isExpired = false) (hleft : left.Perm left')
    (hright : right.Perm right')
    (h : hashJoinOn buildsRight left right pairs kind leftColumns rightColumns clock = .ok (rows, final)) :
    ∃ rows' final',
      hashJoinOn buildsRight' left' right' pairs kind leftColumns rightColumns clock' = .ok (rows', final')
      ∧ rows.Perm rows' ∧ final.isExpired = false ∧ final'.isExpired = false := by
  obtain ⟨hhashable, hhashable', hrows⟩ := hashJoinOn_eq_ok h
  have hmeet : ¬Row.KindsApart pairs left right := by
    intro hapart
    obtain ⟨_, _, _, _, herror⟩ :=
      hashJoinOn_of_kindsApart buildsRight kind leftColumns rightColumns clock hclock hapart
    rw [h] at herror
    cases herror
  obtain ⟨_, _, hagain, hfinal⟩ :=
    hashJoinOn_of_running buildsRight hclock hhashable hhashable' hmeet kind leftColumns rightColumns
  obtain ⟨rows', final', hother, hfinal'⟩ := hashJoinOn_of_running buildsRight' hclock' (hhashable.of_perm hleft)
    (hhashable'.of_perm hright) (fun hapart => hmeet (hapart.of_perm hleft.symm hright.symm)) kind leftColumns
    rightColumns
  rw [h] at hagain
  cases hagain
  -- Either join is compared with nested loops, for which neither side is the one in the buckets.
  have hrows' := (hashJoinOn_eq_ok hother).2.2
  refine ⟨rows', final', hother, ?_, hfinal, hfinal'⟩
  exact hrows.trans ((nestedLoop_perm hleft hright pairs kind leftColumns rightColumns).trans hrows'.symm)

theorem hashJoinOn_alike (buildsRight buildsRight' : Bool) (hleft : left.Perm left') (hright : right.Perm right')
    (kind : JoinKind) (leftColumns rightColumns : List String) :
    Timed.Alike List.Perm (hashJoinOn buildsRight left right pairs kind leftColumns rightColumns)
      (hashJoinOn buildsRight' left' right' pairs kind leftColumns rightColumns) := by
  intro clock clock' hclock hclock'
  refine .of_exists (fun result h => ?_) (fun result h => ?_)
  · obtain ⟨rows', final', hother, hrelated⟩ :=
      exists_hashJoinOn_of_perm buildsRight buildsRight' hclock hclock' hleft hright h
    exact ⟨(rows', final'), hother, hrelated⟩
  · obtain ⟨rows, final, hother, -⟩ :=
      exists_hashJoinOn_of_perm buildsRight' buildsRight hclock' hclock hleft.symm hright.symm h
    exact ⟨(rows, final), hother⟩

theorem crossJoin_alike (hleft : left.Perm left') (hright : right.Perm right') :
    Timed.Alike List.Perm (crossJoin left right) (crossJoin left' right') :=
  (Timed.Alike.tickEach _ _).bind fun _ _ _ => .pure (crossProduct_perm hleft hright)

end

/-! ### Plans -/

/-- Does the right side of a join go into the buckets, and not the left, given the rows of both? -/
abbrev BuildSide := List Row → List Row → Bool

def BuildSide.smaller : BuildSide := fun left right => right.length ≤ left.length

def JoinStep.rowsOn (side : BuildSide) (step : JoinStep) (placed added : NamedRows) : Timed (List Row) :=
  match step.kind with
  | none => crossJoin placed.rows added.rows
  | some kind => hashJoinOn (side placed.rows added.rows) placed.rows added.rows (step.pairs.map (·.names)) kind
    placed.columns added.columns

def JoinStep.attachOn (side : BuildSide) (step : JoinStep) (placed added : NamedRows) : Timed NamedRows := do
  return ⟨placed.columns ++ added.columns, ← step.rowsOn side placed added⟩

/-- Carries out a plan, with one side of every step in the buckets. -/
def JoinPlan.executeOn (side : BuildSide) (plan : JoinPlan) (relation : List String → NamedRows) : Timed NamedRows :=
  plan.steps.foldlM (fun placed step => step.attachOn side placed (relation step.nodes)) (relation plan.root)

theorem JoinPlan.execute_eq_executeOn : JoinPlan.execute = JoinPlan.executeOn .smaller := by
  have hattach : JoinStep.attach = JoinStep.attachOn .smaller := by
    funext step placed added
    rw [JoinStep.attach, JoinStep.attachOn, JoinStep.rows, JoinStep.rowsOn]
    cases step.kind with
    | none => rfl
    | some kind =>
      dsimp only
      rw [hashJoin_eq_hashJoinOn]
      rfl
  funext plan relation
  rw [JoinPlan.execute, hattach]
  rfl

/-- Are these the same rows in some order, under the same columns? -/
structure NamedRows.IsRearranged (relation relation' : NamedRows) : Prop where
  columns : relation.columns = relation'.columns
  rows : relation.rows.Perm relation'.rows

theorem JoinStep.attachOn_alike (side side' : BuildSide) (step : JoinStep) {placed placed' added added' : NamedRows}
    (hplaced : placed.IsRearranged placed') (hadded : added.IsRearranged added') :
    Timed.Alike NamedRows.IsRearranged (step.attachOn side placed added) (step.attachOn side' placed' added') := by
  have hrows : Timed.Alike List.Perm (step.rowsOn side placed added) (step.rowsOn side' placed' added') := by
    rw [JoinStep.rowsOn, JoinStep.rowsOn, hplaced.columns, hadded.columns]
    cases step.kind with
    | none => exact crossJoin_alike hplaced.rows hadded.rows
    | some kind => exact hashJoinOn_alike _ _ hplaced.rows hadded.rows kind _ _
  exact hrows.bind fun rows rows' hperm => .pure ⟨by rw [hplaced.columns, hadded.columns], hperm⟩

theorem JoinPlan.executeOn_alike (side side' : BuildSide) (plan : JoinPlan)
    {relation relation' : List String → NamedRows} (h : ∀ nodes, (relation nodes).IsRearranged (relation' nodes)) :
    Timed.Alike NamedRows.IsRearranged (plan.executeOn side relation) (plan.executeOn side' relation') :=
  Timed.Alike.foldlM (fun step _ _ _ hplaced => step.attachOn_alike side side' hplaced (h step.nodes)) (h plan.root)

end QueryFederation

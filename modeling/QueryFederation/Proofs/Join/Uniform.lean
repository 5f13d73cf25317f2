import QueryFederation.Proofs.Join.Run
import QueryFederation.Proofs.Row.Merge

/-!
# Rows of one number

Joins of rows in which every value is null or one and the same number do not fail: all keys are hashable, and all that
are no nulls are numbers. So every plan can be carried out on such rows, and what comes out of it are such rows again.
-/

namespace QueryFederation

/-- Is every value null or the number one? -/
def Row.IsUniform (row : Row) : Prop := ∀ entry ∈ row, entry.2 = .null ∨ entry.2 = .integer 1

def NamedRows.IsUniform (relation : NamedRows) : Prop := ∀ row ∈ relation.rows, row.IsUniform

namespace Row.IsUniform

variable {row left right : Row} {rows : List Row}

theorem get (h : row.IsUniform) (key : String) : Row.get row key = .null ∨ Row.get row key = .integer 1 := by
  rw [Row.get]
  cases hlookup : row.lookup key with
  | none => exact Or.inl rfl
  | some v => exact h _ (Entries.mem_of_lookup_eq_some hlookup)

theorem merge (hleft : left.IsUniform) (hright : right.IsUniform) : Row.IsUniform (Entries.merge left right) :=
  fun entry hentry => (Entries.mem_of_mem_merge hentry).elim (hleft entry) (hright entry)

theorem ofPairs {pairs : List (String × Value)} (h : ∀ p ∈ pairs, p.2 = .null ∨ p.2 = .integer 1) :
    Row.IsUniform (Entries.ofPairs pairs) := by
  rw [Entries.ofPairs_eq_merge]
  exact merge (List.forall_mem_nil _) h

theorem nulls (columns : List String) : (Row.nulls columns).IsUniform := by
  refine ofPairs fun p hp => ?_
  obtain ⟨_, -, rfl⟩ := List.mem_map.mp hp
  exact Or.inl rfl

theorem project (h : row.IsUniform) (names : List String) : (Row.project names row).IsUniform := by
  refine ofPairs fun p hp => ?_
  obtain ⟨name, -, rfl⟩ := List.mem_map.mp hp
  exact h.get name

theorem areHashable (h : ∀ row ∈ rows, row.IsUniform) (columns : List String) : Row.AreHashable columns rows := by
  refine Row.areHashable_of_forall fun row hrow column _ => ?_
  rcases (h row hrow).get column with heq | heq <;> rw [heq] <;> rfl

theorem eq_number_of_mem_keyKinds (h : ∀ row ∈ rows, row.IsUniform) {columns : List String} {place : Nat} {kind : String}
    (hkind : kind ∈ Row.keyKinds columns place rows) : kind = "number" := by
  rw [Row.keyKinds, List.mem_filterMap] at hkind
  obtain ⟨key, hkey, hplace⟩ := hkind
  obtain ⟨row, hrow, hkey⟩ := List.mem_filterMap.mp hkey
  obtain ⟨v, hv, rfl⟩ := Option.map_eq_some_iff.mp hplace
  rw [Key.ofRow] at hkey
  split at hkey
  · cases hkey
  · rename_i hnone
    obtain rfl := Option.some.inj hkey
    have hmem := List.mem_of_getElem? hv
    obtain ⟨column, -, rfl⟩ := List.mem_map.mp hmem
    rcases (h row hrow).get column with heq | heq
    · exact absurd (List.any_eq_true.mpr ⟨_, hmem, by rw [heq]; rfl⟩) hnone
    · rw [heq]
      rfl

theorem not_kindsApart {left right : List Row} (hleft : ∀ row ∈ left, row.IsUniform) (hright : ∀ row ∈ right, row.IsUniform)
    (pairs : List (String × String)) : ¬Row.KindsApart pairs left right := by
  rintro ⟨place, -, hne, hne', hdisjoint⟩
  obtain ⟨kind, hkind⟩ := List.exists_mem_of_ne_nil _ hne
  obtain ⟨kind', hkind'⟩ := List.exists_mem_of_ne_nil _ hne'
  rw [eq_number_of_mem_keyKinds hleft hkind] at hkind
  rw [eq_number_of_mem_keyKinds hright hkind'] at hkind'
  exact hdisjoint hkind hkind'

end Row.IsUniform

/-! ### Carrying out plans -/

variable {placed added : NamedRows} {clock : Clock}

theorem JoinStep.exists_attach_of_isUniform (step : JoinStep) (hclock : clock.isExpired = false) (hplaced : placed.IsUniform)
    (hadded : added.IsUniform) : ∃ next final, step.attach placed added clock = .ok (next, final)
      ∧ final.isExpired = false ∧ next.IsUniform := by
  have hrows : ∃ rows final, step.rows placed added clock = .ok (rows, final) ∧ final.isExpired = false := by
    rw [JoinStep.rows]
    cases step.kind with
    | none =>
      obtain ⟨final, hticks, hrunning⟩ := Clock.tickEach_of_running hclock
        (placed.rows.flatMap fun l => added.rows.map fun r => Entries.merge l r)
      exact ⟨_, final, Timed.bind_of_ok hticks, hrunning⟩
    | some kind =>
      exact hashJoin_of_running hclock (Row.IsUniform.areHashable hplaced _) (Row.IsUniform.areHashable hadded _)
        (Row.IsUniform.not_kindsApart hplaced hadded _) kind _ _
  obtain ⟨rows, final, hrows, hrunning⟩ := hrows
  have hattach : step.attach placed added clock = .ok (⟨placed.columns ++ added.columns, rows⟩, final) :=
    Timed.bind_of_ok hrows
  refine ⟨_, final, hattach, hrunning, fun row hrow => ?_⟩
  obtain ⟨l, r, rfl, hl, hr⟩ :=
    JoinStep.exists_of_mem_expected ((JoinStep.attaches_of_attach hattach).rows.mem_iff.mp hrow)
  have hl : Row.IsUniform l := hl.elim (hplaced l) fun heq => heq ▸ .nulls _
  exact hl.merge (hr.elim (hadded r) fun heq => heq ▸ .nulls _)

theorem JoinPlan.exists_execute_of_isUniform (plan : JoinPlan) {relation : List String → NamedRows}
    (h : ∀ group, (relation group).IsUniform) :
    ∃ joined, (plan.execute relation).answer false = .ok joined ∧ joined.IsUniform := by
  have hfold : ∀ (steps : List JoinStep) (placed : NamedRows) (clock : Clock), clock.isExpired = false → placed.IsUniform →
      ∃ joined final, steps.foldlM (fun placed step => step.attach placed (relation step.nodes)) placed clock
        = .ok (joined, final) ∧ joined.IsUniform := by
    intro steps
    induction steps with
    | nil => exact fun placed clock _ hplaced => ⟨placed, clock, rfl, hplaced⟩
    | cons step steps ih =>
      intro placed clock hclock hplaced
      obtain ⟨next, final, hattach, hrunning, hnext⟩ := step.exists_attach_of_isUniform hclock hplaced (h step.nodes)
      rw [List.foldlM_cons, Timed.bind_of_ok hattach]
      exact ih next final hrunning hnext
  obtain ⟨joined, final, hok, hjoined⟩ := hfold plan.steps (relation plan.root) ⟨false, 0⟩ rfl (h plan.root)
  exact ⟨joined, Timed.answer_eq_ok.mpr ⟨final, hok⟩, hjoined⟩

end QueryFederation

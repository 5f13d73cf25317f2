import QueryFederation.Proofs.Join.Plan

/-!
# Conditions the other way round

A join condition can be written from either of its tables. `Mirrors` says that two lists state the same conditions one
by one, each either alike or with its ends and its kind turned round. Whether a condition links tables does not tell, so
both lists spread alike, have the same connected parts and lead to the same order of groups. A step reads its conditions
from the placed side, and that fixes which way round they are: one end is placed and the other is added, never both.
-/

namespace QueryFederation

namespace JoinCondition

variable {j : JoinCondition} {left right tables : List String}

@[simp] theorem reversed_reversed (j : JoinCondition) : j.reversed.reversed = j := by
  cases j
  simp [reversed]

@[simp] theorem links_reversed : j.reversed.links left right = j.links left right := Bool.or_comm _ _

@[simp] theorem isWithin_reversed : j.reversed.isWithin tables = j.isWithin tables := Bool.and_comm _ _

/-- A condition between two tables is put in the same order whichever way round it is written. -/
theorem inOrder_reversed (h : j.leftTable ≠ j.rightTable) : j.reversed.inOrder = j.inOrder := by
  rw [inOrder, inOrder]
  rcases lt_or_gt_of_ne h with hlt | hgt
  · have hnot : ¬j.reversed.leftTable < j.reversed.rightTable := not_lt_of_gt hlt
    rw [if_neg hnot, if_pos hlt, reversed_reversed]
  · have hlt : j.reversed.leftTable < j.reversed.rightTable := hgt
    rw [if_pos hlt, if_neg (not_lt_of_gt hgt)]

/-- A condition that links what is placed to what is added reads the same from the placed side. -/
theorem toward_reversed {placed added : List String} (hdisjoint : placed.Disjoint added)
    (hlinks : j.links placed added = true) : j.reversed.toward added = j.toward added := by
  simp only [links, Bool.or_eq_true, Bool.and_eq_true, List.contains_iff_mem] at hlinks
  simp only [toward, List.contains_iff_mem]
  rcases hlinks with ⟨hleft, hright⟩ | ⟨hright, hleft⟩
  · have hout : j.reversed.rightTable ∉ added := fun hmem => hdisjoint hleft hmem
    rw [if_neg hout, if_pos hright, reversed_reversed]
  · have hin : j.reversed.rightTable ∈ added := hleft
    rw [if_pos hin, if_neg fun hmem => hdisjoint hright hmem]

end JoinCondition

/-- The same conditions one by one, each of them either way round. -/
def Mirrors (joins joins' : List JoinCondition) : Prop :=
  List.Forall₂ (fun j j' => j' = j ∨ j' = j.reversed) joins joins'

namespace Mirrors

variable {joins joins' : List JoinCondition} (h : Mirrors joins joins')

include h

theorem symm : Mirrors joins' joins := by
  refine h.flip.imp fun j' j hj => ?_
  rcases hj with rfl | rfl
  · exact Or.inl rfl
  · exact Or.inr (JoinCondition.reversed_reversed j).symm

theorem filter {p : JoinCondition → Bool} (hp : ∀ j, p j.reversed = p j) :
    Mirrors (joins.filter p) (joins'.filter p) := by
  refine List.rel_filter ?_ h
  rintro j _ (rfl | rfl)
  · rfl
  · exact iff_of_eq (congrArg (· = true) (hp j).symm)

theorem map_eq {α : Type} {f : JoinCondition → α} (hf : ∀ j ∈ joins, f j.reversed = f j) :
    joins'.map f = joins.map f := by
  induction h with
  | nil => rfl
  | cons hhead _ ih =>
    obtain ⟨hfirst, hothers⟩ := List.forall_mem_cons.mp hf
    rw [List.map_cons, List.map_cons, ih hothers]
    rcases hhead with rfl | rfl
    · rfl
    · rw [hfirst]

theorem isEmpty_eq : joins'.isEmpty = joins.isEmpty := by
  cases h <;> rfl

theorem conditionsBetween (left right : List String) :
    Mirrors (conditionsBetween joins left right) (conditionsBetween joins' left right) :=
  h.filter fun _ => JoinCondition.links_reversed

/-! ### Connected tables -/

theorem touches_eq : touches joins' = touches joins := by
  funext tables table
  have hlinks := h.map_eq (f := (·.links tables [table])) fun _ _ => JoinCondition.links_reversed
  have hany := congrArg (List.any · id) hlinks
  rwa [List.any_map, List.any_map] at hany

theorem spread_eq (found rest : List String) : spread joins' found rest = spread joins found rest := by
  fun_induction spread joins found rest with
  | case1 found rest hnone =>
    rw [spread, linked, h.touches_eq]
    exact if_pos hnone
  | case2 found rest hsome ih =>
    rw [spread, linked, unlinked, h.touches_eq]
    exact (if_neg hsome).trans ih

theorem components_eq (tables : List String) : components joins' tables = components joins tables := by
  fun_induction components joins tables with
  | case1 => rw [components]
  | case2 table rest found ih =>
    rw [components, h.spread_eq]
    exact congrArg (_ :: ·) ih

/-! ### Steps of a plan -/

theorem nextGroup_eq (placed first : List String) (others : List (List String)) :
    nextGroup joins' placed first others = nextGroup joins placed first others := by
  have hlinked : (fun group => !(QueryFederation.conditionsBetween joins' placed group).isEmpty)
      = fun group => !(QueryFederation.conditionsBetween joins placed group).isEmpty := by
    funext group
    rw [(h.conditionsBetween placed group).isEmpty_eq]
  rw [nextGroup, nextGroup, hlinked]

end Mirrors

namespace JoinStep

/-- The step with its conditions turned to the placed side, which is how it reads them. -/
def facing (step : JoinStep) : JoinStep := { step with conditions := step.conditions.map (·.toward step.nodes) }

variable {nodes : List String} {conditions conditions' : List JoinCondition}

theorem facing_ofConditions (hfacing : conditions'.map (·.toward nodes) = conditions.map (·.toward nodes)) :
    (ofConditions nodes conditions').facing = (ofConditions nodes conditions).facing := by
  match conditions, conditions', hfacing with
  | [], [], _ => rfl
  | lead :: rest, lead' :: rest', hfacing =>
    have hkind : (lead'.toward nodes).kind = (lead.toward nodes).kind := congrArg (·.kind) (List.cons.inj hfacing).1
    have hpairs := congrArg (List.map (·.pair)) hfacing
    rw [List.map_map, List.map_map] at hpairs
    exact JoinStep.mk.injEq .. |>.mpr ⟨rfl, congrArg some hkind, hpairs, hfacing⟩

end JoinStep

namespace JoinPlan

def facing (plan : JoinPlan) : JoinPlan := { plan with steps := plan.steps.map (·.facing) }

theorem extendedFrom_facing (placed : List String) (steps : List JoinStep) :
    extendedFrom placed (steps.map (·.facing)) = extendedFrom placed steps := by
  induction steps generalizing placed with
  | nil => rfl
  | cons step steps ih => exact congrArg (extendedBy placed step ++ ·) (ih (placed ++ step.nodes))

/-- Whatever is read off the nodes of the steps that cross is the same. -/
theorem map_crossed_facing {α : Type} (plan : JoinPlan) (f : List String → α) :
    (plan.facing.steps.filter (·.isCross)).map (fun step => f step.nodes)
      = (plan.steps.filter (·.isCross)).map fun step => f step.nodes := by
  rw [facing, List.filter_map, List.map_map]
  rfl

@[simp] theorem nullSupplying_facing (plan : JoinPlan) : plan.facing.nullSupplying = plan.nullSupplying :=
  congrArg distinctItems (extendedFrom_facing plan.root plan.steps)

end JoinPlan

namespace Mirrors

variable {joins joins' : List JoinCondition} {placed group root : List String} {groups : List (List String)}
  (h : Mirrors joins joins')

include h

theorem facing_ofConditions (hdisjoint : placed.Disjoint group) :
    (JoinStep.ofConditions group (QueryFederation.conditionsBetween joins' placed group)).facing
      = (JoinStep.ofConditions group (QueryFederation.conditionsBetween joins placed group)).facing :=
  JoinStep.facing_ofConditions ((h.conditionsBetween placed group).map_eq fun _ hj =>
    JoinCondition.toward_reversed hdisjoint (List.mem_filter.mp hj).2)

theorem facing_joinSteps (hnodup : (placed ++ groups.flatten).Nodup) :
    (joinSteps joins' placed groups).map (·.facing) = (joinSteps joins placed groups).map (·.facing) := by
  fun_induction joinSteps joins placed groups with
  | case1 placed => rw [joinSteps]
  | case2 placed first others group ih =>
    have hnext := List.perm_cons_erase (nextGroup_mem joins placed first others)
    have hnodup := (append_flatten_perm placed hnext).nodup_iff.mp hnodup
    have hdisjoint : placed.Disjoint group :=
      List.disjoint_of_nodup_append (hnodup.sublist (List.sublist_append_left _ _))
    rw [joinSteps, h.nextGroup_eq, List.map_cons, List.map_cons, h.facing_ofConditions hdisjoint]
    exact congrArg (_ :: ·) (ih hnodup)

/-- Groups of distinct tables are joined alike. -/
theorem facing_ofGroups {position : Nat} (hnodup : groups.flatten.Nodup) (hroot : groups[position]? = some root) :
    (JoinPlan.ofGroups joins' root (groups.eraseIdx position)).facing
      = (JoinPlan.ofGroups joins root (groups.eraseIdx position)).facing := by
  obtain ⟨hlt, rfl⟩ := List.getElem?_eq_some_iff.mp hroot
  have hperm := (List.getElem_cons_eraseIdx_perm hlt).flatten
  exact congrArg (JoinPlan.mk _) (h.facing_joinSteps (hperm.nodup_iff.mpr hnodup))

end Mirrors

end QueryFederation

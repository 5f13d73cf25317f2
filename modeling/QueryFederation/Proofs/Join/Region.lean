import Mathlib.Data.String.Basic
import QueryFederation.Proofs.Join.Plan

/-!
# Regions of a tree of joins

Where the joins of some tables make up a tree, what a plan fills can often be told without the plan. A region is a
connected set of tables such that every join that leads out of it keeps its inner side. The rows that fill a region are
kept by the joins around it; those further away do not matter as long as joins associate: a join that can leave a table
empty is followed by joins that keep what has this table empty.

If joins associate, a plan fills exactly the regions, in whichever order and in whichever groups it goes.
-/

namespace QueryFederation

variable {joins : List JoinCondition} {placed group : List String} {s t : Finset String} {a b u v : String}

/-! ### Which side a join keeps -/

/-- Is the condition between the two tables, and of this kind if it is read from the first to the second? -/
def JoinCondition.Leads (j : JoinCondition) (a b : String) (kind : JoinKind) : Prop :=
  (j.leftTable = a ∧ j.rightTable = b ∧ j.kind = kind) ∨ (j.rightTable = a ∧ j.leftTable = b ∧ j.kind.flip = kind)

/-- Are conditions between the same tables of the same kind? -/
def KindsAgree (joins : List JoinCondition) : Prop :=
  ∀ j ∈ joins, ∀ j' ∈ joins, ∀ a b kind kind', j.Leads a b kind → j'.Leads a b kind' → kind = kind'

/-- Do joins keep the rows of the first table that have no partner in the second one? -/
def Keeps (joins : List JoinCondition) (a b : String) : Prop :=
  ∃ j ∈ joins, ∃ kind, j.Leads a b kind ∧ kind.keepsLeft = true

/--
Whatever leaves a table empty is kept by the other joins of this table: if the rows of `b` are kept without a row of
`a`, the rows of `a` are kept without one of any other table `c`.
-/
def Associate (joins : List JoinCondition) : Prop :=
  ∀ a b c, Keeps joins b a → Joined joins a c → b ≠ c → Keeps joins a c

namespace JoinCondition

variable {j : JoinCondition} {kind : JoinKind}

theorem Leads.joined (h : j.Leads a b kind) (hj : j ∈ joins) : Joined joins a b :=
  ⟨j, hj, h.imp (fun h => ⟨h.1, h.2.1⟩) fun h => ⟨h.1, h.2.1⟩⟩

theorem Leads.flip (h : j.Leads a b kind) : j.Leads b a kind.flip := by
  rcases h with ⟨rfl, rfl, rfl⟩ | ⟨rfl, rfl, rfl⟩
  · exact Or.inr ⟨rfl, rfl, rfl⟩
  · exact Or.inl ⟨rfl, rfl, (JoinKind.flip_flip _).symm⟩

theorem Leads.inOrder (h : j.Leads a b kind) (hlt : a < b) :
    j.inOrder.leftTable = a ∧ j.inOrder.rightTable = b ∧ j.inOrder.kind = kind := by
  rcases h with ⟨rfl, rfl, rfl⟩ | ⟨rfl, rfl, rfl⟩
  · rw [JoinCondition.inOrder, if_pos hlt]
    exact ⟨rfl, rfl, rfl⟩
  · rw [JoinCondition.inOrder, if_neg (lt_asymm hlt)]
    exact ⟨rfl, rfl, rfl⟩

theorem exists_leads_toward (hdisjoint : placed.Disjoint group) (hj : j ∈ conditionsBetween joins placed group) :
    ∃ a ∈ placed, ∃ b ∈ group, j.Leads a b (j.toward group).kind := by
  obtain ⟨-, ⟨hl, hr⟩ | ⟨hr, hl⟩⟩ := mem_conditionsBetween.mp hj
  · refine ⟨_, hl, _, hr, Or.inl ⟨rfl, rfl, ?_⟩⟩
    rw [toward, if_pos (List.contains_iff_mem.mpr hr)]
  · refine ⟨_, hr, _, hl, Or.inr ⟨rfl, rfl, ?_⟩⟩
    rw [toward, if_neg fun hmem => hdisjoint hr (List.contains_iff_mem.mp hmem)]
    rfl

end JoinCondition

theorem Keeps.joined (h : Keeps joins a b) : Joined joins a b := by
  obtain ⟨j, hj, kind, hleads, -⟩ := h
  exact hleads.joined hj

theorem keeps_iff : Keeps joins a b ↔ ∃ j ∈ joins, j.leftTable = a ∧ j.rightTable = b ∧ j.kind.keepsLeft = true
    ∨ j.rightTable = a ∧ j.leftTable = b ∧ j.kind.keepsRight = true := by
  refine exists_congr fun j => and_congr_right fun _ => ⟨?_, ?_⟩
  · rintro ⟨kind, ⟨hl, hr, rfl⟩ | ⟨hr, hl, rfl⟩, hkeeps⟩
    · exact Or.inl ⟨hl, hr, hkeeps⟩
    · exact Or.inr ⟨hr, hl, j.kind.keepsLeft_flip ▸ hkeeps⟩
  · rintro (⟨hl, hr, hkeeps⟩ | ⟨hr, hl, hkeeps⟩)
    · exact ⟨_, Or.inl ⟨hl, hr, rfl⟩, hkeeps⟩
    · exact ⟨_, Or.inr ⟨hr, hl, rfl⟩, j.kind.keepsLeft_flip.trans hkeeps⟩

instance (joins : List JoinCondition) (a b : String) : Decidable (Keeps joins a b) := decidable_of_iff _ keeps_iff.symm

/-- Only pairs of conditions need to be looked at to tell whether joins associate. -/
theorem associate_iff : Associate joins ↔ ∀ j ∈ joins, ∀ j' ∈ joins, ∀ b ∈ [j.leftTable, j.rightTable],
    ∀ a ∈ [j'.leftTable, j'.rightTable], ∀ c ∈ [j'.leftTable, j'.rightTable],
      Keeps joins b a → Joined joins a c → b ≠ c → Keeps joins a c := by
  refine ⟨fun h j _ j' _ b _ a _ c _ => h a b c, fun h a b c hkeeps hjoined => ?_⟩
  obtain ⟨j, hj, hends⟩ := hkeeps.joined
  obtain ⟨j', hj', hends'⟩ := hjoined
  have hb : b ∈ [j.leftTable, j.rightTable] := by
    rcases hends with ⟨rfl, -⟩ | ⟨rfl, -⟩ <;> simp
  have hac : a ∈ [j'.leftTable, j'.rightTable] ∧ c ∈ [j'.leftTable, j'.rightTable] := by
    rcases hends' with ⟨rfl, rfl⟩ | ⟨rfl, rfl⟩ <;> simp
  exact h j hj j' hj' b hb a hac.1 c hac.2 hkeeps ⟨j', hj', hends'⟩

instance (joins : List JoinCondition) : Decidable (Associate joins) := decidable_of_iff _ associate_iff.symm

/-- Kinds agree if those of the conditions in order do. -/
theorem kindsAgree_of_inOrder (hends : ∀ j ∈ joins, j.leftTable ≠ j.rightTable)
    (h : ∀ j ∈ joins, ∀ j' ∈ joins, j.inOrder.leftTable = j'.inOrder.leftTable →
      j.inOrder.rightTable = j'.inOrder.rightTable → j.inOrder.kind = j'.inOrder.kind) : KindsAgree joins := by
  have hlt : ∀ j ∈ joins, ∀ j' ∈ joins, ∀ a b kind kind', a < b → j.Leads a b kind → j'.Leads a b kind' → kind = kind' := by
    intro j hj j' hj' a b kind kind' hlt hleads hleads'
    obtain ⟨hleft, hright, rfl⟩ := hleads.inOrder hlt
    obtain ⟨hleft', hright', rfl⟩ := hleads'.inOrder hlt
    exact h j hj j' hj' (hleft.trans hleft'.symm) (hright.trans hright'.symm)
  intro j hj j' hj' a b kind kind' hleads hleads'
  have hne : a ≠ b := by
    rcases hleads with ⟨rfl, rfl, -⟩ | ⟨rfl, rfl, -⟩
    · exact hends j hj
    · exact (hends j hj).symm
  rcases lt_or_gt_of_ne hne with hless | hless
  · exact hlt j hj j' hj' a b kind kind' hless hleads hleads'
  · have hflip := hlt j hj j' hj' b a _ _ hless hleads.flip hleads'.flip
    rw [← JoinKind.flip_flip kind, hflip, JoinKind.flip_flip]

/-! ### Ways inside of some tables -/

/-- Is there a way from one table to the other that takes only the given tables? -/
def ReachesIn (joins : List JoinCondition) (inside : String → Prop) : String → String → Prop :=
  Relation.ReflTransGen fun a b => Joined joins a b ∧ inside b

/-- Are the tables connected by ways among themselves? -/
def IsConnected (joins : List JoinCondition) (tables : List String) : Prop :=
  ∀ a ∈ tables, ∀ b ∈ tables, ReachesIn joins (· ∈ tables) a b

namespace ReachesIn

variable {inside more : String → Prop}

theorem mono (hmore : ∀ x, inside x → more x) (h : ReachesIn joins inside a b) : ReachesIn joins more a b :=
  Relation.ReflTransGen.mono (fun _ _ hstep => ⟨hstep.1, hmore _ hstep.2⟩) _ _ h

theorem inside_of_inside (h : ReachesIn joins inside a b) (ha : inside a) : inside b := by
  cases h with
  | refl => exact ha
  | tail _ hstep => exact hstep.2

theorem symm (h : ReachesIn joins inside a b) (ha : inside a) : ReachesIn joins inside b a := by
  induction h with
  | refl => exact .refl
  | @tail x y hreaches hstep ih => exact .head ⟨hstep.1.symm, ReachesIn.inside_of_inside hreaches ha⟩ ih

theorem of_reaches_within (h : Reaches (joins.filter (·.isWithin group)) a b) :
    ReachesIn joins (· ∈ group) a b := by
  refine Relation.ReflTransGen.mono (fun x y ⟨j, hj, hends⟩ => ?_) _ _ h
  exact ⟨⟨j, List.mem_of_mem_filter hj, hends⟩, Joined.mem_of_within ⟨j, hj, hends⟩⟩

end ReachesIn

/-! ### One link between two sides -/

/-- Is there one pair of joined tables of which one is placed and the other is of the group? -/
structure LinkedBy (joins : List JoinCondition) (placed group : List String) (u v : String) : Prop where
  left_mem : u ∈ placed
  right_mem : v ∈ group
  joined : Joined joins u v
  eq_of_joined : ∀ a ∈ placed, ∀ b ∈ group, Joined joins a b → a = u ∧ b = v

namespace LinkedBy

variable (h : LinkedBy joins placed group u v)

include h

theorem swap : LinkedBy joins group placed v u where
  left_mem := h.right_mem
  right_mem := h.left_mem
  joined := h.joined.symm
  eq_of_joined a ha b hb hjoined := (h.eq_of_joined b hb a ha hjoined.symm).symm

theorem isConnected_append (hplaced : IsConnected joins placed) (hgroup : IsConnected joins group) :
    IsConnected joins (placed ++ group) := by
  have hleft : ∀ {a b}, ReachesIn joins (· ∈ placed) a b → ReachesIn joins (· ∈ placed ++ group) a b :=
    ReachesIn.mono fun _ hmem => List.mem_append_left _ hmem
  have hright : ∀ {a b}, ReachesIn joins (· ∈ group) a b → ReachesIn joins (· ∈ placed ++ group) a b :=
    ReachesIn.mono fun _ hmem => List.mem_append_right _ hmem
  intro a ha b hb
  rcases List.mem_append.mp ha with ha | ha <;> rcases List.mem_append.mp hb with hb | hb
  · exact hleft (hplaced a ha b hb)
  · exact (Relation.ReflTransGen.tail (hleft (hplaced a ha u h.left_mem))
      ⟨h.joined, List.mem_append_right _ h.right_mem⟩).trans (hright (hgroup v h.right_mem b hb))
  · exact (Relation.ReflTransGen.tail (hright (hgroup a ha v h.right_mem))
      ⟨h.joined.symm, List.mem_append_left _ h.left_mem⟩).trans (hleft (hplaced u h.left_mem b hb))
  · exact hright (hgroup a ha b hb)

/-- A way from the placed side ends there without having left it for good, or it takes the link to the other side. -/
theorem reachesIn_sides {inside : String → Prop} (hdisjoint : placed.Disjoint group)
    (hinside : ∀ x, inside x → x ∈ placed ∨ x ∈ group) (ha : inside a) (hmem : a ∈ placed)
    (hreaches : ReachesIn joins inside a b) :
    (b ∈ placed → ReachesIn joins (fun x => inside x ∧ x ∈ placed) a b)
      ∧ (b ∈ group → (inside u ∧ inside v) ∧ ReachesIn joins (fun x => inside x ∧ x ∈ placed) a u
        ∧ ReachesIn joins (fun x => inside x ∧ x ∈ group) v b) := by
  induction hreaches with
  | refl => exact ⟨fun _ => .refl, fun hgroup => absurd hgroup (hdisjoint hmem)⟩
  | @tail x y hreaches hstep ih =>
    obtain ⟨hjoined, hy⟩ := hstep
    have hx : inside x := ReachesIn.inside_of_inside hreaches ha
    refine ⟨fun hplaced => ?_, fun hgroup => ?_⟩
    · rcases hinside x hx with hxmem | hxmem
      · exact (ih.1 hxmem).tail ⟨hjoined, hy, hplaced⟩
      · obtain ⟨rfl, rfl⟩ := h.eq_of_joined y hplaced x hxmem hjoined.symm
        exact (ih.2 hxmem).2.1
    · rcases hinside x hx with hxmem | hxmem
      · obtain ⟨rfl, rfl⟩ := h.eq_of_joined x hxmem y hgroup hjoined
        exact ⟨⟨hx, hy⟩, ih.1 hxmem, .refl⟩
      · obtain ⟨hends, hleft, hright⟩ := ih.2 hxmem
        exact ⟨hends, hleft, hright.tail ⟨hjoined, hy, hgroup⟩⟩

end LinkedBy

/-! ### Regions -/

/-- Connected tables that are kept by all joins that lead to other placed tables. -/
structure IsRegion (joins : List JoinCondition) (placed : List String) (s : Finset String) : Prop where
  nonempty : s.Nonempty
  subset : ∀ a ∈ s, a ∈ placed
  connected : ∀ a ∈ s, ∀ b ∈ s, ReachesIn joins (· ∈ s) a b
  keeps : ∀ a ∈ s, ∀ b ∈ placed, b ∉ s → Joined joins a b → Keeps joins a b

theorem isRegion_congr {others : List String} (h : ∀ a, a ∈ placed ↔ a ∈ others) :
    IsRegion joins placed s ↔ IsRegion joins others s := by
  constructor
  · rintro ⟨hne, hsubset, hconnected, hkeeps⟩
    exact ⟨hne, fun a ha => (h a).mp (hsubset a ha), hconnected, fun a ha b hb => hkeeps a ha b ((h b).mpr hb)⟩
  · rintro ⟨hne, hsubset, hconnected, hkeeps⟩
    exact ⟨hne, fun a ha => (h a).mpr (hsubset a ha), hconnected, fun a ha b hb => hkeeps a ha b ((h b).mp hb)⟩

/-- The only region of a single table. -/
theorem isRegion_singleton_iff : IsRegion joins [a] s ↔ s = {a} := by
  constructor
  · intro h
    refine Finset.Subset.antisymm (fun b hb => ?_) fun b hb => ?_
    · exact Finset.mem_singleton.mpr (List.mem_singleton.mp (h.subset b hb))
    · obtain ⟨c, hc⟩ := h.nonempty
      rwa [Finset.mem_singleton.mp hb, ← List.mem_singleton.mp (h.subset c hc)]
  · rintro rfl
    refine ⟨⟨a, Finset.mem_singleton_self a⟩, fun b hb => ?_, fun b hb c hc => ?_, fun b _ c hc hnot => ?_⟩
    · exact List.mem_singleton.mpr (Finset.mem_singleton.mp hb)
    · rw [Finset.mem_singleton.mp hb, Finset.mem_singleton.mp hc]
      exact .refl
    · exact absurd (Finset.mem_singleton.mpr (List.mem_singleton.mp hc)) hnot

namespace IsRegion

/-- Where joins associate, the joins beyond a region keep what they are reached from. -/
theorem exists_keeps (h : IsRegion joins placed s) (hassociate : Associate joins) (hconnected : IsConnected joins placed)
    (hu : u ∈ placed) : u ∈ s ∨ ∃ p ∈ placed, Keeps joins p u := by
  obtain ⟨a, ha⟩ := h.nonempty
  -- Going on from the region, every table is in it or is left empty by the join through which it was reached first.
  have hall : ∃ a ∈ s, Relation.ReflTransGen (fun x y => x ∈ placed ∧ Keeps joins x y) a u := by
    induction hconnected a (h.subset a ha) u hu with
    | refl => exact ⟨a, ha, .refl⟩
    | @tail x y hreaches hstep ih =>
      obtain ⟨hjoined, hy⟩ := hstep
      have hx : x ∈ placed := ReachesIn.inside_of_inside hreaches (h.subset a ha)
      by_cases hys : y ∈ s
      · exact ⟨y, hys, .refl⟩
      obtain ⟨c, hc, hkept⟩ := ih hx
      cases hkept with
      | refl => exact ⟨x, hc, .single ⟨hx, h.keeps x hc y hy hys hjoined⟩⟩
      | @tail p _ hkept hlast =>
        by_cases hback : p = y
        · exact ⟨c, hc, hback ▸ hkept⟩
        · exact ⟨c, hc, (hkept.tail hlast).tail ⟨hx, hassociate x p y hlast.2 hjoined hback⟩⟩
  obtain ⟨a, ha, hreaches⟩ := hall
  cases hreaches with
  | refl => exact Or.inl ha
  | tail _ hkeeps => exact Or.inr ⟨_, hkeeps⟩

end IsRegion

namespace LinkedBy

variable (h : LinkedBy joins placed group u v) (hdisjoint : placed.Disjoint group)

include h hdisjoint

/-- The regions of one side alone are those that the link keeps. -/
theorem isRegion_append_iff (hassociate : Associate joins) (hconnected : IsConnected joins placed)
    (hs : ∀ a ∈ s, a ∈ placed) : IsRegion joins (placed ++ group) s ↔ IsRegion joins placed s ∧ Keeps joins u v := by
  constructor
  · intro hregion
    have hside : IsRegion joins placed s :=
      ⟨hregion.nonempty, hs, hregion.connected, fun a ha b hb => hregion.keeps a ha b (List.mem_append_left _ hb)⟩
    refine ⟨hside, ?_⟩
    rcases hside.exists_keeps hassociate hconnected h.left_mem with hu | ⟨p, hp, hkeeps⟩
    · exact hregion.keeps u hu v (List.mem_append_right _ h.right_mem)
        (fun hv => hdisjoint (hs v hv) h.right_mem) h.joined
    · exact hassociate u p v hkeeps h.joined fun heq => hdisjoint hp (heq ▸ h.right_mem)
  · rintro ⟨hregion, hkeeps⟩
    refine ⟨hregion.nonempty, fun a ha => List.mem_append_left _ (hs a ha), hregion.connected, fun a ha b hb hnot hjoined => ?_⟩
    rcases List.mem_append.mp hb with hb | hb
    · exact hregion.keeps a ha b hb hnot hjoined
    · obtain ⟨rfl, rfl⟩ := h.eq_of_joined a (hs a ha) b hb hjoined
      exact hkeeps

/-- The regions on both sides are made of one on either side, and have both ends of the link. -/
theorem isRegion_union_iff (ht : ∀ a ∈ t, a ∈ placed) (hs : ∀ a ∈ s, a ∈ group) (hne : t.Nonempty) (hne' : s.Nonempty) :
    IsRegion joins (placed ++ group) (t ∪ s) ↔ IsRegion joins placed t ∧ IsRegion joins group s ∧ u ∈ t ∧ v ∈ s := by
  have hleft : ∀ {a}, a ∈ placed → a ∈ t ∪ s → a ∈ t := fun ha hmem =>
    (Finset.mem_union.mp hmem).resolve_right fun hmem => hdisjoint ha (hs _ hmem)
  have hright : ∀ {a}, a ∈ group → a ∈ t ∪ s → a ∈ s := fun ha hmem =>
    (Finset.mem_union.mp hmem).resolve_left fun hmem => hdisjoint (ht _ hmem) ha
  have hunion : ∀ {a}, a ∈ t ∪ s → a ∈ placed ∨ a ∈ group := fun hmem => (Finset.mem_union.mp hmem).imp (ht _) (hs _)
  constructor
  · intro hregion
    obtain ⟨a, ha⟩ := hne
    obtain ⟨b, hb⟩ := hne'
    have hsides : ∀ {a b}, a ∈ t → b ∈ t ∪ s → _ := fun {a b} ha hb => h.reachesIn_sides hdisjoint (fun _ => hunion)
      (Finset.mem_union_left s ha) (ht a ha) (hregion.connected a (Finset.mem_union_left s ha) b hb)
    obtain ⟨⟨hu, hv⟩, -, -⟩ := (hsides ha (Finset.mem_union_right t hb)).2 (hs b hb)
    have hv := hright h.right_mem hv
    have hfrom : ∀ c ∈ s, ReachesIn joins (· ∈ s) v c := fun c hc =>
      ((hsides ha (Finset.mem_union_right t hc)).2 (hs c hc)).2.2.mono fun x hx => hright hx.2 hx.1
    refine ⟨⟨⟨a, ha⟩, ht, fun c hc c' hc' => ?_, fun c hc c' hc' hnot => ?_⟩,
      ⟨⟨b, hb⟩, hs, fun c hc c' hc' => ((hfrom c hc).symm hv).trans (hfrom c' hc'), fun c hc c' hc' hnot => ?_⟩,
      hleft h.left_mem hu, hv⟩
    · exact ((hsides hc (Finset.mem_union_left s hc')).1 (ht c' hc')).mono fun x hx => hleft hx.2 hx.1
    · exact hregion.keeps c (Finset.mem_union_left s hc) c' (List.mem_append_left _ hc') fun hmem => hnot (hleft hc' hmem)
    · exact hregion.keeps c (Finset.mem_union_right t hc) c' (List.mem_append_right _ hc') fun hmem => hnot (hright hc' hmem)
  · rintro ⟨hregion, hregion', hu, hv⟩
    have hin : ∀ {a b}, ReachesIn joins (· ∈ t) a b → ReachesIn joins (· ∈ t ∪ s) a b :=
      ReachesIn.mono fun _ hmem => Finset.mem_union_left s hmem
    have hin' : ∀ {a b}, ReachesIn joins (· ∈ s) a b → ReachesIn joins (· ∈ t ∪ s) a b :=
      ReachesIn.mono fun _ hmem => Finset.mem_union_right t hmem
    refine ⟨hne.mono Finset.subset_union_left, fun a ha => List.mem_append.mpr (hunion ha), fun a ha b hb => ?_,
      fun a ha b hb hnot hjoined => ?_⟩
    · rcases Finset.mem_union.mp ha with ha | ha <;> rcases Finset.mem_union.mp hb with hb | hb
      · exact hin (hregion.connected a ha b hb)
      · exact (Relation.ReflTransGen.tail (hin (hregion.connected a ha u hu))
          ⟨h.joined, Finset.mem_union_right t hv⟩).trans (hin' (hregion'.connected v hv b hb))
      · exact (Relation.ReflTransGen.tail (hin' (hregion'.connected a ha v hv))
          ⟨h.joined.symm, Finset.mem_union_left s hu⟩).trans (hin (hregion.connected u hu b hb))
      · exact hin' (hregion'.connected a ha b hb)
    · have hnot := not_or.mp (mt Finset.mem_union.mpr hnot)
      rcases Finset.mem_union.mp ha with ha | ha <;> rcases List.mem_append.mp hb with hb | hb
      · exact hregion.keeps a ha b hb hnot.1 hjoined
      · exact absurd ((h.eq_of_joined a (ht a ha) b hb hjoined).2 ▸ hv) hnot.2
      · exact absurd ((h.eq_of_joined b hb a (hs a ha) hjoined.symm).1 ▸ hu) hnot.1
      · exact hregion'.keeps a ha b hb hnot.2 hjoined

/-- The kind of the step is that of the link. -/
theorem exists_kind (hkinds : KindsAgree joins) : ∃ kind,
    (JoinStep.between joins placed group).kind = some kind
      ∧ (Keeps joins u v ↔ kind.keepsLeft = true) ∧ (Keeps joins v u ↔ kind.keepsRight = true) := by
  rw [JoinStep.between]
  cases hbetween : conditionsBetween joins placed group with
  | nil => exact absurd h.joined (conditionsBetween_eq_nil_iff.mp hbetween u h.left_mem v h.right_mem)
  | cons lead others =>
    have hlead : lead ∈ conditionsBetween joins placed group := hbetween ▸ List.mem_cons_self
    have hmem : lead ∈ joins := (mem_conditionsBetween.mp hlead).1
    obtain ⟨a, ha, b, hb, hleads⟩ := JoinCondition.exists_leads_toward hdisjoint hlead
    obtain ⟨rfl, rfl⟩ := h.eq_of_joined a ha b hb (hleads.joined hmem)
    refine ⟨_, rfl, ⟨?_, fun hkeeps => ⟨lead, hmem, _, hleads, hkeeps⟩⟩, ⟨?_, fun hkeeps => ⟨lead, hmem, _, hleads.flip, ?_⟩⟩⟩
    · rintro ⟨j, hj, kind, hleads', hkeeps⟩
      rwa [hkinds lead hmem j hj _ _ _ _ hleads hleads']
    · rintro ⟨j, hj, kind, hleads', hkeeps⟩
      rw [hkinds j hj lead hmem _ _ _ _ hleads' hleads.flip] at hkeeps
      rwa [JoinKind.keepsLeft_flip] at hkeeps
    · rwa [JoinKind.keepsLeft_flip]

theorem spans_iff (ht : ∀ a ∈ t, a ∈ placed) (hs : ∀ a ∈ s, a ∈ group) :
    (JoinStep.between joins placed group).spans t s = true ↔ u ∈ t ∧ v ∈ s := by
  rw [JoinStep.spans_ofConditions hdisjoint ht hs]
  have hleft : u ∈ t ∪ s ↔ u ∈ t := by
    rw [Finset.mem_union, or_iff_left fun hmem => hdisjoint h.left_mem (hs u hmem)]
  have hright : v ∈ t ∪ s ↔ v ∈ s := by
    rw [Finset.mem_union, or_iff_right fun hmem => hdisjoint (ht v hmem) h.right_mem]
  constructor
  · intro hall
    obtain ⟨j, hj, ⟨rfl, rfl⟩ | ⟨rfl, rfl⟩⟩ := h.joined
    · have hends := hall j (mem_conditionsBetween.mpr ⟨hj, Or.inl ⟨h.left_mem, h.right_mem⟩⟩)
      exact ⟨hleft.mp hends.1, hright.mp hends.2⟩
    · have hends := hall j (mem_conditionsBetween.mpr ⟨hj, Or.inr ⟨h.left_mem, h.right_mem⟩⟩)
      exact ⟨hleft.mp hends.2, hright.mp hends.1⟩
  · rintro ⟨hu, hv⟩ j hj
    obtain ⟨hmem, ⟨hl, hr⟩ | ⟨hr, hl⟩⟩ := mem_conditionsBetween.mp hj
    · obtain ⟨heq, heq'⟩ := h.eq_of_joined _ hl _ hr ⟨j, hmem, Or.inl ⟨rfl, rfl⟩⟩
      exact ⟨heq ▸ hleft.mpr hu, heq' ▸ hright.mpr hv⟩
    · obtain ⟨heq, heq'⟩ := h.eq_of_joined _ hr _ hl ⟨j, hmem, Or.inr ⟨rfl, rfl⟩⟩
      exact ⟨heq' ▸ hright.mpr hv, heq ▸ hleft.mpr hu⟩

/-- A step along the link goes on from the regions of its two sides to those of both together. -/
theorem mem_fills_iff (hkinds : KindsAgree joins) (hassociate : Associate joins) (hplaced : IsConnected joins placed)
    (hgroup : IsConnected joins group) {sets sets' : Finset (Finset String)}
    (hsets : ∀ s, s ∈ sets ↔ IsRegion joins placed s) (hsets' : ∀ s, s ∈ sets' ↔ IsRegion joins group s) :
    s ∈ (JoinStep.between joins placed group).fills sets sets'
      ↔ IsRegion joins (placed ++ group) s := by
  obtain ⟨kind, hkind, hleft, hright⟩ := h.exists_kind hdisjoint hkinds
  have hcomm : ∀ a, a ∈ group ++ placed ↔ a ∈ placed ++ group := fun a => by rw [List.mem_append, or_comm, ← List.mem_append]
  rw [JoinStep.mem_fills, JoinStep.keepsPlaced, JoinStep.keepsAdded, hkind, Option.any_some, Option.any_some, ← hleft,
    ← hright, hsets, hsets']
  constructor
  · rintro (⟨t, ht, w, hw, hspans, rfl⟩ | ⟨hkeeps, hregion⟩ | ⟨hkeeps, hregion⟩)
    · have ht := (hsets t).mp ht
      have hw := (hsets' w).mp hw
      exact (h.isRegion_union_iff hdisjoint ht.subset hw.subset ht.nonempty hw.nonempty).mpr
        ⟨ht, hw, (h.spans_iff hdisjoint ht.subset hw.subset).mp hspans⟩
    · exact (h.isRegion_append_iff hdisjoint hassociate hplaced hregion.subset).mpr ⟨hregion, hkeeps⟩
    · exact (isRegion_congr hcomm).mp
        ((h.swap.isRegion_append_iff hdisjoint.symm hassociate hgroup hregion.subset).mpr ⟨hregion, hkeeps⟩)
  · intro hregion
    have hunion : s.filter (· ∈ placed) ∪ s.filter (· ∈ group) = s := by
      ext a
      rw [Finset.mem_union, Finset.mem_filter, Finset.mem_filter, ← and_or_left, ← List.mem_append]
      exact and_iff_left_of_imp (hregion.subset a)
    have hsub : ∀ a ∈ s.filter (· ∈ placed), a ∈ placed := fun a ha => (Finset.mem_filter.mp ha).2
    have hsub' : ∀ a ∈ s.filter (· ∈ group), a ∈ group := fun a ha => (Finset.mem_filter.mp ha).2
    rcases (s.filter (· ∈ placed)).eq_empty_or_nonempty with hnone | hne
    · rw [hnone, Finset.empty_union] at hunion
      rw [hunion] at hsub'
      obtain ⟨hregion, hkeeps⟩ := (h.swap.isRegion_append_iff hdisjoint.symm hassociate hgroup hsub').mp
        ((isRegion_congr hcomm).mpr hregion)
      exact Or.inr (Or.inr ⟨hkeeps, hregion⟩)
    rcases (s.filter (· ∈ group)).eq_empty_or_nonempty with hnone | hne'
    · rw [hnone, Finset.union_empty] at hunion
      rw [hunion] at hsub
      obtain ⟨hregion, hkeeps⟩ := (h.isRegion_append_iff hdisjoint hassociate hplaced hsub).mp hregion
      exact Or.inr (Or.inl ⟨hkeeps, hregion⟩)
    · rw [← hunion] at hregion
      obtain ⟨hregion, hregion', hends⟩ := (h.isRegion_union_iff hdisjoint hsub hsub' hne hne').mp hregion
      exact Or.inl ⟨_, (hsets _).mpr hregion, _, (hsets' _).mpr hregion', (h.spans_iff hdisjoint hsub hsub').mpr hends, hunion⟩

end LinkedBy

/-! ### Plans -/

/-- Are two separate sets of connected tables joined by at most one pair of tables? -/
def LinksOnce (joins : List JoinCondition) : Prop :=
  ∀ placed group u v, placed.Disjoint group → IsConnected joins placed → IsConnected joins group → u ∈ placed → v ∈ group →
    Joined joins u v → LinkedBy joins placed group u v

/-- A plan that crosses nothing fills the regions of its tables, if its groups fill theirs. -/
theorem PlanFrom.mem_fillsFrom_iff {groups : List (List String)} {steps : List JoinStep}
    {given : List String → Finset (Finset String)} {sets : Finset (Finset String)}
    (plan : PlanFrom joins placed groups steps) (hcross : ∀ step ∈ steps, step.isCross = false)
    (hnodup : (placed ++ groups.flatten).Nodup) (hkinds : KindsAgree joins) (hassociate : Associate joins)
    (honce : LinksOnce joins) (hplaced : IsConnected joins placed) (hgroups : ∀ g ∈ groups, IsConnected joins g)
    (hsets : ∀ s, s ∈ sets ↔ IsRegion joins placed s) (hgiven : ∀ g ∈ groups, ∀ s, s ∈ given g ↔ IsRegion joins g s) :
    s ∈ fillsFrom given sets steps ↔ IsRegion joins (placed ++ groups.flatten) s := by
  induction plan generalizing sets with
  | nil placed =>
    rw [fillsFrom, List.flatten_nil, List.append_nil]
    exact hsets s
  | @cons placed group groups rest steps perm tail ih =>
    have hmem : group ∈ groups := perm.mem_iff.mpr List.mem_cons_self
    have hflatten := append_flatten_perm placed perm
    have hnodup := hflatten.nodup_iff.mp hnodup
    have hdisjoint : placed.Disjoint group :=
      List.disjoint_of_nodup_append (hnodup.sublist (List.sublist_append_left _ _))
    obtain ⟨hstep, hcross⟩ := List.forall_mem_cons.mp hcross
    have hlinked : ∃ u ∈ placed, ∃ v ∈ group, Joined joins u v := by
      by_contra hnone
      push Not at hnone
      rw [JoinStep.isCross, Option.isNone_eq_false_iff, Option.isSome_iff_ne_none, ne_eq,
        JoinStep.kind_ofConditions_eq_none, conditionsBetween_eq_nil_iff] at hstep
      exact hstep hnone
    obtain ⟨u, hu, v, hv, hjoined⟩ := hlinked
    have hlink := honce placed group u v hdisjoint hplaced (hgroups group hmem) hu hv hjoined
    rw [fillsFrom, JoinStep.nodes_ofConditions, isRegion_congr fun a => hflatten.mem_iff]
    exact ih hcross hnodup (hlink.isConnected_append hplaced (hgroups group hmem))
      (fun g hg => hgroups g (perm.mem_iff.mpr (List.mem_cons_of_mem _ hg)))
      (fun s => hlink.mem_fills_iff hdisjoint hkinds hassociate hplaced (hgroups group hmem) hsets (hgiven group hmem))
      fun g hg => hgiven g (perm.mem_iff.mpr (List.mem_cons_of_mem _ hg))

end QueryFederation

import Mathlib.Combinatorics.SimpleGraph.Acyclic
import QueryFederation.Proofs.Federation.JoinGraph
import QueryFederation.Proofs.Join.Region

/-!
# Join graphs without circles

The tables of a description are the vertices of its join graph, with one edge for every joined pair. If the graph has
no circle, every edge is the only way between its ends. So two separate groups of connected tables have at most one
edge between them: with a second one, there would be another way from one end of the first to the other.
-/

namespace QueryFederation

namespace Description

variable {d : Description}

/-- The tables, of which those that are joined are adjacent. -/
def joinGraph (d : Description) : SimpleGraph {a : String // a ∈ d.aliases} where
  Adj a b := a ≠ b ∧ Joined d.joins a b
  symm := ⟨fun _ _ h => ⟨h.1.symm, h.2.symm⟩⟩
  loopless := ⟨fun _ h => h.1 rfl⟩

instance (d : Description) : DecidableRel d.joinGraph.Adj := fun a b =>
  inferInstanceAs (Decidable (a ≠ b ∧ Joined d.joins a b))

theorem reaches_of_connected (h : d.joinGraph.Connected) : ∀ a ∈ d.aliases, ∀ b ∈ d.aliases, Reaches d.joins a b := by
  intro a ha b hb
  have hreaches := SimpleGraph.reachable_iff_reflTransGen _ _ |>.mp (h.preconnected ⟨a, ha⟩ ⟨b, hb⟩)
  exact hreaches.lift Subtype.val fun _ _ hadj => hadj.2

/-- A way among some tables is one that does not take an edge to other tables. -/
theorem HasGraph.reachable_of_reachesIn (h : d.HasGraph) {group : List String} {a b u v : String}
    (hu : u ∈ d.aliases) (hv : v ∈ d.aliases) (hnot : u ∉ group ∨ v ∉ group) (ha : a ∈ d.aliases) (hmem : a ∈ group)
    (hreaches : ReachesIn d.joins (· ∈ group) a b) :
    ∃ hb : b ∈ d.aliases, (d.joinGraph.deleteEdges {s(⟨u, hu⟩, ⟨v, hv⟩)}).Reachable ⟨a, ha⟩ ⟨b, hb⟩ := by
  induction hreaches with
  | refl => exact ⟨ha, .rfl⟩
  | @tail x y hreaches hstep ih =>
    obtain ⟨hjoined, hy⟩ := hstep
    obtain ⟨hx, hway⟩ := ih
    have hxmem : x ∈ group := ReachesIn.inside_of_inside hreaches hmem
    refine ⟨h.mem_of_joined hjoined, ?_⟩
    by_cases hsame : x = y
    · subst hsame
      exact hway
    refine hway.trans (SimpleGraph.Adj.reachable ?_)
    rw [SimpleGraph.deleteEdges_adj]
    refine ⟨⟨fun heq => hsame (congrArg Subtype.val heq), hjoined⟩, fun hedge => ?_⟩
    simp only [Set.mem_singleton_iff, Sym2.eq_iff, Subtype.mk.injEq] at hedge
    rcases hedge with ⟨rfl, rfl⟩ | ⟨rfl, rfl⟩
    · exact hnot.elim (fun hnot => hnot hxmem) fun hnot => hnot hy
    · exact hnot.elim (fun hnot => hnot hy) fun hnot => hnot hxmem

theorem HasGraph.linksOnce_of_isAcyclic (h : d.HasGraph) (hacyclic : d.joinGraph.IsAcyclic) : LinksOnce d.joins := by
  intro placed group u v hdisjoint hplaced hgroup hu hv hjoined
  have huall : u ∈ d.aliases := h.mem_of_joined hjoined.symm
  have hvall : v ∈ d.aliases := h.mem_of_joined hjoined
  refine ⟨hu, hv, hjoined, fun a ha b hb hjoined' => ?_⟩
  by_contra hother
  have hne : (⟨u, huall⟩ : {a : String // a ∈ d.aliases}) ≠ ⟨v, hvall⟩ := fun heq =>
    hdisjoint hu (Subtype.mk.inj heq ▸ hv)
  refine SimpleGraph.isAcyclic_iff_forall_adj_isBridge.mp hacyclic ⟨hne, hjoined⟩ ?_
  -- Another edge between the two sides leads around the first one.
  obtain ⟨haall, hleft⟩ := h.reachable_of_reachesIn huall hvall (Or.inr fun hmem => hdisjoint hmem hv) huall hu
    (hplaced u hu a ha)
  obtain ⟨_, hright⟩ := h.reachable_of_reachesIn huall hvall (Or.inl fun hmem => hdisjoint hu hmem)
    (h.mem_of_joined hjoined') hb (hgroup b hb v hv)
  refine hleft.trans ((SimpleGraph.Adj.reachable ?_).trans hright)
  rw [SimpleGraph.deleteEdges_adj]
  refine ⟨⟨fun heq => hdisjoint ha (Subtype.mk.inj heq ▸ hb), hjoined'⟩, fun hedge => ?_⟩
  simp only [Set.mem_singleton_iff, Sym2.eq_iff, Subtype.mk.injEq] at hedge
  rcases hedge with hedge | ⟨rfl, -⟩
  · exact hother hedge
  · exact hdisjoint ha hv

end Description

end QueryFederation

import Mathlib.Combinatorics.SimpleGraph.Acyclic

/-!
# Graphs that grow edge by edge

What one more edge joins (`reachable_sup_edge_iff`), and the number of edges of a graph that is a
tree on some of its vertices and has no edge elsewhere (`ncard_edgeSet`).
-/

namespace Labyrinth

open SimpleGraph

variable {V : Type} {G : SimpleGraph V} {a b u v : V}

theorem reachable_sup_edge_iff :
    (G ⊔ edge u v).Reachable a b ↔
      G.Reachable a b ∨ (G.Reachable a u ∧ G.Reachable v b) ∨
        (G.Reachable a v ∧ G.Reachable u b) := by
  have kept {x y : V} (h : G.Reachable x y) : (G ⊔ edge u v).Reachable x y := h.mono le_sup_left
  have new : (G ⊔ edge u v).Reachable u v := by
    by_cases same : u = v
    · rw [same]
    · exact Adj.reachable (Or.inr ((edge_adj ..).2 ⟨.inl ⟨rfl, rfl⟩, same⟩))
  constructor
  · rintro ⟨walk⟩
    induction walk with
    | nil => exact .inl .rfl
    | @cons a c b step _ ih =>
      rcases step with old | added
      · have first : G.Reachable a c := old.reachable
        exact ih.imp first.trans (.imp (.imp_left first.trans) (.imp_left first.trans))
      · -- the walk takes the new edge here, one way round or the other
        obtain ⟨⟨rfl, rfl⟩ | ⟨rfl, rfl⟩, -⟩ := (edge_adj ..).1 added
        · rcases ih with last | ⟨-, last⟩ | ⟨-, last⟩
          · exact .inr (.inl ⟨.rfl, last⟩)
          · exact .inr (.inl ⟨.rfl, last⟩)
          · exact .inl last
        · rcases ih with last | ⟨-, last⟩ | ⟨-, last⟩
          · exact .inr (.inr ⟨.rfl, last⟩)
          · exact .inl last
          · exact .inr (.inr ⟨.rfl, last⟩)
  · rintro (old | ⟨first, last⟩ | ⟨first, last⟩)
    · exact kept old
    · exact (kept first).trans (new.trans (kept last))
    · exact (kept first).trans (new.symm.trans (kept last))

theorem support_subset {s : Set V} (inside : ∀ a b, G.Adj a b → b ∈ s) (walk : G.Walk a b)
    (ha : a ∈ s) : ∀ c ∈ walk.support, c ∈ s := by
  induction walk with
  | nil => simpa using ha
  | cons step _ ih =>
    intro c hc
    rcases List.mem_cons.1 (Walk.support_cons step _ ▸ hc) with rfl | later
    · exact ha
    · exact ih (inside _ _ step) c later

/-- An acyclic graph that joins the vertices of a finite set, and no others, has one edge less than
the set has members. -/
theorem ncard_edgeSet {s : Set V} (finite : s.Finite) (nonempty : s.Nonempty)
    (acyclic : G.IsAcyclic) (inside : ∀ a b, G.Adj a b → b ∈ s)
    (connected : ∀ a ∈ s, ∀ b ∈ s, G.Reachable a b) : G.edgeSet.ncard + 1 = s.ncard := by
  have := finite.to_subtype
  have := nonempty.to_subtype
  have isTree : (G.induce s).IsTree := by
    refine ⟨⟨fun a b => ?_⟩, acyclic.induce s⟩
    obtain ⟨walk⟩ := connected a a.2 b b.2
    exact ⟨walk.induce s (support_subset inside walk a.2)⟩
  have count := (isTree_iff_connected_and_card.1 isTree).2
  have image : Sym2.map Subtype.val '' (G.induce s).edgeSet = G.edgeSet := by
    ext pair
    constructor
    · rintro ⟨⟨a, b⟩, adjacent, rfl⟩
      exact adjacent
    · obtain ⟨a, b⟩ := pair
      intro adjacent
      exact ⟨s(⟨a, inside b a adjacent.symm⟩, ⟨b, inside a b adjacent⟩), adjacent, rfl⟩
  rw [← image, Set.ncard_image_of_injective _ (Sym2.map.injective Subtype.val_injective)]
  exact count

end Labyrinth

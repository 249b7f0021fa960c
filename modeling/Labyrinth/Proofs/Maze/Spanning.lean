import Labyrinth.Proofs.Maze.Cells
import Labyrinth.Proofs.Maze.Edges
import Labyrinth.Proofs.Maze.Trees
import Labyrinth.Proofs.Partition.Labels

/-!
# Carving keeps a spanning forest

**Graph** (`joins`). The cells, joined by a list of edges.

**Invariant** (`Carving.Tracks`). Of the edges seen so far some are kept: their walls are the ones
removed, they form no cycle, and two cells are in one set of the partition exactly when edges that
were kept join them. The cells of every edge seen are joined. An edge whose cells are joined already
is passed over (`Tracks.skip`), any other is kept (`Tracks.keep`), so the invariant holds after all
of them (`Tracks.carveAll`).
-/

namespace Labyrinth

open SimpleGraph

variable {g : Grid} {a b : Cell} {e : Edge} {seen kept : List Edge}

/-- The cells, joined by the edges of a list. -/
def joins (l : List Edge) : SimpleGraph Cell := 
  fromEdgeSet {pair | ∃ e ∈ l, pair = s(e.a, e.b)}

theorem joins_adj : (joins kept).Adj a b ↔ (∃ e ∈ kept, s(a, b) = s(e.a, e.b)) ∧ a ≠ b := by
  rw [joins, fromEdgeSet_adj, Set.mem_ofPred_eq]

theorem joins_nil : joins [] = ⊥ := by
  simp [joins]

theorem joins_cons (e : Edge) (l : List Edge) : joins (e :: l) = joins l ⊔ edge e.a e.b := by
  ext a b
  rw [sup_adj, joins_adj, joins_adj, adj_edge, eq_comm (a := s(e.a, e.b))]
  simp only [List.mem_cons, exists_eq_or_imp]
  rw [or_and_right, or_comm]

theorem reachable_joins_cons :
    (joins (e :: kept)).Reachable a b ↔
      (joins kept).Reachable a b ∨
        ((joins kept).Reachable a e.a ∧ (joins kept).Reachable e.b b) ∨
        ((joins kept).Reachable a e.b ∧ (joins kept).Reachable e.a b) := by
  rw [joins_cons, reachable_sup_edge_iff]

theorem reachable_joins_cons_of_joined (joined : (joins kept).Reachable e.a e.b) :
    (joins (e :: kept)).Reachable a b ↔ (joins kept).Reachable a b := by
  rw [reachable_joins_cons]
  constructor
  · rintro (old | ⟨first, last⟩ | ⟨first, last⟩)
    · exact old
    · exact first.trans (joined.trans last)
    · exact first.trans (joined.symm.trans last)
  · exact .inl

namespace Carving

/-- Two cells are in one set of the partition exactly when the edges join them. -/
def Classes (g : Grid) (kept : List Edge) (p : Partition) : Prop :=
  ∃ labels, p.Represents labels ∧ labels.labels.length = g.cellCount ∧
    ∀ a b, g.Contains a → g.Contains b →
      (labels.label (g.cellIndex a) = labels.label (g.cellIndex b) ↔ (joins kept).Reachable a b)

/-- How the state of carving follows from the edges seen. -/
structure Tracks (g : Grid) (seen kept : List Edge) (s : Carving) : Prop where
  removed : s.removed = kept.map (·.wall)
  kept_mem : ∀ e ∈ kept, e ∈ g.edges
  acyclic : (joins kept).IsAcyclic
  /-- The cells of every edge seen are joined. -/
  spanned : ∀ e ∈ seen, (joins kept).Reachable e.a e.b
  classes : Classes g kept s.joined

theorem Tracks.initial (g : Grid) : Tracks g [] [] (.initial g) where
  removed := rfl
  kept_mem := by simp
  acyclic := by simp [joins_nil]
  spanned := by simp
  classes := by
    refine ⟨.discrete g.cellCount, .discrete g.cellCount, by simp, fun a b ha hb => ?_⟩
    rw [Labelling.label_discrete, Labelling.label_discrete, joins_nil, reachable_bot]
    exact ⟨Grid.cellIndex_inj ha hb, congrArg g.cellIndex⟩

/-! ## One edge -/

variable {s : Carving} {p : Partition}

theorem Classes.union (h : Classes g kept p) (ha : g.Contains a) (hb : g.Contains b) :
    ((p.union (g.cellIndex a) (g.cellIndex b)).1 = .ok true ∧ ¬ (joins kept).Reachable a b) ∨
    ((p.union (g.cellIndex a) (g.cellIndex b)).1 = .ok false ∧ (joins kept).Reachable a b) := by
  obtain ⟨labels, represents, length, same⟩ := h
  have lt : g.cellIndex a < labels.labels.length := length ▸ Grid.cellIndex_lt ha
  have lt' : g.cellIndex b < labels.labels.length := length ▸ Grid.cellIndex_lt hb
  rw [(represents.union ..).1, Labelling.union_of_lt lt lt', ← same a b ha hb]
  split
  · next joined => exact .inr ⟨rfl, joined⟩
  · next apart => exact .inl ⟨rfl, apart⟩

/-- The sets of the partition after joining the cells of an edge. -/
theorem Classes.cons (h : Classes g kept p) (ha : g.Contains e.a) (hb : g.Contains e.b) :
    Classes g (e :: kept) (p.union (g.cellIndex e.a) (g.cellIndex e.b)).2 := by
  obtain ⟨labels, represents, length, same⟩ := h
  have lt : g.cellIndex e.a < labels.labels.length := length ▸ Grid.cellIndex_lt ha
  have lt' : g.cellIndex e.b < labels.labels.length := length ▸ Grid.cellIndex_lt hb
  refine ⟨_, (represents.union ..).2, by simpa using length, fun a b onA onB => ?_⟩
  rw [Labelling.label_union_eq_iff lt lt' (represents.label_lt lt) (represents.label_lt lt'),
    same a b onA onB, same a e.a onA ha, same e.b b hb onB, same a e.b onA hb, same e.a b ha onB,
    reachable_joins_cons]

theorem Classes.congr {kept' : List Edge} (h : Classes g kept p)
    (reachable : ∀ a b, (joins kept').Reachable a b ↔ (joins kept).Reachable a b) :
    Classes g kept' p := by
  obtain ⟨labels, represents, length, same⟩ := h
  exact ⟨labels, represents, length, fun a b ha hb => (same a b ha hb).trans (reachable a b).symm⟩

theorem joined_carve (g : Grid) (s : Carving) (e : Edge) :
    (carve g s e).joined = (s.joined.union (g.cellIndex e.a) (g.cellIndex e.b)).2 := by
  rw [carve]
  generalize s.joined.union (g.cellIndex e.a) (g.cellIndex e.b) = result
  obtain ⟨_ | _ | _, joined⟩ := result <;> rfl

theorem removed_carve (g : Grid) (s : Carving) (e : Edge) :
    (carve g s e).removed =
      if (s.joined.union (g.cellIndex e.a) (g.cellIndex e.b)).1 = .ok true
        then e.wall :: s.removed else s.removed := by
  rw [carve]
  generalize s.joined.union (g.cellIndex e.a) (g.cellIndex e.b) = result
  obtain ⟨_ | _ | _, joined⟩ := result <;> simp

/-- An edge whose cells are joined already leaves its wall standing. -/
theorem Tracks.skip (h : Tracks g seen kept s) (mem : e ∈ g.edges)
    (joined : (joins kept).Reachable e.a e.b) : Tracks g (e :: seen) kept (carve g s e) := by
  obtain ⟨ha, hb, -⟩ := Grid.of_mem_edges mem
  have answer : (s.joined.union (g.cellIndex e.a) (g.cellIndex e.b)).1 = .ok false :=
    ((h.classes.union ha hb).resolve_left fun apart => apart.2 joined).1
  refine { h with
    removed := ?_
    spanned := List.forall_mem_cons.2 ⟨joined, h.spanned⟩
    classes := ?_ }
  · rw [removed_carve, answer, if_neg (by simp), h.removed]
  · rw [joined_carve]
    exact (h.classes.cons ha hb).congr fun a b => (reachable_joins_cons_of_joined joined).symm

/-- An edge whose cells are apart has its wall removed. -/
theorem Tracks.keep (h : Tracks g seen kept s) (mem : e ∈ g.edges)
    (apart : ¬ (joins kept).Reachable e.a e.b) :
    Tracks g (e :: seen) (e :: kept) (carve g s e) := by
  obtain ⟨ha, hb, -⟩ := Grid.of_mem_edges mem
  have answer : (s.joined.union (g.cellIndex e.a) (g.cellIndex e.b)).1 = .ok true :=
    ((h.classes.union ha hb).resolve_right fun joined => apart joined.2).1
  constructor
  case removed => rw [removed_carve, answer, if_pos rfl, h.removed, List.map_cons]
  case kept_mem => exact List.forall_mem_cons.2 ⟨mem, h.kept_mem⟩
  case acyclic =>
    rw [joins_cons]
    exact h.acyclic.sup_edge_of_not_reachable apart
  case spanned =>
    refine List.forall_mem_cons.2 ⟨?_, fun e' earlier => ?_⟩
    · exact reachable_joins_cons.2 (.inr (.inl ⟨.rfl, .rfl⟩))
    · exact reachable_joins_cons.2 (.inl (h.spanned e' earlier))
  case classes =>
    rw [joined_carve]
    exact h.classes.cons ha hb

/-! ## All edges -/

theorem Tracks.foldl {order : List Edge} (h : Tracks g seen kept s)
    (mem : ∀ e ∈ order, e ∈ g.edges) :
    ∃ kept', Tracks g (order.reverse ++ seen) kept' (order.foldl (carve g) s) := by
  induction order generalizing seen kept s with
  | nil => exact ⟨kept, h⟩
  | cons e order ih =>
    obtain ⟨memE, memOrder⟩ := List.forall_mem_cons.1 mem
    rw [List.foldl_cons, List.reverse_cons, List.append_assoc, List.singleton_append]
    by_cases joined : (joins kept).Reachable e.a e.b
    · exact ih (h.skip memE joined) memOrder
    · exact ih (h.keep memE joined) memOrder

/-- After all the edges, those kept form no cycle and join what any of the edges join. -/
theorem Tracks.carveAll {order : List Edge} (mem : ∀ e ∈ order, e ∈ g.edges) :
    ∃ kept, Tracks g order.reverse kept (carveAll g order) := by
  obtain ⟨kept, tracks⟩ := (Tracks.initial g).foldl mem
  rw [List.append_nil] at tracks
  exact ⟨kept, tracks⟩

end Carving

end Labyrinth

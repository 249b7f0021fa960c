import Mathlib.Combinatorics.SimpleGraph.Metric
import Labyrinth.Path.Walk
import Labyrinth.Proofs.Maze.Trees

/-!
# The passages of a maze as a graph

**Graph** (`Maze.passages`). The cells, two of them adjacent when one may step between them. Cells
off the grid are isolated.

**Walks.** A list of cells is a walk of the maze exactly when it is the support of a walk of the
graph (`walksFrom_support`, `WalksFrom.exists_walk`), so reaching is reachability
(`reaches_iff_reachable`) and the number of steps to a cell is a distance (`Maze.depth`).
-/

namespace Labyrinth.Maze

variable {m : Maze} {a b c : Cell}

theorem Open.ne (h : m.Open a b) : a ≠ b := by
  rintro rfl
  obtain ⟨d, step⟩ := h.exists_step
  have hx := congrArg Cell.x step
  have hy := congrArg Cell.y step
  cases d <;> simp only [Cell.add_x, Cell.add_y, Heading.step] at hx hy <;> omega

/-- The cells joined by the passages. -/
def passages (m : Maze) : SimpleGraph Cell where
  Adj := m.Open
  symm := ⟨fun _ _ => Open.symm⟩
  loopless := ⟨fun _ h => h.ne rfl⟩

@[simp] theorem passages_adj : m.passages.Adj a b ↔ m.Open a b := Iff.rfl

/-- The fewest steps from the start to a cell; nothing is meant by it for a cell out of reach. -/
noncomputable def depth (m : Maze) (c : Cell) : Nat := m.passages.dist m.start c

theorem nodup_openNeighbors (m : Maze) (c : Cell) : (m.openNeighbors c).Nodup := by
  have distinct : (neighborOrder.map fun h => c + h.step).Nodup :=
    List.Nodup.map_on (fun h _ h' _ same => Heading.eq_of_add_step_eq same) (by decide)
  exact distinct.filter _

/-! ## Walks -/

theorem isWalk_iff_isChain {l : List Cell} : m.IsWalk l ↔ l.IsChain m.Open := by
  induction l with
  | nil => simp [IsWalk]
  | cons a l ih =>
    cases l with
    | nil => simp [IsWalk]
    | cons b rest => rw [IsWalk, ih, List.isChain_cons_cons]

theorem walksFrom_support (p : m.passages.Walk a b) : m.WalksFrom a b p.support := by
  refine ⟨?_, ?_, isWalk_iff_isChain.2 p.isChain_adj_support⟩
  · rw [List.head?_eq_some_head p.support_ne_nil, p.head_support]
  · rw [List.getLast?_eq_some_getLast p.support_ne_nil, p.getLast_support]

theorem WalksFrom.exists_walk {l : List Cell} (h : m.WalksFrom a b l) :
    ∃ p : m.passages.Walk a b, p.support = l := by
  obtain ⟨first, last, isWalk⟩ := h
  have nonempty : l ≠ [] := by
    rintro rfl
    cases first
  have chain : l.IsChain m.passages.Adj := isWalk_iff_isChain.1 isWalk
  rw [List.head?_eq_some_head nonempty, Option.some_inj] at first
  rw [List.getLast?_eq_some_getLast nonempty, Option.some_inj] at last
  subst first last
  exact ⟨.ofSupport l nonempty chain, SimpleGraph.Walk.support_ofSupport nonempty chain⟩

theorem reaches_iff_reachable : m.Reaches a b ↔ m.passages.Reachable a b := by
  constructor
  · rintro ⟨walk, h⟩
    obtain ⟨p, -⟩ := h.exists_walk
    exact ⟨p⟩
  · rintro ⟨p⟩
    exact ⟨p.support, walksFrom_support p⟩

/-- A walk from the start is at least as long as the depth of its end. -/
theorem WalksFrom.depth_lt_length {l : List Cell} (h : m.WalksFrom m.start c l) :
    m.depth c < l.length := by
  obtain ⟨p, rfl⟩ := h.exists_walk
  rw [p.length_support, Nat.lt_succ_iff]
  exact m.passages.dist_le p

theorem WalksFrom.refl : m.WalksFrom a a [a] := ⟨rfl, rfl, trivial⟩

theorem WalksFrom.concat {l : List Cell} (h : m.WalksFrom a b l) (passage : m.Open b c) :
    m.WalksFrom a c (l ++ [c]) := by
  obtain ⟨p, rfl⟩ := h.exists_walk
  have longer := walksFrom_support (p.concat (passages_adj.2 passage))
  rwa [SimpleGraph.Walk.support_concat] at longer

theorem WalksFrom.exists_concat {l : List Cell} (h : m.WalksFrom a c l) (long : 1 < l.length) :
    ∃ b init, l = init ++ [c] ∧ m.WalksFrom a b init ∧ m.Open b c := by
  obtain ⟨p, rfl⟩ := h.exists_walk
  cases p with
  | nil => exact absurd long (Nat.lt_irrefl 1)
  | cons first rest =>
    obtain ⟨b, init, last, split⟩ := rest.exists_cons_eq_concat first
    refine ⟨b, init.support, ?_, walksFrom_support init, last⟩
    rw [split, SimpleGraph.Walk.support_concat]

/-- A walk that starts on the grid stays there. -/
theorem Reaches.contains (h : m.Reaches a b) (on : m.Contains a) : m.Contains b := by
  obtain ⟨p⟩ := reaches_iff_reachable.1 h
  have inside : ∀ a b, m.passages.Adj a b → b ∈ {c | m.Contains c} := fun _ _ passage => passage.2.1
  exact support_subset inside p on b p.end_mem_support

/-! ## Depths -/

@[simp] theorem depth_start : m.depth m.start = 0 := SimpleGraph.dist_self

/-- A passage leads at most one step further. -/
theorem depth_le_of_open (reachable : m.passages.Reachable m.start a) (h : m.Open a b) :
    m.depth b ≤ m.depth a + 1 := by
  obtain ⟨p, shortest⟩ := reachable.exists_walk_length_eq_dist
  have longer := m.passages.dist_le (p.concat (passages_adj.2 h))
  rwa [SimpleGraph.Walk.length_concat, shortest] at longer

/-- A cell within reach is the start, or entered from a cell one step nearer. -/
theorem eq_start_or_exists_nearer (reachable : m.passages.Reachable m.start c) :
    c = m.start ∨
      ∃ p, m.passages.Reachable m.start p ∧ m.Open p c ∧ m.depth c = m.depth p + 1 := by
  obtain ⟨walk, shortest⟩ := reachable.exists_walk_length_eq_dist
  cases walk with
  | nil => exact .inl rfl
  | cons first rest =>
    obtain ⟨p, init, last, split⟩ := rest.exists_cons_eq_concat first
    rw [split, SimpleGraph.Walk.length_concat] at shortest
    have nearer : m.depth p ≤ init.length := m.passages.dist_le init
    have farther : m.depth c ≤ m.depth p + 1 := depth_le_of_open ⟨init⟩ last
    have total : init.length + 1 = m.depth c := shortest
    exact .inr ⟨p, ⟨init⟩, last, by omega⟩

end Labyrinth.Maze

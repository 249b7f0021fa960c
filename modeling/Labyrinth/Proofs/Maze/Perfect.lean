import Labyrinth.Proofs.Maze.Building
import Labyrinth.Proofs.Maze.Spanning
import Labyrinth.Proofs.Path.Passages

/-!
# Generated mazes are perfect

**Theorem (`generate_perfect`).** On every proper grid, whatever the random words are, generating
gives a maze (`Maze.Perfect`) that starts in the first cell and ends in the last, is closed all
around, and whose passages form a spanning tree: one less than there are cells, with a single simple
path between any two cells. Of the shuffle nothing is used but that it reorders the edges.

The passages of the maze are the edges kept by carving (`Carving.Tracks.passages_eq`), since the
wall of an edge is between its two cells and no others.
-/

namespace Labyrinth

open SimpleGraph

variable {g : Grid} {m : Maze}

/-- A maze of a grid from its first cell to its last, closed all around, whose passages form a
spanning tree of the cells. -/
structure Maze.Perfect (m : Maze) (g : Grid) : Prop where
  grid_eq : m.toGrid = g
  start_eq : m.start = ⟨0, 0⟩
  goal_eq : m.goal = ⟨g.width - 1, g.height - 1⟩
  boundary_mem : ∀ w : Wall, w.Fits g → w.OnBoundary g → w ∈ m.walls
  walls_fit : ∀ w ∈ m.walls, w.Fits g
  /-- The pairs of cells joined by a passage. -/
  passage_count : (m.passages.edgeSet.ncard : Int) = g.width * g.height - 1
  /-- A walk is simple when it enters no cell twice. -/
  unique_path : ∀ a b, g.Contains a → g.Contains b →
    ∃! walk, m.WalksFrom a b walk ∧ walk.Nodup

namespace Carving

variable {kept seen order : List Edge} {s : Carving}

theorem mem_remaining {w : Wall} : w ∈ s.remaining g ↔ w.Fits g ∧ w ∉ s.removed := by
  simp [remaining, Grid.mem_allWalls]

theorem toMaze_of_proper (s : Carving) (proper : g.Proper) :
    ∃ m, s.toMaze g = .ok m ∧ m.toGrid = g ∧ m.start = Cell.origin ∧ m.goal = g.lastCell ∧
      ∀ w, w ∈ m.walls ↔ (w.Fits g ∧ w ∉ s.removed) ∨ (w.Fits g ∧ w.OnBoundary g) := by
  refine ⟨_, Maze.build_of_valid proper proper.contains_origin proper.contains_lastCell
    fun w h => (mem_remaining.1 h).1, rfl, rfl, rfl, fun w => ?_⟩
  rw [Maze.mem_walls_close, mem_remaining, Grid.mem_boundaryWalls proper]

/-- The passages of the maze are the edges that were kept. -/
theorem Tracks.passages_eq (h : Tracks g seen kept s) (onGrid : m.toGrid = g)
    (walls : ∀ w, w ∈ m.walls ↔ (w.Fits g ∧ w ∉ s.removed) ∨ (w.Fits g ∧ w.OnBoundary g)) :
    m.passages = joins kept := by
  subst onGrid
  ext a b
  rw [Maze.passages_adj, joins_adj]
  constructor
  · intro passage
    refine ⟨?_, passage.ne⟩
    obtain ⟨ha, hb, w, between, free⟩ := passage
    have inside := Grid.inside_of_between? ha hb between
    -- a wall that can exist on the grid is missing only if it was removed
    have gone : w ∈ s.removed := by
      by_contra stands
      exact free ((walls w).2 (.inl ⟨inside.1, stands⟩))
    rw [h.removed, List.mem_map] at gone
    obtain ⟨e, mem, rfl⟩ := gone
    refine ⟨e, mem, ?_⟩
    have between' := (Grid.of_mem_edges (h.kept_mem e mem)).2.2
    rw [← Wall.sides_of_between? between, Wall.sides_of_between? between']
  · rintro ⟨⟨e, mem, same⟩, -⟩
    obtain ⟨ha, hb, between⟩ := Grid.of_mem_edges (h.kept_mem e mem)
    have inside := Grid.inside_of_between? ha hb between
    have gone : e.wall ∈ s.removed := by
      rw [h.removed]
      exact List.mem_map.2 ⟨e, mem, rfl⟩
    have free : e.wall ∉ m.walls := by
      rw [walls]
      rintro (⟨-, stands⟩ | ⟨-, edge⟩)
      · exact stands gone
      · exact inside.2 edge
    have passage : m.Open e.a e.b := ⟨ha, hb, e.wall, between, free⟩
    rcases Sym2.eq_iff.1 same with ⟨rfl, rfl⟩ | ⟨rfl, rfl⟩
    · exact passage
    · exact passage.symm

end Carving

/-! ## Spanning trees -/

theorem Maze.passage_count_of_tree (acyclic : m.passages.IsAcyclic)
    (connected : ∀ a, m.Contains a → ∀ b, m.Contains b → m.passages.Reachable a b) :
    (m.passages.edgeSet.ncard : Int) = m.width * m.height - 1 := by
  have count := ncard_edgeSet m.finite_contains ⟨m.start, m.start_mem⟩ acyclic
    (fun a b passage => (Maze.passages_adj.1 passage).2.1) connected
  rw [Grid.ncard_contains] at count
  have cells := m.proper.cellCount_eq
  omega

theorem Maze.existsUnique_path {a b : Cell} (acyclic : m.passages.IsAcyclic)
    (connected : m.passages.Reachable a b) : ∃! walk, m.WalksFrom a b walk ∧ walk.Nodup := by
  obtain ⟨path, isPath⟩ := connected.exists_isPath
  refine ⟨path.support, ⟨Maze.walksFrom_support path, isPath.support_nodup⟩, ?_⟩
  rintro walk ⟨walks, simple⟩
  obtain ⟨other, rfl⟩ := walks.exists_walk
  have isPath' : other.IsPath := (Walk.isPath_def other).2 simple
  have same := (acyclic.subsingleton_path a b).elim ⟨other, isPath'⟩ ⟨path, isPath⟩
  exact congrArg Walk.support (congrArg Subtype.val same)

/-! ## Generating -/

/-- Whatever the order of the edges, carving them leaves a perfect maze. -/
theorem Carving.toMaze_perfect {order : List Edge} (proper : g.Proper)
    (reordered : order.Perm g.edges) :
    ∃ m, (Carving.carveAll g order).toMaze g = .ok m ∧ m.Perfect g := by
  obtain ⟨kept, tracks⟩ := Carving.Tracks.carveAll fun e mem => reordered.mem_iff.1 mem
  obtain ⟨m, built, grid, start, goal, walls⟩ := (carveAll g order).toMaze_of_proper proper
  have passages := tracks.passages_eq grid walls
  have acyclic : m.passages.IsAcyclic := passages ▸ tracks.acyclic
  have neighbors : ∀ e ∈ g.edges, m.passages.Reachable e.a e.b := fun e mem => by
    rw [passages]
    exact tracks.spanned e (List.mem_reverse.2 (reordered.mem_iff.2 mem))
  have connected {a b : Cell} (ha : g.Contains a) (hb : g.Contains b) : m.passages.Reachable a b :=
    Grid.related_of_edges m.passages.reachable_is_equivalence neighbors ha hb
  refine ⟨m, built, grid, start, goal, fun w fits edge => (walls w).2 (.inr ⟨fits, edge⟩), ?_, ?_,
    fun a b ha hb => Maze.existsUnique_path acyclic (connected ha hb)⟩
  · intro w mem
    rcases (walls w).1 mem with ⟨fits, -⟩ | ⟨fits, -⟩
    · exact fits
    · exact fits
  · subst grid
    exact Maze.passage_count_of_tree acyclic fun a ha b hb => connected ha hb

namespace Maze

theorem generate_of_proper (proper : g.Proper) (words : Random.Words) :
    Maze.generate g words =
      ((Carving.carveAll g (Random.shuffle words g.edges).1).toMaze g).map fun maze =>
        ⟨maze, (Random.shuffle words g.edges).1.length,
          (Carving.carveAll g (Random.shuffle words g.edges).1).removed.length,
          (Random.shuffle words g.edges).2⟩ := if_pos proper

/-- **Generated mazes are perfect.** On a proper grid, any order of the edges gives a perfect maze,
and so do any random words. -/
theorem generate_perfect (proper : g.Proper) :
    (∀ order : List Edge, order.Perm g.edges →
      ∃ m, (Carving.carveAll g order).toMaze g = .ok m ∧ m.Perfect g) ∧
    ∀ words : Random.Words, ∃ r, Maze.generate g words = .ok r ∧ r.maze.Perfect g := by
  refine ⟨fun order => Carving.toMaze_perfect proper, fun words => ?_⟩
  obtain ⟨m, built, perfect⟩ := Carving.toMaze_perfect proper (Random.perm_shuffle words g.edges)
  rw [generate_of_proper proper, built]
  exact ⟨_, rfl, perfect⟩

theorem generate_perfect_three_by_two :
    (Grid.mk 3 2).Proper ∧
      ∃ r, Maze.generate ⟨3, 2⟩ (.scrambled 7) = .ok r ∧ r.maze.Perfect ⟨3, 2⟩ :=
  have proper : (Grid.mk 3 2).Proper := by decide
  ⟨proper, (generate_perfect proper).2 (.scrambled 7)⟩

end Maze

end Labyrinth

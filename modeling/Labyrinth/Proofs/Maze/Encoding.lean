import Mathlib.Data.Set.Function
import Labyrinth.Proofs.Maze.Greedy
import Labyrinth.Proofs.Wall.Enumeration

/-!
# Walls stand for pairs of neighbours

**Theorem (`walls_encode_neighbors`).** On a proper grid the anchor rule gives each pair of
neighbours a wall inside the outer edge, another wall for another pair, and every such wall. The two
enumerations hold the walls that fit and those of the outer edge, each once. So a passage leads both
ways, the neighbours that a cell is open to are listed once each, and the walls standing inside the
outer edge make up, with the passages, all pairs of neighbours.

The rule does not care which of the two cells is named first, so it is a function of the pair
(`Wall.ofPair?`, `bijOn_ofPair?`). To count, the pairs are listed as the edges of the grid: their
walls are the walls inside (`perm_map_wall_edges`), those of the edges that are passages are the
ones missing (`ncard_passages`), and the others are the ones that stand (`interiorWallCount_eq`).
-/

namespace Labyrinth

open SimpleGraph

variable {g : Grid} {m : Maze}

/-- The wall between the two cells of a pair, if they are neighbours. -/
def Wall.ofPair? : Sym2 Cell → Option Wall := Sym2.lift ⟨Wall.between?, Wall.between?_comm⟩

@[simp] theorem Wall.ofPair?_mk (a b : Cell) : ofPair? s(a, b) = between? a b := rfl

/-! ## One wall for each pair -/

theorem Grid.mem_edgeSet_neighbors {pair : Sym2 Cell} :
    pair ∈ g.neighbors.edgeSet ↔ ∃ e ∈ g.edges, s(e.a, e.b) = pair := by
  induction pair using Sym2.ind with
  | h a b => exact neighbors_adj_iff

theorem Wall.ofPair?_edge {e : Edge} (mem : e ∈ g.edges) : ofPair? s(e.a, e.b) = some e.wall :=
  (Grid.of_mem_edges mem).2.2

/-- **The pairs of neighbours correspond to the walls inside the outer edge.** -/
theorem Grid.bijOn_ofPair? (g : Grid) :
    Set.BijOn Wall.ofPair? g.neighbors.edgeSet
      (some '' {w | w.Fits g ∧ ¬ w.OnBoundary g}) := by
  refine ⟨fun pair adjacent => ?_, fun pair adjacent pair' adjacent' same => ?_, ?_⟩
  · obtain ⟨e, mem, rfl⟩ := mem_edgeSet_neighbors.1 adjacent
    obtain ⟨ha, hb, between⟩ := of_mem_edges mem
    exact ⟨e.wall, inside_of_between? ha hb between, between.symm⟩
  · obtain ⟨e, mem, rfl⟩ := mem_edgeSet_neighbors.1 adjacent
    obtain ⟨e', mem', rfl⟩ := mem_edgeSet_neighbors.1 adjacent'
    rw [Wall.ofPair?_edge mem, Wall.ofPair?_edge mem', Option.some_inj] at same
    rw [edge_eq_of_wall mem mem' same]
  · rintro _ ⟨w, ⟨fits, inside⟩, rfl⟩
    obtain ⟨e, mem, rfl⟩ := exists_mem_edges_of_inside fits inside
    exact ⟨s(e.a, e.b), mem_edgeSet_neighbors.2 ⟨e, mem, rfl⟩, Wall.ofPair?_edge mem⟩

theorem Grid.perm_map_wall_edges (g : Grid) : (g.edges.map (·.wall)).Perm g.insideWalls := by
  refine (List.perm_ext_iff_of_nodup ?_ g.nodup_insideWalls).2 fun w => ?_
  · exact List.Nodup.map_on (fun e h e' h' same => edge_eq_of_wall h h' same) g.nodup_edges
  · rw [List.mem_map, mem_insideWalls]
    constructor
    · rintro ⟨e, mem, rfl⟩
      obtain ⟨ha, hb, between⟩ := of_mem_edges mem
      exact inside_of_between? ha hb between
    · rintro ⟨fits, inside⟩
      exact exists_mem_edges_of_inside fits inside

theorem Grid.length_edges (proper : g.Proper) :
    (g.edges.length : Int) = 2 * g.width * g.height - g.width - g.height := by
  rw [← length_insideWalls proper, ← g.perm_map_wall_edges.length_eq, List.length_map]

/-! ## Walls and passages -/

namespace Maze

theorem interiorWallCount_eq (m : Maze) :
    m.interiorWallCount = m.edges.countP (·.wall ∈ m.walls) := by
  have standing : (m.walls.toList.filter (¬ ·.OnBoundary m.toGrid)).Perm
      (m.insideWalls.filter (· ∈ m.walls)) := by
    refine (List.perm_ext_iff_of_nodup (m.walls.nodup_toList.filter _)
      (m.nodup_insideWalls.filter _)).2 fun w => ?_
    have fits : w ∈ m.walls → w.Fits m.toGrid := m.walls_fit w
    simp only [List.mem_filter, decide_eq_true_eq, WallSet.mem_toList, Grid.mem_insideWalls]
    tauto
  rw [interiorWallCount, List.countP_eq_length_filter, standing.length_eq,
    ← List.countP_eq_length_filter, ← m.perm_map_wall_edges.countP_eq, List.countP_map]
  rfl

theorem ncard_passages (m : Maze) :
    m.passages.edgeSet.ncard = m.edges.countP (·.wall ∉ m.walls) := by
  let free := m.edges.filter (·.wall ∉ m.walls)
  have distinct : free.Nodup := m.nodup_edges.filter _
  have pairs : m.passages.edgeSet = (fun e : Edge => s(e.a, e.b)) '' (free.toFinset : Set Edge) := by
    ext pair
    induction pair using Sym2.ind with
    | h a b =>
      rw [mem_edgeSet, passages_adj, open_iff_exists_edge]
      simp [free, and_assoc]
  have apart : Set.InjOn (fun e : Edge => s(e.a, e.b)) (free.toFinset : Set Edge) := by
    intro e mem e' mem' same
    have listed {e : Edge} (mem : e ∈ (free.toFinset : Set Edge)) : e ∈ m.edges :=
      List.mem_of_mem_filter (List.mem_toFinset.1 mem)
    exact Grid.edge_eq_of_pair (listed mem) (listed mem') same
  rw [pairs, apart.ncard_image, Set.ncard_coe_finset,
    List.toFinset_card_of_nodup distinct, List.countP_eq_length_filter]

/-- Each pair of neighbours has a wall standing between them or a passage. -/
theorem interiorWallCount_add_ncard_passages (m : Maze) :
    m.interiorWallCount + m.passages.edgeSet.ncard = m.edges.length := by
  rw [interiorWallCount_eq, ncard_passages, List.length_eq_countP_add_countP (·.wall ∈ m.walls)]
  simp

end Maze

theorem Grid.neighbors_adj_iff_manhattan {a b : Cell} :
    g.neighbors.Adj a b ↔ g.Contains a ∧ g.Contains b ∧ a.manhattan b = 1 := by
  rw [Cell.manhattan_eq_one_iff]
  exact Iff.rfl

/-- **The walls of a grid stand for its pairs of neighbours.** -/
theorem Grid.walls_encode_neighbors (proper : g.Proper) :
    (∀ a b, g.neighbors.Adj a b ↔ g.Contains a ∧ g.Contains b ∧ a.manhattan b = 1) ∧
    (∀ a b, Wall.between? a b = Wall.between? b a) ∧
    Set.BijOn Wall.ofPair? g.neighbors.edgeSet (some '' {w | w.Fits g ∧ ¬ w.OnBoundary g}) ∧
    (g.allWalls.Nodup ∧ ∀ w, w ∈ g.allWalls ↔ w.Fits g) ∧
    (g.boundaryWalls.Nodup ∧ ∀ w, w ∈ g.boundaryWalls ↔ w.Fits g ∧ w.OnBoundary g) ∧
    ∀ m : Maze, m.toGrid = g →
      (∀ a b, m.Open a b ↔ m.Open b a) ∧
      (∀ c, (m.openNeighbors c).Nodup ∧ ∀ n, n ∈ m.openNeighbors c ↔ m.Open c n) ∧
      (m.interiorWallCount + m.passages.edgeSet.ncard : Int) =
        2 * g.width * g.height - g.width - g.height := by
  refine ⟨fun a b => neighbors_adj_iff_manhattan, Wall.between?_comm, g.bijOn_ofPair?,
    ⟨g.nodup_allWalls, fun w => mem_allWalls⟩,
    ⟨nodup_boundaryWalls proper, fun w => mem_boundaryWalls proper⟩, ?_⟩
  rintro m rfl
  refine ⟨fun a b => ⟨Maze.Open.symm, Maze.Open.symm⟩,
    fun c => ⟨m.nodup_openNeighbors c, fun n => Maze.mem_openNeighbors⟩, ?_⟩
  rw [← length_edges proper, ← m.interiorWallCount_add_ncard_passages, Int.natCast_add]

/-- Three by two cells have seven pairs of neighbours; one wall leaves six passages. -/
theorem Grid.walls_encode_neighbors_three_by_two :
    let m : Maze := .close ⟨3, 2⟩ .origin ⟨2, 1⟩ [.vertical 1 0, .horizontal 0 0] (by decide)
      (by decide) (by decide) (by decide)
    (Grid.mk 3 2).Proper ∧ m.interiorWallCount = 1 ∧ m.passages.edgeSet.ncard = 6 := by
  intro m
  have proper : (Grid.mk 3 2).Proper := by decide
  obtain ⟨-, -, -, -, -, mazes⟩ := walls_encode_neighbors proper
  obtain ⟨-, -, count⟩ := mazes m rfl
  have standing : m.interiorWallCount = 1 := by decide
  rw [standing] at count
  have count : ((1 : Nat) + m.passages.edgeSet.ncard : Int) = 2 * 3 * 2 - 3 - 2 := count
  exact ⟨proper, standing, by omega⟩

end Labyrinth

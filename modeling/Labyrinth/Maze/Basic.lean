import Labyrinth.Text
import Labyrinth.Wall.Name
import Labyrinth.Wall.Set

/-!
# Mazes

A maze is a proper grid with a start, a goal and a set of walls. The type keeps what every maze
promises: both cells lie on the grid, every wall can exist there, and the outer edge is closed.

**Refusals** (`MazeError`). The reasons for which a maze is not built, or the name of a wall not
read, and their wording. How a run ends is never one of them.

**Construction** (`Maze.build`). Checks the grid, the start, the goal and then the walls in the
order given; `Maze.close` adds the outer edge and cannot fail.

**Passages** (`Maze.Open`). One may step between neighbours on the grid that no wall separates, and
back again (`Open.symm`).
-/

namespace Labyrinth

/-! ## Refusals -/

/-- A reason to refuse a maze or the name of a wall. -/
inductive MazeError where
  /-- A width or a height below one. -/
  | invalidDimension (g : Grid)
  /-- A start or a goal off the grid. -/
  | cellOutOfBounds (c : Cell)
  /-- A wall that cannot exist on the grid. -/
  | wallOutOfRange (w : Wall)
  /-- A text that names no wall. -/
  | malformedWallName (text : String)
  deriving DecidableEq, Repr

/-- The wording of a refusal. -/
def MazeError.message : MazeError → String
  | invalidDimension g => s!"invalid maze dimensions {g.width}x{g.height}"
  | cellOutOfBounds c => s!"cell {c.bracketed} is outside the maze"
  | wallOutOfRange w => s!"wall {w.name} is outside the maze"
  | malformedWallName text => s!"malformed wall id {Text.quoted text}"

/-- The wall that a text names, or the refusal that quotes the text. -/
def Wall.parse (text : String) : Except MazeError Wall :=
  match Wall.ofName? text with
  | some w => .ok w
  | none => .error (.malformedWallName text)

/-! ## Mazes -/

/-- A rectangular maze with a closed outer edge. -/
structure Maze extends Grid where
  start : Cell
  goal : Cell
  walls : WallSet
  proper : toGrid.Proper
  start_mem : toGrid.Contains start
  goal_mem : toGrid.Contains goal
  walls_fit : ∀ w ∈ walls, w.Fits toGrid
  boundary_mem : ∀ w ∈ toGrid.boundaryWalls, w ∈ walls
  deriving DecidableEq

namespace Maze

/-- The maze with the given walls and the walls of the outer edge. -/
def close (g : Grid) (start goal : Cell) (walls : List Wall) (proper : g.Proper)
    (start_mem : g.Contains start) (goal_mem : g.Contains goal)
    (walls_fit : ∀ w ∈ walls, w.Fits g) : Maze where
  toGrid := g
  start := start
  goal := goal
  walls := WallSet.ofList (walls ++ g.boundaryWalls)
  proper := proper
  start_mem := start_mem
  goal_mem := goal_mem
  walls_fit w h := by
    rcases List.mem_append.1 (WallSet.mem_ofList.1 h) with h | h
    · exact walls_fit w h
    · exact ((Grid.mem_boundaryWalls proper).1 h).1
  boundary_mem w h := WallSet.mem_ofList.2 (List.mem_append_right walls h)

/-- Builds a maze, or names the first thing wrong with it: the grid, the start, the goal, and then
the first wall listed that does not fit. -/
def build (g : Grid) (start goal : Cell) (walls : List Wall) : Except MazeError Maze :=
  if proper : g.Proper then
    if start_mem : g.Contains start then
      if goal_mem : g.Contains goal then
        match misfit : walls.find? (¬ ·.Fits g) with
        | some w => .error (.wallOutOfRange w)
        | none => .ok <| close g start goal walls proper start_mem goal_mem fun w h => by
            simpa using List.find?_eq_none.1 misfit w h
      else .error (.cellOutOfBounds goal)
    else .error (.cellOutOfBounds start)
  else .error (.invalidDimension g)

/-! ## Questions about a maze -/

/-- The number of walls inside the outer edge. -/
def interiorWallCount (m : Maze) : Nat := m.walls.toList.countP (¬ ·.OnBoundary m.toGrid)

/-- The steps from start to goal if there were no walls: no run can take fewer. -/
def manhattan (m : Maze) : Nat := m.start.manhattan m.goal

/-- One may step from the first cell to the second: both lie on the grid, they are neighbours, and
no wall separates them. -/
def Open (m : Maze) (a b : Cell) : Prop :=
  m.Contains a ∧ m.Contains b ∧ ∃ w ∈ Wall.between? a b, w ∉ m.walls

instance (m : Maze) (a b : Cell) : Decidable (m.Open a b) :=
  inferInstanceAs (Decidable (_ ∧ _ ∧ ∃ w ∈ Wall.between? a b, w ∉ m.walls))

/-- The order in which the neighbours of a cell are looked at. -/
def neighborOrder : List Heading := [.right, .left, .down, .up]

/-- The cells one may step to, in the order in which neighbours are looked at. -/
def openNeighbors (m : Maze) (c : Cell) : List Cell :=
  (neighborOrder.map fun h => c + h.step).filter (m.Open c ·)

theorem Open.exists_step {m : Maze} {a b : Cell} (h : m.Open a b) :
    ∃ d : Heading, b = a + d.step :=
  have ⟨_, _, _, found, _⟩ := h
  Wall.exists_step_of_between? found

theorem Open.symm {m : Maze} {a b : Cell} (h : m.Open a b) : m.Open b a := by
  obtain ⟨ha, hb, w, found, free⟩ := h
  exact ⟨hb, ha, w, Wall.between?_symm found, free⟩

@[simp] theorem mem_openNeighbors {m : Maze} {c n : Cell} :
    n ∈ m.openNeighbors c ↔ m.Open c n := by
  simp only [openNeighbors, List.mem_filter, decide_eq_true_eq, and_iff_right_iff_imp]
  intro h
  obtain ⟨d, rfl⟩ := h.exists_step
  cases d <;> simp [neighborOrder]

/-! ## Results of building -/

/-- The walls of a closed maze are those given and those of the outer edge. -/
@[simp] theorem mem_walls_close {g : Grid} {start goal : Cell} {walls : List Wall}
    {hp : g.Proper} {hs : g.Contains start} {hg : g.Contains goal}
    {hw : ∀ w ∈ walls, w.Fits g} {w : Wall} :
    w ∈ (close g start goal walls hp hs hg hw).walls ↔ w ∈ walls ∨ w ∈ g.boundaryWalls := by
  simp [close]

end Maze

end Labyrinth

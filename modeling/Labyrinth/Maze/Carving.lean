import Labyrinth.Event
import Labyrinth.Maze.Basic
import Labyrinth.Partition
import Labyrinth.Random.Shuffle

/-!
# Carving a perfect maze

A maze is generated from a grid with every wall in place. The pairs of neighbouring cells are
shuffled and gone through once; a pair whose cells are not joined yet is joined, and the wall
between them removed. So the passages form a tree: between any two cells there is one simple path.

**State** (`Carving`). Which cells are joined, by their place in reading order, and the walls
removed so far.
-/

namespace Labyrinth

/-- A pair of neighbouring cells and the wall between them. -/
structure Edge where
  a : Cell
  b : Cell
  wall : Wall
  deriving DecidableEq, Repr

namespace Grid

/-- The edge from a cell to its right neighbour, if the grid has one. -/
def rightEdge (g : Grid) (c : Cell) : List Edge :=
  let next := c + Heading.right.step
  if c.x + 1 < g.width then [⟨c, next, .leftOf next⟩] else []

/-- The edge from a cell to the neighbour below, if the grid has one. -/
def downEdge (g : Grid) (c : Cell) : List Edge :=
  let next := c + Heading.down.step
  if c.y + 1 < g.height then [⟨c, next, .above next⟩] else []

/-- The pairs of neighbours: for each cell in reading order its right edge, then the one below. -/
def edges (g : Grid) : List Edge := g.cells.flatMap fun c => g.rightEdge c ++ g.downEdge c

end Grid

/-- The state of carving. -/
structure Carving where
  joined : Partition
  /-- The walls removed, the last one first. -/
  removed : List Wall

namespace Carving

/-- Nothing is joined and every wall stands. -/
def initial (g : Grid) : Carving := ⟨.discrete g.cellCount, []⟩

/-- Removes the wall of an edge unless its cells are joined already. -/
def carve (g : Grid) (s : Carving) (e : Edge) : Carving :=
  match s.joined.union (g.cellIndex e.a) (g.cellIndex e.b) with
  | (.ok true, joined) => ⟨joined, e.wall :: s.removed⟩
  | (_, joined) => { s with joined := joined }

/-- Goes through the edges in order. -/
def carveAll (g : Grid) (order : List Edge) : Carving := order.foldl (carve g) (initial g)

/-- The walls that are left standing. -/
def remaining (g : Grid) (s : Carving) : List Wall := g.allWalls.filter (· ∉ s.removed)

/-- The maze of the walls left standing. It starts in the first cell and its goal is the last. -/
def toMaze (g : Grid) (s : Carving) : Except MazeError Maze :=
  Maze.build g Cell.origin g.lastCell (s.remaining g)

end Carving

/-- A generated maze and how it came about. -/
structure Generated where
  maze : Maze
  /-- The number of pairs of neighbours of the grid. -/
  edges : Nat
  /-- The number of walls removed. -/
  carved : Nat
  /-- The number of random words used. -/
  wordsUsed : Nat

namespace Generated

/-- What the log says about a generated maze. -/
def event (r : Generated) : Event := .generated r.maze.width r.maze.height r.edges r.carved

end Generated

namespace Maze

/-- Generates a perfect maze from random words. -/
def generate (g : Grid) (words : Random.Words) : Except MazeError Generated :=
  if g.Proper then
    let (order, used) := Random.shuffle words g.edges
    let carving := Carving.carveAll g order
    (carving.toMaze g).map fun maze => ⟨maze, order.length, carving.removed.length, used⟩
  else .error (.invalidDimension g)

end Maze

end Labyrinth

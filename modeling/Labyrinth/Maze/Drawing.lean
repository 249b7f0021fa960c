import Labyrinth.Maze.Basic

/-!
# The drawing of a maze

A maze is drawn in characters: a line of horizontal walls, then for each row of cells a line with
the cells and the vertical walls and a line of the horizontal walls below them. Posts are drawn at
every corner, `S` marks the start and `G` the goal; where the two are one cell, `S` is drawn.
-/

namespace Labyrinth.Maze

/-- A horizontal wall, or the gap in its place. -/
def horizontalEdge (m : Maze) (x y : Int) : String :=
  if Wall.horizontal x y ∈ m.walls then "---" else "   "

/-- A vertical wall, or the gap in its place. -/
def verticalEdge (m : Maze) (x y : Int) : String :=
  if Wall.vertical x y ∈ m.walls then "|" else " "

/-- The inside of a cell. -/
def mark (m : Maze) (c : Cell) : String :=
  if c = m.start then " S " else if c = m.goal then " G " else "   "

/-- The line of horizontal walls above a row of cells. -/
def wallLine (m : Maze) (y : Int) : String :=
  String.join ((upTo m.width).map fun x => "+" ++ m.horizontalEdge x y) ++ "+"

/-- The line through a row of cells. -/
def cellLine (m : Maze) (y : Int) : String :=
  String.join ((upTo m.width).map fun x => m.verticalEdge x y ++ m.mark ⟨x, y⟩) ++
    m.verticalEdge m.width y

/-- The lines of the drawing, from top to bottom. -/
def drawingLines (m : Maze) : List String :=
  ((upTo m.height).flatMap fun y => [m.wallLine y, m.cellLine y]) ++ [m.wallLine m.height]

/-- The drawing, each line ended. -/
def drawing (m : Maze) : String := String.join (m.drawingLines.map (· ++ "\n"))

end Labyrinth.Maze

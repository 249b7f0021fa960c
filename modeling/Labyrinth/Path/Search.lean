import Labyrinth.Event
import Labyrinth.Maze.Basic

/-!
# Shortest paths

A breadth-first search from the start of a maze. Cells are expanded in the order in which they were
reached, and the neighbours of a cell are looked at in a fixed order, so that of several shortest
paths it is always the same one that is found.

**State** (`Search`). The cells still to be expanded, and every cell reached so far with the cell
it was reached from.
-/

namespace Labyrinth

/-- The state of a breadth-first search. -/
structure Search where
  /-- The cells reached and not yet expanded, the oldest first. -/
  queue : List Cell
  /-- The cells reached, each with the one it was reached from; the start comes from nowhere. -/
  reached : List (Cell × Option Cell)

namespace Search

/-- Only the start is reached. -/
def initial (start : Cell) : Search := ⟨[start], [(start, none)]⟩

/-- The cell has been reached. -/
def HasReached (s : Search) (c : Cell) : Prop := c ∈ s.reached.map Prod.fst

instance (s : Search) (c : Cell) : Decidable (s.HasReached c) :=
  inferInstanceAs (Decidable (c ∈ s.reached.map Prod.fst))

/-- The cell from which a cell was reached. -/
def predecessor? (s : Search) (c : Cell) : Option Cell := (s.reached.lookup c).join

/-- The number of cells reached. -/
def visited (s : Search) : Nat := s.reached.length

/-- The neighbours of a cell that are reached from it for the first time. -/
def discoveries (m : Maze) (s : Search) (c : Cell) : List Cell :=
  (m.openNeighbors c).filter (¬ s.HasReached ·)

/-- The state after expanding a cell, with the cells that waited behind it. -/
def expand (m : Maze) (s : Search) (c : Cell) (waiting : List Cell) : Search :=
  let new := s.discoveries m c
  ⟨waiting ++ new, new.map (·, some c) ++ s.reached⟩

/-- Puts the way to a cell in front of what follows it, going back at most `fuel` steps. -/
def walkBack (s : Search) : Nat → Cell → List Cell → List Cell
  | 0, c, after => c :: after
  | fuel + 1, c, after =>
    match s.predecessor? c with
    | none => c :: after
    | some p => s.walkBack fuel p (c :: after)

/-- The way by which a cell was reached, from the start on. It is no longer than the number of
cells reached. -/
def pathTo (s : Search) (c : Cell) : List Cell := s.walkBack s.visited c []

/-- What a search comes to. -/
inductive Result where
  /-- The goal was reached by a path, given with both ends. -/
  | found (path : List Cell)
  /-- The goal cannot be reached; the number of cells that can is given. -/
  | unreachable (visited : Nat)
  deriving DecidableEq, Repr

/-- Expands cells until the goal is due or none is left, at most `fuel` times. -/
def run (m : Maze) : Nat → Search → Result
  | 0, s => .unreachable s.visited
  | fuel + 1, s =>
    match s.queue with
    | [] => .unreachable s.visited
    | c :: waiting => if c = m.goal then .found (s.pathTo c) else run m fuel (s.expand m c waiting)

/-- The path found, or no cells at all. -/
def Result.path : Result → List Cell
  | found path => path
  | unreachable _ => []

/-- What the log says about a search on a maze. -/
def Result.events (m : Maze) : Result → List Event
  | found _ => []
  | unreachable visited => [.goalUnreachable m.start m.goal visited]

end Search

namespace Maze

/-- Searches for the goal from the start. Each cell is expanded at most once. -/
def search (m : Maze) : Search.Result := Search.run m (m.cellCount + 1) (.initial m.start)

/-- The first of the shortest paths from start to goal, with both ends; no cells if there is
none. -/
def shortestPath (m : Maze) : List Cell := m.search.path

end Maze

end Labyrinth

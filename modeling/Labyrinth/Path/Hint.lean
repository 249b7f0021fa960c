import Labyrinth.Path.Search
import Labyrinth.Program.Basic

/-!
# Hints

A path of cells becomes a program that walks it: for each step the turns that face the next cell,
then a move. A hint is the program of a shortest path.

Main statement: `foldl_turn_turnsTo`, the turns emitted lead to the heading wanted.
-/

namespace Labyrinth

namespace Heading

/-- The turns from one heading to another: none, one quarter turn, or two to the right. -/
def turnsTo (h wanted : Heading) : List BlockKind :=
  if wanted = h.turnLeft then [.turnLeft]
  else if wanted = h.turnRight then [.turnRight]
  else if wanted = h then []
  else [.turnRight, .turnRight]

/-- The heading after a block of some kind. -/
def turn (h : Heading) : BlockKind → Heading
  | .turnLeft => h.turnLeft
  | .turnRight => h.turnRight
  | _ => h

theorem foldl_turn_turnsTo (h wanted : Heading) : (h.turnsTo wanted).foldl turn h = wanted := by
  cases h <;> cases wanted <;> rfl

end Heading

namespace Path

/-- The blocks that walk a path for a robot with a given heading. A cell that no step leads to from
the one before it is passed over. -/
def kinds (h : Heading) : List Cell → List BlockKind
  | a :: b :: rest =>
    match a.headingTo? b with
    | none => kinds h (b :: rest)
    | some wanted => h.turnsTo wanted ++ .forward :: kinds wanted (b :: rest)
  | _ => []

/-- The program that walks a path for a robot with a given heading. -/
def program (path : List Cell) (facing : Heading) : Program := .ofKinds "hint-" (kinds facing path)

end Path

namespace Search.Result

/-- The program that walks the path found, if one was found. -/
def hint (facing : Heading) : Search.Result → Option Program
  | found path => some (Path.program path facing)
  | unreachable _ => none

end Search.Result

/-- A program that leads a robot with the given heading from start to goal on a shortest path. -/
def Maze.hint (m : Maze) (facing : Heading) : Option Program := m.search.hint facing

end Labyrinth

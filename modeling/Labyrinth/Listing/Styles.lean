import Labyrinth.Listing.Basic

/-!
# Styles of listings

Plain words, Python and JavaScript, and the one-line tooltip of a block.
-/

namespace Labyrinth.Listing

/-- Plain words. Nesting shows by indentation only. -/
def pseudocode : Style where
  opening := "START\n"
  closing := "END"
  indent := "  "
  baseLevel := 0
  forward := "Move Forward"
  turnLeft := "Turn Left 90°"
  turnRight := "Turn Right 90°"
  wait := "Wait 1 second"
  repeatLine count := s!"Repeat {count} times:"
  endLine := none
  emptyLine := none

/-- The body of a Python function. Nesting shows by indentation only, and a function without any
instruction needs a line that does nothing. -/
def python : Style where
  opening := "# RoboMaze Program\n\ndef solve_maze():\n"
  closing := "\n# Run the solution\nsolve_maze()\n"
  indent := "    "
  baseLevel := 1
  forward := "move_forward()"
  turnLeft := "turn_left()"
  turnRight := "turn_right()"
  wait := "wait(1)"
  repeatLine count := s!"for _ in range({count}):"
  endLine := none
  emptyLine := some "pass"

/-- The body of a JavaScript function, with a brace at the end of each loop. -/
def javaScript : Style where
  opening := "// RoboMaze Program\n\nfunction solveMaze() \x7b\n"
  closing := "\x7d\n\n// Run the solution\nsolveMaze();\n"
  indent := "  "
  baseLevel := 1
  forward := "moveForward();"
  turnLeft := "turnLeft();"
  turnRight := "turnRight();"
  wait := "wait(1);"
  repeatLine count := s!"for (let i = 0; i < {count}; i++) \x7b"
  endLine := some "\x7d"
  emptyLine := none

end Labyrinth.Listing

namespace Labyrinth.Block

/-- The tooltip of a block. -/
def tooltip (b : Block) : String :=
  match b.kind with
  | .forward => "Move Forward - Takes one step in the current direction"
  | .turnLeft => "Turn Left - Rotates 90° counterclockwise"
  | .turnRight => "Turn Right - Rotates 90° clockwise"
  | .wait => "Wait - Pauses for 1 second"
  | .repeatStart => s!"Repeat {b.iterations}x - Executes blocks inside multiple times"
  | .repeatEnd => "End Repeat - Marks the end of a repeat block"

end Labyrinth.Block

import Labyrinth.Cell

/-!
# The robot

A robot stands on a cell and faces a heading. It can turn on the spot or move to the cell ahead;
whether a move is allowed is for the maze to say.
-/

namespace Labyrinth

/-- A pose: a position and a heading. -/
@[ext] structure Robot where
  position : Cell
  heading : Heading
  deriving DecidableEq, Repr, Inhabited

namespace Robot

/-- The cell directly ahead. -/
def ahead (r : Robot) : Cell := r.position + r.heading.step

/-- The robot after a quarter turn counterclockwise. -/
def turnLeft (r : Robot) : Robot := { r with heading := r.heading.turnLeft }

/-- The robot after a quarter turn clockwise. -/
def turnRight (r : Robot) : Robot := { r with heading := r.heading.turnRight }

/-- The robot one cell ahead. -/
def advance (r : Robot) : Robot := { r with position := r.ahead }

@[simp] theorem turnLeft_position (r : Robot) : r.turnLeft.position = r.position := rfl

@[simp] theorem turnRight_position (r : Robot) : r.turnRight.position = r.position := rfl

@[simp] theorem advance_position (r : Robot) : r.advance.position = r.ahead := rfl

@[simp] theorem advance_heading (r : Robot) : r.advance.heading = r.heading := rfl

end Robot

end Labyrinth

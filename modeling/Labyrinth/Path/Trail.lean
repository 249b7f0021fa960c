import Labyrinth.Path.Hint
import Labyrinth.Robot

/-!
# Trails

Where blocks lead when no wall is in the way, and the way along the steps of a list of cells.

**Trail** (`Robot.trail`). The cells that a robot is moved to by a list of blocks. A block that is
no move at most turns the robot.

**Steps** (`Path.steps`). A list of cells has a step for each two cells in a row that are
neighbours. Taken one after the other from any cell they make a path (`Path.along`), in which each
cell is a neighbour of the one before it.

**Opposite cells** (`Cell.Opposite`). Neighbours are told by their coordinates as numbers
(`Cell.towards?`), and blocks are made from differences of words. The two disagree on cells at the
two ends of what words hold, in one row or in one column.
-/

namespace Labyrinth

/-! ## Neighbours and opposite cells -/

namespace Cell

/-- The heading of the step from one cell to another, if they are neighbours. -/
def towards? (a b : Cell) : Option Heading := Heading.all.find? fun h => b = a + h.step

/-- One number is the least that a word holds, and the other the greatest. -/
def WordEnds (m n : Int) : Prop :=
  (m = -0x80000000 ∧ n = 0x7fffffff) ∨ (m = 0x7fffffff ∧ n = -0x80000000)

instance (m n : Int) : Decidable (WordEnds m n) := inferInstanceAs (Decidable (_ ∨ _))

/-- The cells stand at the two ends of a row or of a column that goes as far as words do. -/
def Opposite (a b : Cell) : Prop :=
  (WordEnds a.x b.x ∧ a.y = b.y) ∨ (a.x = b.x ∧ WordEnds a.y b.y)

instance (a b : Cell) : Decidable (a.Opposite b) := inferInstanceAs (Decidable (_ ∨ _))

end Cell

/-! ## Trails -/

/-- The cells that a robot is moved to, one after the other, if nothing is in its way. -/
def Robot.trail (r : Robot) : List BlockKind → List Cell
  | [] => []
  | .forward :: rest => r.ahead :: r.advance.trail rest
  | kind :: rest => Robot.trail { r with heading := r.heading.turn kind } rest

theorem Robot.trail_of_ne {r : Robot} {kind : BlockKind} (other : kind ≠ .forward)
    (rest : List BlockKind) :
    r.trail (kind :: rest) = Robot.trail { r with heading := r.heading.turn kind } rest := by
  cases kind <;> first | exact absurd rfl other | rfl

/-! ## Steps -/

namespace Path

/-- Each cell is a neighbour of the one before it. -/
def Connected : List Cell → Prop
  | a :: b :: rest => a.manhattan b = 1 ∧ Connected (b :: rest)
  | _ => True

instance decidableConnected : (path : List Cell) → Decidable (Connected path)
  | [] => .isTrue trivial
  | [_] => .isTrue trivial
  | a :: b :: rest =>
    have := decidableConnected (b :: rest)
    inferInstanceAs (Decidable (a.manhattan b = 1 ∧ Connected (b :: rest)))

/-- The steps between cells that are neighbours of the one before them. -/
def steps (path : List Cell) : List Heading :=
  (path.zip path.tail).filterMap fun (a, b) => a.towards? b

/-- How many times two cells in a row are opposite. -/
def opposites (path : List Cell) : Nat :=
  (path.zip path.tail).countP fun (a, b) => a.Opposite b

/-- The cells come to from a first cell by steps. -/
def along (c : Cell) (steps : List Heading) : List Cell := steps.scanl (fun c h => c + h.step) c

end Path

end Labyrinth

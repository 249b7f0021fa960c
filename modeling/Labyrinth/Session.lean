import Labyrinth.Maze.Carving
import Labyrinth.Path.Hint
import Labyrinth.Run.Verdict

/-!
# Sessions

What one round of play keeps together: a maze, the pose that runs start from, the program being
edited and the settings.
-/

namespace Labyrinth

/-- The facts of a finished run that count for a learner's progress. -/
structure RunSummary where
  success : Bool
  stars : UInt8
  /-- The number of blocks placed, brackets included. -/
  blockCount : Nat
  usedLoop : Bool
  deriving DecidableEq, Repr

/-- The state of a round of play. -/
structure Session where
  maze : Maze
  /-- The pose that runs start from. -/
  initialRobot : Robot := ⟨maze.start, .right⟩
  program : Program := .empty
  config : RunConfig := {}

namespace Session

/-- A round on a given maze, with the robot on its start and facing right. -/
def ofMaze (m : Maze) : Session := { maze := m }

/-- The round with the robot put back on the start of the maze, facing right. -/
def resetRobot (s : Session) : Session := { s with initialRobot := ⟨s.maze.start, .right⟩ }

/-- The round with one more block at the end of the program. -/
def push (s : Session) (b : Block) : Session := { s with program := s.program.push b }

/-- Runs the program with the settings of the round. -/
def run (s : Session) : Report := (Plan.of s.maze s.program s.config).execute s.initialRobot

/-- Runs the program with a trace recorded. -/
def runDebug (s : Session) : Report := run { s with config := s.config.withTrace }

/-- A program that walks the shortest path for a robot with the heading of the initial pose. -/
def hint (s : Session) : Option Program := s.maze.hint s.initialRobot.heading

/-- What counts of a verdict, with the program as it stands. -/
def summary (s : Session) (v : Verdict) : RunSummary where
  success := v.success
  stars := v.stars
  blockCount := s.program.length
  usedLoop := s.program.usesLoops

end Session

end Labyrinth

import Labyrinth.Run.Verdict

/-!
# The history of a run

What a run to its end comes to, block by block, whatever the settings say about traces. A run that
is stepped, shown or stopped on the way is measured against it.
-/

namespace Labyrinth

/-- The poses after the blocks that a record tells of as done. -/
def TraceEntry.poses (entries : List TraceEntry) : List Robot :=
  (entries.filter (·.success)).map (·.after)

/-- The cells on which the robot stands after each move that a record tells of. -/
def TraceEntry.moves (entries : List TraceEntry) : List Cell :=
  (entries.filter (·.blockKind = .forward)).map (·.after.position)

/-- The number of moves that a record tells of as done. -/
def TraceEntry.forwards (entries : List TraceEntry) : Nat :=
  entries.countP fun entry => entry.success && entry.blockKind = .forward

/-- What an entry tells, wherever its block stands in the program. -/
def TraceEntry.unplaced (entry : TraceEntry) : TraceEntry := { entry with blockIndex := 0 }

/-- What a verdict tells, wherever the blocks stand in the program. -/
def Verdict.unplaced (v : Verdict) : Verdict :=
  { v with trace := v.trace.map (·.map TraceEntry.unplaced) }

/-- The verdict on a run that is stopped after some blocks, by the verdict on the whole run. -/
def Verdict.cutAfter (whole : Verdict) (steps : Nat) (robot : Robot) : Verdict where
  outcome := .cancelled
  success := false
  message := "Execution cancelled."
  finalRobot := robot
  steps := steps
  stars := 0
  trace := whole.trace.map (·.take steps)

namespace Plan

/-- The same plan with a trace recorded. -/
def withTrace (p : Plan) : Plan := .of p.maze p.program p.config.withTrace

/-- The record of a run to its end, kept whatever the settings say. -/
def history (p : Plan) (robot : Robot) : List TraceEntry :=
  (p.withTrace.execute robot).verdict.trace.getD []

/-- The poses of a run to its end: at each position the pose after that many blocks. -/
def poses (p : Plan) (robot : Robot) : List Robot := robot :: TraceEntry.poses (p.history robot)

/-- The poses that the blocks lead to, each with the number of its step. -/
def showing (p : Plan) (robot : Robot) : List (Robot × Nat) := (p.poses robot).tail.zipIdx 1

end Plan

end Labyrinth

import Labyrinth.Run.Execution

/-!
# Verdicts

What is told about a run that has ended, and running a program to its end.
-/

namespace Labyrinth

/-- What is told about a run. -/
structure Verdict where
  outcome : Outcome
  success : Bool
  /-- Shown to the learner as it is. -/
  message : String
  finalRobot : Robot
  /-- The primitive blocks done. -/
  steps : Nat
  /-- From 0 to 3, and more than 0 only on success. -/
  stars : UInt8
  /-- The record of the run, if one was kept. -/
  trace : Option (List TraceEntry) := none
  deriving DecidableEq, Repr

/-- A verdict together with what was reported on the way to it. -/
structure Report where
  verdict : Verdict
  events : List Event
  deriving DecidableEq

namespace Plan

/-- The wording of an outcome, for a run that ended in the given state. -/
def message (p : Plan) (e : Execution) : Outcome → String
  | .success => s!"Success! Reached the goal in {e.steps} steps."
  | .wallCollision =>
    s!"Robot hit a wall at {e.robot.position.parenthesised} facing {e.robot.heading.name}. " ++
      "Try a different path."
  | .stepBudgetExceeded =>
    s!"Program too long: {p.unrolled} steps reach the limit of {p.config.maxSteps.toNat}. " ++
      "Check for infinite loops."
  | .goalNotReached =>
    s!"Goal not reached: the robot stopped at {e.robot.position.parenthesised}."
  | .cancelled => "Execution cancelled."

/-- The stars of an outcome, for a run that ended in the given state. -/
def stars (p : Plan) (e : Execution) : Outcome → UInt8
  | .success => p.config.stars.rate e.steps p.maze.manhattan
  | _ => 0

/-- The verdict on a run that ended with an outcome in the given state. -/
def verdict (p : Plan) (outcome : Outcome) (e : Execution) : Verdict where
  outcome := outcome
  success := outcome = .success
  message := p.message e outcome
  finalRobot := e.robot
  steps := e.steps
  stars := p.stars e outcome
  trace := e.trace.map Array.toList

/-- The report on a run that ended with an outcome in the given state. -/
def report (p : Plan) (outcome : Outcome) (e : Execution) : Report where
  verdict := p.verdict outcome e
  events := e.log.toList ++ [.finished outcome e.steps (p.stars e outcome)]

/-- Steps until the run ends, at most as often as given. -/
def exhaust (p : Plan) : Nat → Execution → Outcome × Execution
  | 0, e => (.cancelled, e)
  | fuel + 1, e =>
    match p.step e with
    | (.executed .., e) => p.exhaust fuel e
    | (.halted outcome, e) => (outcome, e)

/-- A number of steps in which every run ends: one for each primitive block of the unrolled
program, and one to find that it has ended. -/
def stepLimit (p : Plan) : Nat := p.unrolled + 1

/-- Steps until the run ends, and gives the verdict. -/
def finish (p : Plan) (e : Execution) : Report :=
  let (outcome, e) := p.exhaust p.stepLimit e
  p.report outcome e

/-- Runs the program from a pose to its end. -/
def execute (p : Plan) (robot : Robot) : Report := p.finish (p.start robot)

end Plan

end Labyrinth

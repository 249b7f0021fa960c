/-!
# Settings and outcomes of runs

What is settled before a run: the step ceiling, the thresholds of the star rating, and whether to
record a trace. And the ways in which a run ends, none of which is an error.
-/

namespace Labyrinth

/-! ## Settings -/

/-- For each number of stars, how many steps above the lower bound still earn it. -/
structure StarThresholds where
  three : UInt32 := 2
  two : UInt32 := 5
  one : UInt32 := 10
  deriving DecidableEq, Repr

/-- The stars that a successful run earns, given its steps and a lower bound for them. -/
def StarThresholds.rate (s : StarThresholds) (steps optimal : Nat) : UInt8 :=
  if steps ≤ optimal + s.three.toNat then 3
  else if steps ≤ optimal + s.two.toNat then 2
  else if steps ≤ optimal + s.one.toNat then 1
  else 0

/-- The settings of a run. -/
structure RunConfig where
  /-- A program whose unrolled length reaches this ceiling is not run. -/
  maxSteps : UInt32 := 1000
  stars : StarThresholds := {}
  /-- Whether the verdict carries a trace. -/
  recordTrace : Bool := false
  deriving DecidableEq, Repr

/-- The same settings with a trace recorded. -/
def RunConfig.withTrace (c : RunConfig) : RunConfig := { c with recordTrace := true }

/-! ## Outcomes -/

/-- How a run ended. -/
inductive Outcome where
  /-- The program ended with the robot on the goal. -/
  | success
  /-- A move was blocked by a wall or by the edge of the grid. -/
  | wallCollision
  /-- The unrolled program reaches the step ceiling. -/
  | stepBudgetExceeded
  /-- The program ended with the robot elsewhere. -/
  | goalNotReached
  /-- The run was told to stop. -/
  | cancelled
  deriving DecidableEq, Repr

namespace Outcome

/-- Every outcome. -/
def all : List Outcome := [success, wallCollision, stepBudgetExceeded, goalNotReached, cancelled]

/-- The name of an outcome in documents. -/
def name : Outcome → String
  | success => "success"
  | wallCollision => "wallCollision"
  | stepBudgetExceeded => "stepBudgetExceeded"
  | goalNotReached => "goalNotReached"
  | cancelled => "cancelled"

/-- The name of an outcome in the log. -/
def logName : Outcome → String
  | success => "Success"
  | wallCollision => "WallCollision"
  | stepBudgetExceeded => "StepBudgetExceeded"
  | goalNotReached => "GoalNotReached"
  | cancelled => "Cancelled"

end Outcome

end Labyrinth

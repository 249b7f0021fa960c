import Labyrinth.Run.Verdict

/-!
# Paced runs

A run that waits after every primitive block, so that it can be shown while it happens. Whoever
watches may stop the run while it waits, and it ends before the next block.
-/

namespace Labyrinth

/-- A report together with what the watcher was shown: each pose and the number of its step. -/
structure PacedReport extends Report where
  seen : List (Robot × Nat)

/-- A watcher, as far as the run can tell: whether it stops the run when shown a pose and the number
of its step. -/
abbrev Watcher := Robot → Nat → Bool

namespace Plan

/-- Steps until the run ends and shows each pose to a watcher, at most as often as given. The
result is the state in the end and the poses shown. -/
def showSteps (p : Plan) (stops : Watcher) : Nat → Execution → Execution × List (Robot × Nat)
  | 0, e => (e, [])
  | fuel + 1, e =>
    match p.step e with
    | (.executed robot steps, e) =>
      let (last, seen) := p.showSteps stops fuel (if stops robot steps then e.cancel else e)
      (last, (robot, steps) :: seen)
    | (.halted _, e) => (e, [])

/-- Runs the program from a pose at a pace. `stopped` tells whether the run is told to stop before
it begins. -/
def executePaced (p : Plan) (robot : Robot) (stopped : Bool) (stops : Watcher) : PacedReport :=
  let first := p.start robot
  let (last, seen) := p.showSteps stops p.stepLimit (if stopped then first.cancel else first)
  { p.finish last with seen := seen }

end Plan

end Labyrinth

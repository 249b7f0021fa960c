import Labyrinth.Run.Verdict

/-!
# Calls and turns

A run in the hands of a caller, who may step it, look at it and tell it to stop, in any order and
any number of times (`Call`). And a run between two parties: one who steps it, and one who may tell
it to stop at any time, also while a step is under way (`Turn`).
-/

namespace Labyrinth

/-! ## Calls -/

/-- What a caller may do with a run. -/
inductive Call where
  | step
  /-- Reads the pose, the number of steps and the outcome. -/
  | look
  | cancel
  deriving DecidableEq, Repr

namespace Plan

/-- The state after a call. -/
def call (p : Plan) (e : Execution) : Call → Execution
  | .step => (p.step e).2
  | .look => e
  | .cancel => e.cancel

/-- The state after some calls. -/
def afterCalls (p : Plan) (calls : List Call) (e : Execution) : Execution := calls.foldl p.call e

/-- What the steps among some calls answer, in order. -/
def signals (p : Plan) : List Call → Execution → List Signal
  | [], _ => []
  | .step :: rest, e => (p.step e).1 :: p.signals rest (p.step e).2
  | .look :: rest, e => p.signals rest e
  | .cancel :: rest, e => p.signals rest e.cancel

end Plan

/-! ## Turns -/

/-- What may happen to a run. -/
inductive Turn where
  | step
  /-- A step during which the run is told to stop, after so many looks at its state. -/
  | stepCancelled (looks : Nat)
  | cancel
  deriving DecidableEq, Repr

namespace Plan

/-- A step during which the run is told to stop, after so many looks at its state. If the step needs
fewer of them, the run is told when the step is over. -/
def stepCancelled (p : Plan) (looks : Nat) (e : Execution) : Signal × Execution :=
  match p.passes looks e with
  | .done s e => (s, e.cancel)
  | .onward e => p.step e.cancel

/-- What a turn answers, if it is a step, and the state after it. -/
def turn (p : Plan) (e : Execution) : Turn → Option Signal × Execution
  | .step => let (s, e) := p.step e; (some s, e)
  | .stepCancelled looks => let (s, e) := p.stepCancelled looks e; (some s, e)
  | .cancel => (none, e.cancel)

/-- What the steps among some turns answer, in order, and the state after the turns. -/
def turns (p : Plan) : List Turn → Execution → List Signal × Execution
  | [], e => ([], e)
  | t :: rest, e =>
    let (answer, e) := p.turn e t
    let (answers, e) := p.turns rest e
    (answer.toList ++ answers, e)

end Plan

end Labyrinth

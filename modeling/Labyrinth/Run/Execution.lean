import Labyrinth.Event
import Labyrinth.Program.Nesting
import Labyrinth.Program.Unrolling
import Labyrinth.Run.Config
import Labyrinth.Run.Trace

/-!
# Running a program

A machine that goes through the flat list of blocks with a program counter and a stack of active
repeats, and can be stopped after every primitive block.

**What stays fixed** (`Plan`). The maze, the program and the settings, with the tables of the
program's brackets and lengths.

**The state** (`Execution`). The robot, the program counter, the active repeats, the steps counted,
the trace and the log, whether the run has been told to stop, and its outcome once it has one.

**One pass** (`Plan.pass`). Looks at the state once and either moves past a bracket or runs one
primitive block. In this order: a run that has an outcome keeps it; one that was told to stop is
cancelled; a repeat at the end of its body starts over or is left; at the end of the program the
position decides; else the block at the counter is run.

**One step** (`Plan.step`). As many passes as it takes to run a primitive block or to end.

**The budget.** A program whose unrolled length reaches the step ceiling has an outcome from the
start, and is never run.
-/

namespace Labyrinth

/-! ## What stays fixed -/

/-- A maze, a program to run in it and the settings. The tables are read off the program. -/
structure Plan where
  maze : Maze
  program : Program
  config : RunConfig
  /-- Where each repeat ends, if it is closed. -/
  ends : List (Option Nat) := program.matchingEnds
  /-- How long one pass over the body of each repeat is. -/
  bodies : List Nat := program.bodyLengths
  /-- How long the whole program is. -/
  unrolled : Nat := program.unrolledLength
  ends_eq : ends = program.matchingEnds := by rfl
  bodies_eq : bodies = program.bodyLengths := by rfl
  unrolled_eq : unrolled = program.unrolledLength := by rfl

/-- An active repeat. Its body lies strictly between the two positions. -/
structure Frame where
  /-- The position of the opening bracket. -/
  start : Nat
  /-- The position of the closing bracket, or the length of the program if there is none. -/
  stop : Nat
  /-- How many passes over the body are left, the current one included. -/
  remaining : Nat
  deriving DecidableEq, Repr

/-- The state of a run. -/
structure Execution where
  robot : Robot
  /-- The program counter. -/
  pc : Nat := 0
  /-- The active repeats, innermost first. -/
  frames : List Frame := []
  /-- The primitive blocks done. -/
  steps : Nat := 0
  /-- The record of the blocks come to, if one is kept. -/
  trace : Option (Array TraceEntry) := none
  /-- The run has been told to stop. -/
  cancelRequested : Bool := false
  /-- The outcome, once there is one. -/
  halted : Option Outcome := none
  /-- What has been reported. -/
  log : Array Event := #[]
  deriving DecidableEq

/-- What a step did. -/
inductive Signal where
  /-- It ran a primitive block, which left the robot at this pose and counts as this step. -/
  | executed (robot : Robot) (steps : Nat)
  /-- The run has ended. -/
  | halted (outcome : Outcome)
  deriving DecidableEq, Repr

/-- What a pass came to, with the state it left. -/
inductive Pass where
  /-- It moved past a bracket, and the step goes on. -/
  | onward (e : Execution)
  /-- It ended the step. -/
  | done (s : Signal) (e : Execution)
  deriving DecidableEq

namespace Execution

/-- Tells a run to stop before its next primitive block. -/
def cancel (e : Execution) : Execution := { e with cancelRequested := true }

/-- Ends a run. -/
def halt (e : Execution) (outcome : Outcome) : Pass :=
  .done (.halted outcome) { e with halted := some outcome }

/-- Counts the block at the program counter as done, with the pose that it led to. -/
def complete (e : Execution) (b : Block) (after : Robot) : Pass :=
  let steps := e.steps + 1
  .done (.executed after steps)
    { e with
      robot := after
      pc := e.pc + 1
      steps := steps
      trace := e.trace.map (·.push (.done e.pc b e.robot after))
      log := e.log.push (.executed e.pc b.kind after.position steps) }

/-- Ends a run at a move that is blocked. -/
def collide (e : Execution) (b : Block) : Pass :=
  halt { e with trace := e.trace.map (·.push (.blocked e.pc b e.robot)) } .wallCollision

/-- Starts the body of a repeat over, or leaves the repeat after its last pass. -/
def endBody (e : Execution) (f : Frame) (outer : List Frame) : Execution :=
  let remaining := f.remaining - 1
  if 0 < remaining then
    { e with pc := f.start + 1, frames := { f with remaining := remaining } :: outer }
  else { e with pc := f.stop + 1, frames := outer }

end Execution

namespace Plan

/-- The plan of running a program in a maze with some settings. -/
def of (m : Maze) (program : Program) (config : RunConfig) : Plan :=
  { maze := m, program := program, config := config }

/-- The position at which the repeat that starts at a position ends. -/
def endOf (p : Plan) (i : Nat) : Nat := (p.ends.getD i none).getD p.program.length

/-- How long one pass over the body of the repeat that starts at a position is. -/
def bodyOf (p : Plan) (i : Nat) : Nat := p.bodies.getD i 0

/-- The program reaches the step ceiling. -/
def OverBudget (p : Plan) : Prop := p.config.maxSteps.toNat ≤ p.unrolled

instance (p : Plan) : Decidable p.OverBudget := inferInstanceAs (Decidable (_ ≤ _))

/-- The brackets of the program that have no partner are reported, if there are any. -/
def bracketEvents (p : Plan) : Array Event :=
  let unclosed := p.program.unclosedCount
  let stray := p.program.strayCount
  if 0 < unclosed ∨ 0 < stray then #[.unmatchedRepeats unclosed stray] else #[]

/-- A program that reaches the step ceiling is reported. -/
def budgetEvents (p : Plan) : Array Event :=
  if p.OverBudget then #[.overBudget p.unrolled p.config.maxSteps] else #[]

/-- A run before its first step. -/
def start (p : Plan) (robot : Robot) : Execution where
  robot := robot
  trace := if p.config.recordTrace then some #[] else none
  halted := if p.OverBudget then some .stepBudgetExceeded else none
  log := p.bracketEvents ++ p.budgetEvents

/-- Enters the repeat at the program counter, or skips it if it runs nothing. -/
def enterRepeat (p : Plan) (e : Execution) (b : Block) : Execution :=
  let stop := p.endOf e.pc
  if b.iterations = 0 ∨ p.bodyOf e.pc = 0 then { e with pc := stop + 1 }
  else { e with pc := e.pc + 1, frames := ⟨e.pc, stop, b.iterations⟩ :: e.frames }

/-- Runs the block at the program counter. A closing bracket that is met here closes nothing, since
the others end the body of an active repeat. -/
def runBlock (p : Plan) (e : Execution) (b : Block) : Pass :=
  match b.kind with
  | .repeatStart => .onward (p.enterRepeat e b)
  | .repeatEnd => .onward { e with pc := e.pc + 1 }
  | kind =>
    match kind.act p.maze e.robot with
    | some after => e.complete b after
    | none => e.collide b

/-- Runs what stands at the program counter: a block, or the end of the program. -/
def runNext (p : Plan) (e : Execution) : Pass :=
  match p.program.blocks[e.pc]? with
  | some b => p.runBlock e b
  | none => e.halt (if e.robot.position = p.maze.goal then .success else .goalNotReached)

/-- One look at the state. -/
def pass (p : Plan) (e : Execution) : Pass :=
  match e.halted with
  | some outcome => .done (.halted outcome) e
  | none =>
    if e.cancelRequested then e.halt .cancelled
    else
      match e.frames with
      | f :: outer => if f.stop ≤ e.pc then .onward (e.endBody f outer) else p.runNext e
      | [] => p.runNext e

/-- Passes until one ends the step, at most as many as given. -/
def passes (p : Plan) : Nat → Execution → Pass
  | 0, e => .onward e
  | fuel + 1, e =>
    match p.pass e with
    | .onward e => p.passes fuel e
    | .done s e => .done s e

/-- A number of passes that no step of a run exceeds. -/
def passLimit (p : Plan) : Nat := 3 * p.program.length + 3

/-- Runs the next primitive block, or finds that the run has ended. A state that no run comes to
may pass brackets for ever; such a step is given up. -/
def step (p : Plan) (e : Execution) : Signal × Execution :=
  match p.passes p.passLimit e with
  | .done s e => (s, e)
  | .onward e => (.halted .cancelled, e)

end Plan

end Labyrinth

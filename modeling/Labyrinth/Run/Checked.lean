import Labyrinth.Run.Turns

/-!
# Runs with their bookkeeping checked

The machine takes differences and counts, and looks things up in the program and its tables. Here
each of these operations gives nothing where it is not defined: a difference below zero, a count too
large for its word, a position where nothing stands. A run in which this happens gives nothing, nor
does one that is given up before it has ended.

What the machine should hold between its looks at the state is `Execution.InOrder`.
-/

namespace Labyrinth

/-- A difference, if it is not below zero. -/
def minus? (a b : Nat) : Option Nat := if b ≤ a then some (a - b) else none

/-- A number, if a word of 32 bits holds it. -/
def word? (n : Nat) : Option Nat := if n < UInt32.size then some n else none

namespace Execution

/-- The counter is at most one behind the end of the program. The active repeats are repeats of the
program that start before the counter, one within the other from the outermost to the innermost,
and each has between one and all of its passes left. -/
structure InOrder (e : Execution) (program : Program) : Prop where
  pc_le : e.pc ≤ program.length + 1
  starts : e.frames.reverse.Pairwise fun outer inner => outer.start < inner.start
  stops : e.frames.reverse.Pairwise fun outer inner => inner.stop ≤ outer.stop
  start_lt : ∀ f ∈ e.frames, f.start < e.pc
  stop_eq : ∀ f ∈ e.frames, f.stop = (program.matchingEnd? f.start).getD program.length
  remaining : ∀ f ∈ e.frames, ∃ b ∈ program.blocks[f.start]?,
    b.kind = .repeatStart ∧ 1 ≤ f.remaining ∧ f.remaining ≤ b.iterations

/-- Starts the body of a repeat over, or leaves the repeat after its last pass. -/
def endBody? (e : Execution) (f : Frame) (outer : List Frame) : Option Execution := do
  let remaining ← minus? f.remaining 1
  return if 0 < remaining then
    { e with pc := f.start + 1, frames := { f with remaining := remaining } :: outer }
  else { e with pc := f.stop + 1, frames := outer }

end Execution

namespace Plan

/-- The number of closing brackets that close nothing. -/
def stray? (p : Plan) : Option Nat :=
  minus? (p.program.blocks.countP (·.kind = .repeatEnd)) (p.ends.countP Option.isSome)

/-- A run before its first step. -/
def start? (p : Plan) (robot : Robot) : Option Execution := do
  let unclosed := p.program.unclosedCount
  let stray ← p.stray?
  let brackets := if 0 < unclosed ∨ 0 < stray then #[.unmatchedRepeats unclosed stray] else #[]
  return { p.start robot with log := brackets ++ p.budgetEvents }

/-- Enters the repeat at the program counter, or skips it if it runs nothing. -/
def enterRepeat? (p : Plan) (e : Execution) (b : Block) : Option Execution := do
  let closing ← p.ends[e.pc]?
  let body ← p.bodies[e.pc]?
  let stop := closing.getD p.program.length
  return if b.iterations = 0 ∨ body = 0 then { e with pc := stop + 1 }
  else { e with pc := e.pc + 1, frames := ⟨e.pc, stop, b.iterations⟩ :: e.frames }

/-- Counts the block at the program counter as done, with the pose that it led to. -/
def complete? (p : Plan) (e : Execution) (after : Robot) : Option Pass := do
  let b ← p.program.blocks[e.pc]?
  let steps ← word? (e.steps + 1)
  return .done (.executed after steps)
    { e with
      robot := after
      pc := e.pc + 1
      steps := steps
      trace := e.trace.map (·.push (.done e.pc b e.robot after))
      log := e.log.push (.executed e.pc b.kind after.position steps) }

/-- Ends a run at a move that is blocked. -/
def collide? (p : Plan) (e : Execution) : Option Pass := do
  let b ← p.program.blocks[e.pc]?
  return e.collide b

/-- Runs the block at the program counter. -/
def runBlock? (p : Plan) (e : Execution) (b : Block) : Option Pass :=
  match b.kind with
  | .repeatStart => (p.enterRepeat? e b).map .onward
  | .repeatEnd => some (.onward { e with pc := e.pc + 1 })
  | kind =>
    match kind.act p.maze e.robot with
    | some after => p.complete? e after
    | none => p.collide? e

/-- Runs what stands at the program counter: a block, or the end of the program. -/
def runNext? (p : Plan) (e : Execution) : Option Pass :=
  match p.program.blocks[e.pc]? with
  | some b => p.runBlock? e b
  | none => some (e.halt (if e.robot.position = p.maze.goal then .success else .goalNotReached))

/-- One look at the state. -/
def pass? (p : Plan) (e : Execution) : Option Pass :=
  match e.halted with
  | some outcome => some (.done (.halted outcome) e)
  | none =>
    if e.cancelRequested then some (e.halt .cancelled)
    else
      match e.frames with
      | f :: outer => if f.stop ≤ e.pc then (e.endBody? f outer).map .onward else p.runNext? e
      | [] => p.runNext? e

/-- Passes until one ends the step, at most as many as given. -/
def passes? (p : Plan) : Nat → Execution → Option Pass
  | 0, e => some (.onward e)
  | fuel + 1, e => do
    match ← p.pass? e with
    | .onward e => p.passes? fuel e
    | .done s e => return .done s e

/-- Runs the next primitive block, or finds that the run has ended. -/
def step? (p : Plan) (e : Execution) : Option (Signal × Execution) := do
  match ← p.passes? p.passLimit e with
  | .done s e => return (s, e)
  | .onward _ => none

/-- A step during which the run is told to stop, after so many looks at its state. -/
def stepCancelled? (p : Plan) (looks : Nat) (e : Execution) : Option (Signal × Execution) := do
  match ← p.passes? looks e with
  | .done s e => return (s, e.cancel)
  | .onward e => p.step? e.cancel

/-- What a turn answers, if it is a step, and the state after it. -/
def turn? (p : Plan) (e : Execution) : Turn → Option (Option Signal × Execution)
  | .step => do let (s, e) ← p.step? e; return (some s, e)
  | .stepCancelled looks => do let (s, e) ← p.stepCancelled? looks e; return (some s, e)
  | .cancel => return (none, e.cancel)

/-- What the steps among some turns answer, in order, and the state after the turns. -/
def turns? (p : Plan) : List Turn → Execution → Option (List Signal × Execution)
  | [], e => return ([], e)
  | t :: rest, e => do
    let (answer, e) ← p.turn? e t
    let (answers, e) ← p.turns? rest e
    return (answer.toList ++ answers, e)

/-- Steps until the run ends. A run that has not ended after as many steps as given is given up. -/
def exhaust? (p : Plan) : Nat → Execution → Option (Outcome × Execution)
  | 0, e => e.halted.map (·, e)
  | fuel + 1, e => do
    match ← p.step? e with
    | (.executed .., e) => p.exhaust? fuel e
    | (.halted outcome, e) => return (outcome, e)

/-- Takes a run through some turns and then to its end: what the steps answer, and the report. -/
def checkedRun (p : Plan) (robot : Robot) (ts : List Turn) : Option (List Signal × Report) := do
  let (signals, e) ← p.turns? ts (← p.start? robot)
  let (outcome, e) ← p.exhaust? p.stepLimit e
  return (signals, p.report outcome e)

end Plan

end Labyrinth

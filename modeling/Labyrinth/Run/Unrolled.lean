import Labyrinth.Program.Outline
import Labyrinth.Run.Config
import Labyrinth.Run.Trace

/-!
# Running a program written out

What a run comes to when the program is first written out: the primitive blocks are done one after
the other until a move is blocked. There is no program counter and no stack here, so this says what
the machine of `Labyrinth.Run.Execution` has to do.
-/

namespace Labyrinth

/-- What a run of a program written out comes to. -/
structure UnrolledRun where
  robot : Robot
  outcome : Outcome
  /-- The record of every block come to. -/
  entries : List TraceEntry
  deriving DecidableEq

namespace Program

/-- Does the blocks at the given positions one after the other, until a move is blocked. -/
def runPositions (p : Program) (m : Maze) : List Nat → Robot → UnrolledRun
  | [], r => ⟨r, if r.position = m.goal then .success else .goalNotReached, []⟩
  | i :: rest, r =>
    match p.blocks[i]? with
    | none => p.runPositions m rest r
    | some b =>
      match b.kind.act m r with
      | none => ⟨r, .wallCollision, [.blocked i b r]⟩
      | some after =>
        let run := p.runPositions m rest after
        { run with entries := .done i b r after :: run.entries }

/-- Runs a program written out from a pose. -/
def runUnrolled (p : Program) (m : Maze) (r : Robot) : UnrolledRun :=
  p.runPositions m p.expansion r

end Program

/-- The blocks done. -/
def UnrolledRun.steps (u : UnrolledRun) : Nat := u.entries.countP (·.success)

end Labyrinth

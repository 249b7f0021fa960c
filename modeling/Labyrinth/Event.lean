import Labyrinth.Cell
import Labyrinth.Program.Basic
import Labyrinth.Run.Config

/-!
# Events

What the library reports to a log while it works. An event has a level and a list of named texts,
the first of which is always its message.
-/

namespace Labyrinth

/-- How important an event is. -/
inductive Level where
  | trace
  | debug
  | warn
  deriving DecidableEq, Repr

/-- The written form of a level. -/
def Level.name : Level → String
  | trace => "TRACE"
  | debug => "DEBUG"
  | warn => "WARN"

/-- Something worth reporting. -/
inductive Event where
  /-- A program that is about to run has brackets without a partner. -/
  | unmatchedRepeats (unclosed stray : Nat)
  /-- A program is too long to be run. -/
  | overBudget (unrolled : Nat) (maxSteps : UInt32)
  /-- A primitive block was run and left the robot on a cell. -/
  | executed (index : Nat) (kind : BlockKind) (position : Cell) (steps : Nat)
  /-- A run has a verdict. -/
  | finished (outcome : Outcome) (steps : Nat) (stars : UInt8)
  /-- A maze was generated: its extent, and how many of the pairs of neighbours were joined. -/
  | generated (width height : Int) (edges carved : Nat)
  /-- A search ended without reaching the goal. -/
  | goalUnreachable (start goal : Cell) (visited : Nat)
  deriving DecidableEq, Repr

namespace Event

/-- The level of an event. -/
def level : Event → Level
  | unmatchedRepeats .. => .warn
  | executed .. => .trace
  | _ => .debug

/-- The message of an event. -/
def message : Event → String
  | unmatchedRepeats .. => "program has unmatched repeat blocks"
  | overBudget .. => "program exceeds step budget"
  | executed .. => "executed block"
  | finished .. => "program finished"
  | generated .. => "generated maze"
  | goalUnreachable .. => "goal unreachable"

/-- What an event says beside its message, in order. -/
def details : Event → List (String × String)
  | unmatchedRepeats unclosed stray => [("unclosed", toString unclosed), ("stray", toString stray)]
  | overBudget unrolled maxSteps =>
    [("unrolled", toString unrolled), ("max_steps", toString maxSteps.toNat)]
  | executed index kind position steps =>
    [("index", toString index), ("kind", kind.name), ("x", toString position.x),
      ("y", toString position.y), ("steps", toString steps)]
  | finished outcome steps stars =>
    [("outcome", outcome.logName), ("steps", toString steps), ("stars", toString stars.toNat)]
  | generated width height edges carved =>
    [("width", toString width), ("height", toString height), ("edges", toString edges),
      ("carved", toString carved)]
  | goalUnreachable start goal visited =>
    [("start", start.tagged), ("goal", goal.tagged), ("visited", toString visited)]

/-- The named texts of an event. -/
def fields (e : Event) : List (String × String) := ("message", e.message) :: e.details

end Event

end Labyrinth

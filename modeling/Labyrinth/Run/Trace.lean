import Labyrinth.Maze.Basic
import Labyrinth.Program.Basic
import Labyrinth.Robot

/-!
# What a block does and how it is recorded

**Action** (`BlockKind.act`). The effect of one block on a robot in a maze, and how it is told.

**Record** (`TraceEntry`). One primitive block that a run came to: which block it was, the poses
around it, and whether it could be done.
-/

namespace Labyrinth

/-! ## What a block does -/

namespace BlockKind

/-- The pose after a block, or `none` if a wall or the edge of the grid blocks it. Brackets leave
the robot alone. -/
def act (m : Maze) (r : Robot) : BlockKind → Option Robot
  | forward => if m.Open r.position r.ahead then some r.advance else none
  | turnLeft => some r.turnLeft
  | turnRight => some r.turnRight
  | wait | repeatStart | repeatEnd => some r

/-- How a block that led to a pose is told. -/
def told (after : Robot) : BlockKind → String
  | forward => s!"Moved forward to {after.position.parenthesised}"
  | turnLeft => s!"Turned left, now facing {after.heading.name}"
  | turnRight => s!"Turned right, now facing {after.heading.name}"
  | wait => "Waited 1 second"
  | repeatStart | repeatEnd => ""

theorem act_eq_none {m : Maze} {r : Robot} {kind : BlockKind} :
    kind.act m r = none ↔ kind = forward ∧ ¬ m.Open r.position r.ahead := by
  cases kind <;> simp [act]

/-- A block that can be done moves the robot one cell ahead if it is a move, and leaves it on its
cell otherwise. -/
theorem act_eq_some {m : Maze} {r after : Robot} {kind : BlockKind}
    (acts : kind.act m r = some after) :
    (kind = forward ∧ m.Open r.position r.ahead ∧ after = r.advance) ∨
      (kind ≠ forward ∧ after.position = r.position) := by
  cases kind with
  | forward =>
    by_cases passage : m.Open r.position r.ahead
    · rw [act, if_pos passage, Option.some_inj] at acts
      exact .inl ⟨rfl, passage, acts.symm⟩
    · rw [act, if_neg passage] at acts
      cases acts
  | _ =>
    obtain rfl := Option.some.inj acts
    exact .inr ⟨by simp, rfl⟩

end BlockKind

/-! ## Traces -/

/-- The record of one primitive block. -/
structure TraceEntry where
  /-- The position of the block in the program. -/
  blockIndex : Nat
  blockId : String
  blockKind : BlockKind
  before : Robot
  after : Robot
  /-- What happened, in words. -/
  action : String
  success : Bool
  /-- What went wrong, if something did. -/
  errorMessage : Option String := none
  deriving DecidableEq, Repr

namespace TraceEntry

/-- The record of a block that was done. -/
def done (index : Nat) (b : Block) (before after : Robot) : TraceEntry where
  blockIndex := index
  blockId := b.id
  blockKind := b.kind
  before := before
  after := after
  action := b.kind.told after
  success := true

/-- The record of a move that was blocked. -/
def blocked (index : Nat) (b : Block) (r : Robot) : TraceEntry where
  blockIndex := index
  blockId := b.id
  blockKind := b.kind
  before := r
  after := r
  action := "Attempted to move forward"
  success := false
  errorMessage := some "Hit a wall!"

end TraceEntry

end Labyrinth

/-!
# Blocks and programs

The pieces that a learner snaps together are four primitive instructions and the two brackets of a
repeat. A program is a flat list of them. Its brackets need not match: whatever a learner snaps
together is a program.
-/

namespace Labyrinth

/-! ## Blocks -/

/-- What a block does. -/
inductive BlockKind where
  | forward
  | turnLeft
  | turnRight
  | wait
  | repeatStart
  | repeatEnd
  deriving DecidableEq, Repr

namespace BlockKind

/-- Every kind of block. -/
def all : List BlockKind := [forward, turnLeft, turnRight, wait, repeatStart, repeatEnd]

/-- The name of a kind, in documents and in the log alike. -/
def name : BlockKind → String
  | forward => "forward"
  | turnLeft => "turnLeft"
  | turnRight => "turnRight"
  | wait => "wait"
  | repeatStart => "repeatStart"
  | repeatEnd => "repeatEnd"

/-- Running such a block takes a step; passing a bracket takes none. -/
def isPrimitive : BlockKind → Bool
  | repeatStart | repeatEnd => false
  | _ => true

end BlockKind

/-- One block of a program. -/
structure Block where
  id : String
  kind : BlockKind
  /-- How often to repeat. Kept on any block, and meaningful on a `repeatStart` only. -/
  repeatCount : Option UInt32 := none
  deriving DecidableEq, Repr

namespace Block

/-- The count of a repeat that carries none. -/
def defaultRepeatCount : UInt32 := 2

/-- How often the body of a repeat is run. -/
def iterations (b : Block) : Nat := (b.repeatCount.getD defaultRepeatCount).toNat

end Block

/-! ## Programs -/

/-- A list of blocks in the order in which they stand. -/
structure Program where
  blocks : List Block := []
  deriving DecidableEq, Repr

namespace Program

/-- The program without blocks. -/
def empty : Program := {}

/-- The number of blocks, brackets included. -/
def length (p : Program) : Nat := p.blocks.length

/-- There is no block. -/
def isEmpty (p : Program) : Bool := p.blocks.isEmpty

/-- The program with one more block at its end. -/
def push (p : Program) (b : Block) : Program := ⟨p.blocks ++ [b]⟩

/-- A program of bare kinds, whose blocks are called by a word and their position. -/
def ofKinds (word : String) (kinds : List BlockKind) : Program :=
  ⟨kinds.mapIdx fun i kind => { id := s!"{word}{i}", kind := kind }⟩

/-- The program has a repeat, closed or not. -/
def usesLoops (p : Program) : Bool := p.blocks.any (·.kind = .repeatStart)

@[simp] theorem length_empty : empty.length = 0 := rfl

@[simp] theorem length_push (p : Program) (b : Block) : (p.push b).length = p.length + 1 := by
  simp [push, length]

@[simp] theorem length_ofKinds (word : String) (kinds : List BlockKind) :
    (ofKinds word kinds).length = kinds.length := by
  simp [ofKinds, length]

end Program

end Labyrinth

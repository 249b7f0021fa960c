import Labyrinth.Program.Basic

/-!
# The outline of a program

What a flat list of blocks means: a tree of primitive blocks and repeats, and the primitive blocks
written out one after the other, each repeat as often as it says.

**The tree** (`Program.outline`). The blocks are read from the last to the first. A closing bracket
opens a new level, and an opening bracket takes the innermost level for its body; at the outermost
level it takes everything read so far, so that an unclosed repeat spans the rest of the program. The
levels that are left over belong to stray closing brackets, which count for nothing.

**Written out** (`Program.expansion`). The positions of the primitive blocks in the order in which a
run comes to them. Main statement: `length_expandAll`, their number is the product and sum that
`countAll` computes.
-/

namespace Labyrinth

/-- A part of an outline. -/
inductive Outline where
  /-- The primitive block at a position. -/
  | primitive (index : Nat)
  /-- The repeat that starts at a position. -/
  | loop (start times : Nat) (body : List Outline)

namespace Outline

mutual

/-- The positions of the primitive blocks of a part, written out. -/
def expand : Outline → List Nat
  | primitive i => [i]
  | loop _ times body => (List.replicate times (expandAll body)).flatten

/-- The positions of the primitive blocks of parts that follow each other, written out. -/
def expandAll : List Outline → List Nat
  | [] => []
  | o :: rest => o.expand ++ expandAll rest

end

mutual

/-- The number of primitive blocks of a part, written out. -/
def count : Outline → Nat
  | primitive _ => 1
  | loop _ times body => times * countAll body

/-- The number of primitive blocks of parts that follow each other, written out. -/
def countAll : List Outline → Nat
  | [] => 0
  | o :: rest => o.count + countAll rest

end

mutual

theorem length_expand : ∀ o : Outline, o.expand.length = o.count
  | primitive _ => by simp [expand, count]
  | loop _ times body => by simp [expand, count, length_expandAll body]

/-- Counting agrees with writing out. -/
theorem length_expandAll : ∀ os : List Outline, (expandAll os).length = countAll os
  | [] => by simp [expandAll, countAll]
  | o :: rest => by simp [expandAll, countAll, length_expand o, length_expandAll rest]

end

/-- The levels of a list of blocks that stands from position `i` on, the innermost first. -/
def levels : Nat → List Block → List (List Outline)
  | _, [] => [[]]
  | i, b :: rest =>
    match b.kind, levels (i + 1) rest with
    | .repeatEnd, outer => [] :: outer
    | .repeatStart, body :: level :: outer => (loop i b.iterations body :: level) :: outer
    | .repeatStart, [body] => [[loop i b.iterations body]]
    | _, level :: outer => (primitive i :: level) :: outer
    | _, [] => []

end Outline

namespace Program

/-- A program as a tree. -/
def outline (p : Program) : List Outline := (Outline.levels 0 p.blocks).flatten

/-- The positions of the primitive blocks in the order in which a run comes to them. -/
def expansion (p : Program) : List Nat := Outline.expandAll p.outline

/-- The exact number of primitive blocks of a whole run. -/
def exactLength (p : Program) : Nat := Outline.countAll p.outline

end Program

end Labyrinth

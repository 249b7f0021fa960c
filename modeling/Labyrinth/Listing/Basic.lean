import Labyrinth.Program.Basic

/-!
# Listings

A program shown as the text of code. A listing has one line for each block that is not a closing
bracket, indented by the repeats that are open around it; a style says how the lines are worded and
whether the end of a repeat is written.

**Lines** (`Style.lines`). Depth is counted in open repeats. A stray closing bracket writes nothing;
where ends are written, the repeats left open at the end of the program are closed too.
-/

namespace Labyrinth.Listing

/-- A line and the number of repeats open around it. -/
structure Line where
  depth : Nat
  text : String
  deriving DecidableEq, Repr

/-- The wording of a listing. -/
structure Style where
  /-- What stands before the lines. -/
  opening : String
  /-- What stands after the lines. -/
  closing : String
  /-- The indentation of one level. -/
  indent : String
  /-- The level of a line outside every repeat. -/
  baseLevel : Nat
  forward : String
  turnLeft : String
  turnRight : String
  wait : String
  /-- The line that begins a repeat, given its count. -/
  repeatLine : Nat → String
  /-- The line that ends a repeat, if one is written. -/
  endLine : Option String
  /-- The line that stands for a program without blocks, if one is needed. -/
  emptyLine : Option String

namespace Style

/-- The line that ends a repeat, at the depth of the line that began it. -/
def endLines (s : Style) (depth : Nat) : List Line := s.endLine.toList.map (⟨depth, ·⟩)

/-- The lines that end the repeats still open, innermost first. -/
def closeLines (s : Style) : Nat → List Line
  | 0 => []
  | depth + 1 => s.endLines depth ++ s.closeLines depth

/-- The lines of a list of blocks that stands inside the given number of repeats. -/
def lines (s : Style) : Nat → List Block → List Line
  | depth, [] => s.closeLines depth
  | depth, b :: rest =>
    match b.kind, depth with
    | .forward, _ => ⟨depth, s.forward⟩ :: s.lines depth rest
    | .turnLeft, _ => ⟨depth, s.turnLeft⟩ :: s.lines depth rest
    | .turnRight, _ => ⟨depth, s.turnRight⟩ :: s.lines depth rest
    | .wait, _ => ⟨depth, s.wait⟩ :: s.lines depth rest
    | .repeatStart, _ => ⟨depth, s.repeatLine b.iterations⟩ :: s.lines (depth + 1) rest
    | .repeatEnd, 0 => s.lines 0 rest
    | .repeatEnd, outer + 1 => s.endLines outer ++ s.lines outer rest

/-- All lines of a program. -/
def programLines (s : Style) (p : Program) : List Line :=
  if p.isEmpty then s.emptyLine.toList.map (⟨0, ·⟩) else s.lines 0 p.blocks

/-- A line with its indentation and its end. -/
def lineText (s : Style) (l : Line) : String :=
  String.join (List.replicate (s.baseLevel + l.depth) s.indent) ++ l.text ++ "\n"

/-- The listing of a program. -/
def text (s : Style) (p : Program) : String :=
  s.opening ++ String.join ((s.programLines p).map s.lineText) ++ s.closing

end Style

end Labyrinth.Listing

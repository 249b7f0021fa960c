import Labyrinth.Program.Basic

/-!
# Nesting

Which brackets of a program belong together. Each `repeatEnd` closes the innermost repeat that is
still open; one that finds none open is *stray*, and a repeat that nothing closes is *unclosed*.

The brackets are matched in one pass with a stack (`closings`); `matchingEnds` and the counts of
brackets without a partner read the result. `closingByDepth?` finds the same partner for a single
bracket by counting depth.

**Enclosed blocks** (`Partners`, `body`, `depth`). Which brackets are partners, which repeats stay
open, what stands inside a repeat, and how deep the nesting is at a position: a count that goes up
at each opening bracket and down at each closing one.

**Mending** (`mended`). Which lists of blocks have a partner for each of their brackets, and how any
program is made such a list: its stray closing brackets are taken out, and for each repeat that
nothing closes a closing bracket is put at its end.
-/

namespace Labyrinth

namespace Program

/-- The closed repeats of a list of blocks, each as the positions of its two brackets, in the order
in which they close. The blocks stand from position `i` on and the repeats that start at the
positions in `starts`, innermost first, are open. -/
def closings : Nat → List Nat → List Block → List (Nat × Nat)
  | _, _, [] => []
  | i, starts, b :: rest =>
    match b.kind, starts with
    | .repeatStart, _ => closings (i + 1) (i :: starts) rest
    | .repeatEnd, start :: outer => (start, i) :: closings (i + 1) outer rest
    | _, _ => closings (i + 1) starts rest

/-- The position of the `repeatEnd` that closes the repeat which starts at a position. -/
def matchingEnd? (p : Program) (i : Nat) : Option Nat := (closings 0 [] p.blocks).lookup i

/-- For each block the position of its closing bracket, if it is a repeat that is closed. -/
def matchingEnds (p : Program) : List (Option Nat) :=
  let closed := closings 0 [] p.blocks
  (List.range p.length).map fun i => closed.lookup i

/-- The number of repeats that nothing closes. -/
def unclosedCount (p : Program) : Nat :=
  (p.blocks.zip p.matchingEnds).countP fun (b, closing) => b.kind = .repeatStart && closing.isNone

/-- The number of closing brackets that close nothing. -/
def strayCount (p : Program) : Nat :=
  p.blocks.countP (·.kind = .repeatEnd) - p.matchingEnds.countP Option.isSome

/-! ## Counting depth -/

/-- The position at which a depth counter comes to zero. It goes up at each opening bracket and down
at each closing one; the blocks stand from position `i` on. -/
def zeroDepth? : Nat → Nat → List Block → Option Nat
  | _, _, [] => none
  | depth, i, b :: rest =>
    match b.kind with
    | .repeatStart => zeroDepth? (depth + 1) (i + 1) rest
    | .repeatEnd => if depth = 1 then some i else zeroDepth? (depth - 1) (i + 1) rest
    | _ => zeroDepth? depth (i + 1) rest

/-- The position of the bracket that closes the repeat which starts at a position: where the depth,
one after the opening bracket, comes to zero. -/
def closingByDepth? (p : Program) (i : Nat) : Option Nat :=
  match p.blocks.drop i with
  | ⟨_, .repeatStart, _⟩ :: rest => zeroDepth? 1 (i + 1) rest
  | _ => none

/-! ## Lengths -/

@[simp] theorem length_matchingEnds (p : Program) : p.matchingEnds.length = p.length := by
  simp [matchingEnds]

theorem getElem?_matchingEnds (p : Program) (i : Nat) :
    p.matchingEnds[i]? = if i < p.length then some (p.matchingEnd? i) else none := by
  simp only [matchingEnds, List.getElem?_map, matchingEnd?]
  split <;> simp_all

end Program

/-! ## What brackets enclose -/

/-- How much deeper the nesting is behind a block than before it. -/
def BlockKind.rise : BlockKind → Int
  | repeatStart => 1
  | repeatEnd => -1
  | _ => 0

/-- How much deeper the nesting is behind some blocks than before them. -/
def Block.riseAll : List Block → Int
  | [] => 0
  | b :: rest => b.kind.rise + riseAll rest

namespace Program

/-- A repeat starts at the position. -/
def Opens (p : Program) (i : Nat) : Prop := ∃ b ∈ p.blocks[i]?, b.kind = .repeatStart

/-- A repeat starts at the position, and nothing closes it. -/
def Unclosed (p : Program) (i : Nat) : Prop := p.Opens i ∧ p.matchingEnds[i]? = some none

/-- A repeat starts at the first position and is closed at the second one. -/
def Partners (p : Program) (i j : Nat) : Prop := p.matchingEnds[i]? = some (some j)

/-- How deep the nesting is behind the block at `j`, when it is one behind the opening bracket
at `i`. -/
def depth (p : Program) (i j : Nat) : Int :=
  1 + Block.riseAll ((p.blocks.take (j + 1)).drop (i + 1))

/-- What stands inside the repeat that starts at a position: the blocks up to its closing bracket,
or up to the end of the program if there is none. -/
def body (p : Program) (i : Nat) : Program :=
  ⟨(p.blocks.take ((p.matchingEnd? i).getD p.length)).drop (i + 1)⟩

/-! ## Mending -/

/-- Every bracket of the blocks finds its partner among them, but for as many closing brackets as
there are repeats open before them. -/
def closes : Nat → List Block → Bool
  | depth, [] => depth == 0
  | depth, b :: rest =>
    match b.kind, depth with
    | .repeatStart, depth => closes (depth + 1) rest
    | .repeatEnd, 0 => false
    | .repeatEnd, depth + 1 => closes depth rest
    | _, depth => closes depth rest

/-- Every bracket of the blocks has its partner among them. -/
def Balanced (bs : List Block) : Prop := closes 0 bs = true

instance (bs : List Block) : Decidable (Balanced bs) := inferInstanceAs (Decidable (_ = _))

/-- A closing bracket stands at the position and closes nothing. -/
def Stray (p : Program) (i : Nat) : Prop :=
  (∃ b ∈ p.blocks[i]?, b.kind = .repeatEnd) ∧ some i ∉ p.matchingEnds

instance (p : Program) (i : Nat) : Decidable (p.Stray i) :=
  inferInstanceAs (Decidable ((∃ b ∈ p.blocks[i]?, b.kind = .repeatEnd) ∧ _))

/-- The blocks of a program but for the stray closing brackets. -/
def withoutStray (p : Program) : List Block :=
  (p.blocks.zipIdx.filter fun (_, i) => ¬ p.Stray i).map Prod.fst

/-- The program with its stray closing brackets taken out and other brackets put at its end. -/
def mended (p : Program) (closers : List Block) : Program := ⟨p.withoutStray ++ closers⟩

end Program

end Labyrinth

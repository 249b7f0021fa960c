import Labyrinth.Maze.Carving

/-!
# Generating with its numbers checked

Generating takes sums of coordinates, computes the places of cells and has the partition join them.
Here each of these operations gives nothing where it is not defined: a coordinate that is no signed
number of 32 bits, a place or a number of cells too large for a word of 64 bits, a place that the
partition refuses. Generating in which this happens gives nothing.
-/

namespace Labyrinth

/-- A number, if a signed word of 32 bits holds it. -/
def signedWord? (n : Int) : Option Int := if Sized n then some n else none

/-- A number, if a word of 64 bits holds it. -/
def longWord? (n : Nat) : Option Nat := if n < UInt64.size then some n else none

/-- A coordinate or an extent as a word of 64 bits without a sign, if it is not below zero. -/
def unsigned? (n : Int) : Option Nat := if 0 ≤ n then longWord? n.toNat else none

/-- The neighbour in some direction. -/
def Cell.neighbor? (c : Cell) (h : Heading) : Option Cell := do
  let x ← signedWord? (c.x + h.step.x)
  let y ← signedWord? (c.y + h.step.y)
  return ⟨x, y⟩

namespace Grid

/-- The number of cells. -/
def cellCount? (g : Grid) : Option Nat := do
  let width ← unsigned? g.width
  let height ← unsigned? g.height
  longWord? (width * height)

/-- The place of a cell in reading order. -/
def cellIndex? (g : Grid) (c : Cell) : Option Nat := do
  let y ← unsigned? c.y
  let width ← unsigned? g.width
  let above ← longWord? (y * width)
  let x ← unsigned? c.x
  longWord? (above + x)

/-- The edge from a cell to its right neighbour, if the grid has one. -/
def rightEdge? (g : Grid) (c : Cell) : Option (List Edge) := do
  let column ← signedWord? (c.x + 1)
  if column < g.width then
    let next ← c.neighbor? .right
    return [⟨c, next, .leftOf next⟩]
  else return []

/-- The edge from a cell to the neighbour below, if the grid has one. -/
def downEdge? (g : Grid) (c : Cell) : Option (List Edge) := do
  let row ← signedWord? (c.y + 1)
  if row < g.height then
    let next ← c.neighbor? .down
    return [⟨c, next, .above next⟩]
  else return []

/-- The edges of a cell: its right edge, then the one below. -/
def edgesOf? (g : Grid) (c : Cell) : Option (List Edge) := do
  let right ← g.rightEdge? c
  let down ← g.downEdge? c
  return right ++ down

/-- The pairs of neighbours, for each cell in reading order. -/
def edges? (g : Grid) : Option (List Edge) := g.cells.flatMapM g.edgesOf?

end Grid

namespace Carving

/-- Nothing is joined and every wall stands. -/
def initial? (g : Grid) : Option Carving := do
  let count ← g.cellCount?
  return ⟨.discrete count, []⟩

/-- Removes the wall of an edge unless its cells are joined already. -/
def carve? (g : Grid) (s : Carving) (e : Edge) : Option Carving := do
  let a ← g.cellIndex? e.a
  let b ← g.cellIndex? e.b
  match s.joined.union a b with
  | (.ok true, joined) => return ⟨joined, e.wall :: s.removed⟩
  | (.ok false, joined) => return { s with joined := joined }
  | (.error _, _) => none

/-- Goes through the edges in order. -/
def carveAll? (g : Grid) (order : List Edge) : Option Carving := do
  let s ← initial? g
  order.foldlM (carve? g) s

end Carving

/-- Generates a perfect maze from random words. -/
def Maze.generate? (g : Grid) (words : Random.Words) : Option (Except MazeError Generated) :=
  if g.Proper then do
    let edges ← g.edges?
    let (order, used) := Random.shuffle words edges
    let carving ← Carving.carveAll? g order
    return (carving.toMaze g).map fun maze => ⟨maze, order.length, carving.removed.length, used⟩
  else some (.error (.invalidDimension g))

end Labyrinth

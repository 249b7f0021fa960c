import Labyrinth.Maze.Drawing
import Labyrinth.Proofs.Maze.Building
import Labyrinth.Proofs.Maze.Cells
import Labyrinth.Proofs.Text

/-!
# What a drawing shows

**Theorem (`drawing_injective`).** A maze is drawn on `2 * height + 1` lines of `4 * width + 1`
characters, each wall that fits on the grid at a place that depends on the wall alone, and the marks
of the cells at places of their own. Mazes with the same drawing are equal.

The drawing is put together of blocks: two lines for a row of cells, four characters for a cell on
a line. What stands at a place is found by the block and the place in it (`getElem?_flatMap_block`),
so the characters at the place of a wall (`glyph_wall`) and of a cell (`glyph_cell`) are known.
-/

namespace Labyrinth

/-! ## Blocks of one length -/

section Blocks

variable {α β : Type} {l : List α} {f : α → List β} {k : Nat}

theorem length_flatMap_block (block : ∀ a, (f a).length = k) :
    (l.flatMap f).length = k * l.length := by
  induction l with
  | nil => rfl
  | cons a rest ih =>
    rw [List.flatMap_cons, List.length_append, block, ih, List.length_cons, Nat.mul_succ,
      Nat.add_comm]

/-- What stands in a list of blocks is found by the block and the place in it. -/
theorem getElem?_flatMap_block (block : ∀ a, (f a).length = k) {i j : Nat} {a : α}
    (found : l[i]? = some a) (inside : j < k) (tail : List β) :
    (l.flatMap f ++ tail)[k * i + j]? = (f a)[j]? := by
  induction l generalizing i with
  | nil => cases found
  | cons b rest ih =>
    rw [List.flatMap_cons, List.append_assoc]
    cases i with
    | zero =>
      obtain rfl : b = a := Option.some.inj found
      rw [Nat.mul_zero, Nat.zero_add, List.getElem?_append_left (by rwa [block])]
    | succ i =>
      have later : k * (i + 1) + j = (f b).length + (k * i + j) := by
        rw [block, Nat.mul_succ]
        omega
      rw [later, List.getElem?_append_right (Nat.le_add_right _ _), Nat.add_sub_cancel_left]
      exact ih found

theorem getElem?_flatMap_block_length (block : ∀ a, (f a).length = k) (tail : List β) :
    (l.flatMap f ++ tail)[k * l.length]? = tail[0]? := by
  rw [← length_flatMap_block block, List.getElem?_append_right (Nat.le_refl _), Nat.sub_self]

end Blocks

theorem getElem?_upTo {n x : Int} (nonneg : 0 ≤ x) (below : x < n) :
    (upTo n)[x.toNat]? = some x := by
  have inside : x.toNat < n.toNat := by omega
  rw [upTo, List.getElem?_map, List.getElem?_range inside, Option.map_some, Int.ofNat_eq_natCast,
    Int.toNat_of_nonneg nonneg]

/-- Where a wall is drawn: the line, and the first character on it. -/
def Wall.place (w : Wall) : Nat × Nat :=
  match w.orientation with
  | .horizontal => (2 * w.y.toNat, 4 * w.x.toNat + 1)
  | .vertical => (2 * w.y.toNat + 1, 4 * w.x.toNat)

/-- The character a wall is drawn with. -/
def Wall.stroke (w : Wall) : Char :=
  match w.orientation with
  | .horizontal => '-'
  | .vertical => '|'

/-- Where the mark of a cell is drawn. -/
def Cell.place (c : Cell) : Nat × Nat := (2 * c.y.toNat + 1, 4 * c.x.toNat + 2)

namespace Maze

variable {m m' : Maze}

/-- The character at a place of the drawing. -/
def glyph (m : Maze) (place : Nat × Nat) : Option Char :=
  (m.drawing.toList.splitOn '\n')[place.1]?.bind (·[place.2]?)

/-! ## The lines -/

/-- The lines for a row of cells. -/
def rowLines (m : Maze) (y : Int) : List String := [m.wallLine y, m.cellLine y]

theorem length_rowLines (m : Maze) (y : Int) : (m.rowLines y).length = 2 := rfl

theorem drawingLines_eq (m : Maze) :
    m.drawingLines = (upTo m.height).flatMap m.rowLines ++ [m.wallLine m.height] := rfl

theorem length_drawingLines (m : Maze) : m.drawingLines.length = 2 * m.height.toNat + 1 := by
  rw [drawingLines_eq, List.length_append, length_flatMap_block m.length_rowLines, length_upTo,
    List.length_singleton]

/-- The character drawn for a wall, or for the gap in its place. -/
def edgeGlyph (m : Maze) (w : Wall) : Char := if w ∈ m.walls then w.stroke else ' '

/-- The character drawn in the middle of a cell. -/
def cellGlyph (m : Maze) (c : Cell) : Char :=
  if c = m.start then 'S' else if c = m.goal then 'G' else ' '

/-- What a line of horizontal walls has for a column. -/
def wallBlock (m : Maze) (y x : Int) : List Char :=
  '+' :: List.replicate 3 (m.edgeGlyph (.horizontal x y))

/-- What a line of cells has for a column. -/
def cellBlock (m : Maze) (y x : Int) : List Char :=
  [m.edgeGlyph (.vertical x y), ' ', m.cellGlyph ⟨x, y⟩, ' ']

theorem length_wallBlock (m : Maze) (y x : Int) : (m.wallBlock y x).length = 4 := rfl

theorem length_cellBlock (m : Maze) (y x : Int) : (m.cellBlock y x).length = 4 := rfl

theorem toList_verticalEdge (m : Maze) (x y : Int) :
    (m.verticalEdge x y).toList = [m.edgeGlyph (.vertical x y)] := by
  rw [verticalEdge, edgeGlyph]
  split <;> rfl

theorem toList_mark (m : Maze) (c : Cell) : (m.mark c).toList = [' ', m.cellGlyph c, ' '] := by
  rw [mark, cellGlyph]
  split
  · rfl
  · split <;> rfl

theorem toList_wallLine (m : Maze) (y : Int) :
    (m.wallLine y).toList = (upTo m.width).flatMap (m.wallBlock y) ++ ['+'] := by
  have block (x : Int) : ("+" ++ m.horizontalEdge x y).toList = m.wallBlock y x := by
    rw [horizontalEdge, wallBlock, edgeGlyph]
    split <;> rfl
  rw [wallLine, String.toList_append, String.toList_join, List.flatMap_map]
  simp only [block]
  rfl

theorem toList_cellLine (m : Maze) (y : Int) :
    (m.cellLine y).toList = (upTo m.width).flatMap (m.cellBlock y) ++
      [m.edgeGlyph (.vertical m.width y)] := by
  have block (x : Int) : (m.verticalEdge x y ++ m.mark ⟨x, y⟩).toList = m.cellBlock y x := by
    rw [String.toList_append, toList_verticalEdge, toList_mark]
    rfl
  rw [cellLine, String.toList_append, String.toList_join, List.flatMap_map, toList_verticalEdge]
  simp only [block]

theorem length_wallLine (m : Maze) (y : Int) : (m.wallLine y).length = 4 * m.width.toNat + 1 := by
  rw [← String.length_toList, toList_wallLine, List.length_append,
    length_flatMap_block (m.length_wallBlock y), length_upTo]
  rfl

theorem length_cellLine (m : Maze) (y : Int) : (m.cellLine y).length = 4 * m.width.toNat + 1 := by
  rw [← String.length_toList, toList_cellLine, List.length_append,
    length_flatMap_block (m.length_cellBlock y), length_upTo]
  rfl

theorem mem_drawingLines {l : String} (mem : l ∈ m.drawingLines) :
    ∃ y, l = m.wallLine y ∨ l = m.cellLine y := by
  rcases List.mem_append.1 mem with row | last
  · obtain ⟨y, -, pair⟩ := List.mem_flatMap.1 row
    exact ⟨y, by simpa using pair⟩
  · exact ⟨m.height, .inl (List.mem_singleton.1 last)⟩

theorem edgeGlyph_ne_newline (m : Maze) (w : Wall) : m.edgeGlyph w ≠ '\n' := by
  rw [edgeGlyph, Wall.stroke]
  split
  · split <;> decide
  · decide

theorem cellGlyph_ne_newline (m : Maze) (c : Cell) : m.cellGlyph c ≠ '\n' := by
  rw [cellGlyph]
  split
  · decide
  · split <;> decide

theorem newline_notMem_line {l : String} (mem : l ∈ m.drawingLines) : '\n' ∉ l.toList := by
  intro inside
  obtain ⟨y, rfl | rfl⟩ := mem_drawingLines mem
  · have edge (x : Int) := m.edgeGlyph_ne_newline (.horizontal x y)
    simp [toList_wallLine, wallBlock, (edge _).symm] at inside
  · have edge (x : Int) := m.edgeGlyph_ne_newline (.vertical x y)
    have mark (x : Int) := m.cellGlyph_ne_newline ⟨x, y⟩
    simp [toList_cellLine, cellBlock, (edge _).symm, (mark _).symm] at inside

theorem splitOn_drawing (m : Maze) :
    m.drawing.toList.splitOn '\n' = m.drawingLines.map String.toList ++ [[]] :=
  Text.splitOn_ended fun _ => newline_notMem_line

theorem glyph_of_line {l : String} {i : Nat} (found : m.drawingLines[i]? = some l) (j : Nat) :
    m.glyph (i, j) = l.toList[j]? := by
  obtain ⟨within, -⟩ := List.getElem?_eq_some_iff.1 found
  rw [glyph, splitOn_drawing, List.getElem?_append_left (by rwa [List.length_map]),
    List.getElem?_map, found]
  rfl

theorem getElem?_wallLine (m : Maze) {y : Int} (nonneg : 0 ≤ y) (within : y ≤ m.height) :
    m.drawingLines[2 * y.toNat]? = some (m.wallLine y) := by
  rw [drawingLines_eq]
  rcases Int.lt_or_eq_of_le within with row | rfl
  · exact getElem?_flatMap_block m.length_rowLines (getElem?_upTo nonneg row) Nat.zero_lt_two _
  · rw [← length_upTo, getElem?_flatMap_block_length m.length_rowLines]
    rfl

theorem getElem?_cellLine (m : Maze) {y : Int} (nonneg : 0 ≤ y) (row : y < m.height) :
    m.drawingLines[2 * y.toNat + 1]? = some (m.cellLine y) := by
  rw [drawingLines_eq]
  exact getElem?_flatMap_block m.length_rowLines (getElem?_upTo nonneg row) Nat.one_lt_two _

/-! ## The places -/

theorem getElem?_toList_wallLine (m : Maze) {x : Int} (y : Int) {j : Nat} (nonneg : 0 ≤ x)
    (column : x < m.width) (inside : j < 4) :
    (m.wallLine y).toList[4 * x.toNat + j]? = (m.wallBlock y x)[j]? := by
  rw [toList_wallLine]
  exact getElem?_flatMap_block (m.length_wallBlock y) (getElem?_upTo nonneg column) inside _

theorem getElem?_toList_cellLine (m : Maze) {x : Int} (y : Int) {j : Nat} (nonneg : 0 ≤ x)
    (column : x < m.width) (inside : j < 4) :
    (m.cellLine y).toList[4 * x.toNat + j]? = (m.cellBlock y x)[j]? := by
  rw [toList_cellLine]
  exact getElem?_flatMap_block (m.length_cellBlock y) (getElem?_upTo nonneg column) inside _

theorem getElem?_toList_cellLine_width (m : Maze) (y : Int) :
    (m.cellLine y).toList[4 * m.width.toNat]? = some (m.edgeGlyph (.vertical m.width y)) := by
  rw [toList_cellLine, ← length_upTo, getElem?_flatMap_block_length (m.length_cellBlock y)]
  rfl

/-- A wall that fits is drawn at its place. -/
theorem glyph_wall {w : Wall} (fits : w.Fits m.toGrid) :
    m.glyph w.place = some (if w ∈ m.walls then w.stroke else ' ') := by
  obtain ⟨_ | _, x, y⟩ := w
  · obtain ⟨⟨left, right⟩, top, bottom⟩ := Wall.fits_horizontal.1 fits
    rw [Wall.place, glyph_of_line (m.getElem?_wallLine top bottom)]
    exact m.getElem?_toList_wallLine y left right (Nat.one_lt_succ_succ 2)
  · obtain ⟨⟨left, right⟩, top, bottom⟩ := Wall.fits_vertical.1 fits
    rw [Wall.place, glyph_of_line (m.getElem?_cellLine top bottom)]
    rcases Int.lt_or_eq_of_le right with column | rfl
    · exact m.getElem?_toList_cellLine y left column (Nat.zero_lt_succ 3)
    · exact m.getElem?_toList_cellLine_width y

/-- The middle of a cell shows whether it is the start or the goal. -/
theorem glyph_cell {c : Cell} (mem : m.Contains c) :
    m.glyph c.place =
      some (if c = m.start then 'S' else if c = m.goal then 'G' else ' ') := by
  obtain ⟨⟨left, right⟩, top, bottom⟩ := mem
  rw [Cell.place, glyph_of_line (m.getElem?_cellLine top bottom)]
  exact m.getElem?_toList_cellLine c.y left right (by decide)

/-! ## From the drawing to the maze -/

theorem drawingLines_eq_of_drawing_eq (same : m.drawing = m'.drawing) :
    m.drawingLines = m'.drawingLines := by
  have chars : m.drawingLines.map String.toList = m'.drawingLines.map String.toList := by
    apply List.append_cancel_right
    rw [← splitOn_drawing, ← splitOn_drawing, same]
  exact List.map_injective_iff.2 (fun _ _ => String.toList_inj.1) chars

/-- The lines show the grid: their number its height, the length of the first its width. -/
theorem toGrid_eq_of_drawingLines_eq (same : m.drawingLines = m'.drawingLines) :
    m.toGrid = m'.toGrid := by
  obtain ⟨wide, high⟩ := m.proper
  obtain ⟨wide', high'⟩ := m'.proper
  have lines := congrArg List.length same
  rw [length_drawingLines, length_drawingLines] at lines
  have top : m.wallLine 0 = m'.wallLine 0 := by
    apply Option.some.inj
    rw [← m.getElem?_wallLine Int.le_rfl (by omega), ← m'.getElem?_wallLine Int.le_rfl (by omega),
      same]
  have columns := congrArg String.length top
  rw [length_wallLine, length_wallLine] at columns
  have height : m.height = m'.height := by omega
  have width : m.width = m'.width := by omega
  exact congrArg₂ Grid.mk width height

/-- A wall belongs to a maze if it fits and is drawn. -/
theorem mem_walls_iff_glyph {w : Wall} :
    w ∈ m.walls ↔ w.Fits m.toGrid ∧ m.glyph w.place = some w.stroke := by
  have drawn : w.stroke ≠ ' ' := by
    rw [Wall.stroke]
    split <;> decide
  constructor
  · intro mem
    have fits := m.walls_fit w mem
    exact ⟨fits, by rw [glyph_wall fits, if_pos mem]⟩
  · rintro ⟨fits, shown⟩
    rw [glyph_wall fits, Option.some_inj] at shown
    by_contra notMem
    rw [if_neg notMem] at shown
    exact drawn shown.symm

theorem start_eq_iff_glyph {c : Cell} (mem : m.Contains c) :
    c = m.start ↔ m.glyph c.place = some 'S' := by
  rw [glyph_cell mem, Option.some_inj]
  by_cases start : c = m.start
  · simp [start]
  · by_cases goal : c = m.goal <;> simp [start, goal]

/-- The goal is the cell marked `G`; where none is marked so, it is the start. -/
theorem goal_eq_iff_glyph {c : Cell} (mem : m.Contains c) (apart : c ≠ m.start) :
    c = m.goal ↔ m.glyph c.place = some 'G' := by
  rw [glyph_cell mem, Option.some_inj, if_neg apart]
  by_cases goal : c = m.goal <;> simp [goal]

theorem eq_of_drawing_eq (same : m.drawing = m'.drawing) : m = m' := by
  have grid := toGrid_eq_of_drawingLines_eq (drawingLines_eq_of_drawing_eq same)
  have glyphs : m.glyph = m'.glyph := by
    funext place
    rw [glyph, glyph, same]
  have walls (w : Wall) : w ∈ m.walls ↔ w ∈ m'.walls := by
    rw [mem_walls_iff_glyph, mem_walls_iff_glyph, grid, glyphs]
  have start : m.start = m'.start := by
    rw [start_eq_iff_glyph (grid ▸ m.start_mem), ← glyphs]
    exact (start_eq_iff_glyph m.start_mem).1 rfl
  have goal : m.goal = m'.goal := by
    by_cases apart : m.goal = m.start
    · by_cases apart' : m'.goal = m'.start
      · rw [apart, apart', start]
      · have shown := (goal_eq_iff_glyph m'.goal_mem apart').1 rfl
        rw [← glyphs] at shown
        exact ((goal_eq_iff_glyph (grid ▸ m'.goal_mem) (start ▸ apart')).2 shown).symm
    · have shown := (goal_eq_iff_glyph m.goal_mem apart).1 rfl
      rw [glyphs] at shown
      exact (goal_eq_iff_glyph (grid ▸ m.goal_mem) (start ▸ apart)).2 shown
  exact eq_of_mem_walls grid start goal walls

/-- **The drawing loses nothing**: it has its size, shows every wall that fits and every cell at a
place of its own, and no two mazes are drawn alike. -/
theorem drawing_injective :
    (∀ m : Maze, ∃ lines : List String, m.drawing = String.join (lines.map (· ++ "\n")) ∧
      (lines.length : Int) = 2 * m.height + 1 ∧
      ∀ l ∈ lines, (l.length : Int) = 4 * m.width + 1 ∧ '\n' ∉ l.toList) ∧
    (∀ (m : Maze) (w : Wall), w.Fits m.toGrid →
      m.glyph w.place = some (if w ∈ m.walls then w.stroke else ' ')) ∧
    (∀ (m : Maze) (c : Cell), m.Contains c →
      m.glyph c.place = some (if c = m.start then 'S' else if c = m.goal then 'G' else ' ')) ∧
    Function.Injective drawing := by
  refine ⟨fun m => ⟨m.drawingLines, rfl, ?_, fun l mem => ⟨?_, newline_notMem_line mem⟩⟩,
    fun m w => glyph_wall, fun m c => glyph_cell, fun m m' => eq_of_drawing_eq⟩
  · have high := m.proper.2
    rw [length_drawingLines]
    omega
  · have wide := m.proper.1
    obtain ⟨y, rfl | rfl⟩ := mem_drawingLines mem
    · rw [length_wallLine]
      omega
    · rw [length_cellLine]
      omega

end Maze

end Labyrinth

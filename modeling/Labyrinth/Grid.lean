import Labyrinth.Cell

/-!
# Grids

A grid is a width and a height. Any two integers make a grid, since walls and cells are also asked
about grids that no maze has; a *proper* grid has at least one column and one row.

Main statements: `mem_upTo` and `mem_cells` say what the enumerations hold.
-/

namespace Labyrinth

/-- The integers from `0` up to and without `n`, in order; none when `n` is not positive. -/
def upTo (n : Int) : List Int := (List.range n.toNat).map Int.ofNat

@[simp] theorem mem_upTo {n x : Int} : x ∈ upTo n ↔ 0 ≤ x ∧ x < n := by
  simp only [upTo, List.mem_map, List.mem_range]
  constructor
  · rintro ⟨a, h, rfl⟩
    simp only [Int.ofNat_eq_natCast]
    omega
  · rintro ⟨h, h'⟩
    exact ⟨x.toNat, by omega, by simp only [Int.ofNat_eq_natCast]; omega⟩

/-- The extent of a maze. -/
structure Grid where
  width : Int
  height : Int
  deriving DecidableEq, Repr, Inhabited

namespace Grid

/-- At least one column and at least one row. -/
def Proper (g : Grid) : Prop := 1 ≤ g.width ∧ 1 ≤ g.height

instance (g : Grid) : Decidable g.Proper := inferInstanceAs (Decidable (_ ∧ _))

/-- The cell lies on the grid. -/
def Contains (g : Grid) (c : Cell) : Prop :=
  (0 ≤ c.x ∧ c.x < g.width) ∧ (0 ≤ c.y ∧ c.y < g.height)

instance (g : Grid) (c : Cell) : Decidable (g.Contains c) := inferInstanceAs (Decidable (_ ∧ _))

/-- Signed words of 32 bits hold the extent. -/
def Sized (g : Grid) : Prop := Labyrinth.Sized g.width ∧ Labyrinth.Sized g.height

instance (g : Grid) : Decidable g.Sized := inferInstanceAs (Decidable (_ ∧ _))

/-- The number of cells of a proper grid. -/
def cellCount (g : Grid) : Nat := g.width.toNat * g.height.toNat

/-- The last cell in reading order. -/
def lastCell (g : Grid) : Cell := ⟨g.width - 1, g.height - 1⟩

/-- The place of a cell in reading order. -/
def cellIndex (g : Grid) (c : Cell) : Nat := c.y.toNat * g.width.toNat + c.x.toNat

/-- The cells in reading order: row by row, each from left to right. -/
def cells (g : Grid) : List Cell := (upTo g.height).flatMap fun y => (upTo g.width).map (⟨·, y⟩)

@[simp] theorem mem_cells {g : Grid} {c : Cell} : c ∈ g.cells ↔ g.Contains c := by
  simp only [cells, List.mem_flatMap, List.mem_map, mem_upTo, Contains]
  constructor
  · rintro ⟨y, hy, x, hx, rfl⟩
    exact ⟨hx, hy⟩
  · rintro ⟨hx, hy⟩
    exact ⟨c.y, hy, c.x, hx, rfl⟩

theorem Proper.contains_origin {g : Grid} (h : g.Proper) : g.Contains Cell.origin := by
  simp only [Proper, Contains, Cell.origin] at *
  omega

theorem Proper.contains_lastCell {g : Grid} (h : g.Proper) : g.Contains g.lastCell := by
  simp only [Proper, Contains, lastCell] at *
  omega

theorem Sized.cell {g : Grid} (h : g.Sized) {c : Cell} (inside : g.Contains c) : c.Sized := by
  obtain ⟨⟨left, right⟩, top, bottom⟩ := inside
  obtain ⟨⟨-, width⟩, -, height⟩ := h
  exact ⟨⟨by omega, by omega⟩, by omega, by omega⟩

end Grid

end Labyrinth

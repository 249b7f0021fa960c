import Labyrinth.Grid

/-!
# Walls

A wall is a unit segment between two cells, or between a cell and the outside. It is anchored at a
cell: a horizontal wall lies above its anchor, a vertical wall to the left of it. The walls on the
far right and at the bottom are anchored one past the last column or row.

**Order** (`Wall.Precedes`). Horizontal walls come before vertical ones, then the columns decide,
then the rows. It is a strict total order: `precedes_irrefl`, `precedes_trans` and
`precedes_trichotomy`.

**Anchor rule** (`Wall.between?`). The wall between two neighbours; `between?_comm` says that it
does not matter which of the two is named first.
-/

namespace Labyrinth

/-- How a wall lies. -/
inductive Orientation where
  /-- Along the top of the anchor cell. -/
  | horizontal
  /-- Along the left side of the anchor cell. -/
  | vertical
  deriving DecidableEq, Repr

/-- A unit segment of wall, named by its anchor cell. -/
@[ext] structure Wall where
  orientation : Orientation
  x : Int
  y : Int
  deriving DecidableEq, Repr

namespace Wall

/-- The horizontal wall anchored at `(x, y)`. -/
def horizontal (x y : Int) : Wall := ⟨.horizontal, x, y⟩

/-- The vertical wall anchored at `(x, y)`. -/
def vertical (x y : Int) : Wall := ⟨.vertical, x, y⟩

/-- The wall above a cell. -/
def above (c : Cell) : Wall := horizontal c.x c.y

/-- The wall to the left of a cell. -/
def leftOf (c : Cell) : Wall := vertical c.x c.y

/-- The wall between two orthogonal neighbours, and `none` for cells that are not neighbours. A
step down or right meets the wall of the cell entered, a step up or left that of the cell left. -/
def between? (a b : Cell) : Option Wall :=
  match Heading.ofStep? (b - a) with
  | some .down => some (above b)
  | some .up => some (above a)
  | some .right => some (leftOf b)
  | some .left => some (leftOf a)
  | none => none

/-- The wall can exist on the grid. -/
def Fits (w : Wall) (g : Grid) : Prop :=
  match w.orientation with
  | .horizontal => (0 ≤ w.x ∧ w.x < g.width) ∧ (0 ≤ w.y ∧ w.y ≤ g.height)
  | .vertical => (0 ≤ w.x ∧ w.x ≤ g.width) ∧ (0 ≤ w.y ∧ w.y < g.height)

instance (w : Wall) (g : Grid) : Decidable (w.Fits g) := by
  unfold Fits
  split <;> infer_instance

/-- The wall lies on a line that bounds the grid. -/
def OnBoundary (w : Wall) (g : Grid) : Prop :=
  match w.orientation with
  | .horizontal => w.y = 0 ∨ w.y = g.height
  | .vertical => w.x = 0 ∨ w.x = g.width

instance (w : Wall) (g : Grid) : Decidable (w.OnBoundary g) := by
  unfold OnBoundary
  split <;> infer_instance

@[simp] theorem fits_horizontal {x y : Int} {g : Grid} :
    (horizontal x y).Fits g ↔ (0 ≤ x ∧ x < g.width) ∧ (0 ≤ y ∧ y ≤ g.height) := Iff.rfl

@[simp] theorem fits_vertical {x y : Int} {g : Grid} :
    (vertical x y).Fits g ↔ (0 ≤ x ∧ x ≤ g.width) ∧ (0 ≤ y ∧ y < g.height) := Iff.rfl

@[simp] theorem onBoundary_horizontal {x y : Int} {g : Grid} :
    (horizontal x y).OnBoundary g ↔ y = 0 ∨ y = g.height := Iff.rfl

@[simp] theorem onBoundary_vertical {x y : Int} {g : Grid} :
    (vertical x y).OnBoundary g ↔ x = 0 ∨ x = g.width := Iff.rfl

/-! ## The anchor rule -/

/-- Stepping by a heading meets the wall that the anchor rule names. -/
theorem between?_step (c : Cell) (h : Heading) :
    between? c (c + h.step) = some (match h with
      | .down => above (c + h.step)
      | .up => above c
      | .right => leftOf (c + h.step)
      | .left => leftOf c) := by
  have step : c + h.step - c = h.step := by
    ext <;> simp only [Cell.sub_x, Cell.sub_y, Cell.add_x, Cell.add_y] <;> omega
  cases h <;> simp only [between?, step, Heading.ofStep?_step]

/-- Only a neighbour has a wall in between. -/
theorem exists_step_of_between? {a b : Cell} {w : Wall} (h : between? a b = some w) :
    ∃ d : Heading, b = a + d.step := by
  cases found : Heading.ofStep? (b - a) with
  | none => simp [between?, found] at h
  | some d =>
    refine ⟨d, ?_⟩
    have := Heading.ofStep?_eq_some.1 found
    ext
    · have := congrArg Cell.x this
      simp only [Cell.sub_x, Cell.add_x] at *
      omega
    · have := congrArg Cell.y this
      simp only [Cell.sub_y, Cell.add_y] at *
      omega

theorem between?_symm {a b : Cell} {w : Wall} (h : between? a b = some w) :
    between? b a = some w := by
  obtain ⟨d, rfl⟩ := exists_step_of_between? h
  have back : a + d.step + d.turnLeft.turnLeft.step = a := by
    cases d <;> ext <;> simp only [Cell.add_x, Cell.add_y, Heading.step, Heading.turnLeft] <;> omega
  have there := between?_step (a + d.step) d.turnLeft.turnLeft
  rw [between?_step] at h
  rw [back] at there
  rw [there, ← h]
  cases d <;> rfl

/-- The wall between two cells is the same either way. -/
theorem between?_comm (a b : Cell) : between? a b = between? b a :=
  Option.ext fun _ => ⟨between?_symm, between?_symm⟩

/-! ## The order -/

/-- Horizontal before vertical, then by column, then by row. -/
def Precedes (a b : Wall) : Prop :=
  match a.orientation, b.orientation with
  | .horizontal, .vertical => True
  | .vertical, .horizontal => False
  | _, _ => a.x < b.x ∨ a.x = b.x ∧ a.y < b.y

instance (a b : Wall) : Decidable (a.Precedes b) := by
  unfold Precedes
  split <;> infer_instance

theorem precedes_irrefl (a : Wall) : ¬ a.Precedes a := by
  rcases a with ⟨_ | _, x, y⟩ <;> simp [Precedes]

theorem precedes_trans {a b c : Wall} (hab : a.Precedes b) (hbc : b.Precedes c) :
    a.Precedes c := by
  rcases a with ⟨_ | _, ax, ay⟩ <;> rcases b with ⟨_ | _, bx, ky⟩ <;>
    rcases c with ⟨_ | _, cx, cy⟩ <;> simp only [Precedes] at * <;> omega

theorem precedes_trichotomy (a b : Wall) : a.Precedes b ∨ a = b ∨ b.Precedes a := by
  rcases a with ⟨_ | _, ax, ay⟩ <;> rcases b with ⟨_ | _, bx, ky⟩ <;>
    simp only [Precedes, Wall.mk.injEq, true_and, or_true, true_or] <;> omega

theorem precedes_asymm {a b : Wall} (h : a.Precedes b) : ¬ b.Precedes a :=
  fun h' => precedes_irrefl a (precedes_trans h h')

end Wall

end Labyrinth

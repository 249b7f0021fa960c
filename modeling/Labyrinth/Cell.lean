/-!
# Cells and headings

A cell is a point of the grid: `x` grows to the right and `y` grows downward. A heading is one of
the four directions a robot can face, each with its unit step.

Coordinates are numbers of any size. Where their difference is taken in words it wraps around
(`wrapped`).

Main statements: the two turns undo each other (`turnRight_turnLeft`, `turnLeft_turnRight`), a
heading is recovered from its own step (`ofStep?_step`) and from nothing else (`ofStep?_eq_some`),
and the cells next to a cell are those one step away (`manhattan_eq_one_iff`).
-/

namespace Labyrinth

/-! ## Words -/

/-- A signed word of 32 bits holds the number. -/
def Sized (n : Int) : Prop := -0x80000000 ≤ n ∧ n ≤ 0x7fffffff

instance (n : Int) : Decidable (Sized n) := inferInstanceAs (Decidable (_ ∧ _))

/-- What a signed word of 32 bits keeps of a number: one that it does not hold wraps around. -/
def wrapped (n : Int) : Int := n.bmod 0x100000000

theorem wrapped_of_sized {n : Int} (h : Sized n) : wrapped n = n :=
  Int.bmod_eq_of_le_mul_two (by have := h.1; omega) (by have := h.2; omega)

/-! ## Cells -/

/-- A point of the grid. -/
@[ext] structure Cell where
  /-- The column, counted to the right. -/
  x : Int
  /-- The row, counted downward. -/
  y : Int
  deriving DecidableEq, Repr, Inhabited

namespace Cell

/-- The corner where mazes are generated to start. -/
def origin : Cell := ⟨0, 0⟩

instance : Add Cell := ⟨fun a b => ⟨a.x + b.x, a.y + b.y⟩⟩

instance : Sub Cell := ⟨fun a b => ⟨a.x - b.x, a.y - b.y⟩⟩

@[simp] theorem add_x (a b : Cell) : (a + b).x = a.x + b.x := rfl

@[simp] theorem add_y (a b : Cell) : (a + b).y = a.y + b.y := rfl

@[simp] theorem sub_x (a b : Cell) : (a - b).x = a.x - b.x := rfl

@[simp] theorem sub_y (a b : Cell) : (a - b).y = a.y - b.y := rfl

/-- Words hold both coordinates. -/
def Sized (c : Cell) : Prop := Labyrinth.Sized c.x ∧ Labyrinth.Sized c.y

instance (c : Cell) : Decidable c.Sized := inferInstanceAs (Decidable (_ ∧ _))

/-- The steps from one cell to another on an empty grid. -/
def manhattan (a b : Cell) : Nat := (b.x - a.x).natAbs + (b.y - a.y).natAbs

/-- The form used in messages: `[2, -1]`. -/
def bracketed (c : Cell) : String := s!"[{c.x}, {c.y}]"

/-- The form used in the log: `IVec2(2, -1)`. -/
def tagged (c : Cell) : String := s!"IVec2({c.x}, {c.y})"

/-- The form used in what a learner reads: `(2, -1)`. -/
def parenthesised (c : Cell) : String := s!"({c.x}, {c.y})"

end Cell

/-! ## Headings -/

/-- A direction to face; `down` is the way `y` grows. -/
inductive Heading where
  | up
  | down
  | left
  | right
  deriving DecidableEq, Repr

namespace Heading

instance : Inhabited Heading := ⟨right⟩

/-- Every heading, in the order in which a step is looked up. -/
def all : List Heading := [up, down, left, right]

/-- The name of a heading, in documents and in messages alike. -/
def name : Heading → String
  | up => "up"
  | down => "down"
  | left => "left"
  | right => "right"

/-- The unit step of a forward move. -/
def step : Heading → Cell
  | up => ⟨0, -1⟩
  | down => ⟨0, 1⟩
  | left => ⟨-1, 0⟩
  | right => ⟨1, 0⟩

/-- A quarter turn counterclockwise. -/
def turnLeft : Heading → Heading
  | up => left
  | left => down
  | down => right
  | right => up

/-- A quarter turn clockwise. -/
def turnRight : Heading → Heading
  | up => right
  | right => down
  | down => left
  | left => up

/-- The heading whose step is the given difference of cells, if there is one. -/
def ofStep? (d : Cell) : Option Heading := all.find? (·.step = d)

@[simp] theorem turnRight_turnLeft (h : Heading) : h.turnLeft.turnRight = h := by cases h <;> rfl

@[simp] theorem turnLeft_turnRight (h : Heading) : h.turnRight.turnLeft = h := by cases h <;> rfl

@[simp] theorem ofStep?_step (h : Heading) : ofStep? h.step = some h := by cases h <;> rfl

theorem mem_all (h : Heading) : h ∈ all := by cases h <;> decide

/-- Different headings lead to different cells. -/
theorem eq_of_add_step_eq {c : Cell} {h h' : Heading} (same : c + h.step = c + h'.step) :
    h = h' := by
  have hx := congrArg Cell.x same
  have hy := congrArg Cell.y same
  cases h <;> cases h' <;> simp only [Cell.add_x, Cell.add_y, step] at hx hy <;> first | rfl | omega

theorem ofStep?_eq_some {d : Cell} {h : Heading} : ofStep? d = some h ↔ h.step = d := by
  constructor
  · intro found
    simpa using List.find?_some found
  · rintro rfl
    exact ofStep?_step h

end Heading

namespace Cell

variable {a b : Cell} {h : Heading}

/-- The heading of the step from one cell to another, if their difference is a step. It is taken in
words and wraps around. -/
def headingTo? (a b : Cell) : Option Heading :=
  Heading.ofStep? ⟨wrapped (b.x - a.x), wrapped (b.y - a.y)⟩

theorem headingTo?_eq_some :
    a.headingTo? b = some h ↔ wrapped (b.x - a.x) = h.step.x ∧ wrapped (b.y - a.y) = h.step.y := by
  rw [headingTo?, Heading.ofStep?_eq_some, Cell.ext_iff, eq_comm, eq_comm (a := h.step.y)]

/-- The difference of neighbours does not wrap around. -/
@[simp] theorem headingTo?_add_step (a : Cell) (h : Heading) :
    a.headingTo? (a + h.step) = some h := by
  have x : a.x + h.step.x - a.x = h.step.x := by omega
  have y : a.y + h.step.y - a.y = h.step.y := by omega
  rw [headingTo?_eq_some, add_x, add_y, x, y]
  exact ⟨wrapped_of_sized (by cases h <;> decide), wrapped_of_sized (by cases h <;> decide)⟩

/-- The cells next to a cell are those one step away. -/
theorem manhattan_eq_one_iff : a.manhattan b = 1 ↔ ∃ h : Heading, b = a + h.step := by
  constructor
  · intro near
    simp only [manhattan] at near
    have aside : (b.x = a.x ∧ (b.y = a.y - 1 ∨ b.y = a.y + 1)) ∨
        (b.y = a.y ∧ (b.x = a.x - 1 ∨ b.x = a.x + 1)) := by omega
    rcases aside with ⟨column, row | row⟩ | ⟨row, column | column⟩
    · exact ⟨.up, by ext <;> simp only [add_x, add_y, Heading.step] <;> omega⟩
    · exact ⟨.down, by ext <;> simp only [add_x, add_y, Heading.step] <;> omega⟩
    · exact ⟨.left, by ext <;> simp only [add_x, add_y, Heading.step] <;> omega⟩
    · exact ⟨.right, by ext <;> simp only [add_x, add_y, Heading.step] <;> omega⟩
  · rintro ⟨h, rfl⟩
    cases h <;> simp only [manhattan, add_x, add_y, Heading.step] <;> omega

end Cell

end Labyrinth

import Labyrinth.Wall.Basic

/-!
# The walls of a grid

Two enumerations, each in the order in which the walls are drawn: all the walls that a grid can
hold, and those on its outer edge. On a grid that is not proper either may list a wall twice or
none at all.

Main statements: `mem_allWalls` and `mem_boundaryWalls`.
-/

namespace Labyrinth.Grid

/-- Every wall that can exist on the grid: the horizontal ones row by row, then the vertical ones
row by row. -/
def allWalls (g : Grid) : List Wall :=
  ((upTo (g.height + 1)).flatMap fun y => (upTo g.width).map fun x => Wall.horizontal x y) ++
    ((upTo g.height).flatMap fun y => (upTo (g.width + 1)).map fun x => Wall.vertical x y)

/-- The walls on the outer edge: top and bottom of each column, then both ends of each row. -/
def boundaryWalls (g : Grid) : List Wall :=
  ((upTo g.width).flatMap fun x => [Wall.horizontal x 0, Wall.horizontal x g.height]) ++
    ((upTo g.height).flatMap fun y => [Wall.vertical 0 y, Wall.vertical g.width y])

/-- The enumeration holds the walls that fit and no other. -/
theorem mem_allWalls {g : Grid} {w : Wall} : w ∈ g.allWalls ↔ w.Fits g := by
  rcases w with ⟨_ | _, wx, wy⟩ <;>
    simp only [allWalls, Wall.horizontal, Wall.vertical, Wall.Fits, List.mem_append,
      List.mem_flatMap, List.mem_map, mem_upTo, Wall.mk.injEq, reduceCtorEq, false_and, and_false,
      exists_false, or_false, false_or, true_and]
  · constructor
    · rintro ⟨y, hy, x, hx, rfl, rfl⟩
      omega
    · intro h
      exact ⟨wy, by omega, wx, by omega, rfl, rfl⟩
  · constructor
    · rintro ⟨y, hy, x, hx, rfl, rfl⟩
      omega
    · intro h
      exact ⟨wy, by omega, wx, by omega, rfl, rfl⟩

/-- On a proper grid the outer edge consists of the walls that fit and lie on a bounding line. -/
theorem mem_boundaryWalls {g : Grid} (proper : g.Proper) {w : Wall} :
    w ∈ g.boundaryWalls ↔ w.Fits g ∧ w.OnBoundary g := by
  obtain ⟨wide, high⟩ := proper
  rcases w with ⟨_ | _, wx, wy⟩ <;>
    simp only [boundaryWalls, Wall.horizontal, Wall.vertical, Wall.Fits, Wall.OnBoundary,
      List.mem_append, List.mem_flatMap, List.mem_cons, List.not_mem_nil, mem_upTo, Wall.mk.injEq,
      reduceCtorEq, false_and, and_false, exists_false, or_false, false_or, true_and]
  · constructor
    · rintro ⟨x, hx, ⟨rfl, rfl⟩ | ⟨rfl, rfl⟩⟩ <;> omega
    · rintro ⟨h, rfl | rfl⟩
      · exact ⟨wx, by omega, .inl ⟨rfl, rfl⟩⟩
      · exact ⟨wx, by omega, .inr ⟨rfl, rfl⟩⟩
  · constructor
    · rintro ⟨y, hy, ⟨rfl, rfl⟩ | ⟨rfl, rfl⟩⟩ <;> omega
    · rintro ⟨h, rfl | rfl⟩
      · exact ⟨wy, by omega, .inl ⟨rfl, rfl⟩⟩
      · exact ⟨wy, by omega, .inr ⟨rfl, rfl⟩⟩

end Labyrinth.Grid

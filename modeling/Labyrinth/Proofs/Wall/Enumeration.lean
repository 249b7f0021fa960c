import Mathlib.Tactic.Linarith
import Labyrinth.Proofs.Maze.Cells
import Labyrinth.Wall.Enumeration

/-!
# Counting the walls of a grid

Both enumerations list each of their walls once (`nodup_allWalls`, `nodup_boundaryWalls`). So the
walls that can exist are those of the outer edge and those inside it (`perm_allWalls`), and the
number of those inside (`length_insideWalls`) is the number of all without the outer edge.
-/

namespace Labyrinth.Grid

variable {g : Grid} {w : Wall}

theorem nodup_allWalls (g : Grid) : g.allWalls.Nodup := by
  refine List.nodup_append.2 ⟨nodup_rows (fun same => ?_) .., nodup_rows (fun same => ?_) .., ?_⟩
  · exact (Wall.mk.inj same).2
  · exact (Wall.mk.inj same).2
  · intro w lying w' standing same
    simp only [List.mem_flatMap, List.mem_map] at lying standing
    obtain ⟨y, -, x, -, rfl⟩ := lying
    obtain ⟨y', -, x', -, rfl⟩ := standing
    cases congrArg Wall.orientation same

theorem nodup_boundaryWalls (proper : g.Proper) : g.boundaryWalls.Nodup := by
  obtain ⟨wide, high⟩ := proper
  refine List.nodup_append.2 ⟨?_, ?_, fun w lying w' standing same => ?_⟩
  · refine List.nodup_flatMap.2 ⟨fun x _ => ?_, (nodup_upTo g.width).imp fun differ => ?_⟩
    · simp [Wall.horizontal]
      omega
    · simp [Wall.horizontal, differ.symm]
  · refine List.nodup_flatMap.2 ⟨fun y _ => ?_, (nodup_upTo g.height).imp fun differ => ?_⟩
    · simp [Wall.vertical]
      omega
    · simp [Wall.vertical, differ.symm]
  · simp only [List.mem_flatMap, List.mem_cons, List.not_mem_nil, or_false] at lying standing
    obtain ⟨x, -, rfl | rfl⟩ := lying <;> obtain ⟨y, -, rfl | rfl⟩ := standing <;>
      cases congrArg Wall.orientation same

theorem length_allWalls (g : Grid) : g.allWalls.length =
    (g.height + 1).toNat * g.width.toNat + g.height.toNat * (g.width + 1).toNat := by
  rw [allWalls, List.length_append, length_rows, length_rows]

theorem length_boundaryWalls (g : Grid) :
    g.boundaryWalls.length = 2 * g.width.toNat + 2 * g.height.toNat := by
  simp only [boundaryWalls, List.length_append, List.length_flatMap, List.length_cons,
    List.length_nil, List.map_const', List.sum_replicate_nat, length_upTo]
  omega

/-! ## Inside the outer edge -/

/-- The walls that can exist on the grid and are not on its outer edge. -/
def insideWalls (g : Grid) : List Wall := g.allWalls.filter (¬ ·.OnBoundary g)

@[simp] theorem mem_insideWalls : w ∈ g.insideWalls ↔ w.Fits g ∧ ¬ w.OnBoundary g := by
  simp [insideWalls, mem_allWalls]

theorem nodup_insideWalls (g : Grid) : g.insideWalls.Nodup := g.nodup_allWalls.filter _

/-- The walls that can exist are those of the outer edge and those inside it. -/
theorem perm_allWalls (proper : g.Proper) :
    g.allWalls.Perm (g.boundaryWalls ++ g.insideWalls) := by
  refine (List.perm_ext_iff_of_nodup g.nodup_allWalls ?_).2 fun w => ?_
  · refine List.nodup_append.2 ⟨nodup_boundaryWalls proper, g.nodup_insideWalls, ?_⟩
    rintro w edge _ inside rfl
    exact (mem_insideWalls.1 inside).2 ((mem_boundaryWalls proper).1 edge).2
  · rw [List.mem_append, mem_boundaryWalls proper, mem_insideWalls, mem_allWalls, ← and_or_left,
      and_iff_left (Decidable.em _)]

theorem length_insideWalls (proper : g.Proper) :
    (g.insideWalls.length : Int) = 2 * g.width * g.height - g.width - g.height := by
  have all := congrArg (Nat.cast : Nat → Int) (perm_allWalls proper).length_eq
  obtain ⟨wide, high⟩ := proper
  rw [List.length_append, length_allWalls, length_boundaryWalls] at all
  push_cast at all
  rw [Int.toNat_of_nonneg (by omega : 0 ≤ g.width), Int.toNat_of_nonneg (by omega : 0 ≤ g.height),
    Int.toNat_of_nonneg (by omega : 0 ≤ g.width + 1),
    Int.toNat_of_nonneg (by omega : 0 ≤ g.height + 1)] at all
  linarith

end Labyrinth.Grid

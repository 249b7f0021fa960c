import Labyrinth.Maze.Basic

/-!
# Building a maze

**Theorem (`built_or_first_fault`).** A maze is built of its parts exactly if the grid is proper,
both marked cells lie on it and every wall listed can exist there. Its walls are those listed and
those of the outer edge, in whatever order and however often they are listed. Otherwise the first
fault is named.

Faults come in an order (`Maze.Fault`): the grid, the start, the goal, and then the walls one after
the other. Parts that are not in order have a fault (`inOrder_or_fault`), and what is built of them
is known in either case (`build_of_inOrder`, `build_of_fault`).
-/

namespace Labyrinth.Maze

variable {g : Grid} {start goal : Cell} {walls walls' : List Wall} {e : MazeError}

/-- A maze can be built of the parts. -/
structure InOrder (g : Grid) (start goal : Cell) (walls : List Wall) : Prop where
  proper : g.Proper
  start_mem : g.Contains start
  goal_mem : g.Contains goal
  walls_fit : ∀ w ∈ walls, w.Fits g

/-- The first fault of the parts of a maze: what comes before it in the order is without fault. -/
inductive Fault (g : Grid) (start goal : Cell) (walls : List Wall) : MazeError → Prop
  | ofGrid : ¬ g.Proper → Fault g start goal walls (.invalidDimension g)
  | ofStart : g.Proper → ¬ g.Contains start → Fault g start goal walls (.cellOutOfBounds start)
  | ofGoal : g.Proper → g.Contains start → ¬ g.Contains goal →
      Fault g start goal walls (.cellOutOfBounds goal)
  | ofWall {before after : List Wall} {w : Wall} : g.Proper → g.Contains start → g.Contains goal →
      walls = before ++ w :: after → (∀ v ∈ before, v.Fits g) → ¬ w.Fits g →
      Fault g start goal walls (.wallOutOfRange w)

theorem inOrder_or_fault (g : Grid) (start goal : Cell) (walls : List Wall) :
    InOrder g start goal walls ∨ ∃ e, Fault g start goal walls e := by
  by_cases proper : g.Proper
  · by_cases start_mem : g.Contains start
    · by_cases goal_mem : g.Contains goal
      · cases misfit : walls.find? (¬ ·.Fits g) with
        | none =>
          refine .inl ⟨proper, start_mem, goal_mem, fun w mem => ?_⟩
          simpa using List.find?_eq_none.1 misfit w mem
        | some w =>
          obtain ⟨unfit, before, after, split, fit⟩ := List.find?_eq_some_iff_append.1 misfit
          refine .inr ⟨_, .ofWall proper start_mem goal_mem split (fun v mem => ?_) ?_⟩
          · simpa using fit v mem
          · simpa using unfit
      · exact .inr ⟨_, .ofGoal proper start_mem goal_mem⟩
    · exact .inr ⟨_, .ofStart proper start_mem⟩
  · exact .inr ⟨_, .ofGrid proper⟩

theorem eq_of_mem_walls {m m' : Maze} (grid : m.toGrid = m'.toGrid) (start : m.start = m'.start)
    (goal : m.goal = m'.goal) (walls : ∀ w, w ∈ m.walls ↔ w ∈ m'.walls) : m = m' := by
  have walls : m.walls = m'.walls := WallSet.ext walls
  cases m
  cases m'
  exact (Maze.mk.injEq ..).mpr ⟨grid, start, goal, walls⟩

/-! ## What is built -/

theorem build_of_valid (proper : g.Proper) (start_mem : g.Contains start)
    (goal_mem : g.Contains goal) (fit : ∀ w ∈ walls, w.Fits g) :
    build g start goal walls = .ok (close g start goal walls proper start_mem goal_mem fit) := by
  rw [build, dif_pos proper, dif_pos start_mem, dif_pos goal_mem]
  split
  · next w misfit =>
    have unfit := List.find?_some misfit
    simp only [decide_eq_true_eq] at unfit
    exact absurd (fit w (List.mem_of_find?_eq_some misfit)) unfit
  · rfl

theorem build_of_inOrder (h : InOrder g start goal walls) :
    build g start goal walls =
      .ok (close g start goal walls h.proper h.start_mem h.goal_mem h.walls_fit) :=
  build_of_valid h.proper h.start_mem h.goal_mem h.walls_fit

theorem build_of_fault (h : Fault g start goal walls e) : build g start goal walls = .error e := by
  cases h with
  | ofGrid improper => rw [build, dif_neg improper]
  | ofStart proper off => rw [build, dif_pos proper, dif_neg off]
  | ofGoal proper start_mem off => rw [build, dif_pos proper, dif_pos start_mem, dif_neg off]
  | @ofWall before after w proper start_mem goal_mem split fit unfit =>
    have first : walls.find? (¬ ·.Fits g) = some w :=
      List.find?_eq_some_iff_append.2
        ⟨by simpa using unfit, before, after, split, fun v mem => by simpa using fit v mem⟩
    rw [build, dif_pos proper, dif_pos start_mem, dif_pos goal_mem]
    split
    · next w' misfit => rw [Option.some.inj (misfit.symm.trans first)]
    · next none => cases none.symm.trans first

theorem build_eq_ok_iff {m : Maze} : build g start goal walls = .ok m ↔
    ∃ h : InOrder g start goal walls,
      m = close g start goal walls h.proper h.start_mem h.goal_mem h.walls_fit := by
  constructor
  · intro built
    rcases inOrder_or_fault g start goal walls with h | ⟨e, fault⟩
    · exact ⟨h, (Except.ok.inj ((build_of_inOrder h).symm.trans built)).symm⟩
    · cases (build_of_fault fault).symm.trans built
  · rintro ⟨h, rfl⟩
    exact build_of_inOrder h

theorem build_eq_error_iff : build g start goal walls = .error e ↔ Fault g start goal walls e := by
  constructor
  · intro refused
    rcases inOrder_or_fault g start goal walls with h | ⟨e', fault⟩
    · cases (build_of_inOrder h).symm.trans refused
    · rwa [← Except.error.inj ((build_of_fault fault).symm.trans refused)]
  · exact build_of_fault

/-- The same walls in another order, or listed more often, make the same maze. -/
theorem build_eq_ok_of_mem_iff {m : Maze} (same : ∀ w, w ∈ walls' ↔ w ∈ walls)
    (built : build g start goal walls = .ok m) : build g start goal walls' = .ok m := by
  obtain ⟨h, rfl⟩ := build_eq_ok_iff.1 built
  refine build_eq_ok_iff.2 ⟨{ h with walls_fit := fun w mem => h.walls_fit w ((same w).1 mem) }, ?_⟩
  have sets : WallSet.ofList (walls ++ g.boundaryWalls) =
      WallSet.ofList (walls' ++ g.boundaryWalls) := by
    ext w
    simp [same w]
  simp only [close, sets]

/-- **A maze is built of its parts, or their first fault is named.** -/
theorem built_or_first_fault (g : Grid) (start goal : Cell) (walls : List Wall) :
    ((∃ m, build g start goal walls = .ok m) ↔
      (1 ≤ g.width ∧ 1 ≤ g.height) ∧ g.Contains start ∧ g.Contains goal ∧
        ∀ w ∈ walls, w.Fits g) ∧
    (∀ m, build g start goal walls = .ok m →
      m.toGrid = g ∧ m.start = start ∧ m.goal = goal ∧
        ∀ w, w ∈ m.walls ↔ w ∈ walls ∨ (w.Fits g ∧ w.OnBoundary g)) ∧
    (∀ walls', (∀ w, w ∈ walls' ↔ w ∈ walls) →
      ∀ m, build g start goal walls' = .ok m ↔ build g start goal walls = .ok m) ∧
    ∀ e, build g start goal walls = .error e ↔ Fault g start goal walls e := by
  refine ⟨⟨?_, ?_⟩, ?_, fun walls' same m => ⟨?_, ?_⟩, fun e => build_eq_error_iff⟩
  · rintro ⟨m, built⟩
    obtain ⟨⟨proper, start_mem, goal_mem, fit⟩, -⟩ := build_eq_ok_iff.1 built
    exact ⟨proper, start_mem, goal_mem, fit⟩
  · rintro ⟨proper, start_mem, goal_mem, fit⟩
    exact ⟨_, build_of_valid proper start_mem goal_mem fit⟩
  · intro m built
    obtain ⟨h, rfl⟩ := build_eq_ok_iff.1 built
    refine ⟨rfl, rfl, rfl, fun w => ?_⟩
    rw [mem_walls_close, Grid.mem_boundaryWalls h.proper]
  · exact build_eq_ok_of_mem_iff fun w => (same w).symm
  · exact build_eq_ok_of_mem_iff same

/-- A wall listed twice counts once, and of two walls that cannot exist the first is named. -/
theorem built_or_first_fault_two_by_two :
    let make := build ⟨2, 2⟩ ⟨0, 0⟩ ⟨1, 1⟩
    (∀ w, w ∈ [Wall.vertical 1 0, .vertical 1 0] ↔ w ∈ [Wall.vertical 1 0]) ∧
      (∃ m, make [.vertical 1 0, .vertical 1 0] = .ok m ∧ make [.vertical 1 0] = .ok m ∧
        m.start = ⟨0, 0⟩ ∧ Wall.vertical 1 0 ∈ m.walls ∧ Wall.horizontal 0 2 ∈ m.walls) ∧
      make [.vertical 1 0, .horizontal 2 0, .vertical 5 5] =
        .error (.wallOutOfRange (.horizontal 2 0)) := by
  intro make
  have same (w : Wall) : w ∈ [Wall.vertical 1 0, .vertical 1 0] ↔ w ∈ [Wall.vertical 1 0] := by simp
  obtain ⟨accepts, parts, unordered, -⟩ :=
    built_or_first_fault ⟨2, 2⟩ ⟨0, 0⟩ ⟨1, 1⟩ [.vertical 1 0]
  obtain ⟨m, built⟩ := accepts.2 (by decide)
  obtain ⟨-, start, -, walls⟩ := parts m built
  obtain ⟨-, -, -, refuses⟩ :=
    built_or_first_fault ⟨2, 2⟩ ⟨0, 0⟩ ⟨1, 1⟩ [.vertical 1 0, .horizontal 2 0, .vertical 5 5]
  have split : [Wall.vertical 1 0, .horizontal 2 0, .vertical 5 5] =
      [.vertical 1 0] ++ .horizontal 2 0 :: [.vertical 5 5] := rfl
  refine ⟨same, ⟨m, (unordered _ same m).2 built, built, start, (walls _).2 (.inl (by decide)),
    (walls _).2 (.inr (by decide))⟩, (refuses _).2 ?_⟩
  exact .ofWall (by decide) (by decide) (by decide) split (by decide) (by decide)

end Labyrinth.Maze

import Labyrinth.Proofs.Path.Hint
import Labyrinth.Proofs.Run.Position

/-!
# No program needs fewer moves than a hint

**Theorem (`hint_fewest_moves`).** A program that brings a robot from start to goal does at least as
many moves as the shortest path has steps, and these are no fewer than if there were no walls. A
hint does exactly as many. Where there is no hint, no program succeeds.

The moves of a run lead along a walk (`Program.Tells.exists_walk`), which is not shorter than the
shortest path. One step of a walk comes nearer to the goal by one at most
(`Maze.Open.manhattan_le`).
-/

namespace Labyrinth

theorem TraceEntry.forwards_le_length_moves (entries : List TraceEntry) :
    forwards entries ≤ (moves entries).length := by
  rw [moves, List.length_map, ← List.countP_eq_length_filter]
  refine List.countP_mono_left fun entry _ counted => ?_
  rw [Bool.and_eq_true] at counted
  exact counted.2

theorem TraceEntry.forwards_le_length_poses (entries : List TraceEntry) :
    forwards entries ≤ (poses entries).length := by
  rw [length_poses]
  refine List.countP_mono_left fun entry _ counted => ?_
  rw [Bool.and_eq_true] at counted
  exact counted.1

namespace Maze

variable {m : Maze} {a b : Cell} {walk : List Cell} {facing : Heading}

theorem Open.manhattan_le (h : m.Open a b) (c : Cell) : a.manhattan c ≤ b.manhattan c + 1 := by
  obtain ⟨d, rfl⟩ := h.exists_step
  cases d <;> simp only [Cell.manhattan, Cell.add_x, Cell.add_y, Heading.step] <;> omega

theorem WalksFrom.manhattan_lt_length (h : m.WalksFrom a b walk) :
    a.manhattan b < walk.length := by
  obtain ⟨p, rfl⟩ := h.exists_walk
  rw [p.length_support, Nat.lt_succ_iff]
  clear h
  induction p with
  | nil => simp [Cell.manhattan]
  | @cons a next b passage rest ih =>
    have nearer : a.manhattan b ≤ next.manhattan b + 1 := Open.manhattan_le passage b
    rw [SimpleGraph.Walk.length_cons]
    omega

theorem shortestPath_of_reaches (h : m.Reaches m.start m.goal) :
    m.WalksFrom m.start m.goal m.shortestPath ∧
      m.shortestPath.length = m.depth m.goal + 1 := by
  obtain ⟨path, found, walks, length⟩ := search_of_reaches h
  rw [shortestPath, found]
  exact ⟨walks, length⟩

theorem hint_eq_none (h : m.hint facing = none) : ¬ m.Reaches m.start m.goal := by
  intro reaches
  obtain ⟨path, found, -⟩ := search_of_reaches reaches
  rw [hint, found] at h
  cases h

end Maze

theorem Program.position_of_success {p : Program} {m : Maze} {positions : List Nat} {r : Robot}
    (success : (p.runPositions m positions r).outcome = .success) :
    (p.runPositions m positions r).robot.position = m.goal := by
  by_contra elsewhere
  rw [outcome_runPositions_eq, if_neg elsewhere] at success
  split at success <;> cases success

namespace Plan

variable {p : Plan} {robot : Robot}

/-- A run that succeeds does the moves of a walk from its first cell to the goal. -/
theorem exists_walk_of_success (success : (p.execute robot).verdict.outcome = .success) :
    ∃ walk, p.maze.WalksFrom robot.position p.maze.goal walk ∧
      walk.length = TraceEntry.forwards (p.history robot) + 1 := by
  obtain ⟨walk, walks, length⟩ := (p.tells_history robot).exists_walk
  suffices onGoal : (p.execute robot).verdict.finalRobot.position = p.maze.goal by
    rw [onGoal] at walks
    exact ⟨walk, walks, length⟩
  by_cases long : p.OverBudget
  · rw [execute_of_overBudget long] at success
    cases success
  · obtain ⟨outcome, pose, -⟩ := verdict_of_within long robot
    rw [pose]
    exact Program.position_of_success (outcome.symm.trans success)

theorem forwards_le_steps (p : Plan) (robot : Robot) :
    TraceEntry.forwards (p.history robot) ≤ (p.execute robot).verdict.steps := by
  rw [← length_poses_history]
  exact TraceEntry.forwards_le_length_poses _

/-- A run from the start that succeeds does at least as many moves as the shortest path has
steps. -/
theorem length_shortestPath_le (atStart : robot.position = p.maze.start)
    (success : (p.execute robot).verdict.outcome = .success) :
    p.maze.Reaches p.maze.start p.maze.goal ∧
      p.maze.shortestPath.length ≤ TraceEntry.forwards (p.history robot) + 1 := by
  obtain ⟨walk, walks, length⟩ := exists_walk_of_success success
  rw [atStart] at walks
  have reaches : p.maze.Reaches p.maze.start p.maze.goal := ⟨walk, walks⟩
  have far := walks.depth_lt_length
  exact ⟨reaches, by rw [(Maze.shortestPath_of_reaches reaches).2]; omega⟩

theorem forwards_of_hint {m : Maze} {facing : Heading} {program : Program} {config : RunConfig}
    (hinted : m.hint facing = some program) (budget : program.length < config.maxSteps.toNat) :
    let p := Plan.of m program config
    (p.execute ⟨m.start, facing⟩).verdict.outcome = .success ∧
      TraceEntry.forwards (p.history ⟨m.start, facing⟩) ≤ m.shortestPath.length - 1 := by
  intro p
  obtain ⟨r, onGoal, length, arrives⟩ := Maze.exists_arrives_of_hint hinted
  have within : ¬ p.OverBudget := by
    rw [overBudget_iff]
    exact Nat.not_le_of_lt (length.symm ▸ budget)
  refine ⟨?_, ?_⟩
  · obtain ⟨outcome, -⟩ := verdict_of_within within ⟨m.start, facing⟩
    exact (outcome.trans arrives.outcome).trans (if_pos onGoal)
  · rw [history_of_within within, ← List.length_tail, ← arrives.moves]
    exact TraceEntry.forwards_le_length_moves _

end Plan

/-- **No program needs fewer moves than a hint.** -/
theorem Maze.hint_fewest_moves (m : Maze) (facing : Heading) :
    let least := m.shortestPath.length - 1
    let start : Robot := ⟨m.start, facing⟩
    (∀ (program : Program) (config : RunConfig),
      let p := Plan.of m program config
      (p.execute start).verdict.outcome = .success →
        m.Reaches m.start m.goal ∧ least ≤ TraceEntry.forwards (p.history start) ∧
          m.manhattan ≤ least ∧ m.manhattan ≤ (p.execute start).verdict.steps) ∧
    (∀ program, m.hint facing = some program → ∀ config : RunConfig,
      program.length < config.maxSteps.toNat →
        TraceEntry.forwards ((Plan.of m program config).history start) = least) ∧
    (m.hint facing = none → ∀ (program : Program) (config : RunConfig),
      ((Plan.of m program config).execute start).verdict.outcome ≠ .success) := by
  intro least start
  refine ⟨?_, ?_, ?_⟩
  · intro program config p success
    obtain ⟨reaches, atLeast⟩ := p.length_shortestPath_le rfl success
    have unwalled : m.manhattan < m.shortestPath.length :=
      (Maze.shortestPath_of_reaches reaches).1.manhattan_lt_length
    have counted : TraceEntry.forwards (p.history start) ≤ (p.execute start).verdict.steps :=
      p.forwards_le_steps start
    have atLeast : m.shortestPath.length ≤ TraceEntry.forwards (p.history start) + 1 := atLeast
    exact ⟨reaches, by omega, by omega, by omega⟩
  · intro program hinted config budget
    obtain ⟨success, atMost⟩ := Plan.forwards_of_hint hinted budget
    obtain ⟨-, atLeast⟩ := Plan.length_shortestPath_le rfl success
    exact Nat.le_antisymm atMost (Nat.sub_le_of_le_add atLeast)
  · intro none program config success
    exact Maze.hint_eq_none none (Plan.length_shortestPath_le rfl success).1

end Labyrinth

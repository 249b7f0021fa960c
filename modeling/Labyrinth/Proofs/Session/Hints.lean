import Labyrinth.Proofs.Maze.Perfect
import Labyrinth.Proofs.Path.Fewest
import Labyrinth.Session

/-!
# Hints in a round of play

**Theorem (`hint_leads_from_start`).** A round has a hint exactly when the goal can be reached from
the start of its maze, wherever the robot stands. Run in the round, the hint succeeds exactly when
the robot stands on the start and the hint has fewer blocks than the step ceiling.

**Theorem (`hint_of_generated`).** So a round on a generated maze has a hint, which leads to the
goal unless it reaches the step ceiling; then it is refused. A ceiling that is high enough always
helps (`HintServes`). The maze may be carved in any order of the edges.

That the hint leads from nowhere else is a matter of where robots end: moved to another cell, a
robot that is nowhere blocked ends moved by as much (`Program.runPositions_shift`). That hints are
refused is no fault of theirs: in a maze whose goal is as far away as the ceiling is high, no
program succeeds (`Plan.manhattan_lt_of_success`).
-/

namespace Labyrinth

/-! ## Moved robots -/

/-- The robot moved by as many columns and rows as the cell has. -/
def Robot.shift (r : Robot) (d : Cell) : Robot := { r with position := r.position + d }

theorem Robot.advance_shift (r : Robot) (d : Cell) : (r.shift d).advance = r.advance.shift d := by
  ext
  · simp only [shift, advance, ahead, Cell.add_x]
    omega
  · simp only [shift, advance, ahead, Cell.add_y]
    omega
  · rfl

variable {m : Maze} {r after after' : Robot} {d : Cell} {kind : BlockKind} {p : Program}
  {positions : List Nat}

theorem BlockKind.act_shift (acts : kind.act m r = some after)
    (acts' : kind.act m (r.shift d) = some after') : after' = after.shift d := by
  cases kind with
  | forward =>
    obtain ⟨-, -, rfl⟩ | ⟨other, -⟩ := act_eq_some acts
    · obtain ⟨-, -, rfl⟩ | ⟨other, -⟩ := act_eq_some acts'
      · exact r.advance_shift d
      · exact absurd rfl other
    · exact absurd rfl other
  | _ =>
    obtain rfl := Option.some.inj acts
    exact (Option.some.inj acts').symm

/-- A moved robot ends moved by as much, if it is blocked in neither place. -/
theorem Program.runPositions_shift
    (free : (p.runPositions m positions r).outcome ≠ .wallCollision)
    (free' : (p.runPositions m positions (r.shift d)).outcome ≠ .wallCollision) :
    (p.runPositions m positions (r.shift d)).robot =
      (p.runPositions m positions r).robot.shift d := by
  induction positions generalizing r with
  | nil => rfl
  | cons i rest ih =>
    cases found : p.blocks[i]? with
    | none =>
      simp only [runPositions, found] at free free' ⊢
      exact ih free free'
    | some b =>
      cases acts : b.kind.act m r with
      | none => simp [runPositions, found, acts] at free
      | some after =>
        cases acts' : b.kind.act m (r.shift d) with
        | none => simp [runPositions, found, acts'] at free'
        | some after' =>
          obtain rfl := BlockKind.act_shift acts acts'
          simp only [runPositions, found, acts, acts'] at free free' ⊢
          exact ih free free'

/-! ## Where a hint leads from -/

namespace Maze

theorem isSome_hint_iff (m : Maze) (facing : Heading) :
    (m.hint facing).isSome ↔ m.Reaches m.start m.goal := by
  rw [hint]
  rcases m.search_spec with ⟨path, found, walks, -⟩ | ⟨apart, result⟩
  · rw [found]
    exact ⟨fun _ => ⟨path, walks⟩, fun _ => rfl⟩
  · rw [result]
    exact ⟨fun hinted => absurd hinted Bool.false_ne_true, fun reaches => absurd reaches apart⟩

/-- A hint that leads to the goal from some cell was made for that cell. -/
theorem eq_start_of_success {facing : Heading} {program : Program} {c : Cell}
    (hinted : m.hint facing = some program)
    (success : (program.runUnrolled m ⟨c, facing⟩).outcome = .success) : c = m.start := by
  obtain ⟨r, onGoal, -, arrives⟩ := exists_arrives_of_hint hinted
  have moved : (⟨c, facing⟩ : Robot) = Robot.shift ⟨m.start, facing⟩ (c - m.start) := by
    ext
    · simp [Robot.shift]
    · simp [Robot.shift]
    · rfl
  have success' : (program.runUnrolled m ⟨m.start, facing⟩).outcome = .success :=
    arrives.outcome.trans (if_pos onGoal)
  have free {r : Robot} (success : (program.runUnrolled m r).outcome = .success) :
      (program.runPositions m program.expansion r).outcome ≠ .wallCollision := by
    intro collides
    rw [Program.runUnrolled, collides] at success
    cases success
  have shifted : (program.runUnrolled m ⟨c, facing⟩).robot =
      (program.runUnrolled m ⟨m.start, facing⟩).robot.shift (c - m.start) := by
    rw [moved] at success ⊢
    exact Program.runPositions_shift (free success') (free success)
  have ends : (program.runUnrolled m ⟨c, facing⟩).robot.position = m.goal :=
    Program.position_of_success success
  rw [shifted, arrives.robot, Robot.shift, onGoal] at ends
  have sameColumn := congrArg Cell.x ends
  have sameRow := congrArg Cell.y ends
  rw [Cell.add_x, Cell.sub_x] at sameColumn
  rw [Cell.add_y, Cell.sub_y] at sameRow
  ext <;> omega

theorem length_shortestPath_le_cellCount (reaches : m.Reaches m.start m.goal) :
    m.shortestPath.length ≤ m.cellCount := by
  obtain ⟨path, isPath⟩ := (reaches_iff_reachable.1 reaches).exists_isPath
  have inside : ∀ a b, m.passages.Adj a b → b ∈ {c | m.Contains c} := fun _ _ passage => passage.2.1
  have on : ∀ c ∈ path.support, m.Contains c := support_subset inside path m.start_mem
  have few := Grid.length_le_cellCount isPath.support_nodup on
  have far := (walksFrom_support path).depth_lt_length
  rw [(shortestPath_of_reaches reaches).2]
  omega

theorem Perfect.reaches {g : Grid} (h : m.Perfect g) : m.Reaches m.start m.goal := by
  obtain ⟨walk, ⟨walks, -⟩, -⟩ :=
    h.unique_path m.start m.goal (h.grid_eq ▸ m.start_mem) (h.grid_eq ▸ m.goal_mem)
  exact ⟨walk, walks⟩

end Maze

/-! ## Running a hint -/

theorem Path.length_kinds_le (facing : Heading) (path : List Cell) :
    (Path.kinds facing path).length ≤ 3 * (path.length - 1) := by
  fun_induction Path.kinds facing path with
  | case1 facing a b rest apart ih =>
    simp only [List.length_cons] at ih ⊢
    omega
  | case2 facing a b rest wanted step ih =>
    have turns : (facing.turnsTo wanted).length ≤ 2 := by
      cases facing <;> cases wanted <;> decide
    simp only [List.length_append, List.length_cons] at ih ⊢
    omega
  | case3 => exact Nat.zero_le _

theorem Maze.length_hint_le {facing : Heading} (hinted : m.hint facing = some p) :
    p.length ≤ 3 * (m.cellCount - 1) := by
  have reaches : m.Reaches m.start m.goal := by
    rw [← m.isSome_hint_iff facing, hinted]
    rfl
  have few := m.length_shortestPath_le_cellCount reaches
  obtain ⟨path, found, -⟩ := search_of_reaches reaches
  rw [hint, found] at hinted
  obtain rfl : Path.program path facing = p := Option.some.inj hinted
  rw [shortestPath, found] at few
  have short := Path.length_kinds_le facing path
  have few : path.length ≤ m.cellCount := few
  rw [Path.program, Program.length_ofKinds]
  omega

/-- A program that brings a robot from start to goal has to do as many steps as if there were no
walls, so the ceiling has to be above them. -/
theorem Plan.manhattan_lt_of_success {p : Plan} {robot : Robot}
    (atStart : robot.position = p.maze.start)
    (success : (p.execute robot).verdict.outcome = .success) :
    p.maze.manhattan < p.config.maxSteps.toNat := by
  have within : ¬ p.config.maxSteps.toNat ≤ p.unrolled := by
    intro long
    rw [execute_of_overBudget long] at success
    cases success
  obtain ⟨reaches, atLeast⟩ := p.length_shortestPath_le atStart success
  have unwalled : p.maze.manhattan < p.maze.shortestPath.length :=
    (Maze.shortestPath_of_reaches reaches).1.manhattan_lt_length
  have counted := TraceEntry.forwards_le_length_poses (p.history robot)
  have done : (TraceEntry.poses (p.history robot)).length < p.unrolled + 1 :=
    p.length_poses_history_lt robot
  omega

namespace Session

variable {s : Session} {program : Program}

theorem overBudget_of_hint (hinted : s.hint = some program) :
    (Plan.of s.maze program s.config).OverBudget ↔
      s.config.maxSteps.toNat ≤ program.length := by
  obtain ⟨-, -, length, -⟩ := Maze.exists_arrives_of_hint hinted
  rw [Plan.overBudget_iff]
  show _ ≤ program.exactLength ↔ _
  rw [length]
  rfl

theorem run_hint_of_lt (hinted : s.hint = some program)
    (atStart : s.initialRobot.position = s.maze.start)
    (budget : program.length < s.config.maxSteps.toNat) :
    let v := ({ s with program := program }).run.verdict
    v.outcome = .success ∧ v.steps = program.length ∧ v.finalRobot.position = s.maze.goal := by
  intro v
  obtain ⟨r, onGoal, -, arrives⟩ := Maze.exists_arrives_of_hint hinted
  have placed : s.initialRobot = ⟨s.maze.start, s.initialRobot.heading⟩ := by rw [← atStart]
  have within : ¬ (Plan.of s.maze program s.config).OverBudget :=
    mt (overBudget_of_hint hinted).1 (Nat.not_le_of_lt budget)
  obtain ⟨outcome, pose, steps⟩ := Plan.verdict_of_within within s.initialRobot
  rw [← placed] at arrives
  refine ⟨?_, steps.trans arrives.steps, ?_⟩
  · exact (outcome.trans arrives.outcome).trans (if_pos onGoal)
  · exact (congrArg Robot.position (pose.trans arrives.robot)).trans onGoal

theorem run_hint_of_le (hinted : s.hint = some program)
    (long : s.config.maxSteps.toNat ≤ program.length) :
    let v := ({ s with program := program }).run.verdict
    v.outcome = .stepBudgetExceeded ∧ v.steps = 0 ∧ v.finalRobot = s.initialRobot := by
  have refused := Plan.execute_of_overBudget ((overBudget_of_hint hinted).2 long) s.initialRobot
  rw [run, refused]
  exact ⟨rfl, rfl, rfl⟩

theorem of_run_hint_success (hinted : s.hint = some program)
    (success : ({ s with program := program }).run.verdict.outcome = .success) :
    program.length < s.config.maxSteps.toNat ∧ s.initialRobot.position = s.maze.start := by
  have budget : program.length < s.config.maxSteps.toNat := by
    by_contra long
    rw [(run_hint_of_le hinted (Nat.le_of_not_lt long)).1] at success
    cases success
  have within : ¬ (Plan.of s.maze program s.config).OverBudget :=
    mt (overBudget_of_hint hinted).1 (Nat.not_le_of_lt budget)
  have outcome := (Plan.verdict_of_within within s.initialRobot).1
  exact ⟨budget, Maze.eq_start_of_success hinted (outcome.symm.trans success)⟩

/-- **A hint leads to the goal from the start**, and from nowhere else. -/
theorem hint_leads_from_start (s : Session) :
    (s.hint.isSome ↔ s.maze.Reaches s.maze.start s.maze.goal) ∧
    ∀ program, s.hint = some program →
      (({ s with program := program }).run.verdict.outcome = .success ↔
        program.length < s.config.maxSteps.toNat ∧
          s.initialRobot.position = s.maze.start) := by
  refine ⟨s.maze.isSome_hint_iff _, fun program hinted => ⟨of_run_hint_success hinted, ?_⟩⟩
  rintro ⟨budget, atStart⟩
  exact (run_hint_of_lt hinted atStart budget).1

/-- In a corridor a hint leads a robot that has gone a step already into the end wall. -/
theorem hint_astray_in_corridor :
    let m : Maze := .close ⟨3, 1⟩ .origin ⟨2, 0⟩ [] (by decide) (by decide) (by decide) (by decide)
    let s : Session := { maze := m, initialRobot := ⟨⟨1, 0⟩, .right⟩ }
    m.Contains s.initialRobot.position ∧ m.Reaches s.initialRobot.position m.goal ∧
      ∃ program, s.hint = some program ∧ program.length < s.config.maxSteps.toNat ∧
        ({ s with program := program }).run.verdict.outcome = .wallCollision := by
  intro m s
  have walks : m.WalksFrom s.initialRobot.position m.goal [⟨1, 0⟩, ⟨2, 0⟩] := by decide
  refine ⟨by decide, ⟨_, walks⟩, .ofKinds "hint-" [.forward, .forward], by decide, by decide, ?_⟩
  have within : ¬ (Plan.of m (.ofKinds "hint-" [.forward, .forward]) {}).OverBudget := by decide
  exact (Plan.verdict_of_within within s.initialRobot).1.trans (by decide)

/-- What the hint of a round on a maze of a grid does in it, with the ceiling that rounds start with
and with any other. -/
structure HintServes (g : Grid) (m : Maze) (program : Program) : Prop where
  hinted : (ofMaze m).hint = some program
  success_iff : ({ ofMaze m with program := program }).run.verdict.outcome = .success ↔
    program.length < 1000
  arrives : program.length < 1000 →
    let v := ({ ofMaze m with program := program }).run.verdict
    v.steps = program.length ∧ v.finalRobot.position = ⟨g.width - 1, g.height - 1⟩
  refused : 1000 ≤ program.length →
    let v := ({ ofMaze m with program := program }).run.verdict
    v.outcome = .stepBudgetExceeded ∧ v.steps = 0 ∧ v.finalRobot = ⟨⟨0, 0⟩, .right⟩
  length_le : program.length ≤ 3 * (g.cellCount - 1)
  success_of_lt : ∀ config : RunConfig, program.length < config.maxSteps.toNat →
    ({ ofMaze m with program := program, config := config }).run.verdict.outcome = .success

/-- **A round on a perfect maze has a hint**, which succeeds below the step ceiling. -/
theorem exists_hintServes {g : Grid} {m : Maze} (perfect : m.Perfect g) :
    ∃ program, HintServes g m program := by
  obtain ⟨program, hinted⟩ : ∃ program, (ofMaze m).hint = some program :=
    Option.isSome_iff_exists.1 ((m.isSome_hint_iff _).2 perfect.reaches)
  have atStart : (ofMaze m).initialRobot.position = (ofMaze m).maze.start := rfl
  let v := ({ ofMaze m with program := program }).run.verdict
  have below : program.length < 1000 →
      v.outcome = .success ∧ v.steps = program.length ∧ v.finalRobot.position = m.goal :=
    run_hint_of_lt hinted atStart
  have above : 1000 ≤ program.length →
      v.outcome = .stepBudgetExceeded ∧ v.steps = 0 ∧ v.finalRobot = ⟨m.start, .right⟩ :=
    run_hint_of_le hinted
  have short : program.length ≤ 3 * (m.cellCount - 1) := Maze.length_hint_le hinted
  rw [perfect.goal_eq] at below
  rw [perfect.start_eq] at above
  rw [perfect.grid_eq] at short
  refine ⟨program, hinted, ⟨?_, fun short => (below short).1⟩, fun short => (below short).2, above,
    short, fun config budget => ?_⟩
  · exact fun success => (of_run_hint_success hinted success).1
  · have hinted' : ({ ofMaze m with config := config } : Session).hint = some program := hinted
    exact (run_hint_of_lt hinted' atStart budget).1

theorem exists_generated {g : Grid} (proper : g.Proper) (words : Random.Words) :
    ∃ r program, Maze.generate g words = .ok r ∧ r.maze.Perfect g ∧
      HintServes g r.maze program := by
  obtain ⟨m, built, perfect⟩ := Carving.toMaze_perfect proper (Random.perm_shuffle words g.edges)
  obtain ⟨program, serves⟩ := exists_hintServes perfect
  rw [Maze.generate_of_proper proper, built]
  exact ⟨_, program, rfl, perfect, serves⟩

/-- **A round on a generated maze has a hint**, which succeeds below the step ceiling, for any order
of the edges and so for any random words. -/
theorem hint_of_generated {g : Grid} (proper : g.Proper) :
    (∀ order : List Edge, order.Perm g.edges →
      ∃ m program, (Carving.carveAll g order).toMaze g = .ok m ∧ HintServes g m program) ∧
    ∀ words : Random.Words,
      ∃ r program, Maze.generate g words = .ok r ∧ HintServes g r.maze program := by
  constructor
  · intro order reordered
    obtain ⟨m, built, perfect⟩ := Carving.toMaze_perfect proper reordered
    obtain ⟨program, serves⟩ := exists_hintServes perfect
    exact ⟨m, program, built, serves⟩
  · intro words
    obtain ⟨r, program, generated, -, serves⟩ := exists_generated proper words
    exact ⟨r, program, generated, serves⟩

theorem hint_of_generated_three_by_two :
    (Grid.mk 3 2).Proper ∧ (Grid.mk 3 2).edges.reverse.Perm (Grid.mk 3 2).edges ∧
      (∃ m program, (Carving.carveAll ⟨3, 2⟩ (Grid.mk 3 2).edges.reverse).toMaze ⟨3, 2⟩ = .ok m ∧
        (ofMaze m).hint = some program ∧
        ({ ofMaze m with program := program }).run.verdict.outcome = .success) ∧
      ∃ r program, Maze.generate ⟨3, 2⟩ (.scrambled 7) = .ok r ∧
        (ofMaze r.maze).hint = some program ∧
        ({ ofMaze r.maze with program := program }).run.verdict.outcome = .success := by
  have proper : (Grid.mk 3 2).Proper := by decide
  have short : 3 * ((Grid.mk 3 2).cellCount - 1) < 1000 := by decide
  obtain ⟨ordered, random⟩ := hint_of_generated proper
  obtain ⟨m, program, built, serves⟩ := ordered _ (List.reverse_perm _)
  obtain ⟨r, program', generated, serves'⟩ := random (.scrambled 7)
  exact ⟨proper, List.reverse_perm _,
    ⟨m, program, built, serves.hinted, serves.success_iff.2 (serves.length_le.trans_lt short)⟩,
    ⟨r, program', generated, serves'.hinted,
      serves'.success_iff.2 (serves'.length_le.trans_lt short)⟩⟩

/-- The hint of a corridor of 1001 cells is refused. -/
theorem hint_refused_in_long_corridor :
    (Grid.mk 1001 1).Proper ∧
      ∃ r program, Maze.generate ⟨1001, 1⟩ (.cycle 7 []) = .ok r ∧
        (ofMaze r.maze).hint = some program ∧
        ({ ofMaze r.maze with program := program }).run.verdict.outcome = .stepBudgetExceeded := by
  have proper : (Grid.mk 1001 1).Proper := by decide
  obtain ⟨r, program, generated, perfect, serves⟩ := exists_generated proper (.cycle 7 [])
  have apart : r.maze.manhattan = 1000 := by
    rw [Maze.manhattan, perfect.start_eq, perfect.goal_eq]
    rfl
  have long : 1000 ≤ program.length := by
    by_contra short
    have success := serves.success_iff.2 (Nat.lt_of_not_le short)
    have near : r.maze.manhattan < 1000 := Plan.manhattan_lt_of_success rfl success
    omega
  exact ⟨proper, r, program, generated, serves.hinted, (serves.refused long).1⟩

end Session

end Labyrinth

import Labyrinth.Proofs.Run.Course

/-!
# The machine runs the program written out

**Theorem (`execute_eq_runUnrolled`).** A program within its budget, with whatever brackets, ends as
it would if its outline were written out and the primitive blocks done one after the other: with the
same pose, the same number of steps, the same outcome and the same trace.

The course of the run from its start (`course_of_within`) is the program written out, and the steps
allowed are enough to come to its end (`length_poses_lt_stepLimit`).
-/

namespace Labyrinth

namespace Program

theorem outcome_runPositions_eq (p : Program) (m : Maze) (positions : List Nat) (r : Robot) :
    let u := p.runPositions m positions r
    u.outcome =
      if ∀ entry ∈ u.entries, entry.success = true then
        if u.robot.position = m.goal then .success else .goalNotReached
      else .wallCollision := by
  induction positions generalizing r with
  | nil => exact (if_pos fun entry none => absurd none List.not_mem_nil).symm
  | cons i rest ih =>
    cases found : p.blocks[i]? with
    | none =>
      simp only [runPositions, found]
      exact ih r
    | some b =>
      cases acts : b.kind.act m r with
      | none => simp [runPositions, found, acts, TraceEntry.blocked]
      | some after =>
        have later := ih after
        simpa [runPositions, found, acts, TraceEntry.done] using later

theorem outcome_runPositions (p : Program) (m : Maze) (positions : List Nat) (r : Robot) :
    (p.runPositions m positions r).outcome ∈
      [Outcome.success, .goalNotReached, .wallCollision] := by
  rw [outcome_runPositions_eq]
  split
  · split <;> simp
  · simp

theorem length_poses_runPositions_le (p : Program) (m : Maze) (positions : List Nat) (r : Robot) :
    (TraceEntry.poses (p.runPositions m positions r).entries).length ≤ positions.length := by
  induction positions generalizing r with
  | nil => exact Nat.le_refl 0
  | cons i rest ih =>
    rw [runPositions, List.length_cons]
    split
    · exact Nat.le_succ_of_le (ih r)
    · split
      · exact Nat.zero_le _
      · rw [TraceEntry.poses_cons rfl]
        exact Nat.succ_le_succ (ih _)

end Program

namespace Plan

variable {p : Plan}

/-! ## The budget -/

theorem unrolled_eq_capped (p : Plan) : p.unrolled = Program.capped p.program.exactLength := by
  rw [p.unrolled_eq, Program.unrolledLength_eq]

/-- The ceiling is compared with the exact length, however long the program is. -/
theorem overBudget_iff : p.OverBudget ↔ p.config.maxSteps.toNat ≤ p.program.exactLength := by
  have small : p.config.maxSteps.toNat < Program.countLimit :=
    Nat.lt_trans p.config.maxSteps.toNat_lt (by decide)
  rw [OverBudget, unrolled_eq_capped, Program.capped]
  omega

theorem start_live (h : ¬ p.OverBudget) (robot : Robot) : (p.start robot).Live :=
  ⟨if_neg h, rfl⟩

theorem exactLength_le_unrolled (h : ¬ p.OverBudget) : p.program.exactLength ≤ p.unrolled := by
  rw [OverBudget, unrolled_eq_capped, Program.capped] at h
  rw [unrolled_eq_capped, Program.capped]
  have small : p.config.maxSteps.toNat < Program.countLimit :=
    Nat.lt_trans p.config.maxSteps.toNat_lt (by decide)
  omega

theorem length_poses_lt_stepLimit (h : ¬ p.OverBudget) (robot : Robot) :
    (TraceEntry.poses (p.program.runUnrolled p.maze robot).entries).length < p.stepLimit := by
  have written : p.program.expansion.length = p.program.exactLength :=
    Outline.length_expandAll _
  have done := p.program.length_poses_runPositions_le p.maze p.program.expansion robot
  rw [written] at done
  exact Nat.lt_succ_of_le (Nat.le_trans done (exactLength_le_unrolled h))

/-- The course of a run within its budget is the program written out. -/
theorem course_of_within (h : ¬ p.OverBudget) (robot : Robot) :
    let u := p.program.runUnrolled p.maze robot
    ∃ last, p.Course (p.start robot) u.entries u.outcome last ∧ last.robot = u.robot :=
  exists_course (start_live h robot) (consistent_start p robot).nested

theorem exhaust_start (h : ¬ p.OverBudget) (robot : Robot) :
    let u := p.program.runUnrolled p.maze robot
    ∃ last, p.exhaust p.stepLimit (p.start robot) = (u.outcome, last) ∧
      last.halted = some u.outcome ∧ last.robot = u.robot ∧ last.steps = u.steps ∧
      last.trace = if p.config.recordTrace then some u.entries.toArray else none := by
  obtain ⟨last, course, pose⟩ := course_of_within h robot
  have run := course.exhaust (length_poses_lt_stepLimit h robot)
  refine ⟨last, run, course.halted, pose, ?_, ?_⟩
  · rw [course.steps, TraceEntry.length_poses]
    exact Nat.zero_add _
  · rw [course.trace, start]
    split
    · simp only [Option.map_some, List.append_toArray, List.nil_append]
    · rfl

end Plan

/-- **The machine runs the program written out.** -/
theorem Plan.execute_eq_runUnrolled (m : Maze) (program : Program) (config : RunConfig)
    (robot : Robot) (short : program.exactLength < config.maxSteps.toNat) :
    let u := program.runUnrolled m robot
    let v := ((Plan.of m program config).execute robot).verdict
    v.finalRobot = u.robot ∧ v.steps = u.steps ∧ v.outcome = u.outcome ∧
      v.trace = if config.recordTrace then some u.entries else none := by
  have within : ¬ (Plan.of m program config).OverBudget := by
    rw [Plan.overBudget_iff]
    exact Nat.not_le_of_lt short
  obtain ⟨last, run, -, pose, steps, trace⟩ := Plan.exhaust_start within robot
  intro u v
  have reported : v = (Plan.of m program config).verdict u.outcome last := by
    simp only [v, Plan.execute, Plan.finish, run]
    rfl
  rw [reported]
  refine ⟨pose, steps, rfl, ?_⟩
  rw [Plan.verdict, trace]
  change (if config.recordTrace then some u.entries.toArray else none).map Array.toList = _
  split <;> rfl

/-- A stray closing bracket, a repeat of zero times and an unclosed repeat, which runs the robot
into the end of a corridor in its third pass. -/
theorem Plan.execute_eq_runUnrolled_corridor :
    let m : Maze := .close ⟨3, 1⟩ .origin ⟨2, 0⟩ [] (by decide) (by decide) (by decide) (by decide)
    let program : Program := ⟨[⟨"a", .repeatEnd, none⟩, ⟨"b", .repeatStart, some 3⟩,
      ⟨"c", .forward, none⟩, ⟨"d", .repeatStart, some 0⟩, ⟨"e", .wait, none⟩,
      ⟨"f", .repeatEnd, none⟩, ⟨"g", .turnLeft, none⟩, ⟨"h", .turnRight, none⟩]⟩
    let config : RunConfig := { maxSteps := 10, recordTrace := true }
    let v := ((Plan.of m program config).execute ⟨.origin, .right⟩).verdict
    program.exactLength < config.maxSteps.toNat ∧ v.finalRobot = ⟨⟨2, 0⟩, .right⟩ ∧ v.steps = 6 ∧
      v.outcome = .wallCollision ∧
      v.trace.map (·.map (·.blockIndex)) = some [2, 6, 7, 2, 6, 7, 2] := by
  intro m program config v
  have short : program.exactLength < config.maxSteps.toNat := by decide
  obtain ⟨pose, steps, outcome, trace⟩ :=
    Plan.execute_eq_runUnrolled m program config ⟨.origin, .right⟩ short
  refine ⟨short, pose.trans (by decide), steps.trans (by decide), outcome.trans (by decide), ?_⟩
  rw [show v.trace = _ from trace]
  decide

end Labyrinth

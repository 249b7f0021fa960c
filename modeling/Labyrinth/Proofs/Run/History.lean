import Labyrinth.Proofs.Run.Budget

/-!
# The history of a run is its course

**Theorem (`course_start`).** From its start a run has its history before it, whether or not a trace
is recorded, and the report on it is told of the last state of that course. A run over its budget
has no history.

So a run that is stopped after some blocks has come to a state that the whole run passes through,
and the verdict on it is the verdict on the whole run, cut there (`verdict_cancelled_advance`).
-/

namespace Labyrinth

namespace Plan

variable {p : Plan} {e last : Execution} {entries : List TraceEntry} {o : Outcome} {robot : Robot}

theorem overBudget_withTrace : p.withTrace.OverBudget ↔ p.OverBudget := by
  rw [overBudget_iff, overBudget_iff]
  rfl

theorem history_of_overBudget (h : p.OverBudget) (robot : Robot) : p.history robot = [] := by
  rw [history, execute_of_overBudget (overBudget_withTrace.2 h)]
  rfl

theorem history_of_within (h : ¬ p.OverBudget) (robot : Robot) :
    p.history robot = (p.program.runUnrolled p.maze robot).entries := by
  obtain ⟨last, run, -, -, -, trace⟩ :=
    exhaust_start (fun long => h (overBudget_withTrace.1 long)) robot
  rw [history, execute, finish, run]
  change (last.trace.map Array.toList).getD [] = _
  rw [trace]
  rfl

theorem verdict_of_within (h : ¬ p.OverBudget) (robot : Robot) :
    let u := p.program.runUnrolled p.maze robot
    let v := (p.execute robot).verdict
    v.outcome = u.outcome ∧ v.finalRobot = u.robot ∧ v.steps = u.steps := by
  obtain ⟨last, run, -, pose, steps, -⟩ := exhaust_start h robot
  rw [execute, finish, run]
  exact ⟨rfl, pose, steps⟩

theorem finish_of_course (course : p.Course e entries o last)
    (enough : (TraceEntry.poses entries).length < p.stepLimit) : p.finish e = p.report o last := by
  rw [finish, course.exhaust enough]

theorem length_poses_history_lt (p : Plan) (robot : Robot) :
    (TraceEntry.poses (p.history robot)).length < p.stepLimit := by
  by_cases long : p.OverBudget
  · rw [history_of_overBudget long]
    exact Nat.succ_pos _
  · rw [history_of_within long]
    exact length_poses_lt_stepLimit long robot

/-- **From its start a run has its history before it.** -/
theorem course_start (p : Plan) (robot : Robot) :
    ∃ last, p.Course (p.start robot) (p.history robot) (p.execute robot).verdict.outcome last ∧
      p.execute robot = p.report (p.execute robot).verdict.outcome last := by
  suffices found : ∃ o last, p.Course (p.start robot) (p.history robot) o last by
    obtain ⟨o, last, course⟩ := found
    have reported : p.execute robot = p.report o last :=
      finish_of_course course (length_poses_history_lt p robot)
    exact ⟨last, by rw [reported]; exact course, by rw [reported]; rfl⟩
  by_cases long : p.OverBudget
  · rw [history_of_overBudget long]
    exact ⟨_, _, .stays (if_pos long)⟩
  · obtain ⟨last, course, -⟩ := course_of_within long robot
    rw [history_of_within long]
    exact ⟨_, last, course⟩

theorem length_poses_history (p : Plan) (robot : Robot) :
    (TraceEntry.poses (p.history robot)).length = (p.execute robot).verdict.steps := by
  obtain ⟨last, course, reported⟩ := p.course_start robot
  rw [reported]
  exact (course.steps.trans (Nat.zero_add _)).symm

/-! ## States on the way -/

/-- The states that a run passes through are told by its history. -/
theorem stage_start {n : Nat} (within : n ≤ (p.execute robot).verdict.steps) :
    (p.start robot).Stage (p.history robot) n (p.advance n (p.start robot)) := by
  obtain ⟨last, course, -⟩ := p.course_start robot
  exact course.stage (by rwa [length_poses_history])

theorem steps_advance {n : Nat} (within : n ≤ (p.execute robot).verdict.steps) :
    (p.advance n (p.start robot)).steps = n :=
  (stage_start within).steps.trans (Nat.zero_add n)

theorem robot_advance {n : Nat} (within : n ≤ (p.execute robot).verdict.steps) :
    (p.poses robot)[n]? = some (p.advance n (p.start robot)).robot :=
  (stage_start within).robot

theorem le_steps_of_running {n : Nat} (running : (p.advance n (p.start robot)).halted = none) :
    n ≤ (p.execute robot).verdict.steps := by
  obtain ⟨last, course, -⟩ := p.course_start robot
  rw [← length_poses_history]
  refine Nat.le_of_not_lt fun beyond => ?_
  have isLast := course.advance_eq_last beyond
  rw [isLast, course.halted] at running
  cases running

theorem trace_advance {n : Nat} (within : n ≤ (p.execute robot).verdict.steps) :
    (p.advance n (p.start robot)).trace.map Array.toList =
      (p.execute robot).verdict.trace.map (·.take n) := by
  obtain ⟨last, course, reported⟩ := p.course_start robot
  have whole : (p.execute robot).verdict.trace = last.trace.map Array.toList := by
    rw [reported]
    rfl
  rw [whole, course.trace, (stage_start within).trace, start]
  split <;> simp

/-- The verdict on a run that is stopped on the way is the verdict on the whole run, cut there. -/
theorem verdict_cancelled_advance {n : Nat} (within : n ≤ (p.execute robot).verdict.steps) :
    p.verdict .cancelled (p.advance n (p.start robot)) =
      (p.execute robot).verdict.cutAfter n (p.advance n (p.start robot)).robot := by
  rw [verdict, Verdict.cutAfter, trace_advance within, steps_advance within]
  rfl

end Plan

end Labyrinth

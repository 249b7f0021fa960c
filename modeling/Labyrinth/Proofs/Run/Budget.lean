import Labyrinth.Proofs.Run.Refinement

/-!
# The budget

**Theorem (`budget_exact`).** A run is refused for its length exactly if the exact number of its
primitive blocks reaches the ceiling, and then nothing is done. Otherwise no state of the run counts
more steps than there are primitive blocks, and a run to the end of the program counts all of them.

The number compared with the ceiling comes from one pass over the flat list, the steps are counted
by the machine; both are the length of the program written out (`overBudget_iff`,
`Reachable.consistent`).
-/

namespace Labyrinth

namespace Plan

variable {p : Plan} {robot : Robot} {e : Execution}

theorem Reachable.steps_le (h : p.Reachable robot e) : e.steps ≤ p.program.exactLength := by
  have := h.consistent.counted
  omega

theorem Reachable.steps_eq (h : p.Reachable robot e)
    (ended : e.halted = some .success ∨ e.halted = some .goalNotReached) :
    e.steps = p.program.exactLength := by
  have counted := h.consistent.counted
  rw [h.consistent.ended ended, List.length_nil] at counted
  exact counted

theorem exhaust_of_overBudget (h : p.OverBudget) (robot : Robot) (fuel : Nat) :
    p.exhaust (fuel + 1) (p.start robot) = (.stepBudgetExceeded, p.start robot) :=
  exhaust_of_halted fuel (step_of_halted (if_pos h))

theorem execute_of_overBudget (h : p.OverBudget) (robot : Robot) :
    (p.execute robot).verdict = p.verdict .stepBudgetExceeded (p.start robot) := by
  rw [execute, finish, stepLimit, exhaust_of_overBudget h]
  rfl

end Plan

/-- **The budget is exact.** -/
theorem Plan.budget_exact (m : Maze) (program : Program) (config : RunConfig) (robot : Robot) :
    let plan := Plan.of m program config
    let v := (plan.execute robot).verdict
    (v.outcome = .stepBudgetExceeded ↔ config.maxSteps.toNat ≤ program.exactLength) ∧
      (config.maxSteps.toNat ≤ program.exactLength →
        v.steps = 0 ∧ v.finalRobot = robot ∧
          v.trace = if config.recordTrace then some [] else none) ∧
      (program.exactLength < config.maxSteps.toNat →
        (∀ e, plan.Reachable robot e →
          e.steps ≤ program.exactLength ∧ e.steps < config.maxSteps.toNat) ∧
        (v.outcome = .success ∨ v.outcome = .goalNotReached → v.steps = program.exactLength)) := by
  intro plan v
  have compare : plan.OverBudget ↔ config.maxSteps.toNat ≤ program.exactLength := overBudget_iff
  by_cases long : config.maxSteps.toNat ≤ program.exactLength
  · have refused : v = plan.verdict .stepBudgetExceeded (plan.start robot) :=
      execute_of_overBudget (compare.2 long) robot
    rw [refused]
    refine ⟨⟨fun _ => long, fun _ => rfl⟩, fun _ => ⟨rfl, rfl, ?_⟩, fun short => ?_⟩
    · change (if config.recordTrace then some #[] else none).map Array.toList = _
      split <;> rfl
    · exact absurd long (Nat.not_le_of_lt short)
  · have within : ¬ plan.OverBudget := fun h => long (compare.1 h)
    obtain ⟨last, run, halted, -, -, -⟩ := exhaust_start within robot
    have reported : v = plan.verdict (program.runUnrolled m robot).outcome last := by
      simp only [v, execute, finish, run]
      rfl
    have reached : plan.Reachable robot last := by
      have end_reached : plan.Reachable robot (plan.exhaust plan.stepLimit (plan.start robot)).2 :=
        Reachable.start.exhaust plan.stepLimit
      rwa [run] at end_reached
    have outcomes := Program.outcome_runPositions program m program.expansion robot
    rw [reported]
    refine ⟨⟨fun refused => ?_, fun h => absurd h long⟩, fun h => absurd h long, fun short => ?_⟩
    · have refused : (program.runPositions m program.expansion robot).outcome =
        .stepBudgetExceeded := refused
      rw [refused] at outcomes
      simp at outcomes
    · refine ⟨fun e h => ⟨h.steps_le, Nat.lt_of_le_of_lt h.steps_le short⟩, fun ended => ?_⟩
      refine reached.steps_eq ?_
      rw [halted]
      exact ended.imp (congrArg some) (congrArg some)

end Labyrinth

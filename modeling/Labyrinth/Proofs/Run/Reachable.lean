import Labyrinth.Proofs.Run.Steps
import Labyrinth.Run.Turns

/-!
# The states that a run comes to

A run comes to a state (`Plan.Reachable`) by looking at it once or by being told to stop, in any
order and at any point. In particular a run may be told to stop while it passes brackets. What a
look can make of a state is said once (`Plan.Look`, `pass_look`); what looks keep holds of all of
these states (`Reachable.invariant`).

Every such state is `Consistent`: the counter is nested in the active repeats, the steps done and
the blocks still to come add up to the exact length of the program, and a run that came to the end
of its program has nothing left.
-/

namespace Labyrinth

/-- The state that a pass leaves, whether or not it ends the step. -/
def Pass.state : Pass → Execution
  | .onward e => e
  | .done _ e => e

namespace Plan

variable {p : Plan} {robot : Robot} {e e' : Execution} {s : Signal}

/-- The states that a run from a pose comes to. -/
inductive Reachable (p : Plan) (robot : Robot) : Execution → Prop
  | start : Reachable p robot (p.start robot)
  | onward {e e' : Execution} : Reachable p robot e → p.pass e = .onward e' → Reachable p robot e'
  | done {e e' : Execution} {s : Signal} :
      Reachable p robot e → p.pass e = .done s e' → Reachable p robot e'
  | cancel {e : Execution} : Reachable p robot e → Reachable p robot e.cancel

/-- What one look at a state makes of it. -/
inductive Look (p : Plan) (e : Execution) : Execution → Prop
  /-- The run has ended, and stays as it is. -/
  | ended {o : Outcome} : e.halted = some o → Look p e e
  /-- The run was told to stop. -/
  | cancelled : e.halted = none → e.cancelRequested = true →
      Look p e { e with halted := some .cancelled }
  /-- The counter moves past a bracket. -/
  | onward {pc : Nat} {frames : List Frame} : e.Live →
      p.program.PastBracket e.pc e.frames pc frames → Look p e (e.moveTo pc frames)
  /-- The block at the counter is done. -/
  | done {b : Block} {after : Robot} : e.Live → p.program.blocks[e.pc]? = some b →
      b.kind.isPrimitive → b.kind.act p.maze e.robot = some after →
      Look p e (e.doneAt e.pc b after e.frames)
  /-- The block at the counter is blocked. -/
  | blocked {b : Block} : e.Live → p.program.blocks[e.pc]? = some b → b.kind.isPrimitive →
      b.kind.act p.maze e.robot = none → Look p e (e.blockedAt e.pc b e.frames)
  /-- The program has come to its end. -/
  | finished : e.Live → e.frames = [] → p.program.length ≤ e.pc →
      Look p e { e with halted := some (p.endOutcome e.robot) }

/-- What holds of every state that a run comes to. -/
structure Consistent (p : Plan) (e : Execution) : Prop where
  nested : p.program.Nested e.pc e.frames
  counted : e.steps + (p.remainder e).length = p.program.exactLength
  ended : e.halted = some .success ∨ e.halted = some .goalNotReached → p.remainder e = []

/-! ## Passes that look no further -/

theorem pass_of_halted {o : Outcome} (h : e.halted = some o) : p.pass e = .done (.halted o) e := by
  simp only [pass, h]

theorem pass_of_cancel (h : e.halted = none) (told : e.cancelRequested = true) :
    p.pass e = e.halt .cancelled := by
  simp only [pass, h, told, if_true]

theorem step_of_halted {o : Outcome} (h : e.halted = some o) : p.step e = (.halted o, e) := by
  simp only [step, passLimit, passes, pass_of_halted h]

/-! ## The invariant -/

theorem remainder_start (p : Plan) (robot : Robot) :
    p.remainder (p.start robot) = p.program.expansion := rfl

theorem consistent_start (p : Plan) (robot : Robot) : p.Consistent (p.start robot) := by
  refine ⟨Nat.zero_le _, ?_, fun h => ?_⟩
  · rw [remainder_start, Program.expansion, Outline.length_expandAll]
    exact Nat.zero_add _
  · unfold start at h
    split at h <;> simp at h

/-- **Every pass is a look.** -/
theorem pass_look (h : p.program.Nested e.pc e.frames) : p.Look e (p.pass e).state := by
  cases halted : e.halted with
  | some o =>
    rw [pass_of_halted halted]
    exact .ended halted
  | none =>
    cases told : e.cancelRequested with
    | true =>
      rw [pass_of_cancel halted told]
      exact .cancelled halted told
    | false =>
      have live : e.Live := ⟨halted, told⟩
      rcases pass_cases live h with ⟨pc, frames, move, onward⟩ | ⟨b, found, prim, run⟩ |
        ⟨outside, behind, last⟩
      · rw [onward]
        exact .onward live move
      · rw [run, runPrimitive]
        cases moves : b.kind.act p.maze e.robot with
        | none => exact .blocked live found prim moves
        | some after => exact .done live found prim moves
      · rw [last]
        exact .finished live outside behind

theorem look_of_pass (h : p.program.Nested e.pc e.frames) (passed : (p.pass e).state = e') :
    p.Look e e' :=
  passed ▸ pass_look h

theorem Consistent.look (h : p.Consistent e) (look : p.Look e e') : p.Consistent e' := by
  cases look with
  | ended => exact h
  | cancelled => exact ⟨h.nested, h.counted, by simp⟩
  | @onward pc frames live move =>
    have same : p.remainder (e.moveTo pc frames) = p.remainder e := move.remainder_eq h.nested
    have running : (e.moveTo pc frames).halted = none := live.halted
    refine ⟨move.nested h.nested, ?_, by simp [running]⟩
    rw [same]
    exact h.counted
  | @done b after live found prim moves =>
    have running : (e.doneAt e.pc b after e.frames).halted = none := live.halted
    refine ⟨h.nested.primitive found prim, ?_, by simp [running]⟩
    have counted := h.counted
    rw [remainder, Program.remainder_primitive found prim, List.length_cons] at counted
    dsimp only [remainder, Execution.doneAt]
    omega
  | blocked => exact ⟨h.nested, h.counted, by simp [Execution.blockedAt]⟩
  | finished live outside behind =>
    have nothing : p.remainder e = [] := by
      rw [remainder, outside, Program.remainder_eq_nil behind]
    exact ⟨h.nested, h.counted, fun _ => nothing⟩

theorem Consistent.cancel (h : p.Consistent e) : p.Consistent e.cancel :=
  ⟨h.nested, h.counted, h.ended⟩

/-- **Every state that a run comes to is consistent.** -/
theorem Reachable.consistent (h : p.Reachable robot e) : p.Consistent e := by
  induction h with
  | start => exact consistent_start p robot
  | onward _ eq ih => exact ih.look (look_of_pass ih.nested (congrArg Pass.state eq))
  | done _ eq ih => exact ih.look (look_of_pass ih.nested (congrArg Pass.state eq))
  | cancel _ ih => exact ih.cancel

/-- What holds at the start and is kept by looks and by being told to stop holds of every state that
a run comes to. -/
theorem Reachable.invariant {I : Execution → Prop} (start : I (p.start robot))
    (look : ∀ e e', p.Consistent e → p.Look e e' → I e → I e') (cancel : ∀ e, I e → I e.cancel)
    (h : p.Reachable robot e) : I e := by
  induction h with
  | start => exact start
  | onward before eq ih =>
    have consistent := before.consistent
    exact look _ _ consistent (look_of_pass consistent.nested (congrArg Pass.state eq)) ih
  | done before eq ih =>
    have consistent := before.consistent
    exact look _ _ consistent (look_of_pass consistent.nested (congrArg Pass.state eq)) ih
  | cancel _ ih => exact cancel _ ih

/-! ## Steps -/

theorem Reachable.passes (h : p.Reachable robot e) (fuel : Nat) :
    p.Reachable robot (Pass.state (p.passes fuel e)) := by
  induction fuel generalizing e with
  | zero => exact h
  | succ fuel ih =>
    rw [Plan.passes]
    cases eq : p.pass e with
    | onward e' => exact ih (h.onward eq)
    | done s e' => exact h.done eq

theorem Reachable.step (h : p.Reachable robot e) : p.Reachable robot (p.step e).2 := by
  have passed := h.passes p.passLimit
  rw [Plan.step]
  cases eq : p.passes p.passLimit e with
  | onward e' => rwa [eq] at passed
  | done s e' => rwa [eq] at passed

theorem Reachable.exhaust (h : p.Reachable robot e) (fuel : Nat) :
    p.Reachable robot (p.exhaust fuel e).2 := by
  induction fuel generalizing e with
  | zero => exact h
  | succ fuel ih =>
    have stepped := h.step
    rw [Plan.exhaust]
    rcases eq : p.step e with ⟨s, e'⟩
    rw [eq] at stepped
    cases s with
    | executed r n => exact ih stepped
    | halted o => exact stepped

theorem Reachable.turns (h : p.Reachable robot e) (ts : List Turn) :
    p.Reachable robot (p.turns ts e).2 := by
  induction ts generalizing e with
  | nil => exact h
  | cons t rest ih =>
    apply ih
    cases t with
    | step => exact h.step
    | stepCancelled looks =>
      have passed := h.passes looks
      change p.Reachable robot (p.stepCancelled looks e).2
      rw [stepCancelled]
      cases amid : p.passes looks e with
      | onward next =>
        rw [amid] at passed
        exact passed.cancel.step
      | done s last =>
        rw [amid] at passed
        exact passed.cancel
    | cancel => exact h.cancel

end Plan

end Labyrinth

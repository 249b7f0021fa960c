import Labyrinth.Proofs.Run.History
import Labyrinth.Run.Turns

/-!
# Runs in the hands of a caller

**Theorem (`calls_prefix_of_execute`).** Whatever is called, a run is a prefix of the run to its
end. As long as nobody tells it to stop, its steps answer the history one pose after the other, and
finishing it gives the report on the whole run. Told to stop before it has ended, it stays at the
block that it has come to, and its verdict is the verdict on the whole run, cut there. Once it has
ended, nothing changes any more.

A run may be told to stop between two calls or in the midst of a step, after some looks at the
state. Both come to the same, since looks that do not end a step move the counter only
(`passes_onward`). From then on, as after the end, each step answers an outcome that is already
settled (`Execution.Settled`).
-/

namespace Labyrinth

namespace Execution

variable {e e' e'' : Execution}

/-- The next step will answer that the run has ended with an outcome. -/
def Settled (e : Execution) (o : Outcome) : Prop :=
  e.halted = some o ∨ (e.halted = none ∧ e.cancelRequested = true ∧ o = .cancelled)

/-- Two states tell the same of the blocks done. -/
structure Agrees (e e' : Execution) : Prop where
  robot : e'.robot = e.robot
  steps : e'.steps = e.steps
  trace : e'.trace = e.trace
  log : e'.log = e.log

theorem Agrees.refl (e : Execution) : e.Agrees e := ⟨rfl, rfl, rfl, rfl⟩

theorem Agrees.trans (h : e.Agrees e') (h' : e'.Agrees e'') : e.Agrees e'' :=
  ⟨h'.robot.trans h.robot, h'.steps.trans h.steps, h'.trace.trans h.trace, h'.log.trans h.log⟩

end Execution

namespace Plan

variable {p : Plan} {e e' last : Execution} {entries : List TraceEntry} {o : Outcome}
  {calls : List Call} {robot : Robot}

theorem report_of_agrees (h : e.Agrees e') (o : Outcome) : p.report o e' = p.report o e := by
  obtain ⟨robot, steps, trace, log⟩ := h
  have message : p.message e' o = p.message e o := by
    unfold message
    rw [robot, steps]
  have stars : p.stars e' o = p.stars e o := by
    unfold stars
    rw [steps]
  rw [report, report, verdict, verdict, robot, steps, trace, log, message, stars]

/-! ## Settled outcomes -/

theorem step_of_settled (h : e.Settled o) :
    p.step e = (.halted o, { e with halted := some o }) := by
  obtain halted | ⟨running, told, rfl⟩ := h
  · rw [step_of_halted halted, ← halted]
  · simp only [step, passLimit, passes, pass_of_cancel running told, Execution.halt]

theorem settled_call (p : Plan) (h : e.Settled o) (c : Call) :
    (p.call e c).Settled o ∧ e.Agrees (p.call e c) := by
  cases c with
  | step =>
    rw [call, step_of_settled h]
    exact ⟨.inl rfl, rfl, rfl, rfl, rfl⟩
  | look => exact ⟨h, .refl e⟩
  | cancel =>
    refine ⟨?_, rfl, rfl, rfl, rfl⟩
    obtain halted | ⟨running, -, rfl⟩ := h
    · exact .inl halted
    · exact .inr ⟨running, rfl, rfl⟩

theorem settled_afterCalls (p : Plan) (h : e.Settled o) (calls : List Call) :
    (p.afterCalls calls e).Settled o ∧ e.Agrees (p.afterCalls calls e) := by
  induction calls generalizing e with
  | nil => exact ⟨h, .refl e⟩
  | cons c rest ih =>
    obtain ⟨still, agrees⟩ := p.settled_call h c
    obtain ⟨still', agrees'⟩ := ih still
    exact ⟨still', agrees.trans agrees'⟩

theorem signals_of_settled (h : e.Settled o) (calls : List Call) :
    p.signals calls e = List.replicate (calls.count .step) (.halted o) := by
  induction calls generalizing e with
  | nil => rfl
  | cons c rest ih =>
    have still := (p.settled_call h c).1
    cases c with
    | step =>
      rw [signals, step_of_settled h, List.count_cons_self, List.replicate_succ]
      rw [call, step_of_settled h] at still
      rw [ih still]
    | look => exact ih still
    | cancel => exact ih still

theorem finish_of_settled (h : e.Settled o) : p.finish e = p.report o e := by
  rw [finish, stepLimit, exhaust_of_halted _ (step_of_settled h)]
  exact report_of_agrees ⟨rfl, rfl, rfl, rfl⟩ o

theorem halted_afterCalls (h : e.halted = some o) (calls : List Call) :
    (p.afterCalls calls e).halted = some o := by
  induction calls generalizing e with
  | nil => exact h
  | cons c rest ih =>
    apply ih
    cases c with
    | step =>
      rw [call, step_of_halted h]
      exact h
    | look => exact h
    | cancel => exact h

/-! ## Stopping in the midst of a step -/

theorem runNext_onward (h : p.runNext e = .onward e') : ∃ pc frames, e' = e.moveTo pc frames := by
  unfold runNext at h
  cases found : p.program.blocks[e.pc]? with
  | none =>
    rw [found] at h
    cases h
  | some b =>
    rw [found] at h
    cases kind : b.kind with
    | repeatStart =>
      obtain ⟨pc, frames, -, same⟩ := enterRepeat_pastBracket found kind
      simp only [runBlock, kind, same, Pass.onward.injEq] at h
      exact ⟨pc, frames, h.symm⟩
    | repeatEnd =>
      simp only [runBlock, kind, Pass.onward.injEq] at h
      exact ⟨e.pc + 1, e.frames, h.symm⟩
    | _ =>
      have prim : b.kind.isPrimitive := by rw [kind]; rfl
      obtain ⟨s, last, done⟩ := runPrimitive_eq_done p e b
      simp only [runBlock_of_primitive prim, done, reduceCtorEq] at h

theorem pass_onward (h : p.pass e = .onward e') : ∃ pc frames, e' = e.moveTo pc frames := by
  unfold pass at h
  split at h
  · cases h
  · split at h
    · cases h
    · split at h
      · next f outer _ =>
        split at h
        · rw [Execution.endBody, Pass.onward.injEq] at h
          split at h
          · exact ⟨_, _, h.symm⟩
          · exact ⟨_, _, h.symm⟩
        · exact runNext_onward h
      · exact runNext_onward h

/-- Looks that do not end a step move the counter only. -/
theorem passes_onward {looks : Nat} (h : p.passes looks e = .onward e') :
    ∃ pc frames, e' = e.moveTo pc frames := by
  induction looks generalizing e with
  | zero =>
    rw [passes, Pass.onward.injEq] at h
    exact ⟨e.pc, e.frames, h.symm⟩
  | succ looks ih =>
    rw [passes] at h
    cases look : p.pass e with
    | onward next =>
      rw [look] at h
      obtain ⟨pc, frames, rfl⟩ := pass_onward look
      obtain ⟨pc', frames', rfl⟩ := ih h
      exact ⟨pc', frames', rfl⟩
    | done s next =>
      rw [look] at h
      cases h

/-- A run that is told to stop in the midst of a step tells no more than before the step. -/
theorem settled_amid {looks : Nat} (running : e.halted = none)
    (h : p.passes looks e = .onward e') :
    e'.cancel.Settled .cancelled ∧ e.Agrees e'.cancel := by
  obtain ⟨pc, frames, rfl⟩ := passes_onward h
  exact ⟨.inr ⟨running, rfl, rfl⟩, rfl, rfl, rfl, rfl⟩

/-! ## Undisturbed calls -/

theorem afterCalls_of_quiet (quiet : .cancel ∉ calls) (e : Execution) :
    p.afterCalls calls e = p.advance (calls.count .step) e := by
  induction calls generalizing e with
  | nil => rfl
  | cons c rest ih =>
    have later := ih (List.not_mem_of_not_mem_cons quiet)
    cases c with
    | step =>
      rw [List.count_cons_self]
      exact later (p.step e).2
    | look => exact later e
    | cancel => exact absurd List.mem_cons_self quiet

/-- Steps answer the poses still to come, and then that the run has ended. -/
theorem Course.signals (h : p.Course e entries o last) (quiet : .cancel ∉ calls) :
    p.signals calls e =
      (((TraceEntry.poses entries).zipIdx (e.steps + 1)).take (calls.count .step)).map
          (fun shown => .executed shown.1 shown.2) ++
        List.replicate (calls.count .step - (TraceEntry.poses entries).length) (.halted o) := by
  induction calls generalizing e entries with
  | nil => simp [Plan.signals]
  | cons c rest ih =>
    have quiet' := List.not_mem_of_not_mem_cons quiet
    cases c with
    | step =>
      rw [Plan.signals, List.count_cons_self]
      cases h with
      | stays halted =>
        rw [step_of_halted halted, signals_of_settled (.inl halted)]
        simp [TraceEntry.poses, List.replicate_succ]
      | ends _ ended ends =>
        rw [ended, signals_of_settled (.inl ends.halted), ends.poses_eq]
        simp [List.replicate_succ]
      | does _ _ ran does course =>
        rw [ran, ih course quiet', does.steps, TraceEntry.poses_cons does.success, List.zipIdx_cons,
          List.take_succ_cons, List.map_cons, List.length_cons, Nat.add_sub_add_right]
        rfl
    | look => exact ih h quiet'
    | cancel => exact absurd List.mem_cons_self quiet

/-- A run that nobody tells to stop passes through the states of its history. -/
theorem afterCalls_start (p : Plan) (quiet : .cancel ∉ calls) (robot : Robot) :
    let e := p.afterCalls calls (p.start robot)
    e.steps = min (calls.count .step) (p.execute robot).verdict.steps ∧
      (p.poses robot)[e.steps]? = some e.robot ∧
      (∀ o, e.halted = some o → o = (p.execute robot).verdict.outcome) ∧
      p.finish e = p.execute robot := by
  rw [afterCalls_of_quiet quiet]
  intro e
  obtain ⟨last, course, reported⟩ := p.course_start robot
  have rest := course.advance (calls.count .step)
  have place : e.steps = min (calls.count .step) (p.execute robot).verdict.steps ∧
      (p.poses robot)[e.steps]? = some e.robot := by
    by_cases within : calls.count .step ≤ (p.execute robot).verdict.steps
    · have counted : e.steps = calls.count .step := steps_advance within
      rw [counted, Nat.min_eq_left within]
      exact ⟨rfl, robot_advance within⟩
    · -- more steps are asked for than there are: the last state is reached, and stays
      have all := p.length_poses_history robot
      have isLast : e = last := course.advance_eq_last (by omega)
      have counted : last.steps = (p.execute robot).verdict.steps := by
        rw [course.steps, all]
        exact Nat.zero_add _
      rw [isLast, counted, Nat.min_eq_right (by omega), ← all]
      exact ⟨rfl, course.robot⟩
  refine ⟨place.1, place.2, fun o halted => rest.eq_of_halted halted, ?_⟩
  have shorter := TraceEntry.length_poses_drop_le (p.history robot) (calls.count .step)
  have enough := Nat.lt_of_le_of_lt shorter (p.length_poses_history_lt robot)
  exact (finish_of_course rest enough).trans reported.symm

end Plan

/-- **A run in the hands of a caller is a prefix of the run to its end.** -/
theorem Plan.calls_prefix_of_execute (m : Maze) (program : Program) (config : RunConfig)
    (robot : Robot) (before after : List Call) :
    let p := Plan.of m program config
    let full := p.execute robot
    let asked := before.count .step
    let e := p.afterCalls before (p.start robot)
    (.cancel ∉ before →
      p.signals before (p.start robot) =
          ((p.showing robot).take asked).map (fun shown => .executed shown.1 shown.2) ++
            List.replicate (asked - full.verdict.steps) (.halted full.verdict.outcome) ∧
        e.steps = min asked full.verdict.steps ∧ (p.poses robot)[e.steps]? = some e.robot ∧
        (∀ o, e.halted = some o → o = full.verdict.outcome) ∧ p.finish e = full ∧
        (e.halted = none → ∀ looks amid, p.passes looks e = .onward amid →
          let last := p.afterCalls after amid.cancel
          last.robot = e.robot ∧ last.steps = e.steps ∧
            p.signals after amid.cancel =
              List.replicate (after.count .step) (.halted .cancelled) ∧
            (p.finish last).verdict = full.verdict.cutAfter e.steps e.robot)) ∧
      (∀ o, e.halted = some o →
        let last := p.afterCalls after e
        last.halted = some o ∧ last.robot = e.robot ∧ last.steps = e.steps ∧
          last.trace = e.trace ∧
          p.signals after e = List.replicate (after.count .step) (.halted o) ∧
          p.finish last = p.report o e) ∧
      (p.OverBudget → (p.start robot).halted = some .stepBudgetExceeded) := by
  intro p full asked e
  refine ⟨fun quiet => ?_, fun o halted => ?_, fun long => if_pos long⟩
  · obtain ⟨last, course, -⟩ := p.course_start robot
    obtain ⟨steps, pose, outcome, finished⟩ := p.afterCalls_start quiet robot
    refine ⟨?_, steps, pose, outcome, finished, fun running looks amid moved => ?_⟩
    · have answered := course.signals quiet
      rw [length_poses_history] at answered
      exact answered
    · obtain ⟨settled, agrees⟩ := settled_amid running moved
      obtain ⟨still, agrees'⟩ := p.settled_afterCalls settled after
      have told := agrees.trans agrees'
      refine ⟨told.robot, told.steps, signals_of_settled settled after, ?_⟩
      rw [finish_of_settled still, report_of_agrees told]
      have here : e = p.advance asked (p.start robot) := afterCalls_of_quiet quiet _
      rw [here] at running ⊢
      have within := le_steps_of_running running
      rw [steps_advance within]
      exact verdict_cancelled_advance within
  · have settled : e.Settled o := .inl halted
    obtain ⟨still, told⟩ := p.settled_afterCalls settled after
    refine ⟨halted_afterCalls halted after, told.robot, told.steps, told.trace,
      signals_of_settled settled after, ?_⟩
    rw [finish_of_settled still, report_of_agrees told]

end Labyrinth

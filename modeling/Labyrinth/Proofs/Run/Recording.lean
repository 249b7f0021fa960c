import Labyrinth.Proofs.Run.Record
import Labyrinth.Run.Turns
import Labyrinth.Session

/-!
# Recording a trace changes nothing

**Theorem (`recording_changes_nothing`).** Two runs of a program that differ only in whether a trace
is recorded, and that are stepped and told to stop in the same way, answer alike at every step, come
to the same state but for the trace, and end with the same verdict and the same events but for the
trace. There is a trace in the end exactly if one is recorded. So running a session and debugging it
come to the same.

A state without its trace (`Execution.untraced`) is what the run that records nothing comes to: each
function of the machine commutes with forgetting the trace. Only the primitive blocks write to the
trace (`runPrimitive_untraced`), and no look reads it (`pass_untraced`); steps, turns and whole runs
follow by induction.
-/

namespace Labyrinth

/-- The state but for the trace. -/
def Execution.untraced (e : Execution) : Execution := { e with trace := none }

/-- The pass but for the trace. -/
def Pass.untraced : Pass → Pass
  | .onward e => .onward e.untraced
  | .done s e => .done s e.untraced

/-- The verdict but for the trace. -/
def Verdict.untraced (v : Verdict) : Verdict := { v with trace := none }

/-- The report but for the trace. -/
def Report.untraced (r : Report) : Report := { r with verdict := r.verdict.untraced }

namespace Plan

/-- The same plan with a trace recorded or not. -/
def recording (p : Plan) (records : Bool) : Plan :=
  { p with config := { p.config with recordTrace := records } }

variable {p : Plan} {records : Bool} {robot : Robot} {e : Execution}

/-! ## One pass -/

theorem endBody_untraced (e : Execution) (f : Frame) (outer : List Frame) :
    e.untraced.endBody f outer = (e.endBody f outer).untraced := by
  by_cases more : 0 < f.remaining - 1
  · simp only [Execution.endBody, if_pos more]
    rfl
  · simp only [Execution.endBody, if_neg more]
    rfl

theorem enterRepeat_untraced (e : Execution) (b : Block) :
    (p.recording records).enterRepeat e.untraced b = (p.enterRepeat e b).untraced := by
  by_cases nothing : b.iterations = 0 ∨ p.bodyOf e.pc = 0
  · rw [enterRepeat, enterRepeat, if_pos nothing]
    exact if_pos nothing
  · rw [enterRepeat, enterRepeat, if_neg nothing]
    exact if_neg nothing

theorem runPrimitive_untraced (e : Execution) (b : Block) :
    (p.recording records).runPrimitive e.untraced b = (p.runPrimitive e b).untraced := by
  rw [runPrimitive, runPrimitive, show (p.recording records).maze = p.maze from rfl,
    show e.untraced.robot = e.robot from rfl]
  cases b.kind.act p.maze e.robot <;> rfl

theorem runNext_untraced (e : Execution) :
    (p.recording records).runNext e.untraced = (p.runNext e).untraced := by
  rw [runNext, runNext, show (p.recording records).program = p.program from rfl,
    show e.untraced.pc = e.pc from rfl]
  cases p.program.blocks[e.pc]? with
  | none => rfl
  | some b =>
    dsimp only
    cases kind : b.kind with
    | repeatStart =>
      simp only [runBlock, kind]
      exact congrArg Pass.onward (enterRepeat_untraced e b)
    | repeatEnd =>
      simp only [runBlock, kind]
      rfl
    | _ =>
      have prim : b.kind.isPrimitive := by rw [kind]; rfl
      rw [runBlock_of_primitive prim, runBlock_of_primitive prim]
      exact runPrimitive_untraced e b

/-- **One pass** writes to the trace and never reads it. -/
theorem pass_untraced (e : Execution) :
    (p.recording records).pass e.untraced = (p.pass e).untraced := by
  rw [pass, pass, show e.untraced.halted = e.halted from rfl,
    show e.untraced.cancelRequested = e.cancelRequested from rfl,
    show e.untraced.frames = e.frames from rfl, show e.untraced.pc = e.pc from rfl]
  cases e.halted with
  | some o => rfl
  | none =>
    cases e.cancelRequested with
    | true => rfl
    | false =>
      simp only [Bool.false_eq_true, if_false]
      cases e.frames with
      | nil => exact runNext_untraced e
      | cons f outer =>
        by_cases ended : f.stop ≤ e.pc
        · simp only [if_pos ended]
          exact congrArg Pass.onward (endBody_untraced e f outer)
        · simp only [if_neg ended]
          exact runNext_untraced e

/-! ## Steps, turns and whole runs -/

theorem passes_untraced (fuel : Nat) (e : Execution) :
    (p.recording records).passes fuel e.untraced = (p.passes fuel e).untraced := by
  induction fuel generalizing e with
  | zero => rfl
  | succ fuel ih =>
    rw [passes, passes, pass_untraced]
    cases p.pass e with
    | onward next => exact ih next
    | done s next => rfl

theorem step_untraced (e : Execution) :
    (p.recording records).step e.untraced = ((p.step e).1, (p.step e).2.untraced) := by
  rw [step, step, show (p.recording records).passLimit = p.passLimit from rfl, passes_untraced]
  cases p.passes p.passLimit e <;> rfl

theorem stepCancelled_untraced (looks : Nat) (e : Execution) :
    (p.recording records).stepCancelled looks e.untraced =
      ((p.stepCancelled looks e).1, (p.stepCancelled looks e).2.untraced) := by
  rw [stepCancelled, stepCancelled, passes_untraced]
  cases p.passes looks e with
  | onward amid => exact step_untraced amid.cancel
  | done s last => rfl

theorem turn_untraced (e : Execution) (t : Turn) :
    (p.recording records).turn e.untraced t = ((p.turn e t).1, (p.turn e t).2.untraced) := by
  cases t with
  | step => simp only [turn, step_untraced]
  | stepCancelled looks => simp only [turn, stepCancelled_untraced]
  | cancel => rfl

theorem turns_untraced (ts : List Turn) (e : Execution) :
    (p.recording records).turns ts e.untraced = ((p.turns ts e).1, (p.turns ts e).2.untraced) := by
  induction ts generalizing e with
  | nil => rfl
  | cons t rest ih => simp only [turns, turn_untraced, ih]

theorem exhaust_untraced (fuel : Nat) (e : Execution) :
    (p.recording records).exhaust fuel e.untraced =
      ((p.exhaust fuel e).1, (p.exhaust fuel e).2.untraced) := by
  induction fuel generalizing e with
  | zero => rfl
  | succ fuel ih =>
    rw [exhaust, exhaust, step_untraced]
    rcases p.step e with ⟨_ | _, next⟩
    · exact ih next
    · rfl

theorem report_untraced (o : Outcome) (e : Execution) :
    (p.recording records).report o e.untraced = (p.report o e).untraced := by
  have message : (p.recording records).message e.untraced o = p.message e o := by
    cases o <;> rfl
  have stars : (p.recording records).stars e.untraced o = p.stars e o := by
    cases o <;> rfl
  rw [report, report, verdict, message, stars]
  rfl

theorem finish_untraced (e : Execution) :
    (p.recording records).finish e.untraced = (p.finish e).untraced := by
  rw [finish, finish, show (p.recording records).stepLimit = p.stepLimit from rfl,
    exhaust_untraced]
  exact report_untraced _ _

/-! ## From the start -/

theorem turns_start_untraced (ts : List Turn) (robot : Robot) :
    let run (records : Bool) := (p.recording records).turns ts ((p.recording records).start robot)
    run false = ((run true).1, (run true).2.untraced) :=
  turns_untraced (p := p.recording true) ts ((p.recording true).start robot)

theorem execute_untraced (robot : Robot) :
    (p.recording false).execute robot = ((p.recording true).execute robot).untraced :=
  finish_untraced (p := p.recording true) ((p.recording true).start robot)

/-- A verdict carries a trace exactly if one is recorded. -/
theorem isSome_trace_finish (h : p.Reachable robot e) :
    (p.finish e).verdict.trace.isSome = p.config.recordTrace := by
  obtain ⟨entries, told⟩ := (h.exhaust p.stepLimit).told
  change ((p.exhaust p.stepLimit e).2.trace.map Array.toList).isSome = p.config.recordTrace
  rw [told.trace]
  cases p.config.recordTrace <;> rfl

end Plan

/-- **Recording a trace changes nothing** but that there is one. -/
theorem Plan.recording_changes_nothing :
    (∀ (m : Maze) (program : Program) (config : RunConfig) (robot : Robot) (ts : List Turn),
      let plan (records : Bool) := Plan.of m program { config with recordTrace := records }
      let run (records : Bool) := (plan records).turns ts ((plan records).start robot)
      let report (records : Bool) := (plan records).finish (run records).2
      (run false).1 = (run true).1 ∧ (run false).2 = (run true).2.untraced ∧
        report false = (report true).untraced ∧
        ∀ records, (report records).verdict.trace.isSome = records) ∧
    ∀ s : Session, s.run.untraced = s.runDebug.untraced ∧
      s.runDebug.verdict.trace.isSome = true ∧
      s.run.verdict.trace.isSome = s.config.recordTrace := by
  refine ⟨fun m program config robot ts => ?_, fun s => ⟨?_, ?_, ?_⟩⟩
  · intro plan run report
    have same : run false = ((run true).1, (run true).2.untraced) :=
      turns_start_untraced (p := .of m program config) ts robot
    refine ⟨by rw [same], by rw [same], ?_, fun records => ?_⟩
    · simp only [report, same]
      exact finish_untraced (p := plan true) (run true).2
    · exact isSome_trace_finish (Reachable.start.turns ts)
  · rcases s with ⟨m, robot, program, ⟨maxSteps, stars, records⟩⟩
    let p : Plan := .of m program ⟨maxSteps, stars, records⟩
    cases records with
    | false =>
      change ((p.recording false).execute robot).untraced =
        ((p.recording true).execute robot).untraced
      rw [execute_untraced]
      rfl
    | true => rfl
  · exact isSome_trace_finish Reachable.start
  · exact isSome_trace_finish Reachable.start

end Labyrinth

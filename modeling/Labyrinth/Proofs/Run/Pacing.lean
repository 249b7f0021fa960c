import Labyrinth.Proofs.Run.Interruption
import Labyrinth.Run.Paced

/-!
# Paced runs

**Theorem (`executePaced_eq_prefix`).** A watcher who never stops the run is shown the pose after
every block of the run to its end, and the report is the same. One who stops it when shown a pose is
shown no more, and the verdict is the verdict on the whole run, cut there. A run that is told to
stop before it begins shows nothing and does nothing, unless it is over its budget, which comes
first.

What is shown from a state on is read off its course: all of it (`Course.showSteps_of_quiet`) or
what comes up to the pose at which the watcher stops the run (`Course.showSteps_of_stop`).
-/

namespace Labyrinth

/-- The poses that are shown after a state, each with the number of its step. -/
def Execution.shows (e : Execution) (entries : List TraceEntry) : List (Robot × Nat) :=
  (TraceEntry.poses entries).zipIdx (e.steps + 1)

/-- A run that was told to stop, after it has found out. -/
def Execution.stopped (e : Execution) : Execution :=
  { e.cancel with halted := some .cancelled }

namespace Execution

variable {e e' : Execution} {entry : TraceEntry} {rest : List TraceEntry}

theorem Does.shows_eq (h : e.Does entry e') :
    e.shows (entry :: rest) = (entry.after, e.steps + 1) :: e'.shows rest := by
  rw [shows, shows, TraceEntry.poses_cons h.success, List.zipIdx_cons, h.steps]

theorem Ends.shows_eq {blocked : Option TraceEntry} {o : Outcome} (h : e.Ends blocked o e') :
    e.shows blocked.toList = [] := by
  rw [shows, h.poses_eq]
  rfl

end Execution

namespace Plan

variable {p : Plan} {e e' last : Execution} {entries : List TraceEntry} {o : Outcome}
  {stops : Watcher} {robot : Robot}

theorem showSteps_of_settled (h : e.Settled o) (fuel : Nat) :
    p.showSteps stops (fuel + 1) e = ({ e with halted := some o }, []) := by
  rw [showSteps, step_of_settled h]

theorem showSteps_of_executed {r : Robot} {n : Nat} (ran : p.step e = (.executed r n, e'))
    (fuel : Nat) :
    p.showSteps stops (fuel + 1) e =
      let later := p.showSteps stops fuel (if stops r n then e'.cancel else e')
      (later.1, (r, n) :: later.2) := by
  rw [showSteps, ran]

/-- A watcher who never stops the run is shown all of its course. -/
theorem Course.showSteps_of_quiet (h : p.Course e entries o last) {fuel : Nat}
    (enough : (TraceEntry.poses entries).length < fuel)
    (quiet : ∀ s ∈ e.shows entries, stops s.1 s.2 = false) :
    p.showSteps stops fuel e = (last, e.shows entries) := by
  induction h generalizing fuel with
  | stays halted =>
    obtain ⟨k, rfl⟩ := Nat.exists_eq_add_one.2 (Nat.zero_lt_of_lt enough)
    rw [showSteps, step_of_halted halted]
    rfl
  | ends _ ended ends =>
    obtain ⟨k, rfl⟩ := Nat.exists_eq_add_one.2 (Nat.zero_lt_of_lt enough)
    rw [showSteps, ended, ends.shows_eq]
  | does _ _ ran does _ ih =>
    obtain ⟨k, rfl⟩ := Nat.exists_eq_add_one.2 (Nat.zero_lt_of_lt enough)
    rw [TraceEntry.poses_cons does.success, List.length_cons] at enough
    rw [does.shows_eq, List.forall_mem_cons] at quiet
    have later := ih (Nat.lt_of_succ_lt_succ enough) quiet.2
    rw [showSteps_of_executed ran, if_neg (Bool.eq_false_iff.1 quiet.1), later, does.shows_eq]

/-- A watcher who stops the run when shown a pose is shown no more. -/
theorem Course.showSteps_of_stop (h : p.Course e entries o last) {n fuel : Nat} {r : Robot}
    (enough : n + 1 < fuel) (shown : (TraceEntry.poses entries)[n]? = some r)
    (quiet : ∀ s ∈ (e.shows entries).take n, stops s.1 s.2 = false)
    (stop : stops r (e.steps + n + 1) = true) :
    p.showSteps stops fuel e =
      ((p.advance (n + 1) e).stopped, (e.shows entries).take (n + 1)) := by
  induction h generalizing n fuel with
  | stays => cases shown
  | ends _ _ ends =>
    rw [ends.poses_eq] at shown
    cases shown
  | @does e e' _ entry _ _ _ live' ran does _ ih =>
    obtain ⟨k, rfl⟩ := Nat.exists_eq_add_one.2 (Nat.zero_lt_of_lt enough)
    have after (i : Nat) : p.advance (i + 1) e = p.advance i e' := by rw [Plan.advance, ran]
    rw [TraceEntry.poses_cons does.success] at shown
    rw [does.shows_eq] at quiet ⊢
    rw [showSteps_of_executed ran, after, List.take_succ_cons]
    cases n with
    | zero =>
      -- the next step finds that the run was told to stop, and does nothing
      obtain rfl : entry.after = r := Option.some.inj shown
      obtain ⟨j, rfl⟩ := Nat.exists_eq_add_one.2 (Nat.zero_lt_of_lt (Nat.lt_of_succ_lt_succ enough))
      have told : e'.cancel.Settled .cancelled := .inr ⟨live'.halted, rfl, rfl⟩
      rw [if_pos stop, showSteps_of_settled told]
      rfl
    | succ n =>
      rw [List.take_succ_cons, List.forall_mem_cons] at quiet
      have count : e'.steps + n + 1 = e.steps + (n + 1) + 1 := by
        rw [does.steps]
        omega
      have later := ih (Nat.lt_of_succ_lt_succ enough) shown quiet.2 (by rwa [count])
      rw [if_neg (Bool.eq_false_iff.1 quiet.1), later]

/-! ## From the start -/

theorem shows_start (p : Plan) (robot : Robot) :
    (p.start robot).shows (p.history robot) = p.showing robot := rfl

theorem executePaced_of_showSteps {stopped : Bool} {seen : List (Robot × Nat)}
    (h : p.showSteps stops p.stepLimit
      (if stopped then (p.start robot).cancel else p.start robot) = (last, seen)) :
    p.executePaced robot stopped stops = { toReport := p.finish last, seen := seen } := by
  rw [executePaced, h]

theorem executePaced_of_quiet (quiet : ∀ s ∈ p.showing robot, stops s.1 s.2 = false) :
    p.executePaced robot false stops =
      { toReport := p.execute robot, seen := p.showing robot } := by
  obtain ⟨last, course, reported⟩ := p.course_start robot
  have shown := course.showSteps_of_quiet (p.length_poses_history_lt robot) quiet
  rw [executePaced_of_showSteps shown, finish_of_settled (.inl course.halted), ← reported,
    shows_start]

theorem executePaced_of_stop {n : Nat} {r : Robot} (shown : (r, n) ∈ p.showing robot)
    (stop : stops r n = true)
    (quiet : ∀ s ∈ p.showing robot, s.2 < n → stops s.1 s.2 = false) :
    let paced := p.executePaced robot false stops
    paced.seen = (p.showing robot).take n ∧
      paced.verdict = (p.execute robot).verdict.cutAfter n r := by
  obtain ⟨last, course, -⟩ := p.course_start robot
  obtain ⟨positive, found⟩ := List.mem_zipIdx_iff_le_and_getElem?_sub.1 shown
  obtain ⟨i, rfl⟩ := Nat.exists_eq_add_of_le' positive
  rw [Nat.add_sub_cancel] at found
  have below := (List.getElem?_eq_some_iff.1 found).1
  have within : i + 1 ≤ (p.execute robot).verdict.steps := by rwa [← length_poses_history]
  have pose : (p.advance (i + 1) (p.start robot)).robot = r :=
    Option.some.inj ((robot_advance within).symm.trans found)
  have enough : i + 1 < p.stepLimit := Nat.lt_of_le_of_lt below (p.length_poses_history_lt robot)
  have quiet' : ∀ s ∈ ((p.start robot).shows (p.history robot)).take i,
      stops s.1 s.2 = false := by
    intro s early
    refine quiet s (List.mem_of_mem_take early) ?_
    obtain ⟨j, earlier, rfl⟩ := List.mem_take_iff_getElem.1 early
    have number : ((p.start robot).shows (p.history robot))[j].2 = 1 + j := by
      simp only [Execution.shows, List.getElem_zipIdx, start, Nat.zero_add]
    omega
  have stop' : stops r ((p.start robot).steps + i + 1) = true := by
    rw [start, Nat.zero_add]
    exact stop
  have ran := course.showSteps_of_stop enough found quiet' stop'
  rw [executePaced_of_showSteps ran, finish_of_settled (.inl rfl), ← pose,
    ← verdict_cancelled_advance within]
  exact ⟨rfl, rfl⟩

theorem executePaced_of_settled (settled : (p.start robot).cancel.Settled o) :
    p.executePaced robot true stops =
      { toReport := p.report o (p.start robot), seen := [] } := by
  have agrees : (p.start robot).Agrees { (p.start robot).cancel with halted := some o } :=
    ⟨rfl, rfl, rfl, rfl⟩
  rw [executePaced_of_showSteps (showSteps_of_settled settled _), finish_of_settled (.inl rfl),
    report_of_agrees agrees]

end Plan

/-- **A paced run shows a prefix of the run to its end.** -/
theorem Plan.executePaced_eq_prefix (m : Maze) (program : Program) (config : RunConfig)
    (robot : Robot) (stops : Watcher) :
    let p := Plan.of m program config
    let full := p.execute robot
    let shown := p.showing robot
    shown.length = full.verdict.steps ∧
      ((∀ s ∈ shown, stops s.1 s.2 = false) →
        p.executePaced robot false stops = { toReport := full, seen := shown }) ∧
      (∀ n r, (r, n) ∈ shown → stops r n = true →
        (∀ s ∈ shown, s.2 < n → stops s.1 s.2 = false) →
        let paced := p.executePaced robot false stops
        paced.seen = shown.take n ∧ paced.verdict = full.verdict.cutAfter n r) ∧
      (p.OverBudget → full.verdict.outcome = .stepBudgetExceeded ∧
        p.executePaced robot true stops = { toReport := full, seen := [] }) ∧
      (¬ p.OverBudget →
        let paced := p.executePaced robot true stops
        paced.seen = [] ∧ paced.verdict = full.verdict.cutAfter 0 robot) := by
  intro p full shown
  have count : shown.length = full.verdict.steps :=
    List.length_zipIdx.trans (p.length_poses_history robot)
  refine ⟨count, executePaced_of_quiet, fun n r => executePaced_of_stop,
    fun long => ?_, fun within => ?_⟩
  · have whole : full = p.report .stepBudgetExceeded (p.start robot) :=
      finish_of_settled (.inl (if_pos long))
    rw [whole]
    exact ⟨rfl, executePaced_of_settled (.inl (if_pos long))⟩
  · rw [executePaced_of_settled (.inr ⟨(start_live within robot).halted, rfl, rfl⟩)]
    exact ⟨rfl, verdict_cancelled_advance (Nat.zero_le _)⟩

end Labyrinth

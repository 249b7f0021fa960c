import Labyrinth.Proofs.Program.Unmatched
import Labyrinth.Proofs.Run.Account

/-!
# The log agrees with the verdict

**Theorem (`log_agrees_with_verdict`).** However a run was stepped and told to stop, its log holds a
warning exactly if the brackets of the program are not balanced, a refusal exactly if the run was
refused for its length, one report for each entry of the trace that was done, in order and numbered
from one to the steps counted, and a last line with the outcome, the steps and the stars of the
verdict. The warning counts the repeats that nothing closes and the closing brackets that close
nothing.

Log and trace are written by different parts of the machine. What a look adds to one it adds to the
other (`Reachable.logged`): a block done is reported with the number of steps counted, which is the
number of entries done so far (`Tallies.steps`), and a block that was blocked is in the trace only.
-/

namespace Labyrinth

/-- What a log reports of the entries that were done, numbered from one on. -/
def TraceEntry.reports (entries : List TraceEntry) : List Event :=
  ((entries.filter (·.success)).zipIdx 1).map fun (entry, n) =>
    .executed entry.blockIndex entry.blockKind entry.after.position n

namespace TraceEntry

variable {entries : List TraceEntry} {entry : TraceEntry}

@[simp] theorem length_reports (entries : List TraceEntry) :
    (reports entries).length = entries.countP (·.success) := by
  rw [reports, List.length_map, List.length_zipIdx, List.countP_eq_length_filter]

theorem reports_concat_of_done (done : entry.success = true) :
    reports (entries ++ [entry]) = reports entries ++
      [.executed entry.blockIndex entry.blockKind entry.after.position
        (entries.countP (·.success) + 1)] := by
  simp [reports, done, List.zipIdx_append, List.countP_eq_length_filter, Nat.add_comm]

theorem reports_concat_of_failed (failed : entry.success = false) :
    reports (entries ++ [entry]) = reports entries := by
  simp [reports, failed]

theorem level_reports (entries : List TraceEntry) :
    ∀ event ∈ reports entries, event.level = .trace := by
  intro event mem
  obtain ⟨⟨entry, n⟩, -, rfl⟩ := List.mem_map.1 mem
  rfl

end TraceEntry

namespace Event

theorem filter_level (events : List Event) (level : Level)
    (same : ∀ event ∈ events, event.level = level) (wanted : Level) :
    events.filter (·.level = wanted) = if level = wanted then events else [] := by
  split
  · next isWanted =>
    exact List.filter_eq_self.2 fun event mem => decide_eq_true ((same event mem).trans isWanted)
  · next other =>
    refine List.filter_eq_nil_iff.2 fun event mem => ?_
    rw [same event mem]
    exact fun isWanted => other (of_decide_eq_true isWanted)

/-- The parts of a log are told apart by their levels. -/
theorem filter_levels {warnings refusals reports : List Event} {last : Event}
    (warn : ∀ event ∈ warnings, event.level = .warn)
    (debug : ∀ event ∈ refusals, event.level = .debug)
    (trace : ∀ event ∈ reports, event.level = .trace) (closing : last.level = .debug) :
    let events := warnings ++ refusals ++ reports ++ [last]
    events.filter (·.level = .warn) = warnings ∧
      events.filter (·.level = .debug) = refusals ++ [last] ∧
      events.filter (·.level = .trace) = reports := by
  intro events
  have ends := filter_level [last] .debug (List.forall_mem_singleton.2 closing)
  simp only [events, List.filter_append, filter_level _ _ warn, filter_level _ _ debug,
    filter_level _ _ trace, ends]
  simp

end Event

namespace Plan

open TraceEntry

variable {p : Plan} {robot : Robot} {e e' : Execution} {o : Outcome}

/-! ## Before the first step -/

theorem toList_bracketEvents (p : Plan) :
    p.bracketEvents.toList = if Program.Balanced p.program.blocks then []
      else [.unmatchedRepeats p.program.unclosedCount p.program.strayCount] := by
  have none : Program.Balanced p.program.blocks ↔
      ¬ (0 < p.program.unclosedCount ∨ 0 < p.program.strayCount) := by
    rw [Program.balanced_iff_counts]
    omega
  unfold bracketEvents
  by_cases balanced : Program.Balanced p.program.blocks
  · rw [if_pos balanced, if_neg (none.1 balanced)]
  · rw [if_neg balanced, if_pos (not_not.1 (mt none.2 balanced))]

theorem toList_budgetEvents (p : Plan) :
    p.budgetEvents.toList =
      if p.OverBudget then [.overBudget p.unrolled p.config.maxSteps] else [] := by
  unfold budgetEvents
  split <;> rfl

/-- A run is refused for its length only before its first step. -/
theorem Reachable.refused_iff (h : p.Reachable robot e) :
    e.halted = some .stepBudgetExceeded ↔ p.OverBudget := by
  refine ⟨fun refused => ?_, h.halted_of_overBudget⟩
  refine h.invariant (I := fun e => e.halted = some .stepBudgetExceeded → p.OverBudget) ?_ ?_
    (fun _ ih => ih) refused
  · intro refused
    refine Decidable.by_contra fun within => ?_
    rw [(start_live within robot).halted] at refused
    cases refused
  · intro e e' _ look ih refused
    cases look with
    | ended => exact ih refused
    | cancelled => cases refused
    | onward => exact ih refused
    | done => exact ih refused
    | blocked => cases refused
    | finished =>
      unfold endOutcome at refused
      split at refused <;> cases refused

/-! ## The reports -/

/-- The log of a state reports what its trace tells of. -/
def Logged (p : Plan) (entries : List TraceEntry) (e : Execution) : Prop :=
  e.log.toList = p.bracketEvents.toList ++ p.budgetEvents.toList ++ reports entries

theorem logged_look (look : p.Look e e')
    (h : ∀ trace ∈ e.trace, Tallies trace.toList e ∧ p.Logged trace.toList e) :
    ∀ trace ∈ e'.trace, p.Logged trace.toList e' := by
  intro trace' kept'
  cases look with
  | done =>
    obtain ⟨trace, kept, rfl⟩ := Option.map_eq_some_iff.1 kept'
    obtain ⟨tallies, logged⟩ := h trace kept
    rw [Logged, Array.toList_push, reports_concat_of_done rfl, tallies.steps, ← List.append_assoc,
      ← logged]
    exact Array.toList_push
  | blocked =>
    obtain ⟨trace, kept, rfl⟩ := Option.map_eq_some_iff.1 kept'
    rw [Logged, Array.toList_push, reports_concat_of_failed rfl]
    exact (h trace kept).2
  | ended => exact (h trace' kept').2
  | cancelled => exact (h trace' kept').2
  | onward => exact (h trace' kept').2
  | finished => exact (h trace' kept').2

/-- **Every state that a run comes to has logged what is told of it.** -/
theorem Reachable.logged (h : p.Reachable robot e) :
    ∀ trace ∈ e.trace, Tallies trace.toList e ∧ p.Logged trace.toList e := by
  refine h.invariant
    (I := fun e => ∀ trace ∈ e.trace, Tallies trace.toList e ∧ p.Logged trace.toList e) ?_ ?_ ?_
  · intro trace kept
    have tallies := Reachable.start.tallies trace kept
    rw [Option.mem_def, (p.told_start robot).trace] at kept
    split at kept
    · cases kept
      refine ⟨tallies, ?_⟩
      rw [Logged, reports, List.filter_nil, List.zipIdx_nil, List.map_nil, List.append_nil]
      exact Array.toList_append
    · cases kept
  · intro e e' _ look ih trace kept
    exact ⟨tallies_look look (fun trace kept => (ih trace kept).1) trace kept,
      logged_look look ih trace kept⟩
  · intro e ih trace kept
    obtain ⟨⟨steps, done⟩, logged⟩ := ih trace kept
    exact ⟨⟨steps, done⟩, logged⟩

/-! ## The end of a run -/

theorem Reachable.outcome_finish_iff (h : p.Reachable robot e) :
    (p.finish e).verdict.outcome = .stepBudgetExceeded ↔ p.OverBudget := by
  have refused := (h.exhaust p.stepLimit).refused_iff
  rwa [h.halted_exhaust, Option.some_inj] at refused

theorem Reachable.events_finish (recorded : p.config.recordTrace = true)
    (h : p.Reachable robot e) :
    let v := (p.finish e).verdict
    ∃ entries, v.trace = some entries ∧ entries.countP (·.success) = v.steps ∧
      (p.finish e).events = p.bracketEvents.toList ++ p.budgetEvents.toList ++ reports entries ++
        [.finished v.outcome v.steps v.stars] := by
  intro v
  have final := h.exhaust p.stepLimit
  obtain ⟨entries, told⟩ := final.told
  have kept : (p.exhaust p.stepLimit e).2.trace = some entries.toArray := by
    rw [told.trace, if_pos recorded]
  obtain ⟨tallies, logged⟩ := final.logged _ kept
  exact ⟨entries, congrArg (Option.map Array.toList) kept, tallies.steps,
    congrArg (· ++ [Event.finished v.outcome v.steps v.stars]) logged⟩

end Plan

/-- **The log agrees with the verdict.** Without turns it is the log of executing the program. -/
theorem Plan.log_agrees_with_verdict (m : Maze) (program : Program) (config : RunConfig)
    (robot : Robot) (ts : List Turn) :
    let p := Plan.of m program config.withTrace
    let r := p.finish (p.turns ts (p.start robot)).2
    let v := r.verdict
    let unclosed := {i | program.Opens i ∧ ∀ j, ¬ program.ClosedAt i j}.ncard
    let stray := {j | program.Ends j ∧ ∀ i, ¬ program.ClosedAt i j}.ncard
    let warnings :=
      if Program.Balanced program.blocks then [] else [.unmatchedRepeats unclosed stray]
    let refusals := if v.outcome = .stepBudgetExceeded
      then [.overBudget program.unrolledLength config.maxSteps] else []
    let last := .finished v.outcome v.steps v.stars
    (∃ entries, v.trace = some entries ∧ (TraceEntry.reports entries).length = v.steps ∧
      r.events = warnings ++ refusals ++ TraceEntry.reports entries ++ [last] ∧
      r.events.filter (·.level = .warn) = warnings ∧
      r.events.filter (·.level = .debug) = refusals ++ [last] ∧
      r.events.filter (·.level = .trace) = TraceEntry.reports entries) ∧
    (unclosed : Int) - stray = program.blocks.countP (·.kind = .repeatStart) -
      program.blocks.countP (·.kind = .repeatEnd) := by
  intro p r v unclosed stray warnings refusals last
  have reached : p.Reachable robot (p.turns ts (p.start robot)).2 := Reachable.start.turns ts
  have counts : unclosed = program.unclosedCount ∧ stray = program.strayCount := by
    simp only [unclosed, stray, Program.closedAt_iff, ← Program.unclosed_iff, ← Program.stray_iff]
    exact ⟨program.unclosedCount_eq_ncard.symm, program.strayCount_eq_ncard.symm⟩
  have warned : p.bracketEvents.toList = warnings := by
    rw [toList_bracketEvents]
    simp only [warnings, counts]
    rfl
  have refused : p.budgetEvents.toList = refusals := by
    rw [toList_budgetEvents]
    exact if_congr reached.outcome_finish_iff.symm rfl rfl
  obtain ⟨entries, kept, counted, events⟩ := reached.events_finish rfl
  rw [warned, refused] at events
  refine ⟨⟨entries, kept, ?_, events, ?_⟩, ?_⟩
  · rw [TraceEntry.length_reports]
    exact counted
  · have warn : ∀ event ∈ warnings, event.level = .warn := by
      simp only [warnings]
      split <;> simp [Event.level]
    have debug : ∀ event ∈ refusals, event.level = .debug := by
      simp only [refusals]
      split <;> simp [Event.level]
    rw [events]
    exact Event.filter_levels warn debug (TraceEntry.level_reports entries) rfl
  · rw [counts.1, counts.2]
    exact program.unclosedCount_sub_strayCount

end Labyrinth

import Labyrinth.Proofs.Run.Interruption
import Labyrinth.Proofs.Run.Record

/-!
# A trace accounts for its run

**Theorem (`trace_accounts_for_run`).** However a run was stepped and told to stop, its trace leads
from the pose at its start to the pose in its verdict, each entry from where the one before it
ended. It begins with one entry for each step counted, and one more follows if the run ended in a
collision. Each entry names a primitive block of the program, between poses that this block relates.

What can be told of a robot says how it came from pose to pose (`Program.Tells`), and that only a
last entry can have failed. How many entries there are is a matter of the state (`Plan.Tallies`): a
block done is counted and told of, a block that was blocked is told of and ends the run, and nothing
else is told of, or ends a run in a collision. A run that is finished has ended as its verdict says
(`Reachable.halted_exhaust`), so the tally of the last state is one of the verdict.
-/

namespace Labyrinth

namespace BlockKind

variable {m : Maze} {r after : Robot} {kind : BlockKind}

/-- The poses before and after a primitive block, if it was done and if it was blocked. -/
inductive Leads (m : Maze) : BlockKind → Bool → Robot → Robot → Prop
  | moved {r : Robot} : m.Open r.position r.ahead → Leads m forward true r r.advance
  | turnedLeft (r : Robot) : Leads m turnLeft true r r.turnLeft
  | turnedRight (r : Robot) : Leads m turnRight true r r.turnRight
  | waited (r : Robot) : Leads m wait true r r
  | blocked {r : Robot} : ¬ m.Open r.position r.ahead → Leads m forward false r r

theorem leads_of_act (prim : kind.isPrimitive) (acts : kind.act m r = some after) :
    kind.Leads m true r after := by
  cases kind with
  | forward =>
    rcases act_eq_some acts with ⟨-, passage, rfl⟩ | ⟨other, -⟩
    · exact .moved passage
    · exact absurd rfl other
  | turnLeft =>
    obtain rfl := Option.some.inj acts
    exact .turnedLeft r
  | turnRight =>
    obtain rfl := Option.some.inj acts
    exact .turnedRight r
  | wait =>
    obtain rfl := Option.some.inj acts
    exact .waited r
  | repeatStart => cases prim
  | repeatEnd => cases prim

theorem leads_of_blocked (acts : kind.act m r = none) : kind.Leads m false r r := by
  obtain ⟨rfl, shut⟩ := act_eq_none.1 acts
  exact .blocked shut

end BlockKind

/-- An entry names a primitive block of a program, between poses that the block relates. -/
structure TraceEntry.Names (entry : TraceEntry) (p : Program) (m : Maze) (b : Block) : Prop where
  found : p.blocks[entry.blockIndex]? = some b
  prim : b.kind.isPrimitive
  id : entry.blockId = b.id
  kind : entry.blockKind = b.kind
  leads : b.kind.Leads m entry.success entry.before entry.after

namespace Program

variable {p : Program} {m : Maze} {r r' : Robot} {entries : List TraceEntry} {entry : TraceEntry}
  {i : Nat}

/-! ## What can be told of a robot -/

theorem Tells.names (h : p.Tells m r entries r') :
    ∀ entry ∈ entries, ∃ b, entry.Names p m b := by
  induction h with
  | nil => exact fun entry none => absurd none List.not_mem_nil
  | done found prim acts _ ih =>
    exact List.forall_mem_cons.2 ⟨⟨_, found, prim, rfl, rfl, BlockKind.leads_of_act prim acts⟩, ih⟩
  | blocked found prim acts =>
    exact List.forall_mem_singleton.2 ⟨_, found, prim, rfl, rfl, BlockKind.leads_of_blocked acts⟩

theorem Tells.chain (h : p.Tells m r entries r') :
    entries.map (·.before) ++ [r'] = r :: entries.map (·.after) := by
  induction h with
  | nil => rfl
  | done _ _ _ _ ih => exact congrArg (_ :: ·) ih
  | blocked => rfl

theorem Tells.success_iff (h : p.Tells m r entries r') (found : entries[i]? = some entry) :
    entry.success = true ↔ i < entries.countP (·.success) := by
  induction h generalizing i with
  | nil => cases found
  | @done _ _ _ _ _ rest _ _ _ _ ih =>
    rw [List.countP_cons_of_pos rfl]
    cases i with
    | zero =>
      cases found
      exact iff_of_true rfl (Nat.succ_pos _)
    | succ i => exact (ih found).trans Nat.succ_lt_succ_iff.symm
  | blocked =>
    cases i with
    | zero =>
      cases found
      exact iff_of_false (by simp [TraceEntry.blocked]) (by simp [TraceEntry.blocked])
    | succ i => cases found

/-- At most one entry was not done. -/
theorem Tells.length_of_failed (h : p.Tells m r entries r') (mem : entry ∈ entries)
    (failed : entry.success = false) : entries.length = entries.countP (·.success) + 1 := by
  induction h with
  | nil => cases mem
  | done _ _ _ _ ih =>
    rcases List.mem_cons.1 mem with rfl | later
    · cases failed
    · rw [List.countP_cons_of_pos rfl, List.length_cons, ih later]
  | blocked => rfl

end Program

namespace Plan

variable {p : Plan} {robot after : Robot} {e e' : Execution} {entries : List TraceEntry}
  {b : Block} {o : Outcome}

/-! ## The tally of a state -/

/-- The entries agree with the steps counted and with the way in which a run ended. -/
structure Tallies (entries : List TraceEntry) (e : Execution) : Prop where
  steps : entries.countP (·.success) = e.steps
  done : (∀ entry ∈ entries, entry.success = true) ↔ e.halted ≠ some .wallCollision

theorem Tallies.all_done (h : Tallies entries e) (running : e.halted = none) :
    ∀ entry ∈ entries, entry.success = true :=
  h.done.2 fun collided => nomatch running.symm.trans collided

theorem Tallies.halt (h : Tallies entries e) (running : e.halted = none)
    (other : o ≠ .wallCollision) : Tallies entries { e with halted := some o } where
  steps := h.steps
  done := iff_of_true (h.all_done running) fun collided => other (Option.some.inj collided)

theorem Tallies.doneAt (h : Tallies entries e) (running : e.halted = none) :
    Tallies (entries ++ [.done e.pc b e.robot after]) (e.doneAt e.pc b after e.frames) where
  steps := by
    rw [List.countP_append, h.steps]
    rfl
  done := iff_of_true
    (List.forall_mem_append.2 ⟨h.all_done running, List.forall_mem_singleton.2 rfl⟩)
    fun collided => nomatch running.symm.trans collided

theorem Tallies.blockedAt (h : Tallies entries e) :
    Tallies (entries ++ [.blocked e.pc b e.robot]) (e.blockedAt e.pc b e.frames) where
  steps := by
    rw [List.countP_append, h.steps]
    rfl
  done := iff_of_false
    (fun done => nomatch done _ (List.mem_append_right _ List.mem_cons_self)) (fun h => h rfl)

/-- What a look makes of a state agrees with its trace if the state does. -/
theorem tallies_look (look : p.Look e e') (h : ∀ trace ∈ e.trace, Tallies trace.toList e) :
    ∀ trace ∈ e'.trace, Tallies trace.toList e' := by
  intro trace' kept'
  cases look with
  | ended => exact h trace' kept'
  | cancelled running => exact (h trace' kept').halt running (by decide)
  | onward => exact ⟨(h trace' kept').steps, (h trace' kept').done⟩
  | done live =>
    obtain ⟨trace, kept, rfl⟩ := Option.map_eq_some_iff.1 kept'
    rw [Array.toList_push]
    exact (h trace kept).doneAt live.halted
  | blocked =>
    obtain ⟨trace, kept, rfl⟩ := Option.map_eq_some_iff.1 kept'
    rw [Array.toList_push]
    exact (h trace kept).blockedAt
  | finished live =>
    refine (h trace' kept').halt live.halted ?_
    unfold endOutcome
    split <;> decide

theorem tallies_start (p : Plan) (robot : Robot) : Tallies [] (p.start robot) where
  steps := rfl
  done := iff_of_true (fun entry none => absurd none List.not_mem_nil) (by
    unfold start
    split <;> simp)

/-- **Every state that a run comes to agrees with its trace.** -/
theorem Reachable.tallies (h : p.Reachable robot e) :
    ∀ trace ∈ e.trace, Tallies trace.toList e := by
  refine h.invariant (I := fun e => ∀ trace ∈ e.trace, Tallies trace.toList e) ?_ ?_ ?_
  · intro trace kept
    rw [Option.mem_def, (p.told_start robot).trace] at kept
    split at kept
    · cases kept
      exact p.tallies_start robot
    · cases kept
  · exact fun e e' _ look ih => tallies_look look ih
  · exact fun e ih trace kept => ⟨(ih trace kept).steps, (ih trace kept).done⟩

/-! ## The end of a run -/

theorem Reachable.halted_of_overBudget (h : p.Reachable robot e) (long : p.OverBudget) :
    e.halted = some .stepBudgetExceeded := by
  refine h.invariant (I := fun e => e.halted = some .stepBudgetExceeded) (if_pos long) ?_ ?_
  · intro e e' _ look ih
    cases look with
    | ended => exact ih
    | cancelled running => exact nomatch running.symm.trans ih
    | _ live => exact nomatch live.halted.symm.trans ih
  · exact fun e ih => ih

theorem Reachable.not_overBudget (h : p.Reachable robot e) (running : e.halted = none) :
    ¬ p.OverBudget := fun long => nomatch (h.halted_of_overBudget long).symm.trans running

/-- **A run that is finished has ended** with the outcome that is told. -/
theorem Reachable.halted_exhaust (h : p.Reachable robot e) :
    (p.exhaust p.stepLimit e).2.halted = some (p.exhaust p.stepLimit e).1 := by
  by_cases settled : ∃ o, e.Settled o
  · obtain ⟨o, settled⟩ := settled
    rw [stepLimit, exhaust_of_halted _ (step_of_settled settled)]
  · have running : e.halted = none :=
      Option.eq_none_iff_forall_ne_some.2 fun o halted => settled ⟨o, .inl halted⟩
    have live : e.Live := ⟨running, Bool.eq_false_iff.2 fun told =>
      settled ⟨.cancelled, .inr ⟨running, told, rfl⟩⟩⟩
    have within := h.not_overBudget running
    have consistent := h.consistent
    obtain ⟨last, course, -⟩ := exists_course live consistent.nested
    have done := p.program.length_poses_runPositions_le p.maze (p.remainder e) e.robot
    have exact := exactLength_le_unrolled within
    have counted := consistent.counted
    rw [course.exhaust (by rw [stepLimit]; omega)]
    exact course.halted

end Plan

/-- **A trace accounts for its run.** -/
theorem Plan.trace_accounts_for_run (m : Maze) (program : Program) (config : RunConfig)
    (robot : Robot) (ts : List Turn) :
    let p := Plan.of m program config.withTrace
    let v := (p.finish (p.turns ts (p.start robot)).2).verdict
    ∃ entries, v.trace = some entries ∧
      entries.countP (·.success) = v.steps ∧
      entries.length = v.steps + (if v.outcome = .wallCollision then 1 else 0) ∧
      (∀ (i : Nat) (entry : TraceEntry), entries[i]? = some entry →
        (entry.success = true ↔ i < v.steps)) ∧
      entries.map (·.before) ++ [v.finalRobot] = robot :: entries.map (·.after) ∧
      ∀ entry ∈ entries, ∃ b, entry.Names program m b := by
  intro p v
  have reached : p.Reachable robot (p.turns ts (p.start robot)).2 := Reachable.start.turns ts
  have last := reached.exhaust p.stepLimit
  obtain ⟨entries, told⟩ := last.told
  have kept : (p.exhaust p.stepLimit (p.turns ts (p.start robot)).2).2.trace =
      some entries.toArray := told.trace
  have tells := told.tells
  obtain ⟨steps, done⟩ := last.tallies _ kept
  rw [reached.halted_exhaust, Ne, Option.some_inj] at done
  have counted : entries.countP (·.success) = v.steps := steps
  have ended : (∀ entry ∈ entries, entry.success = true) ↔ v.outcome ≠ .wallCollision := done
  refine ⟨entries, congrArg (Option.map Array.toList) kept, counted, ?_, ?_, tells.chain,
    tells.names⟩
  · rw [← counted]
    by_cases collision : v.outcome = .wallCollision
    · obtain ⟨entry, mem, failed⟩ : ∃ entry ∈ entries, entry.success = false := by
        simpa using mt ended.1 (not_not_intro collision)
      rw [if_pos collision]
      exact tells.length_of_failed mem failed
    · rw [if_neg collision]
      exact (List.countP_eq_length.2 (ended.2 collision)).symm
  · rw [← counted]
    exact fun i entry found => tells.success_iff found

end Labyrinth

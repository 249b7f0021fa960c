import Labyrinth.Proofs.Run.History

/-!
# What is told of a run

**The record** (`Program.Tells`). Entry after entry tells of a primitive block of the program that a
robot came to: it begins at the pose where the entry before it ended, and ends where the block led
to. A move that was blocked leads nowhere, and nothing is told after it.

**Theorem (`Reachable.told`).** In every state that a run comes to, however it was told to stop, a
record from the first pose to the present one is kept if traces are asked for, and it is a part of
the history from the beginning on. As long as the run goes on, the rest of the history is what the
blocks still to come lead to.

**The history** (`tells_history`) is such a record of the whole run. Its entry at a position ends at
the pose that the run has after as many steps (`Course.route`).
-/

namespace Labyrinth

namespace Program

variable {p : Program} {m : Maze} {r r' last : Robot} {entries later : List TraceEntry}

/-- The entries tell how a robot came from one pose to another by blocks of a program. -/
inductive Tells (p : Program) (m : Maze) : Robot → List TraceEntry → Robot → Prop
  | nil (r : Robot) : Tells p m r [] r
  | done {i : Nat} {b : Block} {r after last : Robot} {rest : List TraceEntry} :
      p.blocks[i]? = some b → b.kind.isPrimitive → b.kind.act m r = some after →
      Tells p m after rest last → Tells p m r (.done i b r after :: rest) last
  | blocked {i : Nat} {b : Block} {r : Robot} :
      p.blocks[i]? = some b → b.kind.isPrimitive → b.kind.act m r = none →
      Tells p m r [.blocked i b r] r

theorem Tells.append (h : p.Tells m r entries r')
    (done : ∀ entry ∈ entries, entry.success = true) (h' : p.Tells m r' later last) :
    p.Tells m r (entries ++ later) last := by
  induction h with
  | nil => exact h'
  | done found prim moves _ ih =>
    exact .done found prim moves (ih (List.forall_mem_cons.1 done).2 h')
  | blocked => exact absurd (done _ List.mem_cons_self) (by simp [TraceEntry.blocked])

theorem Tells.before {entry : TraceEntry} {i : Nat} (h : p.Tells m r entries r')
    (found : entries[i]? = some entry) :
    (r :: entries.map (·.after))[i]? = some entry.before := by
  induction h generalizing i with
  | nil => cases found
  | done _ _ _ _ ih =>
    cases i with
    | zero =>
      cases found
      rfl
    | succ i => exact ih found
  | blocked =>
    cases i with
    | zero =>
      cases found
      rfl
    | succ i => cases found

end Program

namespace Plan

variable {p : Plan} {robot r : Robot} {e e' last : Execution} {entries : List TraceEntry}
  {o : Outcome}

/-! ## States -/

/-- The entries are what there is to tell of a run in some state. -/
structure Told (p : Plan) (robot : Robot) (entries : List TraceEntry) (e : Execution) : Prop where
  tells : p.program.Tells p.maze robot entries e.robot
  trace : e.trace = if p.config.recordTrace then some entries.toArray else none
  isPrefix : entries <+: p.history robot
  /-- A run that goes on has done all that is told of, and has the rest before it. -/
  goes_on : e.halted = none → (∀ entry ∈ entries, entry.success = true) ∧
    p.history robot =
      entries ++ (p.program.runPositions p.maze (p.remainder e) e.robot).entries

theorem told_start (p : Plan) (robot : Robot) : p.Told robot [] (p.start robot) where
  tells := .nil robot
  trace := rfl
  isPrefix := List.nil_prefix
  goes_on running := by
    have within : ¬ p.OverBudget := by
      intro long
      rw [start, if_pos long] at running
      cases running
    refine ⟨fun entry none => absurd none List.not_mem_nil, ?_⟩
    rw [history_of_within within, List.nil_append]
    rfl

theorem Told.concat {entry : TraceEntry} {rest : List TraceEntry} (h : p.Told robot entries e)
    (running : e.halted = none) (tells : p.program.Tells p.maze e.robot [entry] e'.robot)
    (recorded : e'.trace = e.trace.map (·.push entry))
    (left : (p.program.runPositions p.maze (p.remainder e) e.robot).entries = entry :: rest)
    (still : e'.halted = none → entry.success = true ∧
      rest = (p.program.runPositions p.maze (p.remainder e') e'.robot).entries) :
    p.Told robot (entries ++ [entry]) e' := by
  obtain ⟨done, whole⟩ := h.goes_on running
  have split : p.history robot = entries ++ [entry] ++ rest := by
    rw [whole, left, List.append_assoc, List.singleton_append]
  refine ⟨h.tells.append done tells, ?_, ⟨rest, split.symm⟩, fun running' => ?_⟩
  · rw [recorded, h.trace]
    split <;> simp
  · obtain ⟨success, rfl⟩ := still running'
    refine ⟨fun told mem => ?_, split⟩
    rcases List.mem_append.1 mem with old | new
    · exact done told old
    · rw [List.mem_singleton.1 new]
      exact success

theorem Told.look (h : p.Told robot entries e) (consistent : p.Consistent e)
    (look : p.Look e e') : ∃ entries', p.Told robot entries' e' := by
  cases look with
  | ended => exact ⟨entries, h⟩
  | cancelled => exact ⟨entries, h.tells, h.trace, h.isPrefix, fun running => by simp at running⟩
  | finished => exact ⟨entries, h.tells, h.trace, h.isPrefix, fun running => by simp at running⟩
  | @onward pc frames live move =>
    refine ⟨entries, h.tells, h.trace, h.isPrefix, fun _ => ?_⟩
    -- moves past brackets leave what is still to come as it is
    have same : p.remainder (e.moveTo pc frames) = p.remainder e :=
      move.remainder_eq consistent.nested
    rw [same]
    exact h.goes_on live.halted
  | @done b after live found prim moves =>
    have first : p.remainder e = e.pc :: p.remainder (e.doneAt e.pc b after e.frames) :=
      Program.remainder_primitive found prim e.frames
    have left : (p.program.runPositions p.maze (p.remainder e) e.robot).entries =
        .done e.pc b e.robot after :: (p.program.runPositions p.maze
          (p.remainder (e.doneAt e.pc b after e.frames)) after).entries := by
      rw [first]
      simp only [Program.runPositions, found, moves]
    exact ⟨_, h.concat live.halted (.done found prim moves (.nil after)) rfl left
      fun _ => ⟨rfl, rfl⟩⟩
  | @blocked b live found prim moves =>
    have left : (p.program.runPositions p.maze (p.remainder e) e.robot).entries =
        [.blocked e.pc b e.robot] := by
      rw [remainder, Program.remainder_primitive found prim e.frames]
      simp only [Program.runPositions, found, moves]
    exact ⟨_, h.concat live.halted (.blocked found prim moves) rfl left
      fun running => by simp [Execution.blockedAt] at running⟩

/-- **A part of the history from its beginning on is told of every state.** -/
theorem Reachable.told (h : p.Reachable robot e) : ∃ entries, p.Told robot entries e := by
  refine h.invariant (I := fun e => ∃ entries, p.Told robot entries e)
    ⟨[], p.told_start robot⟩ ?_ ?_
  · rintro e e' consistent look ⟨entries, told⟩
    exact told.look consistent look
  · rintro e ⟨entries, tells, trace, isPrefix, goes_on⟩
    exact ⟨entries, tells, trace, isPrefix, goes_on⟩

/-! ## The history -/

theorem trace_finish (recorded : p.config.recordTrace = true) (h : p.Reachable robot e) :
    ∃ entries last, p.Told robot entries last ∧ (p.finish e).verdict.trace = some entries := by
  obtain ⟨entries, told⟩ := (h.exhaust p.stepLimit).told
  refine ⟨entries, _, told, ?_⟩
  change (p.exhaust p.stepLimit e).2.trace.map Array.toList = some entries
  rw [told.trace, if_pos recorded]
  rfl

/-- **The history tells of the whole run.** -/
theorem tells_history (p : Plan) (robot : Robot) :
    p.program.Tells p.maze robot (p.history robot) (p.execute robot).verdict.finalRobot := by
  by_cases long : p.OverBudget
  · rw [history_of_overBudget long, execute_of_overBudget long]
    exact .nil robot
  · have within : ¬ p.withTrace.OverBudget := fun h => long (overBudget_withTrace.1 h)
    obtain ⟨last, run, -, pose, -, trace⟩ := exhaust_start within robot
    have reached : p.withTrace.Reachable robot
        (p.withTrace.exhaust p.withTrace.stepLimit (p.withTrace.start robot)).2 :=
      Reachable.start.exhaust _
    rw [run] at reached
    obtain ⟨entries, told⟩ := reached.told
    have all : entries = (p.program.runUnrolled p.maze robot).entries := by
      have recorded := told.trace.symm.trans trace
      simpa [withTrace, RunConfig.withTrace, Plan.of] using recorded
    have tells := told.tells
    rw [pose, all] at tells
    rw [history_of_within long, (verdict_of_within long robot).2.1]
    exact tells

theorem Course.route (course : p.Course e entries o last)
    (tells : p.program.Tells p.maze e.robot entries r) {n : Nat} (within : n ≤ entries.length) :
    (e.robot :: entries.map (·.after))[n]? = some (p.advance n e).robot := by
  induction course generalizing n with
  | stays =>
    obtain rfl := Nat.le_zero.1 within
    rfl
  | @ends e last blocked o _ ended ends =>
    cases n with
    | zero => rfl
    | succ n =>
      cases blocked with
      | none => cases within
      | some entry =>
        obtain rfl := Nat.le_zero.1 (Nat.le_of_succ_le_succ within)
        rw [Plan.advance, ended, Plan.advance, ends.robot]
        cases tells with
        | done => exact absurd (ends.failed _ rfl) (by simp [TraceEntry.done])
        | blocked => rfl
  | does _ _ ran does _ ih =>
    cases n with
    | zero => rfl
    | succ n =>
      rw [Plan.advance, ran]
      cases tells with
      | @done _ _ _ after _ _ _ _ _ rest =>
        have pose : _ = after := does.robot
        rw [← pose] at rest
        have later := ih rest (Nat.le_of_succ_le_succ within)
        rw [pose] at later
        exact later
      | blocked => exact absurd does.success (by simp [TraceEntry.blocked])

/-- What is told of a state tells the poses of a run that is stepped from its start. -/
theorem Told.route (told : p.Told robot entries e) {n : Nat} (within : n ≤ entries.length) :
    (robot :: entries.map (·.after))[n]? = some (p.advance n (p.start robot)).robot := by
  obtain ⟨rest, whole⟩ := told.isPrefix
  obtain ⟨last, course, -⟩ := p.course_start robot
  have pose := course.route (p.tells_history robot) (n := n) (by
    rw [← whole, List.length_append]
    exact Nat.le_add_right_of_le within)
  rw [← whole, List.map_append, ← List.cons_append] at pose
  rwa [List.getElem?_append_left (by simpa using Nat.lt_succ_of_le within)] at pose

end Plan

end Labyrinth
